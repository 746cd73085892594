import SharedNode.Effect.Prog

/-!
# Programs that fail with a message

`Fallible` adds an early return with an error to `Prog`; `request` makes a call that may be answered
with an error, and `deferred` runs a clean-up after a program whatever its outcome.

`twp` is the total weakest precondition for a handler that answers every call: under every choice
the program returns, and then the postcondition holds. `Yields` reads it for a fallible program,
with one condition for its value and one for the states in which it fails.

* `yields_pure`, `yields_throw`, `yields_bind`, `yields_mono`, `yields_request`, `yields_attempt`,
  `yields_deferred`: the rules.
* `twp_run`: a run that returns ends in the postcondition. `twp_returns`: every sequence of choices
  is long enough at some point.

`Ends` is `wp` for a fallible program whose calls cannot fail: a condition for its outcome, and a
crash condition for the states in which it is cut (`ends_pure`, `ends_throw`, `ends_bind`,
`ends_mono`, `ends_effect`, `ends_run`). A bound on its calls says when it is not cut (`Within`,
`run_of_within`); what is true of its calls and values whatever the answers needs no handler
(`Confined`, `Confined.ends`, `Confined.yields`). What the trace of such a run says can be carried
beside its state (`observed`, `run_observed`).
-/

namespace SharedNode.Effect

open Prog

variable {Op : Type} {Ans : Op → Type} {Env σ α β : Type}

abbrev TotalHandler (Op : Type) (Ans : Op → Type) (Env σ : Type) :=
  (op : Op) → Env → σ → Ans op × σ

abbrev TotalHandler.toHandler (h : TotalHandler Op Ans Env σ) : Handler Op Ans Env σ :=
  fun op e s => some (h op e s)

/-- Every run under choices in `E` returns, in the postcondition. -/
def twp (h : TotalHandler Op Ans Env σ) (E : Env → Prop) : Prog Op Ans α → (α → σ → Prop) → σ → Prop
  | .ret a, Q, s => Q a s
  | .halt, _, _ => False
  | .call op k, Q, s => ∀ e, E e → twp h E (k (h op e s).1) Q (h op e s).2

section Twp

variable {h : TotalHandler Op Ans Env σ} {E : Env → Prop}

variable {p : Prog Op Ans α} {Q : α → σ → Prop} {s : σ}

theorem twp_mono (hQR : ∀ a s, Q a s → R a s) (hp : twp h E p Q s) : twp h E p R s := by
  induction p generalizing s with
  | ret a => exact hQR a s hp
  | call op k ih => exact fun e he => ih _ (hp e he)
  | halt => exact hp

theorem twp_bind {f : α → Prog Op Ans β} {Q : β → σ → Prop}
    (hp : twp h E p (fun a s => twp h E (f a) Q s) s) : twp h E (p.bind f) Q s := by
  induction p generalizing s with
  | ret a => exact hp
  | call op k ih => exact fun e he => ih _ (hp e he)
  | halt => exact hp

/-- **Soundness.** A run that returns ends in the postcondition. -/
theorem twp_run {es : List Env} (hes : ∀ e ∈ es, E e) (hp : twp h E p Q s)
    (ha : (run h.toHandler p es s t).1 = some a) : Q a (run h.toHandler p es s t).2.1 := by
  induction p generalizing es s t with
  | ret b =>
    obtain rfl : b = a := by simpa [run] using ha
    exact hp
  | halt => exact hp.elim
  | call op k ih =>
    cases es with
    | nil => simp [run] at ha
    | cons e es =>
      exact ih _ (List.forall_mem_cons.mp hes).2
        (hp e (hes e List.mem_cons_self)) ha

/-- **Termination.** Every sequence of choices is long enough at some point. -/
theorem twp_returns (choices : Nat → Env) (hch : ∀ n, E (choices n)) (hp : twp h E p Q s) :
    ∃ n a, (run h.toHandler p ((List.range n).map choices) s t).1 = some a := by
  induction p generalizing choices s t with
  | ret a => exact ⟨0, a, rfl⟩
  | halt => exact hp.elim
  | call op k ih =>
    obtain ⟨n, a, hn⟩ := ih (h op (choices 0) s).1 (fun n => choices (n + 1))
      (fun n => hch (n + 1)) (t := ⟨op, (h op (choices 0) s).1⟩ :: t) (hp _ (hch 0))
    refine ⟨n + 1, a, ?_⟩
    rw [List.range_succ_eq_map, List.map_cons, List.map_map]
    exact hn

end Twp

/-! ## Failure -/

/-- A program that may return early with an error. -/
abbrev Fallible (Op : Type) (Ans : Op → Type) (α : Type) := ExceptT String (Prog Op Ans) α

variable {cleanup : Fallible Op Ans β} {op : Op} {Reply : Op → Type} {err : String}
  {t : Trace Op Ans} {a : α} {f : α → Fallible Op Ans β} {R : α → σ → Prop}

/-- A call that is answered with a reply or an error. -/
def request {Reply : Op → Type} (op : Op) :
    Fallible Op (fun op => Except String (Reply op)) (Reply op) := ExceptT.mk (perform op)

/-- A call that cannot fail. -/
def effect (op : Op) : Fallible Op Ans (Ans op) :=
  ExceptT.mk ((perform op).bind fun x => ret (.ok x))

/-- The outcome of a program, failed or not. -/
def attempt (p : Fallible Op Ans α) : Fallible Op Ans (Except String α) :=
  ExceptT.mk (p.run.bind fun r => ret (.ok r))

/-- A program and a clean-up after it, whose own outcome is dropped. -/
def deferred (cleanup : Fallible Op Ans β) (p : Fallible Op Ans α) : Fallible Op Ans α :=
  ExceptT.mk (p.run.bind fun r => cleanup.run.bind fun _ => ret r)

/-- Every run under choices in `E` returns, with a value as `Q` says or in a state in which the
program may fail. -/
def Yields (h : TotalHandler Op Ans Env σ) (E : Env → Prop) (F : σ → Prop) (p : Fallible Op Ans α)
    (Q : α → σ → Prop) (s : σ) : Prop :=
  twp h E p.run (fun r s => match r with | .ok a => Q a s | .error _ => F s) s

section Yields

variable {h : TotalHandler Op Ans Env σ} {E : Env → Prop} {F : σ → Prop} {s : σ}

variable {Q : α → σ → Prop} {p : Fallible Op Ans α}

theorem yields_pure (hQ : Q a s) : Yields h E F (pure a : Fallible Op Ans α) Q s := hQ

theorem yields_throw (hF : F s) : Yields h E F (throw err : Fallible Op Ans α) Q s := hF

theorem yields_mono (hQR : ∀ a s, Q a s → R a s) (hp : Yields h E F p Q s) : Yields h E F p R s :=
  twp_mono (fun r s hr => by
    cases r with
    | ok a => exact hQR a s hr
    | error err => exact hr) hp

theorem yields_imp {F' : σ → Prop} (hQR : ∀ a s, Q a s → R a s) (hF : ∀ s, F s → F' s)
    (hp : Yields h E F p Q s) : Yields h E F' p R s :=
  twp_mono (fun r s hr => by
    cases r with
    | ok a => exact hQR a s hr
    | error err => exact hF s hr) hp

theorem yields_bind {Q : β → σ → Prop} (hp : Yields h E F p (fun a s => Yields h E F (f a) Q s) s) :
    Yields h E F (p >>= f) Q s :=
  twp_bind (twp_mono (fun r s hr => by cases r <;> exact hr) hp)

theorem yields_request {h : TotalHandler Op (fun op => Except String (Reply op)) Env σ}
    {Q : Reply op → σ → Prop} (hok : ∀ e a s', E e → h op e s = (.ok a, s') → Q a s')
    (herr : ∀ e err s', E e → h op e s = (.error err, s') → F s') :
    Yields h E F (request op) Q s := by
  intro e he
  cases hr : h op e s with
  | mk r s' =>
    cases r with
    | ok a => exact hok e a s' he hr
    | error err => exact herr e err s' he hr

theorem yields_attempt {Q : Except String α → σ → Prop}
    (hp : Yields h E (fun s => ∀ err, Q (.error err) s) p (fun a s => Q (.ok a) s) s) :
    Yields h E F (attempt p) Q s :=
  twp_bind (twp_mono (fun r s hr => by
    cases r with
    | ok a => exact hr
    | error err => exact hr err) hp)

theorem yields_deferred {F' : σ → Prop}
    (hp : Yields h E F' p (fun a s => Yields h E (Q a) cleanup (fun _ => Q a) s) s)
    (hF : ∀ s, F' s → Yields h E F cleanup (fun _ => F) s) :
    Yields h E F (deferred cleanup p) Q s := by
  refine twp_bind (twp_mono (fun r s hr => ?_) hp)
  cases r with
  | ok a => exact twp_bind (twp_mono (fun r s hr => by cases r <;> exact hr) hr)
  | error err => exact twp_bind (twp_mono (fun r s hr => by cases r <;> exact hr) (hF s hr))

end Yields

/-! ## Failure and crashes -/

/-- Under choices in `E`, every run that returns ends in `Q` of its outcome, and `C` holds wherever
it can be cut. -/
def Ends (h : Handler Op Ans Env σ) (E : Env → Prop) (C : σ → Prop) (p : Fallible Op Ans α)
    (Q : Except String α → σ → Prop) (s : σ) : Prop :=
  ∀ t, wp h E (fun s _ => C s) p.run (fun r s _ => Q r s) s t

section Ends

variable {h : Handler Op Ans Env σ} {E : Env → Prop} {C : σ → Prop} {s : σ}

variable {Q : Except String α → σ → Prop} {p : Fallible Op Ans α}

theorem ends_pure (hQ : Q (.ok a) s) : Ends h E C (pure a : Fallible Op Ans α) Q s := fun _ => hQ

theorem ends_throw (hQ : Q (.error err) s) : Ends h E C (throw err : Fallible Op Ans α) Q s :=
  fun _ => hQ

theorem ends_mono {R : Except String α → σ → Prop}
    (hQR : ∀ r s, Q r s → R r s) (hp : Ends h E C p Q s) : Ends h E C p R s :=
  fun t => wp_mono (fun r s _ hr => hQR r s hr) (hp t)

/-- What is asked of the outcome of a program that is continued. -/
def Continues (next : α → σ → Prop) (Q : Except String β → σ → Prop) : Except String α → σ → Prop
  | .ok a => next a
  | .error err => Q (.error err)

theorem ends_bind {Q : Except String β → σ → Prop}
    (hp : Ends h E C p (Continues (fun a s => Ends h E C (f a) Q s) Q) s) :
    Ends h E C (p >>= f) Q s := by
  intro t
  refine wp_bind.mpr (wp_mono (fun r s t hr => ?_) (hp t))
  cases r with
  | ok a => exact hr t
  | error err => exact hr

theorem ends_effect {Q : Except String (Ans op) → σ → Prop} (hC : C s)
    (hQ : ∀ e x s', E e → h op e s = some (x, s') → Q (.ok x) s') : Ends h E C (effect op) Q s :=
      fun _ => ⟨hC, fun e he x s' hx => hQ e x s' he hx⟩

theorem ends_request {h : Handler Op (fun op => Except String (Reply op)) Env σ}
    {Q : Except String (Reply op) → σ → Prop} (hC : C s)
    (hQ : ∀ e r s', E e → h op e s = some (r, s') → Q r s') : Ends h E C (request op) Q s :=
  fun _ => ⟨hC, fun e he x s' hx => hQ e x s' he hx⟩

theorem ends_attempt {Q : Except String (Except String α) → σ → Prop}
    (hp : Ends h E C p (fun r s => Q (.ok r) s) s) : Ends h E C (attempt p) Q s :=
  fun t => wp_bind.mpr (hp t)

theorem ends_deferred (hp : Ends h E C p (fun r s => Ends h E C cleanup (fun _ s => Q r s) s) s) :
    Ends h E C (deferred cleanup p) Q s :=
  fun t => wp_bind.mpr (wp_mono (fun _ _ t hr => wp_bind.mpr (hr t)) (hp t))

/-- **Soundness.** A run that returns ends in the postcondition, a run that is cut in the crash
condition. -/
theorem ends_run (es : List Env) (hes : ∀ e ∈ es, E e) (hp : Ends h E C p Q s) :
    (∀ r, (run h p.run es s t).1 = some r → Q r (run h p.run es s t).2.1) ∧
      ((run h p.run es s t).1 = none → C (run h p.run es s t).2.1) :=
  wp_run hes (hp t)

end Ends

/-! ## Confined programs -/

/-- Every call of the program satisfies `φ` and every value it returns `ψ`, whatever the answers. -/
def Confined (φ : Op → Prop) (p : Fallible Op Ans α) (ψ : α → Prop) : Prop :=
  p.run.Does φ fun r => ∀ a, r = .ok a → ψ a

section Confined

variable {φ φ' : Op → Prop} {ψ ψ' : α → Prop} {χ : β → Prop}

theorem confined_pure (h : ψ a) : Confined φ (pure a : Fallible Op Ans α) ψ :=
  fun _ heq => Except.ok.inj heq ▸ h

theorem confined_throw : Confined φ (throw err : Fallible Op Ans α) ψ :=
  fun _ heq => nomatch heq

variable {p : Fallible Op Ans α}

theorem Confined.mono (hp : Confined φ p ψ) (hφ : ∀ op, φ op → φ' op)
    (hψ : ∀ a, ψ a → ψ' a) : Confined φ' p ψ' :=
  Does.mono hp hφ fun _ hr a heq => hψ a (hr a heq)

theorem Confined.bind (hp : Confined φ p ψ) (hf : ∀ a, ψ a → Confined φ (f a) χ) :
    Confined φ (p >>= f) χ := by
  refine Does.bind hp fun r hr => ?_
  cases r with
  | ok a => exact hf a (hr a rfl)
  | error err => exact fun _ heq => nomatch heq

theorem confined_request {ψ : Reply op → Prop} (hop : φ op) (hψ : ∀ x, ψ x) :
    Confined φ (request op : Fallible Op (fun op => Except String (Reply op)) (Reply op)) ψ :=
  ⟨hop, fun _ a _ => hψ a⟩

theorem Confined.attempt (hp : Confined φ p ψ) :
    Confined φ (attempt p) fun r => ∀ a, r = .ok a → ψ a :=
  Does.bind hp fun _ hr _ heq => Except.ok.inj heq ▸ hr

theorem Confined.deferred (hp : Confined φ p ψ) (hc : Confined φ cleanup χ) :
    Confined φ (deferred cleanup p) ψ :=
  Does.bind hp fun _ hr => Does.bind hc fun _ _ => hr

/-- What every call of a confined program keeps holds wherever it is cut and when it returns. -/
theorem Confined.ends {h : Handler Op Ans Env σ} {E : Env → Prop} {I : σ → Prop}
    (hI : ∀ op e s x s', φ op → I s → E e → h op e s = some (x, s') → I s')
    (hp : Confined φ p ψ) {s : σ} (hs : I s) :
    Ends h E I p (fun r s => I s ∧ ∀ a, r = .ok a → ψ a) s := by
  suffices hprog : ∀ p : Prog Op Ans (Except String α), p.Does φ (fun r => ∀ a, r = .ok a → ψ a) →
      ∀ s t, I s → wp h E (fun s _ => I s) p (fun r s _ => I s ∧ ∀ a, r = .ok a → ψ a) s t from
    fun t => hprog p.run hp s t hs
  intro p hp
  induction p with
  | ret r => exact fun s t hs => ⟨hs, hp⟩
  | halt => exact hp.elim
  | call op k ih =>
    intro s t hs
    exact ⟨hs, fun e he x s' hx => ih x (hp.2 x) s' _ (hI op e s x s' hp.1 hs he hx)⟩

/-- What every call of a confined program keeps holds when it returns, which it does. -/
theorem Confined.yields {h : TotalHandler Op Ans Env σ} {E : Env → Prop} {I : σ → Prop}
    (hI : ∀ op e s, φ op → I s → E e → I (h op e s).2)
    (hp : Confined φ p ψ) {s : σ} (hs : I s) : Yields h E I p (fun a s => I s ∧ ψ a) s := by
  suffices hprog : ∀ p : Prog Op Ans (Except String α), p.Does φ (fun r => ∀ a, r = .ok a → ψ a) →
      ∀ s, I s → twp h E p (fun r s => match r with | .ok a => I s ∧ ψ a | .error _ => I s) s from
    hprog p.run hp s hs
  intro p hp
  induction p with
  | ret r =>
    intro s hs
    cases r with
    | ok a => exact ⟨hs, hp a rfl⟩
    | error err => exact hs
  | halt => exact hp.elim
  | call op k ih => exact fun s hs e he => ih _ (hp.2 _) _ (hI op e s hp.1 hs he)

end Confined

/-! ## Bounded programs -/

/-- Every path makes at most `n` calls and then returns. -/
def Within : Nat → Prog Op Ans α → Prop
  | _, .ret _ => True
  | _, .halt => False
  | 0, .call _ _ => False
  | n + 1, .call _ k => ∀ x, Within n (k x)

variable {n : Nat} {h : Handler Op Ans Env σ}

theorem Within.mono {m : Nat} {p : Prog Op Ans α} (hp : Within n p) (hnm : n ≤ m) : Within m p := by
  induction p generalizing n m with
  | ret a => cases m <;> trivial
  | halt => cases n <;> exact hp.elim
  | call op k ih =>
    cases n with
    | zero => exact hp.elim
    | succ n =>
      obtain ⟨m, rfl⟩ : ∃ m', m = m' + 1 := ⟨m - 1, by omega⟩
      exact fun x => ih x (hp x) (Nat.le_of_succ_le_succ hnm)

theorem Within.bind {m : Nat} {p : Fallible Op Ans α} (hp : Within n p.run)
    (hf : ∀ a, Within m (f a).run) : Within (n + m) (p >>= f).run := by
  suffices h : ∀ p : Prog Op Ans (Except String α), Within n p →
      Within (n + m) (p.bind (ExceptT.bindCont f)) from h p.run hp
  clear hp
  intro p hp
  induction p generalizing n with
  | ret a =>
    cases a with
    | ok a => exact (hf a).mono (Nat.le_add_left m n)
    | error err => cases h : n + m <;> trivial
  | halt => cases n <;> exact hp.elim
  | call op k ih =>
    cases n with
    | zero => exact hp.elim
    | succ n =>
      rw [Nat.succ_add]
      exact fun x => ih x (hp x)

theorem run_of_within (htotal : ∀ op e s, (h op e s).isSome) {p : Prog Op Ans α} (hp : Within n p)
    {es : List Env} (hes : n ≤ es.length) {s : σ} : (run h p es s t).1.isSome := by
  induction p generalizing n es s t with
  | ret a => rfl
  | halt => cases n <;> exact hp.elim
  | call op k ih =>
    cases n with
    | zero => exact hp.elim
    | succ n =>
      cases es with
      | nil => simp at hes
      | cons e es =>
        obtain ⟨⟨x, s'⟩, hx⟩ := Option.isSome_iff_exists.mp (htotal op e s)
        simp only [run, hx]
        exact ih x (hp x) (Nat.le_of_succ_le_succ hes)

/-! ## Observers -/

/-- The handler with an observer's state beside its own: `note` is told every call and its
answer. -/
def observed {τ : Type} (h : Handler Op Ans Env σ) (note : Call Op Ans → τ → τ) :
    Handler Op Ans Env (σ × τ) :=
  fun op e s => (h op e s.1).map fun r => (r.1, r.2, note ⟨op, r.1⟩ s.2)

/-- An observer that computes `look` of the trace changes nothing else in a run. -/
theorem run_observed {τ : Type} (h : Handler Op Ans Env σ) {note : Call Op Ans → τ → τ}
    (look : Trace Op Ans → τ) (hlook : ∀ c t, look (c :: t) = note c (look t)) (p : Prog Op Ans α)
    (es : List Env) (s : σ) (t : Trace Op Ans) :
    run (observed h note) p es (s, look t) t =
      ((run h p es s t).1, ((run h p es s t).2.1, look (run h p es s t).2.2),
        (run h p es s t).2.2) := by
  induction p generalizing es s t with
  | ret a => rfl
  | halt => rfl
  | call op k ih =>
    cases es with
    | nil => rfl
    | cons e es =>
      cases hx : h op e s with
      | none => simp only [run, observed, hx, Option.map_none]
      | some r =>
        simp only [run, observed, hx, Option.map_some, ← hlook]
        exact ih r.1 es r.2 (⟨op, r.1⟩ :: t)

/-- The handler with a mark beside the state, set once a call that `mark` selects is made. -/
def marked (h : Handler Op Ans Env σ) (mark : Call Op Ans → Bool) : Handler Op Ans Env (σ × Bool) :=
  observed h fun c seen => mark c || seen

theorem run_marked (h : Handler Op Ans Env σ) (mark : Call Op Ans → Bool) (p : Prog Op Ans α)
    (es : List Env) (s : σ) (t : Trace Op Ans) :
    run (marked h mark) p es (s, t.any mark) t =
      ((run h p es s t).1, ((run h p es s t).2.1, (run h p es s t).2.2.any mark),
        (run h p es s t).2.2) :=
  run_observed h (·.any mark) (fun _ _ => List.any_cons) p es s t

/-- The handler with the trace of its calls beside the state. -/
def recording (h : Handler Op Ans Env σ) : Handler Op Ans Env (σ × Trace Op Ans) :=
  observed h List.cons

theorem recording_eq_some {e : Env} {s s' : σ × Trace Op Ans} {x : Ans op}
    (hx : recording h op e s = some (x, s')) :
    h op e s.1 = some (x, s'.1) ∧ s'.2 = ⟨op, x⟩ :: s.2 := by
  obtain ⟨r, hr, heq⟩ := Option.map_eq_some_iff.mp hx
  obtain ⟨rfl, rfl⟩ := Prod.mk.inj heq
  exact ⟨hr, rfl⟩

theorem ends_run_recording {C : σ × Trace Op Ans → Prop}
    {p : Fallible Op Ans α} {Q : Except String α → σ × Trace Op Ans → Prop} {s : σ}
    (hp : Ends (recording h) (fun _ => True) C p Q (s, [])) (es : List Env) {r : Except String α}
    (hr : (run h p.run es s []).1 = some r) : Q r (run h p.run es s []).2 := by
  have hends := (ends_run es (fun _ _ => trivial) hp (t := [])).1
  have hrun := run_observed h id (fun _ _ => rfl) p.run es s []
  rw [recording, show (s, ([] : Trace Op Ans)) = (s, id []) from rfl, hrun] at hends
  exact hends r hr

end SharedNode.Effect
