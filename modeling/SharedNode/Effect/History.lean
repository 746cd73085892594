import SharedNode.Effect.Fallible
import SharedNode.Effect.Protocol

/-!
# Calls justified by the calls before them

A rule `may` says which calls may follow a history. `Justified may φ p Q t` says of a program that
starts after the history `t` that its calls are of the kind `φ`, that each of them may follow the
history it is made at, and that `Q` holds of the value it returns and the history then. It is a
protocol whose stages are histories, so it does not depend on the handler.

* `justified_bind`, `justified_request`, `justified_attempt`: the rules.
* `follows_history_run`, `justified_run`: in every run each call may follow what comes before it.
* `run_bind`, `run_bind_ok`: a run of two programs in sequence, in terms of the run of the first.
-/

namespace SharedNode.Effect

variable {Op : Type} {Ans : Op → Type} {Env σ α β : Type}

/-! ## Sequencing -/

instance : LawfulMonad (Prog Op Ans) := LawfulMonad.mk' _
  (fun p => by
    induction p with
    | ret a => rfl
    | call op k ih => exact congrArg (Prog.call op) (funext ih)
    | halt => rfl)
  (fun _ _ => rfl) fun p f g => Prog.bind_assoc p f g

/-- A run of `p` and then `f`: the choices `p` used are as many as the calls it made. -/
theorem run_bind (h : Handler Op Ans Env σ) (p : Prog Op Ans α) (f : α → Prog Op Ans β)
    (es : List Env) (s : σ) (t : Trace Op Ans) :
    run h (p.bind f) es s t = match run h p es s t with
      | (some a, s', t') => run h (f a) (es.drop (t'.length - t.length)) s' t'
      | (none, s', t') => (none, s', t') := by
  suffices hrun : t.length ≤ (run h p es s t).2.2.length ∧ run h (p.bind f) es s t =
      match run h p es s t with
      | (some a, s', t') => run h (f a) (es.drop (t'.length - t.length)) s' t'
      | (none, s', t') => (none, s', t') from hrun.2
  induction p generalizing es s t with
  | ret a => simp [run]
  | halt => simp [run]
  | call op k ih =>
    cases es with
    | nil => simp [run]
    | cons e es =>
      cases hx : h op e s with
      | none => simp [run, hx]
      | some r =>
        obtain ⟨hlen, heq⟩ := ih r.1 es r.2 (⟨op, r.1⟩ :: t)
        simp only [Prog.call_bind, run, hx, heq]
        rw [List.length_cons] at hlen
        refine ⟨by omega, ?_⟩
        split
        next a s' t' heq' =>
          have hcut : t'.length - t.length = t'.length - (t.length + 1) + 1 := by
            rw [heq'] at hlen
            simp only at hlen
            omega
          rw [hcut, List.drop_succ_cons, List.length_cons]
        · rfl

theorem run_bind_ok (h : Handler Op Ans Env σ) (p : Fallible Op Ans α) (f : α → Fallible Op Ans β)
    (es : List Env) (s : σ) (t : Trace Op Ans) :
    run h (p >>= f).run es s t = match run h p.run es s t with
      | (some (.ok a), s', t') => run h (f a).run (es.drop (t'.length - t.length)) s' t'
      | (some (.error err), s', t') => (some (.error err), s', t')
      | (none, s', t') => (none, s', t') := by
  have hbind := run_bind h p.run (fun r => ExceptT.bindCont f r) es s t
  change run h (p >>= f).run es s t = _ at hbind
  rw [hbind]
  generalize run h p.run es s t = first
  obtain ⟨value, s', t'⟩ := first
  match value with
  | none => rfl
  | some (.ok a) => rfl
  | some (.error err) => rfl

/-! ## Histories -/

/-- The protocol whose stages are the histories. -/
def history (may : Trace Op Ans → Op → Prop) : Protocol Op Ans (Trace Op Ans) :=
  ⟨may, fun t op x => ⟨op, x⟩ :: t⟩

/-- The second history is the first one with more calls of the kind `φ`. -/
def Grows (φ : Op → Prop) (t t' : Trace Op Ans) : Prop :=
  ∃ new, t' = new ++ t ∧ ∀ c ∈ new, φ c.1

section Grows

variable {φ φ' : Op → Prop} {t t' t'' : Trace Op Ans}

theorem Grows.refl (φ : Op → Prop) (t : Trace Op Ans) : Grows φ t t :=
  ⟨[], rfl, fun _ h => absurd h List.not_mem_nil⟩

theorem Grows.trans (h : Grows φ t t') (h' : Grows φ t' t'') : Grows φ t t'' := by
  obtain ⟨new, rfl, hnew⟩ := h
  obtain ⟨new', rfl, hnew'⟩ := h'
  refine ⟨new' ++ new, (List.append_assoc ..).symm, fun c hc => ?_⟩
  rcases List.mem_append.mp hc with hc | hc
  · exact hnew' c hc
  · exact hnew c hc

theorem Grows.mono (hφ : ∀ op, φ op → φ' op) (h : Grows φ t t') : Grows φ' t t' := by
  obtain ⟨new, heq, hnew⟩ := h
  exact ⟨new, heq, fun c hc => hφ _ (hnew c hc)⟩

theorem Grows.cons {op : Op} (h : φ op) (x : Ans op) (t : Trace Op Ans) :
    Grows φ t (⟨op, x⟩ :: t) :=
  ⟨[⟨op, x⟩], rfl, fun _ hc => List.mem_singleton.mp hc ▸ h⟩

theorem Grows.mem (h : Grows φ t t') {c : Call Op Ans} (hc : c ∈ t) : c ∈ t' := by
  obtain ⟨new, rfl, -⟩ := h
  exact List.mem_append_right _ hc

theorem Grows.once {χ : Call Op Ans → Prop} (h : Grows φ t t')
    (hφ : ∀ c : Call Op Ans, φ c.1 → ¬ χ c) (honce : Once χ t') : Once χ t := by
  obtain ⟨new, rfl, hnew⟩ := h
  obtain ⟨c, hc, hχ⟩ := honce
  rcases List.mem_append.mp hc with hc | hc
  · exact absurd hχ (hφ c (hnew c hc))
  · exact ⟨c, hc, hχ⟩

end Grows

/-- After the history `t` the program makes calls of the kind `φ` only, each of which may be made
when it is made, and what it returns satisfies `Q`. -/
def Justified (may : Trace Op Ans → Op → Prop) (φ : Op → Prop) (p : Fallible Op Ans α)
    (Q : α → Trace Op Ans → Prop) (t : Trace Op Ans) : Prop :=
  Follows (history may) p.run (fun r t' => Grows φ t t' ∧ ∀ a, r = .ok a → Q a t') t

section Justified

variable {may : Trace Op Ans → Op → Prop} {φ φ' : Op → Prop} {t : Trace Op Ans}

variable {Q : α → Trace Op Ans → Prop} {p : Fallible Op Ans α} {h : Handler Op Ans Env σ}

theorem justified_pure {a : α} (hQ : Q a t) : Justified may φ (pure a : Fallible Op Ans α) Q t :=
  ⟨Grows.refl φ t, fun _ heq => Except.ok.inj heq ▸ hQ⟩

theorem justified_throw {err : String} : Justified may φ (throw err : Fallible Op Ans α) Q t :=
  ⟨Grows.refl φ t, fun _ heq => nomatch heq⟩

theorem justified_mono {R : α → Trace Op Ans → Prop}
    (hQR : ∀ a t', Grows φ t t' → Q a t' → R a t') (hp : Justified may φ p Q t) :
    Justified may φ p R t :=
  Follows.mono (fun _ _ hr => ⟨hr.1, fun a heq => hQR a _ hr.1 (hr.2 a heq)⟩) hp

theorem justified_widen (hφ : ∀ op, φ op → φ' op) (hp : Justified may φ p Q t) :
    Justified may φ' p (fun a t' => Grows φ t t' ∧ Q a t') t :=
  Follows.mono (fun _ _ hr => ⟨hr.1.mono hφ, fun a heq => ⟨hr.1, hr.2 a heq⟩⟩) hp

theorem justified_bind {f : α → Fallible Op Ans β} {R : β → Trace Op Ans → Prop}
    (hp : Justified may φ p (fun a t' => Grows φ t t' → Justified may φ (f a) R t') t) :
    Justified may φ (p >>= f) R t := by
  refine Follows.bind (Follows.mono (fun r t' hr => ?_) hp)
  cases r with
  | ok a => exact Follows.mono (fun _ _ h => ⟨hr.1.trans h.1, h.2⟩) (hr.2 a rfl hr.1)
  | error err => exact ⟨hr.1, fun _ heq => nomatch heq⟩

theorem justified_request {Reply : Op → Type} {op : Op}
    {may : Trace Op (fun op => Except String (Reply op)) → Op → Prop}
    {t : Trace Op fun op => Except String (Reply op)}
    {Q : Reply op → Trace Op (fun op => Except String (Reply op)) → Prop} (hop : may t op)
    (hφ : φ op) (hQ : ∀ x, Q x (⟨op, .ok x⟩ :: t)) :
    Justified may φ (request op : Fallible Op (fun op => Except String (Reply op)) (Reply op)) Q
      t :=
  ⟨hop, fun x => ⟨⟨[⟨op, x⟩], rfl, fun _ hc => List.mem_singleton.mp hc ▸ hφ⟩,
    fun a heq => by subst heq; exact hQ a⟩⟩

/-- A failure that is caught: what was called stays in the history. -/
theorem justified_attempt (hp : Justified may φ p Q t) :
    Justified may φ (attempt p) (fun r t' => ∀ a, r = .ok a → Q a t') t :=
  Follows.bind (Follows.mono (fun _ _ hr => ⟨hr.1, fun _ heq => Except.ok.inj heq ▸ hr.2⟩) hp)

/-- A program whose calls are all of a kind that may always be made. -/
theorem Confined.justified {ψ : α → Prop} (hφ : ∀ t op, φ op → may t op) (hp : Confined φ p ψ) :
    Justified may φ p (fun a _ => ψ a) t := by
  suffices hprog : ∀ (p : Prog Op Ans (Except String α)) (t' : Trace Op Ans),
      p.Does φ (fun r => ∀ a, r = .ok a → ψ a) → Grows φ t t' →
      Follows (history may) p (fun r t' => Grows φ t t' ∧ ∀ a, r = .ok a → ψ a) t' from
    hprog p.run t hp (Grows.refl φ t)
  intro p
  induction p with
  | ret a => exact fun _ hp ht => ⟨ht, hp⟩
  | halt => exact fun _ hp _ => absurd hp id
  | call op k ih =>
    exact fun t' hp ht => ⟨hφ t' op hp.1, fun x =>
      ih x _ (hp.2 x) (ht.trans (Grows.cons hp.1 x t'))⟩

/-- **Soundness.** In every run, returned or cut, each call may follow the calls before it, and what
the program returns is as `R` says of the history. -/
theorem follows_history_run {p : Prog Op Ans α}
    {R : α → Trace Op Ans → Prop} (hp : Follows (history may) p R t) (es : List Env) (s : σ)
    (ht : Always (fun c before => may before c.1) t) :
    Always (fun c before => may before c.1) (run h p es s t).2.2 ∧
      ∀ a, (run h p es s t).1 = some a → R a (run h p es s t).2.2 := by
  induction p generalizing es s t with
  | ret a => exact ⟨ht, fun b hb => Option.some.inj hb ▸ hp⟩
  | halt => exact ⟨ht, fun b hb => by cases hb⟩
  | call op k ih =>
    cases es with
    | nil => exact ⟨ht, fun b hb => by cases hb⟩
    | cons e es =>
      simp only [run]
      cases hx : h op e s with
      | none => exact ⟨ht, fun b hb => by cases hb⟩
      | some r => exact ih r.1 (hp.2 r.1) es r.2 ⟨hp.1, ht⟩

theorem justified_run (hp : Justified may φ p Q t) (es : List Env) (s : σ)
    (ht : Always (fun c before => may before c.1) t) :
    Always (fun c before => may before c.1) (run h p.run es s t).2.2 :=
  (follows_history_run hp es s ht).1

theorem Confined.run_mem {ψ : α → Prop} (hp : Confined φ p ψ) (es : List Env) (s : σ) :
    ∀ c ∈ (run h p.run es s t).2.2, φ c.1 ∨ c ∈ t := by
  suffices hprog : ∀ (p : Prog Op Ans (Except String α)) (es : List Env) (s : σ)
      (t : Trace Op Ans), p.Does φ (fun r => ∀ a, r = .ok a → ψ a) →
      ∀ c ∈ (run h p es s t).2.2, φ c.1 ∨ c ∈ t from hprog p.run es s t hp
  intro p
  induction p with
  | ret a => exact fun _ _ _ _ _ hc => Or.inr hc
  | halt => exact fun _ _ _ hp => absurd hp id
  | call op k ih =>
    intro es s t hp c hc
    cases es with
    | nil => exact Or.inr hc
    | cons e es =>
      simp only [run] at hc
      cases hx : h op e s with
      | none =>
        rw [hx] at hc
        exact Or.inr hc
      | some r =>
        rw [hx] at hc
        rcases ih r.1 es r.2 _ (hp.2 r.1) c hc with hφ | hmem
        · exact Or.inl hφ
        · rcases List.mem_cons.mp hmem with rfl | hmem
          · exact Or.inl hp.1
          · exact Or.inr hmem

end Justified

end SharedNode.Effect
