import Mathlib.Logic.Basic

/-!
# Effectful programs, cut short at any call

A program issues calls `op : Op`, each answered in `Ans op`, and continues with the answer
(`Prog`). A handler gives every call its meaning: given one choice of the environment (`Env`) and
the state, the answer and the next state, or `none` when the call is blocked. `run` is the
executable semantics over a list of choices, one per call; a run that uses them up before the
program returns is cut there, which is how a crash between two calls is modelled. The calls made
are recorded with their answers, newest first.

* `wp` is the weakest precondition with a crash condition: `C` has to hold before every call, so
  it holds wherever a run can be cut. `wp_run` is its soundness; `wp_bind`, `wp_mono`, `wp_perform`
  and `wp_iterate` are the rules the developments use.
* `Prog.Calls` restricts the calls a program can ever issue, `Prog.Does` also the values it can
  return.
* The past-time operators (`Once`, `Since`, `Always`) read a newest-first trace.
-/

namespace SharedNode.Effect

variable {Op : Type} {Ans : Op → Type} {Env σ α β : Type}

/-- A program over the calls `Op`. `halt` is a run cut short by the program itself (a loop that
used up its iterations). -/
inductive Prog (Op : Type) (Ans : Op → Type) (α : Type) : Type where
  | ret (a : α)
  | call (op : Op) (k : Ans op → Prog Op Ans α)
  | halt

namespace Prog

def bind : Prog Op Ans α → (α → Prog Op Ans β) → Prog Op Ans β
  | ret a, f => f a
  | call op k, f => call op fun x => (k x).bind f
  | halt, _ => halt

instance : Monad (Prog Op Ans) where
  pure := ret
  bind := bind

def perform (op : Op) : Prog Op Ans (Ans op) := call op ret

/-- At most `n` rounds of `body`, until one of them answers. -/
def iterate (body : Prog Op Ans (Option α)) : Nat → Prog Op Ans α
  | 0 => halt
  | n + 1 => body.bind fun r =>
    match r with
    | some a => ret a
    | none => iterate body n

@[simp] theorem pure_eq (a : α) : (pure a : Prog Op Ans α) = ret a := rfl

@[simp] theorem bind_eq (p : Prog Op Ans α) (f : α → Prog Op Ans β) : (p >>= f) = p.bind f := rfl

@[simp] theorem ret_bind (a : α) (f : α → Prog Op Ans β) : (ret a).bind f = f a := rfl

@[simp] theorem halt_bind (f : α → Prog Op Ans β) : (halt : Prog Op Ans α).bind f = halt := rfl

@[simp] theorem call_bind (op : Op) (k : Ans op → Prog Op Ans α) (f : α → Prog Op Ans β) :
    (call op k).bind f = call op fun x => (k x).bind f := rfl

@[simp] theorem perform_bind (op : Op) (f : Ans op → Prog Op Ans β) :
    (perform op).bind f = call op f := rfl

theorem bind_assoc {γ : Type} (p : Prog Op Ans α) (f : α → Prog Op Ans β)
    (g : β → Prog Op Ans γ) : (p.bind f).bind g = p.bind fun a => (f a).bind g := by
  induction p with
  | ret a => rfl
  | call op k ih =>
    simp only [call_bind, call.injEq, heq_eq_eq, true_and]
    exact funext ih
  | halt => rfl

/-- Every call the program can issue satisfies `φ`. -/
def Calls (φ : Op → Prop) : Prog Op Ans α → Prop
  | ret _ => True
  | call op k => φ op ∧ ∀ x, (k x).Calls φ
  | halt => True

variable {φ : Op → Prop} {p : Prog Op Ans α}

theorem Calls.bind {f : α → Prog Op Ans β}
    (hp : p.Calls φ) (hf : ∀ a, (f a).Calls φ) : (p.bind f).Calls φ := by
  induction p with
  | ret a => exact hf a
  | call op k ih => exact ⟨hp.1, fun x => ih x (hp.2 x)⟩
  | halt => trivial

/-- Every call the program can issue satisfies `φ`, every value it can return `ψ`, and it does not
cut itself short. -/
def Does (φ : Op → Prop) (ψ : α → Prop) : Prog Op Ans α → Prop
  | ret a => ψ a
  | call op k => φ op ∧ ∀ x, (k x).Does φ ψ
  | halt => False

theorem Does.mono {φ' : Op → Prop} {ψ ψ' : α → Prop} (hp : p.Does φ ψ)
    (hφ : ∀ op, φ op → φ' op) (hψ : ∀ a, ψ a → ψ' a) : p.Does φ' ψ' := by
  induction p with
  | ret a => exact hψ a hp
  | call op k ih => exact ⟨hφ op hp.1, fun x => ih x (hp.2 x)⟩
  | halt => exact hp

theorem Does.bind {ψ : α → Prop} {χ : β → Prop}
    {f : α → Prog Op Ans β} (hp : p.Does φ ψ) (hf : ∀ a, ψ a → (f a).Does φ χ) :
    (p.bind f).Does φ χ := by
  induction p with
  | ret a => exact hf a hp
  | call op k ih => exact ⟨hp.1, fun x => ih x (hp.2 x)⟩
  | halt => exact hp

end Prog

/-- A call with its answer. -/
abbrev Call (Op : Type) (Ans : Op → Type) := (op : Op) × Ans op

/-- The calls made so far, newest first. -/
abbrev Trace (Op : Type) (Ans : Op → Type) := List (Call Op Ans)

/-- What a call does under one choice of the environment; `none` when it blocks. -/
abbrev Handler (Op : Type) (Ans : Op → Type) (Env σ : Type) :=
  (op : Op) → Env → σ → Option (Ans op × σ)

/-- The run of a program under the choices `es`: its value, `none` when it was cut, with the
state and the trace it leaves. -/
def run (h : Handler Op Ans Env σ) :
    Prog Op Ans α → List Env → σ → Trace Op Ans → Option α × σ × Trace Op Ans
  | .ret a, _, s, t => (some a, s, t)
  | .halt, _, s, t => (none, s, t)
  | .call _ _, [], s, t => (none, s, t)
  | .call op k, e :: es, s, t =>
    match h op e s with
    | none => (none, s, t)
    | some (x, s') => run h (k x) es s' (⟨op, x⟩ :: t)

theorem exists_of_run_call {h : Handler Op Ans Env σ} {op : Op} {k : Ans op → Prog Op Ans α}
    {es : List Env} {s s' : σ} {t t' : Trace Op Ans} {a : α}
    (hrun : run h (.call op k) es s t = (some a, s', t')) :
    ∃ e rest x s₁, es = e :: rest ∧ h op e s = some (x, s₁) ∧
      run h (k x) rest s₁ (⟨op, x⟩ :: t) = (some a, s', t') := by
  cases es with
  | nil => exact nomatch congrArg Prod.fst hrun
  | cons e rest =>
    cases hx : h op e s with
    | none =>
      simp only [run, hx] at hrun
      exact nomatch congrArg Prod.fst hrun
    | some r =>
      simp only [run, hx] at hrun
      exact ⟨e, rest, r.1, r.2, rfl, hx, hrun⟩

/-! ## Weakest preconditions with a crash condition -/

section Wp

variable (h : Handler Op Ans Env σ) (E : Env → Prop) (C : σ → Trace Op Ans → Prop)

/-- From `s` and `t`, every run under choices in `E` that returns ends in `Q`, and `C` holds before
each of its calls. -/
def wp : Prog Op Ans α → (α → σ → Trace Op Ans → Prop) → σ → Trace Op Ans → Prop
  | .ret a, Q, s, t => Q a s t
  | .halt, _, s, t => C s t
  | .call op k, Q, s, t =>
    C s t ∧ ∀ e, E e → ∀ x s', h op e s = some (x, s') → wp (k x) Q s' (⟨op, x⟩ :: t)

variable {h E C}

variable {Q : α → σ → Trace Op Ans → Prop} {s : σ} {t : Trace Op Ans} {p : Prog Op Ans α}

@[simp] theorem wp_ret {a : α} : wp h E C (.ret a) Q s t ↔ Q a s t := Iff.rfl

@[simp] theorem wp_halt : wp h E C (.halt : Prog Op Ans α) Q s t ↔ C s t := Iff.rfl

theorem wp_call {op : Op} {k : Ans op → Prog Op Ans α} : wp h E C (.call op k) Q s t ↔
      C s t ∧ ∀ e, E e → ∀ x s', h op e s = some (x, s') → wp h E C (k x) Q s' (⟨op, x⟩ :: t) :=
  Iff.rfl

theorem wp_mono {R : α → σ → Trace Op Ans → Prop}
    (hQR : ∀ a s t, Q a s t → R a s t) (hp : wp h E C p Q s t) :
    wp h E C p R s t := by
  induction p generalizing s t with
  | ret a => exact hQR a s t hp
  | call op k ih => exact ⟨hp.1, fun e he x s' hx => ih x (hp.2 e he x s' hx)⟩
  | halt => exact hp

theorem wp_bind {f : α → Prog Op Ans β} {Q : β → σ → Trace Op Ans → Prop} :
    wp h E C (p.bind f) Q s t ↔ wp h E C p (fun a => wp h E C (f a) Q) s t := by
  induction p generalizing s t with
  | ret a => rfl
  | call op k ih => simp only [Prog.call_bind, wp_call, ih]
  | halt => rfl

/-- The call rule for an invariant `I` that every call keeps where its guard `G` holds, and that is
the crash condition too. -/
theorem wp_perform {I : σ → Trace Op Ans → Prop} {G : σ → Trace Op Ans → Op → Prop}
    (hstep : ∀ op e s t x s', I s t → G s t op → E e → h op e s = some (x, s') →
      I s' (⟨op, x⟩ :: t))
    {op : Op} {f : Ans op → Prog Op Ans α} (hI : I s t) (hg : G s t op)
    (hk : ∀ e x s', E e → h op e s = some (x, s') → I s' (⟨op, x⟩ :: t) →
      wp h E I (f x) Q s' (⟨op, x⟩ :: t)) :
    wp h E I ((Prog.perform op).bind f) Q s t :=
  ⟨hI, fun e he x s' hx => hk e x s' he hx (hstep op e s t x s' hI hg he hx)⟩

/-- What one round of a loop leaves: the postcondition if it answers, the invariant if not. -/
def Round (Q : α → σ → Trace Op Ans → Prop) (J : σ → Trace Op Ans → Prop) :
    Option α → σ → Trace Op Ans → Prop
  | some a => Q a
  | none => J

/-- The loop rule: an invariant `J` that implies the crash condition and that one round either
keeps or leaves for the postcondition. -/
theorem wp_iterate {body : Prog Op Ans (Option α)}
    (J : σ → Trace Op Ans → Prop) (hJC : ∀ s t, J s t → C s t)
    (hbody : ∀ s t, J s t → wp h E C body (Round Q J) s t)
    (n : Nat) (hJ : J s t) : wp h E C (body.iterate n) Q s t := by
  induction n generalizing s t with
  | zero => exact hJC s t hJ
  | succ n ih =>
    rw [Prog.iterate, wp_bind]
    refine wp_mono (fun r s t hr => ?_) (hbody s t hJ)
    cases r with
    | some a => exact hr
    | none => exact ih hr

/-- **Soundness.** Under choices in `E`, a run that returns ends in the postcondition and a run that
is cut ends in the crash condition. -/
theorem wp_run {es : List Env} (hes : ∀ e ∈ es, E e) (hp : wp h E C p Q s t) :
    (∀ a, (run h p es s t).1 = some a → Q a (run h p es s t).2.1 (run h p es s t).2.2) ∧
      ((run h p es s t).1 = none → C (run h p es s t).2.1 (run h p es s t).2.2) := by
  induction p generalizing es s t with
  | ret a =>
    refine ⟨fun b hb => ?_, by simp [run]⟩
    obtain rfl : a = b := by simpa [run] using hb
    exact hp
  | halt => exact ⟨by simp [run], fun _ => hp⟩
  | call op k ih =>
    cases es with
    | nil => exact ⟨by simp [run], fun _ => hp.1⟩
    | cons e es =>
      simp only [run]
      cases hx : h op e s with
      | none => exact ⟨by simp, fun _ => hp.1⟩
      | some r =>
        obtain ⟨x, s'⟩ := r
        exact ih x (List.forall_mem_cons.mp hes).2
          (hp.2 e (hes e List.mem_cons_self) x s' hx)

end Wp

/-! ## Past-time operators -/

section Past

variable {γ : Type}

/-- Some earlier element satisfies `φ`. -/
def Once (φ : γ → Prop) (t : List γ) : Prop := ∃ c ∈ t, φ c

/-- Some earlier element satisfies `φ` of the history before it, and none after it satisfies
`ψ`. -/
def Since (φ : γ → List γ → Prop) (ψ : γ → Prop) : List γ → Prop
  | [] => False
  | c :: t => φ c t ∨ (¬ ψ c ∧ Since φ ψ t)

/-- Every element `c` of the history satisfies `φ c` of the history before it. -/
def Always (φ : γ → List γ → Prop) : List γ → Prop
  | [] => True
  | c :: t => φ c t ∧ Always φ t

variable {c : γ} {t : List γ} {φ : γ → List γ → Prop} {ψ : γ → Prop}

theorem Once.cons {φ : γ → Prop} (h : Once φ t) : Once φ (c :: t) := by
  obtain ⟨d, hd, hφ⟩ := h
  exact ⟨d, List.mem_cons_of_mem c hd, hφ⟩

theorem Once.head {φ : γ → Prop} (h : φ c) : Once φ (c :: t) :=
  ⟨c, List.mem_cons_self, h⟩

theorem Since.head (h : φ c t) : Since φ ψ (c :: t) := Or.inl h

theorem Since.cons (h : Since φ ψ t) (hc : ¬ ψ c) : Since φ ψ (c :: t) := Or.inr ⟨hc, h⟩

instance Since.decidable (φ : γ → List γ → Prop) (ψ : γ → Prop) [∀ c t, Decidable (φ c t)]
    [DecidablePred ψ] : DecidablePred (Since φ ψ)
  | [] => instDecidableFalse
  | c :: t =>
    have := Since.decidable φ ψ t
    inferInstanceAs (Decidable (φ c t ∨ (¬ ψ c ∧ Since φ ψ t)))

theorem always_iff : Always φ t ↔ ∀ after c before, t = after ++ c :: before → φ c before := by
  induction t with
  | nil =>
    simp only [Always, true_iff]
    intro after c before h
    simp at h
  | cons d t ih =>
    simp only [Always, ih]
    constructor
    · rintro ⟨hd, ht⟩ after c before heq
      cases after with
      | nil =>
        obtain ⟨rfl, rfl⟩ := List.cons.inj heq
        exact hd
      | cons x after => exact ht after c before (List.cons.inj heq).2
    · intro hall
      exact ⟨hall [] d t rfl,
        fun after c before heq => hall (d :: after) c before (by rw [heq]; rfl)⟩

end Past

end SharedNode.Effect
