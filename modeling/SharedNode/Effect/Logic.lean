import SharedNode.Effect.Protocol

/-!
# Program logics

A logic says what a call needs so that a postcondition holds after it (`Logic`), and `Holds` extends
it to programs. An argument that only names the calls of a program is made once over an arbitrary
logic, and then read in each logic it is needed in:

* `Protocol.logic`, `follows_of_holds`: following a protocol;
* `guarded`, `wp_of_holds`: an invariant that the calls keep where their guard holds.
-/

namespace SharedNode.Effect

variable {Op : Type} {Ans : Op → Type} {Env σ S α β : Type}

/-- What a call needs for a postcondition. -/
structure Logic (Op : Type) (Ans : Op → Type) (S : Type) where
  call : (op : Op) → (Ans op → S → Prop) → S → Prop
  mono : ∀ {op : Op} {Q R : Ans op → S → Prop} {s : S}, (∀ x s, Q x s → R x s) →
    call op Q s → call op R s

/-- What a program needs for a postcondition. -/
def Holds (L : Logic Op Ans S) : Prog Op Ans α → (α → S → Prop) → S → Prop
  | .ret a, Q, s => Q a s
  | .halt, _, _ => True
  | .call op k, Q, s => L.call op (fun x => Holds L (k x) Q) s

/-- The rule of one call at one point of a program. -/
def Logic.Step (L : Logic Op Ans S) (P : S → Prop) (op : Op) (Q : Ans op → S → Prop) : Prop :=
  ∀ ⦃s⦄, P s → L.call op Q s

/-- A fact that a relation between states keeps. -/
structure Assertion (later : S → S → Prop) where
  holds : S → Prop
  stable : ∀ {s s' : S}, later s s' → holds s → holds s'

instance {later : S → S → Prop} : CoeFun (Assertion later) fun _ => S → Prop := ⟨Assertion.holds⟩

/-- A fact about a state that does not change. -/
def Assertion.fixed (P : S → Prop) : Assertion (Eq : S → S → Prop) := ⟨P, fun h => h ▸ id⟩

def Assertion.top {later : S → S → Prop} : Assertion later := ⟨fun _ => True, fun _ => id⟩

namespace Holds

variable {L : Logic Op Ans S} {p : Prog Op Ans α} {s : S}

theorem seq {f : α → Prog Op Ans β} {R : α → S → Prop} {Q : β → S → Prop} (hp : Holds L p R s)
    (hf : ∀ a s, R a s → Holds L (f a) Q s) : Holds L (p.bind f) Q s := by
  induction p generalizing s with
  | ret a => exact hf a s hp
  | call op k ih => exact L.mono (fun x s h => ih x h) hp
  | halt => trivial

theorem call {op : Op} {f : Ans op → Prog Op Ans α} {R : Ans op → S → Prop} {Q : α → S → Prop}
    (hop : L.call op R s) (hf : ∀ x s, R x s → Holds L (f x) Q s) :
    Holds L ((Prog.perform op).bind f) Q s := L.mono hf hop

/-- A loop: one round either answers as `Q` says or comes back to `J`. -/
theorem iterate {body : Prog Op Ans (Option α)} {Q : α → S → Prop} (J : S → Prop)
    (hbody : ∀ s, J s → Holds L body (fun r s => r.elim (J s) (Q · s)) s) (n : Nat) (hs : J s) :
    Holds L (body.iterate n) Q s := by
  induction n generalizing s with
  | zero => trivial
  | succ n ih =>
    refine seq (hbody s hs) fun r s hr => ?_
    cases r with
    | some a => exact hr
    | none => exact ih hr

end Holds

/-! ## Protocols -/

/-- A call that fits leads to the next stage. -/
def Protocol.logic (P : Protocol Op Ans S) : Logic Op Ans S where
  call op Q s := P.fits s op ∧ ∀ x, Q x (P.next s op x)
  mono hQR h := ⟨h.1, fun x => hQR x _ (h.2 x)⟩

theorem follows_of_holds {P : Protocol Op Ans S} {p : Prog Op Ans α} {Q : α → S → Prop} {s : S}
    (hp : Holds P.logic p Q s) : Follows P p Q s := by
  induction p generalizing s with
  | ret a => exact hp
  | call op k ih => exact ⟨hp.1, fun x => ih x (hp.2 x)⟩
  | halt => trivial

/-! ## Invariants -/

section Guarded

variable {h : Handler Op Ans Env σ} {E : Env → Prop} {I : σ → Trace Op Ans → Prop}
  {G : σ → Trace Op Ans → Op → Prop}

variable (h E I G) in
/-- A call that is made where its guard holds leaves the invariant. -/
def guarded : Logic Op Ans (σ × Trace Op Ans) where
  call op Q s := G s.1 s.2 op ∧ ∀ e x s', E e → h op e s.1 = some (x, s') → I s' (⟨op, x⟩ :: s.2) →
    Q x (s', ⟨op, x⟩ :: s.2)
  mono hQR hp := ⟨hp.1, fun e x s' he hx hI => hQR x _ (hp.2 e x s' he hx hI)⟩

theorem wp_of_holds (hstep : ∀ op e s t x s', I s t → G s t op → E e → h op e s = some (x, s') →
      I s' (⟨op, x⟩ :: t))
    {p : Prog Op Ans α} {Q : α → σ × Trace Op Ans → Prop} {s : σ} {t : Trace Op Ans} (hI : I s t)
    (hp : Holds (guarded h E I G) p Q (s, t)) :
    wp h E I p (fun a s t => I s t ∧ Q a (s, t)) s t := by
  induction p generalizing s t with
  | ret a => exact ⟨hI, hp⟩
  | halt => exact hI
  | call op k ih =>
    refine ⟨hI, fun e he x s' hx => ?_⟩
    have hI' := hstep op e s t x s' hI hp.1 he hx
    exact ih x hI' (hp.2 e x s' he hx hI')

end Guarded

end SharedNode.Effect
