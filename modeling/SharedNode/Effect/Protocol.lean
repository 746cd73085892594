import SharedNode.Effect.Prog

/-!
# Programs that follow a protocol

A protocol is an automaton over calls: at each stage it says which calls fit and which stage an
answered call leads to. `Follows` checks a program against it for every answer its calls can get, so
it is a property of the text of the program, whatever handler runs it.

* `Follows.bind`, `Follows.mono`, `Follows.iterate`: the rules.
* `Follows.run`: an invariant between the stage and the state that every fitting call keeps holds at
  the end of every run, returned or cut.
* `Prog.expand` replaces every call by a program over other calls; `Follows.wp_expand` is the same
  rule for it, where a run may be cut inside such a program.
-/

namespace SharedNode.Effect

variable {Op : Type} {Ans : Op → Type} {Env σ Stage α β : Type}

variable {p : Prog Op Ans α} {R : α → Stage → Prop}

/-- Which calls fit a stage, and the stage after a call. -/
structure Protocol (Op : Type) (Ans : Op → Type) (Stage : Type) where
  fits : Stage → Op → Prop
  next : Stage → (op : Op) → Ans op → Stage

/-- Every call of the program fits the stage it is made at, and it returns as `R` says of the last
stage. -/
def Follows (P : Protocol Op Ans Stage) : Prog Op Ans α → (α → Stage → Prop) → Stage → Prop
  | .ret a, R, st => R a st
  | .halt, _, _ => True
  | .call op k, R, st => P.fits st op ∧ ∀ x, Follows P (k x) R (P.next st op x)

namespace Follows

variable {P : Protocol Op Ans Stage} {st : Stage}

theorem mono {Q : α → Stage → Prop} (hQR : ∀ a st, Q a st → R a st) (hp : Follows P p Q st) :
    Follows P p R st := by
  induction p generalizing st with
  | ret a => exact hQR a st hp
  | call op k ih => exact ⟨hp.1, fun x => ih x (hp.2 x)⟩
  | halt => trivial

theorem bind {f : α → Prog Op Ans β} {R : β → Stage → Prop}
    (hp : Follows P p (fun a => Follows P (f a) R) st) : Follows P (p.bind f) R st := by
  induction p generalizing st with
  | ret a => exact hp
  | call op k ih => exact ⟨hp.1, fun x => ih x (hp.2 x)⟩
  | halt => trivial

theorem call {op : Op} {f : Ans op → Prog Op Ans α} (hop : P.fits st op)
    (hf : ∀ x, Follows P (f x) R (P.next st op x)) :
    Follows P ((Prog.perform op).bind f) R st := ⟨hop, hf⟩

/-- A loop: one round either answers as `R` says or comes back to a stage of `J`. -/
theorem iterate {body : Prog Op Ans (Option α)} (J : Stage → Prop)
    (hbody : ∀ st, J st → Follows P body (fun r st => r.elim (J st) (R · st)) st) (n : Nat)
    (hst : J st) : Follows P (body.iterate n) R st := by
  induction n generalizing st with
  | zero => trivial
  | succ n ih =>
    refine bind (mono (fun r st hr => ?_) (hbody st hst))
    cases r with
    | some a => exact hr
    | none => exact ih hr

/-- **Soundness.** What every fitting call keeps holds at the end of a run. -/
theorem run {h : Handler Op Ans Env σ} {J : Stage → σ → Prop}
    (hstep : ∀ st op e s x s', J st s → P.fits st op → h op e s = some (x, s') →
      J (P.next st op x) s') (hp : Follows P p R st) {s : σ} (hJ : J st s) (es : List Env)
    (t : Trace Op Ans) :
    ∃ st', J st' (run h p es s t).2.1 ∧ ∀ a, (run h p es s t).1 = some a → R a st' := by
  induction p generalizing st s es t with
  | ret a => exact ⟨st, hJ, fun b hb => Option.some.inj hb ▸ hp⟩
  | halt => exact ⟨st, hJ, fun b hb => by cases hb⟩
  | call op k ih =>
    cases es with
    | nil => exact ⟨st, hJ, fun b hb => by cases hb⟩
    | cons e es =>
      simp only [Effect.run]
      cases hx : h op e s with
      | none => exact ⟨st, hJ, fun b hb => by cases hb⟩
      | some r => exact ih r.1 (hp.2 r.1) (hstep st op e s r.1 r.2 hJ hp.1 hx) es _

end Follows

/-! ## Calls that are programs -/

section Expand

variable {Op' : Type} {Ans' : Op' → Type}

/-- The program with every call replaced by a program over other calls. -/
def Prog.expand (f : (op : Op) → Prog Op' Ans' (Ans op)) : Prog Op Ans α → Prog Op' Ans' α
  | .ret a => .ret a
  | .halt => .halt
  | .call op k => (f op).bind fun x => (k x).expand f

/-- An invariant between stage and state that the programs behind the fitting calls keep, and that
implies the crash condition, holds at the end of every run of the expanded program. -/
theorem Follows.wp_expand {f : (op : Op) → Prog Op' Ans' (Ans op)} {P : Protocol Op Ans Stage}
    {h : Handler Op' Ans' Env σ} {E : Env → Prop} {C : σ → Trace Op' Ans' → Prop}
    {J : Stage → σ → Prop} (hcrash : ∀ st s t, J st s → C s t)
    (hcall : ∀ st op s t, J st s → P.fits st op →
      wp h E C (f op) (fun x s' _ => J (P.next st op x) s') s t) {st : Stage}
    (hp : Follows P p R st) {s : σ} {t : Trace Op' Ans'} (hJ : J st s) :
    wp h E C (p.expand f) (fun a s' _ => ∃ st', J st' s' ∧ R a st') s t := by
  induction p generalizing st s t with
  | ret a => exact ⟨st, hJ, hp⟩
  | halt => exact hcrash st s t hJ
  | call op k ih =>
    rw [Prog.expand, wp_bind]
    exact wp_mono (fun x s' t' hJ' => ih x (hp.2 x) hJ') (hcall st op s t hJ hp.1)

end Expand

end SharedNode.Effect
