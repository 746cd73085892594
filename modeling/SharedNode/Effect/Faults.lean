import SharedNode.Effect.Fallible

/-!
# Calls that fail

A program whose calls cannot fail, run where they can: a call that fails throws its error out of the
program (`failing`), and its state is as it was before that call (`faulty`). `failing` commutes with
sequencing (`failing_bind`) and makes a request of an effect (`failing_effect`), so that the rules
of `Ends` apply (`ends_failing_bind`, `ends_failing_effect`).
-/

namespace SharedNode.Effect

open Prog

variable {Op : Type} {Ans : Op → Type} {Env Choice σ α β : Type}

def Prog.throwing :
    Prog Op Ans (Except String α) → Prog Op (fun op => Except String (Ans op)) (Except String α)
  | .ret r => .ret r
  | .halt => .halt
  | .call op k => .call op fun x =>
    match x with
    | .ok a => (k a).throwing
    | .error err => .ret (.error err)

/-- The program, with the error of a call thrown. -/
def failing (p : Fallible Op Ans α) : Fallible Op (fun op => Except String (Ans op)) α :=
  ExceptT.mk p.run.throwing

/-- The handler under choices that say which calls fail. A call that fails changes nothing. -/
def faulty (h : Handler Op Ans Env σ) (env : Choice → Env) (fault : Op → Choice → Option String) :
    Handler Op (fun op => Except String (Ans op)) Choice σ := fun op e s =>
  match fault op e with
  | some err => some (.error err, s)
  | none => (h op (env e) s).map fun r => (.ok r.1, r.2)

theorem failing_bind (p : Fallible Op Ans α) (f : α → Fallible Op Ans β) :
    failing (p >>= f) = failing p >>= fun a => failing (f a) := by
  suffices hprog : ∀ p : Prog Op Ans (Except String α),
      (p.bind (ExceptT.bindCont f)).throwing =
        p.throwing.bind (ExceptT.bindCont fun a => failing (f a)) from hprog p.run
  intro p
  induction p with
  | ret r => cases r <;> rfl
  | halt => rfl
  | call op k ih =>
    simp only [call_bind, Prog.throwing, call.injEq, heq_eq_eq, true_and]
    funext x
    cases x with
    | ok a => exact ih a
    | error err => rfl

theorem failing_effect (op : Op) : failing (effect op : Fallible Op Ans (Ans op)) = request op := by
  show ExceptT.mk (Prog.throwing (call op fun x => ret (.ok x))) = ExceptT.mk (call op ret)
  rw [Prog.throwing]
  congr 2
  funext x
  cases x <;> rfl

section Rules

variable {h : Handler Op Ans Env σ} {env : Choice → Env} {fault : Op → Choice → Option String}
  {E : Choice → Prop} {C : σ → Prop} {s : σ}

theorem ends_failing_bind {p : Fallible Op Ans α} {f : α → Fallible Op Ans β}
    {Q : Except String β → σ → Prop}
    (hp : Ends (faulty h env fault) E C (failing p)
      (Continues (fun a s => Ends (faulty h env fault) E C (failing (f a)) Q s) Q) s) :
    Ends (faulty h env fault) E C (failing (p >>= f)) Q s := by
  rw [failing_bind]
  exact ends_bind hp

theorem ends_failing_effect {op : Op} {Q : Except String (Ans op) → σ → Prop} (hC : C s)
    (herr : ∀ e err, E e → fault op e = some err → Q (.error err) s)
    (hok : ∀ e x s', E e → h op (env e) s = some (x, s') → Q (.ok x) s') :
    Ends (faulty h env fault) E C (failing (effect op)) Q s := by
  rw [failing_effect]
  refine ends_request hC fun e r s' he hx => ?_
  unfold faulty at hx
  split at hx
  next err hfault =>
    cases hx
    exact herr e err he hfault
  next =>
    obtain ⟨r, hr, heq⟩ := Option.map_eq_some_iff.mp hx
    obtain ⟨rfl, rfl⟩ := Prod.mk.inj heq
    exact hok e r.1 r.2 he hr

end Rules

end SharedNode.Effect
