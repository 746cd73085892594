import SharedNode.Effect.Exclusive
import SharedNode.Effect.Fallible

/-!
# Programs that are not cut

`Prog.eval` is the outcome of a program whose calls all get one choice and which is not cut. `Gives`
reads it for a fallible program, one step at a time (`gives_pure`, `gives_throw`, `gives_bind`,
`gives_bind_error`, `gives_effect`). Tasks that run one after another, each under a choice of its
own, are a schedule of a pool (`Pool.exists_schedule`).
-/

namespace SharedNode.Effect

open Prog

variable {Op : Type} {Ans : Op → Type} {Env σ α β : Type}

/-- The outcome of a program under one choice for all its calls. -/
def Prog.eval (h : Handler Op Ans Env σ) (e : Env) : Prog Op Ans α → σ → Option α × σ
  | .ret a, s => (some a, s)
  | .halt, s => (none, s)
  | .call op k, s =>
    match h op e s with
    | none => (none, s)
    | some (x, s') => (k x).eval h e s'

theorem eval_bind (h : Handler Op Ans Env σ) (e : Env) (p : Prog Op Ans α)
    (f : α → Prog Op Ans β) (s : σ) :
    (p.bind f).eval h e s = match p.eval h e s with
      | (some a, s') => (f a).eval h e s'
      | (none, s') => (none, s') := by
  induction p generalizing s with
  | ret a => rfl
  | halt => rfl
  | call op k ih =>
    rw [call_bind, Prog.eval, Prog.eval]
    cases h op e s with
    | none => rfl
    | some r => exact ih r.1 r.2

/-- A fallible program has this outcome under one choice. -/
def Gives (h : Handler Op Ans Env σ) (e : Env) (p : Fallible Op Ans α) (s : σ)
    (r : Except String α) (s' : σ) : Prop :=
  p.run.eval h e s = (some r, s')

section Gives

variable {h : Handler Op Ans Env σ} {e : Env} {s s₁ s₂ : σ}

theorem gives_pure {a : α} : Gives h e (pure a : Fallible Op Ans α) s (.ok a) s := rfl

theorem gives_throw {err : String} :
    Gives h e (throw err : Fallible Op Ans α) s (.error err) s := rfl

theorem gives_bind {p : Fallible Op Ans α} {f : α → Fallible Op Ans β} {a : α} {r : Except String β}
    (hp : Gives h e p s (.ok a) s₁) (hf : Gives h e (f a) s₁ r s₂) :
    Gives h e (p >>= f) s r s₂ := by
  refine (eval_bind h e p.run (ExceptT.bindCont f) s).trans ?_
  rw [show p.run.eval h e s = _ from hp]
  exact hf

theorem gives_bind_error {p : Fallible Op Ans α} {f : α → Fallible Op Ans β} {err : String}
    (hp : Gives h e p s (.error err) s₁) : Gives h e (p >>= f) s (.error err) s₁ := by
  refine (eval_bind h e p.run (ExceptT.bindCont f) s).trans ?_
  rw [show p.run.eval h e s = _ from hp]
  rfl

theorem gives_effect {op : Op} {x : Ans op} (hx : h op e s = some (x, s₁)) :
    Gives h e (effect op) s (.ok x) s₁ := by
  show Prog.eval h e (call op fun x => ret (Except.ok x)) s = _
  rw [Prog.eval, hx]
  rfl

end Gives

/-! ## One task after another -/

namespace Pool

variable {Task : Type} {Res : Task → Type}
variable {h : Handler Op Ans Env σ} {code : (τ : Task) → Prog Op Ans (Res τ)} {reboot : σ → σ}

variable {G : σ → Op → Env → Prop} {A : σ → Prop}

theorem exists_steps {e : Env} (hG : ∀ s op, G s op e) {τ : Task} {q : Prog Op Ans (Res τ)}
    {v : Res τ} {s' : σ} {p : Pool Op Ans σ Task Res} {i : Nat}
    (hi : p.threads[i]? = some ⟨τ, some q⟩) (hq : q.eval h e p.state = (some v, s')) :
    ∃ n, ((List.replicate n (Action.step i e)).foldl (act h code reboot) p).state = s' ∧
      Admitted h code reboot G A p (List.replicate n (.step i e)) := by
  induction q generalizing p with
  | ret a => exact ⟨0, (Prod.mk.inj hq).2, trivial⟩
  | halt => exact nomatch congrArg Prod.fst hq
  | call op k ih =>
    rw [Prog.eval] at hq
    cases hx : h op e p.state with
    | none =>
      rw [hx] at hq
      exact nomatch congrArg Prod.fst hq
    | some r =>
      rw [hx] at hq
      have hmove : p.act h code reboot (.step i e) = ⟨r.2, p.threads.set i ⟨τ, some (k r.1)⟩⟩ := by
        simp only [act, hi, hx]
      have hnext : (p.act h code reboot (.step i e)).threads[i]? = some ⟨τ, some (k r.1)⟩ := by
        rw [hmove]
        exact List.getElem?_set_self (List.getElem?_eq_some_iff.mp hi).1
      obtain ⟨n, hn, hadmitted⟩ := ih r.1 hnext (by rw [hmove]; exact hq)
      exact ⟨n + 1, hn, fun _ op _ _ => hG p.state op, hadmitted⟩

/-- The state after tasks that run one after another, each under one choice; `none` if one of them
does not return. -/
def serial (h : Handler Op Ans Env σ) (code : (τ : Task) → Prog Op Ans (Res τ)) :
    List (Task × Env) → σ → Option σ
  | [], s => some s
  | (τ, e) :: rest, s =>
    match (code τ).eval h e s with
    | (some _, s') => serial h code rest s'
    | (none, _) => none

theorem serial_cons {τ : Task} {e : Env} {rest : List (Task × Env)} {s s' : σ} {v : Res τ}
    (hτ : (code τ).eval h e s = (some v, s')) :
    serial h code ((τ, e) :: rest) s = serial h code rest s' := by
  rw [serial, hτ]

theorem admitted_append {p : Pool Op Ans σ Task Res} {actions later : List (Action Env Task)}
    (hactions : Admitted h code reboot G A p actions)
    (hlater : Admitted h code reboot G A (actions.foldl (act h code reboot) p) later) :
    Admitted h code reboot G A p (actions ++ later) := by
  induction actions generalizing p with
  | nil => exact hlater
  | cons a rest ih => exact ⟨hactions.1, ih hactions.2 hlater⟩

theorem exists_schedule {calls : List (Task × Env)} (hG : ∀ c ∈ calls, ∀ s op, G s op c.2)
    {p : Pool Op Ans σ Task Res} {s' : σ} (hcalls : serial h code calls p.state = some s') :
    ∃ actions : List (Action Env Task), (actions.foldl (act h code reboot) p).state = s' ∧
      Admitted h code reboot G A p actions := by
  induction calls generalizing p with
  | nil => exact ⟨[], Option.some.inj hcalls, trivial⟩
  | cons c rest ih =>
    obtain ⟨τ, e⟩ := c
    rw [serial] at hcalls
    cases heval : (code τ).eval h e p.state with
    | mk r s₁ =>
      rw [heval] at hcalls
      cases r with
      | none => cases hcalls
      | some v =>
        have hlast : (p.act h code reboot (.spawn τ)).threads[p.threads.length]? =
            some ⟨τ, some (code τ)⟩ := by simp [act]
        obtain ⟨n, hn, hsteps⟩ : ∃ n, ((List.replicate n (Action.step p.threads.length e)).foldl
            (act h code reboot) (p.act h code reboot (.spawn τ))).state = s₁ ∧
            Admitted h code reboot G A (p.act h code reboot (.spawn τ))
              (List.replicate n (.step p.threads.length e)) :=
          exists_steps (hG _ List.mem_cons_self) hlast heval
        obtain ⟨actions, hactions, hrest⟩ := ih (List.forall_mem_cons.mp hG).2
          (by rw [hn]; exact hcalls)
        refine ⟨.spawn τ :: List.replicate n (.step p.threads.length e) ++ actions, ?_, ?_⟩
        · rw [List.cons_append, List.foldl_cons, List.foldl_append]
          exact hactions
        · exact ⟨trivial, admitted_append hsteps hrest⟩

end Pool

end SharedNode.Effect
