import SharedNode.Effect.Prog

/-!
# Interleaved programs

A pool of threads over one shared state. A thread is a task with what is left of its program; a
schedule spawns tasks, lets a thread make its next call, or crashes: every unfinished thread dies
and the state becomes what `reboot` makes of it. A thread whose call is blocked, dead or finished
does not move.

* `Pool.act_step` is the inversion of a thread's step; `Pool.solo` lets one thread run on its own.
* `Pool.run_induction` is the invariant rule over schedules.
* `Prog.Guarded` restricts the calls of a program as long as its answers are `good`. If in every
  state of `I` a call of that kind gets a good answer and leads to `I` again, `I` is kept by a run
  (`Guarded.wp`) and by any interleaving of such programs (`Pool.guarded_steps`).
-/

namespace SharedNode.Effect

variable {Op : Type} {Ans : Op → Type} {Env σ Task : Type} {Res : Task → Type}

/-! ## Guarded programs -/

section Guarded

variable {α β : Type} {φ : Op → Prop} {good : (op : Op) → Ans op → Prop}

/-- As long as its answers are good, every call the program issues satisfies `φ`. -/
def Prog.Guarded (φ : Op → Prop) (good : (op : Op) → Ans op → Prop) : Prog Op Ans α → Prop
  | .ret _ => True
  | .call op k => φ op ∧ ∀ x, good op x → (k x).Guarded φ good
  | .halt => True

namespace Prog.Guarded

theorem bind {p : Prog Op Ans α} {f : α → Prog Op Ans β} (hp : p.Guarded φ good)
    (hf : ∀ a, (f a).Guarded φ good) : (p.bind f).Guarded φ good := by
  induction p with
  | ret a => exact hf a
  | call op k ih => exact ⟨hp.1, fun x hx => ih x (hp.2 x hx)⟩
  | halt => trivial

theorem call {op : Op} {f : Ans op → Prog Op Ans α} (hop : φ op)
    (hf : ∀ x, good op x → (f x).Guarded φ good) : ((perform op).bind f).Guarded φ good := ⟨hop, hf⟩

theorem iterate {body : Prog Op Ans (Option α)} (hbody : body.Guarded φ good) (n : Nat) :
    (body.iterate n).Guarded φ good := by
  induction n with
  | zero => trivial
  | succ n ih =>
    refine bind hbody fun r => ?_
    cases r with
    | some a => trivial
    | none => exact ih

/-- What guarded calls keep holds wherever a run is cut and where it ends. -/
theorem wp {h : Handler Op Ans Env σ} {E : Env → Prop} {I : σ → Prop}
    (hstep : ∀ op e s x s', I s → φ op → E e → h op e s = some (x, s') → good op x ∧ I s')
    {p : Prog Op Ans α} (hp : p.Guarded φ good) {s : σ} (hs : I s) (t : Trace Op Ans) :
    Effect.wp h E (fun s _ => I s) p (fun _ s _ => I s) s t := by
  induction p generalizing s t with
  | ret a => exact hs
  | halt => exact hs
  | call op k ih =>
    refine ⟨hs, fun e he x s' hx => ?_⟩
    obtain ⟨hgood, hI⟩ := hstep op e s x s' hs hp.1 he hx
    exact ih x (hp.2 x hgood) hI _

end Prog.Guarded

end Guarded

/-! ## Pools -/

/-- A task with what is left of its program, `none` if it died in a crash. -/
abbrev Thread (Op : Type) (Ans : Op → Type) (Task : Type) (Res : Task → Type) :=
  (τ : Task) × Option (Prog Op Ans (Res τ))

/-- The threads of a process, in the order they were spawned, and the state they share. -/
structure Pool (Op : Type) (Ans : Op → Type) (σ Task : Type) (Res : Task → Type) where
  state : σ
  threads : List (Thread Op Ans Task Res) := []

/-- A new thread, a step of one, or a crash. -/
inductive Action (Env Task : Type) where
  | spawn (task : Task)
  | step (thread : Nat) (choice : Env)
  | crash

/-- A thread after a crash: what it returned before stays returned. -/
def Thread.crashed : Thread Op Ans Task Res → Thread Op Ans Task Res
  | ⟨τ, some (.ret v)⟩ => ⟨τ, some (.ret v)⟩
  | ⟨τ, _⟩ => ⟨τ, none⟩

@[simp] theorem Thread.crashed_fst (t : Thread Op Ans Task Res) : t.crashed.1 = t.1 := by
  match t with
  | ⟨_, some (.ret _)⟩ | ⟨_, some (.call ..)⟩ | ⟨_, some .halt⟩ | ⟨_, none⟩ => rfl

theorem Thread.eq_of_crashed {t : Thread Op Ans Task Res} {τ : Task} {q : Prog Op Ans (Res τ)}
    (h : t.crashed = ⟨τ, some q⟩) : t = ⟨τ, some q⟩ ∧ ∃ v, q = .ret v := by
  match t with
  | ⟨_, some (.ret v)⟩ =>
    cases h
    exact ⟨rfl, v, rfl⟩
  | ⟨_, some (.call ..)⟩ | ⟨_, some .halt⟩ | ⟨_, none⟩ => cases h

namespace Pool

variable (h : Handler Op Ans Env σ) (code : (τ : Task) → Prog Op Ans (Res τ)) (reboot : σ → σ)

def act (p : Pool Op Ans σ Task Res) : Action Env Task → Pool Op Ans σ Task Res
  | .spawn τ => { p with threads := p.threads ++ [⟨τ, some (code τ)⟩] }
  | .step i e =>
    match p.threads[i]? with
    | some ⟨τ, some (.call op k)⟩ =>
      match h op e p.state with
      | some (x, s) => ⟨s, p.threads.set i ⟨τ, some (k x)⟩⟩
      | none => p
    | _ => p
  | .crash => ⟨reboot p.state, p.threads.map Thread.crashed⟩

def run (s : σ) (actions : List (Action Env Task)) : Pool Op Ans σ Task Res :=
  actions.foldl (act h code reboot) ⟨s, []⟩

variable {h code reboot}

theorem act_step (p : Pool Op Ans σ Task Res) (i : Nat) (e : Env) :
    p.act h code reboot (.step i e) = p ∨
      ∃ τ op k x s, p.threads[i]? = some ⟨τ, some (.call op k)⟩ ∧ h op e p.state = some (x, s) ∧
        p.act h code reboot (.step i e) = ⟨s, p.threads.set i ⟨τ, some (k x)⟩⟩ := by
  simp only [act]
  split
  next τ op k hi =>
    split
    next x s hx => exact Or.inr ⟨τ, op, k, x, s, hi, hx, rfl⟩
    next => exact Or.inl rfl
  next => exact Or.inl rfl

/-- A thread scheduled on its own returns what its program returns. -/
theorem solo {p : Pool Op Ans σ Task Res} {i : Nat} {τ : Task} {q : Prog Op Ans (Res τ)}
    {es : List Env} {t : Trace Op Ans} {v : Res τ} (hi : p.threads[i]? = some ⟨τ, some q⟩)
    (hv : (Effect.run h q es p.state t).1 = some v) :
    ((es.map (Action.step i)).foldl (act h code reboot) p).threads[i]? =
      some ⟨τ, some (.ret v)⟩ := by
  induction es generalizing p q t with
  | nil =>
    cases q with
    | ret a =>
      obtain rfl : a = v := by simpa [Effect.run] using hv
      exact hi
    | call op k => simp [Effect.run] at hv
    | halt => simp [Effect.run] at hv
  | cons e es ih =>
    rw [List.map_cons, List.foldl_cons]
    cases q with
    | ret a =>
      have hstay : p.act h code reboot (.step i e) = p := by simp only [act, hi]
      rw [hstay]
      exact ih hi (t := t) (by simpa [Effect.run] using hv)
    | halt => simp [Effect.run] at hv
    | call op k =>
      simp only [Effect.run] at hv
      cases hx : h op e p.state with
      | none => simp [hx] at hv
      | some r =>
        obtain ⟨x, s⟩ := r
        rw [hx] at hv
        have hmove : p.act h code reboot (.step i e) = ⟨s, p.threads.set i ⟨τ, some (k x)⟩⟩ := by
          simp only [act, hi, hx]
        rw [hmove]
        exact ih (List.getElem?_set_self (List.getElem?_eq_some_iff.mp hi).1) hv

theorem run_append (s : σ) (actions later : List (Action Env Task)) :
    run h code reboot s (actions ++ later) =
      later.foldl (act h code reboot) (run h code reboot s actions) := by
  simp [run]

/-- An invariant every admitted action keeps holds after every admitted schedule. -/
theorem run_induction {I : Pool Op Ans σ Task Res → Prop} {A : Action Env Task → Prop}
    (hact : ∀ p a, I p → A a → I (p.act h code reboot a)) {p : Pool Op Ans σ Task Res} (hp : I p)
    {actions : List (Action Env Task)} (hA : ∀ a ∈ actions, A a) :
    I (actions.foldl (act h code reboot) p) := by
  induction actions generalizing p with
  | nil => exact hp
  | cons a rest ih =>
    exact ih (hact p a hp (hA a List.mem_cons_self)) fun b hb => hA b (List.mem_cons_of_mem a hb)

/-- What guarded calls keep, every interleaving of guarded programs keeps. -/
theorem guarded_steps {E : Env → Prop} {I : σ → Prop} {φ : Op → Prop}
    {good : (op : Op) → Ans op → Prop}
    (hstep : ∀ op e s x s', I s → φ op → E e → h op e s = some (x, s') → good op x ∧ I s')
    {p : Pool Op Ans σ Task Res} (hI : I p.state)
    (hp : ∀ t ∈ p.threads, ∀ q, t.2 = some q → q.Guarded φ good) {steps : List (Nat × Env)}
    (hsteps : ∀ s ∈ steps, E s.2) :
    I ((steps.map fun s => Action.step s.1 s.2).foldl (act h code reboot) p).state := by
  induction steps generalizing p with
  | nil => exact hI
  | cons s rest ih =>
    rw [List.map_cons, List.foldl_cons]
    have hrest : ∀ s ∈ rest, E s.2 := (List.forall_mem_cons.mp hsteps).2
    rcases act_step p s.1 s.2 with hstay | ⟨τ, op, k, x, w, hthread, hx, hmove⟩
    · rw [hstay]
      exact ih hI hp hrest
    · rw [hmove]
      have hguard := hp _ (List.mem_of_getElem? hthread) _ rfl
      obtain ⟨hgood, hI'⟩ := hstep op s.2 p.state x w hI hguard.1 (hsteps s List.mem_cons_self) hx
      refine ih hI' (fun t ht q hq => ?_) hrest
      rcases List.mem_or_eq_of_mem_set ht with ht | rfl
      · exact hp t ht q hq
      · exact Option.some.inj hq ▸ hguard.2 x hgood

end Pool

end SharedNode.Effect
