import SharedNode.Effect.Pool
import SharedNode.Effect.Protocol

/-!
# Interleaved programs that follow protocols

Every task has a protocol its program follows; in a pool each thread is then at a stage of its own
protocol. `Pool.Placed` lists the stages beside the threads, and `Pool.staged_run` is the invariant
rule: a relation `J` between the stages and the shared state that every fitting call keeps holds
after every schedule. A schedule may be restricted by a condition `G` on the state a call is made in
(`Pool.Along`).
-/

namespace SharedNode.Effect

variable {Op : Type} {Ans : Op → Type} {Env σ Task Stage : Type} {Res : Task → Type}

namespace Pool

variable (h : Handler Op Ans Env σ) (code : (τ : Task) → Prog Op Ans (Res τ)) (reboot : σ → σ)

/-- The call that a thread makes next, if it makes one, is as `G` says. -/
def Next (G : Task → Op → Prop) : Option (Thread Op Ans Task Res) → Prop
  | some ⟨τ, some (.call op _)⟩ => G τ op
  | _ => True

/-- A call that an action makes is made in a state, by a task and under a choice as `G` says. -/
def Meets (G : σ → Task → Op → Env → Prop) (p : Pool Op Ans σ Task Res) : Action Env Task → Prop
  | .step i e => Next (fun τ op => G p.state τ op e) p.threads[i]?
  | .spawn _ => True
  | .crash => True

/-- Every call of the schedule is made as `G` says. -/
def Along (G : σ → Task → Op → Env → Prop) : Pool Op Ans σ Task Res → List (Action Env Task) → Prop
  | _, [] => True
  | p, a :: rest => p.Meets G a ∧ Along G (p.act h code reboot a) rest

instance Next.decidable (G : Task → Op → Prop) [∀ τ op, Decidable (G τ op)] :
    (t : Option (Thread Op Ans Task Res)) → Decidable (Next G t)
  | some ⟨τ, some (.call op _)⟩ => inferInstanceAs (Decidable (G τ op))
  | some ⟨_, some (.ret _)⟩ => instDecidableTrue
  | some ⟨_, some .halt⟩ => instDecidableTrue
  | some ⟨_, none⟩ => instDecidableTrue
  | none => instDecidableTrue

instance Meets.decidable (G : σ → Task → Op → Env → Prop) [∀ s τ op e, Decidable (G s τ op e)]
    (p : Pool Op Ans σ Task Res) : (a : Action Env Task) → Decidable (p.Meets G a)
  | .step i e => inferInstanceAs (Decidable (Next (fun τ op => G p.state τ op e) p.threads[i]?))
  | .spawn _ => instDecidableTrue
  | .crash => instDecidableTrue

instance Along.decidable (G : σ → Task → Op → Env → Prop) [∀ s τ op e, Decidable (G s τ op e)] :
    (p : Pool Op Ans σ Task Res) → (actions : List (Action Env Task)) →
      Decidable (Along h code reboot G p actions)
  | _, [] => instDecidableTrue
  | p, a :: rest =>
    have := Along.decidable G (p.act h code reboot a) rest
    inferInstanceAs (Decidable (p.Meets G a ∧ Along h code reboot G (p.act h code reboot a) rest))

structure Placed (P : Task → Protocol Op Ans Stage) (R : (τ : Task) → Res τ → Stage → Prop)
    (p : Pool Op Ans σ Task Res) (parts : List (Task × Stage)) : Prop where
  tasks : parts.map Prod.fst = p.threads.map Sigma.fst
  follows : ∀ {i : Nat} {τ : Task} {q : Prog Op Ans (Res τ)} {st : Stage},
    p.threads[i]? = some ⟨τ, some q⟩ → parts[i]? = some (τ, st) → Follows (P τ) q (R τ) st

variable {h code reboot}
variable {P : Task → Protocol Op Ans Stage} {R : (τ : Task) → Res τ → Stage → Prop}
variable {p : Pool Op Ans σ Task Res} {parts : List (Task × Stage)}

theorem Placed.length_eq (hp : Placed P R p parts) : parts.length = p.threads.length := by
  have h := congrArg List.length hp.tasks
  rwa [List.length_map, List.length_map] at h

theorem Placed.stage (hp : Placed P R p parts) {i : Nat} {τ : Task}
    {q : Option (Prog Op Ans (Res τ))} (hi : p.threads[i]? = some ⟨τ, q⟩) :
    ∃ st, parts[i]? = some (τ, st) := by
  have htask : (parts.map Prod.fst)[i]? = some τ := by
    rw [hp.tasks, List.getElem?_map, hi, Option.map_some]
  rw [List.getElem?_map, Option.map_eq_some_iff] at htask
  obtain ⟨⟨τ', st⟩, hpart, rfl⟩ := htask
  exact ⟨st, hpart⟩

/-- What a thread returned, it returned as `R` says of its stage. -/
theorem Placed.returned (hp : Placed P R p parts) {i : Nat} {τ : Task} {v : Res τ}
    (hi : p.threads[i]? = some ⟨τ, some (.ret v)⟩) : ∃ st, parts[i]? = some (τ, st) ∧ R τ v st := by
  obtain ⟨st, hst⟩ := hp.stage hi
  exact ⟨st, hst, hp.follows hi hst⟩

theorem Placed.spawn (hp : Placed P R p parts) {τ : Task} {st : Stage}
    (hcode : Follows (P τ) (code τ) (R τ) st) :
    Placed P R (p.act h code reboot (.spawn τ)) (parts ++ [(τ, st)]) where
  tasks := by simp only [act, List.map_append, hp.tasks, List.map_cons, List.map_nil]
  follows := by
    intro i τ' q st' hi hpart
    have hlength := hp.length_eq
    by_cases hlt : i < parts.length
    · rw [List.getElem?_append_left hlt] at hpart
      rw [act, List.getElem?_append_left (hlength ▸ hlt)] at hi
      exact hp.follows hi hpart
    · rw [List.getElem?_append_right (by omega)] at hpart
      rw [act, List.getElem?_append_right (by omega), ← hlength] at hi
      have hzero : i - parts.length = 0 := by
        have := (List.getElem?_eq_some_iff.mp hpart).1
        simpa using this
      rw [hzero] at hi hpart
      cases hpart
      obtain ⟨-, hq⟩ := Sigma.mk.inj (Option.some.inj hi)
      obtain rfl := Option.some.inj (eq_of_heq hq)
      exact hcode

theorem Placed.crash (hp : Placed P R p parts) : Placed P R (p.act h code reboot .crash) parts where
  tasks := by
    rw [hp.tasks, act, List.map_map]
    exact List.map_congr_left fun t _ => (Thread.crashed_fst t).symm
  follows := by
    intro i τ q st hi hpart
    rw [act, List.getElem?_map, Option.map_eq_some_iff] at hi
    obtain ⟨t, ht, hcrashed⟩ := hi
    rw [(Thread.eq_of_crashed hcrashed).1] at ht
    exact hp.follows ht hpart

theorem Placed.step (hp : Placed P R p parts) {i : Nat} {τ : Task} {op : Op}
    {k : Ans op → Prog Op Ans (Res τ)} {st : Stage} {x : Ans op} {s : σ}
    (hi : p.threads[i]? = some ⟨τ, some (.call op k)⟩) (hpart : parts[i]? = some (τ, st)) :
    Placed P R ⟨s, p.threads.set i ⟨τ, some (k x)⟩⟩ (parts.set i (τ, (P τ).next st op x)) where
  tasks := by
    rw [List.map_set, List.map_set, hp.tasks]
  follows := by
    intro j τ' q st' hj hst'
    by_cases hij : i = j
    · subst hij
      rw [List.getElem?_set_self (List.getElem?_eq_some_iff.mp hpart).1] at hst'
      rw [List.getElem?_set_self (List.getElem?_eq_some_iff.mp hi).1] at hj
      cases hst'
      obtain ⟨-, hq⟩ := Sigma.mk.inj (Option.some.inj hj)
      obtain rfl := Option.some.inj (eq_of_heq hq)
      exact (hp.follows hi hpart).2 x
    · rw [List.getElem?_set_ne hij] at hj hst'
      exact hp.follows hj hst'

/-- The invariant rule: what every fitting call keeps holds after every schedule. -/
theorem staged_run {G : σ → Task → Op → Env → Prop} {J : List (Task × Stage) → σ → Prop}
    {st₀ : Stage} (hcode : ∀ τ, Follows (P τ) (code τ) (R τ) st₀)
    (hspawn : ∀ parts s τ, J parts s → J (parts ++ [(τ, st₀)]) s)
    (hcrash : ∀ parts s, J parts s → J parts (reboot s))
    (hstep : ∀ parts s i τ st op e x s', J parts s → parts[i]? = some (τ, st) →
      (P τ).fits st op → G s τ op e → h op e s = some (x, s') →
      J (parts.set i (τ, (P τ).next st op x)) s')
    {actions : List (Action Env Task)} (halong : Along h code reboot G p actions)
    (hp : Placed P R p parts) (hJ : J parts p.state) :
    ∃ parts', Placed P R (actions.foldl (act h code reboot) p) parts' ∧
      J parts' (actions.foldl (act h code reboot) p).state := by
  induction actions generalizing p parts with
  | nil => exact ⟨parts, hp, hJ⟩
  | cons a rest ih =>
    rw [List.foldl_cons]
    obtain ⟨hmeets, hrest⟩ := halong
    cases a with
    | spawn τ => exact ih hrest (hp.spawn (hcode τ)) (hspawn parts p.state τ hJ)
    | crash => exact ih hrest hp.crash (hcrash parts p.state hJ)
    | step i e =>
      rcases act_step p i e with hstay | ⟨τ, op, k, x, s, hi, hx, hmove⟩
      · rw [hstay] at hrest ⊢
        exact ih hrest hp hJ
      · rw [hmove] at hrest ⊢
        obtain ⟨st, hst⟩ := hp.stage hi
        have hfits := (hp.follows hi hst).1
        simp only [Meets, Next, hi] at hmeets
        exact ih hrest (hp.step hi hst) (hstep parts p.state i τ st op e x s hJ hst hfits hmeets hx)

end Pool

end SharedNode.Effect
