import SharedNode.Effect.Pool

/-!
# Programs under one lock

`Stays` is a weakest precondition with a crash condition for runs whose calls are made as a guard
`G` says of the state, the call and the choice: the crash condition holds wherever the run is cut,
the postcondition where it returns.

A pool of threads shares one lock. A thread that is `Outside` has returned, waits for the lock, or
makes calls that change nothing; what follows the call that takes the lock is a section, and the
lock is free again where it ends. `Pool.exclusive_run` is the invariant rule: what every section
keeps when it runs on its own (`R` between the sections, `C` within them) holds in every
interleaving with crashes. A schedule may be restricted by `G` for its calls and by `A` for the
states in which it crashes (`Pool.Admitted`).
-/

namespace SharedNode.Effect

variable {Op : Type} {Ans : Op → Type} {Env σ Task α β : Type} {Res : Task → Type}

variable {i : Nat} {p : Prog Op Ans α}

/-! ## Guarded runs -/

/-- From `s`, every run whose calls are made as `G` says ends in `Q` if it returns, and `C` holds
before each of its calls. -/
def Stays (h : Handler Op Ans Env σ) (G : σ → Op → Env → Prop) (C : σ → Prop) :
    Prog Op Ans α → (α → σ → Prop) → σ → Prop
  | .ret a, Q, s => Q a s
  | .halt, _, s => C s
  | .call op k, Q, s => C s ∧ ∀ e x s', G s op e → h op e s = some (x, s') → Stays h G C (k x) Q s'

section Stays

variable {h : Handler Op Ans Env σ} {G : σ → Op → Env → Prop} {C : σ → Prop} {s : σ}

theorem stays_imp {C' : σ → Prop} {Q Q' : α → σ → Prop} (hC : ∀ s, C s → C' s)
    (hQ : ∀ a s, Q a s → Q' a s) (hp : Stays h G C p Q s) : Stays h G C' p Q' s := by
  induction p generalizing s with
  | ret a => exact hQ a s hp
  | call op k ih => exact ⟨hC s hp.1, fun e x s' hG hx => ih x (hp.2 e x s' hG hx)⟩
  | halt => exact hC s hp

theorem stays_mono {Q Q' : α → σ → Prop} (hQ : ∀ a s, Q a s → Q' a s) (hp : Stays h G C p Q s) :
    Stays h G C p Q' s :=
  stays_imp (fun _ hC => hC) hQ hp

theorem stays_bind {f : α → Prog Op Ans β} {Q : β → σ → Prop}
    (hp : Stays h G C p (fun a s => Stays h G C (f a) Q s) s) : Stays h G C (p.bind f) Q s := by
  induction p generalizing s with
  | ret a => exact hp
  | call op k ih => exact ⟨hp.1, fun e x s' hG hx => ih x (hp.2 e x s' hG hx)⟩
  | halt => exact hp

end Stays

/-! ## The lock -/

section Lock

variable (h : Handler Op Ans Env σ) (G : σ → Op → Env → Prop) (free R C : σ → Prop)

/-- What is left of a section: within it the lock is taken, and it is free again at its end. -/
def Section (p : Prog Op Ans α) (s : σ) : Prop :=
  Stays h G (fun s => C s ∧ ¬ free s) p (fun _ s => R s ∧ free s) s

inductive Outside : Prog Op Ans α → Prop
  | ret (a : α) : Outside (.ret a)
  | halt : Outside .halt
  /-- A call that takes the lock, with a section behind it. -/
  | lock {op : Op} {k : Ans op → Prog Op Ans α}
      (hfree : ∀ e s x s', h op e s = some (x, s') → free s)
      (hsection : ∀ e s x s', R s → G s op e → h op e s = some (x, s') →
        Section h G free R C (k x) s') : Outside (.call op k)
  /-- A call that changes nothing. -/
  | look {op : Op} {k : Ans op → Prog Op Ans α}
      (hsame : ∀ e s x s', h op e s = some (x, s') → s' = s) (hk : ∀ x, Outside (k x)) :
      Outside (.call op k)

variable {h G free R C}

theorem outside_of_calls {φ : Op → Prop}
    (hsame : ∀ op e s x s', φ op → h op e s = some (x, s') → s' = s) (hp : p.Calls φ) :
    Outside h G free R C p := by
  induction p with
  | ret a => exact .ret a
  | halt => exact .halt
  | call op k ih => exact .look (fun e s x s' => hsame op e s x s' hp.1) fun x => ih x (hp.2 x)

theorem Section.cases {s : σ} (hp : Section h G free R C p s) :
    (free s ∧ R s ∧ Outside h G free R C p) ∨ (¬ free s ∧ C s) := by
  cases p with
  | ret a => exact Or.inl ⟨hp.2, hp.1, .ret a⟩
  | call op k => exact Or.inr ⟨hp.1.2, hp.1.1⟩
  | halt => exact Or.inr ⟨hp.2, hp.1⟩

end Lock

namespace Pool

variable (h : Handler Op Ans Env σ) (code : (τ : Task) → Prog Op Ans (Res τ)) (reboot : σ → σ)

/-- A call of the action is made as `G` says, and a crash happens in a state of `A`. -/
def Admits (G : σ → Op → Env → Prop) (A : σ → Prop) (p : Pool Op Ans σ Task Res) :
    Action Env Task → Prop
  | .spawn _ => True
  | .step i e => ∀ τ op k, p.threads[i]? = some ⟨τ, some (.call op k)⟩ → G p.state op e
  | .crash => A p.state

def Admitted (G : σ → Op → Env → Prop) (A : σ → Prop) :
    Pool Op Ans σ Task Res → List (Action Env Task) → Prop
  | _, [] => True
  | p, a :: rest => p.Admits G A a ∧ Admitted G A (p.act h code reboot a) rest

/-- The threads but `i` are outside. -/
def Others (G : σ → Op → Env → Prop) (free R C : σ → Prop) (p : Pool Op Ans σ Task Res) (i : Nat) :
    Prop :=
  ∀ j τ q, j ≠ i → p.threads[j]? = some ⟨τ, some q⟩ → Outside h G free R C q

inductive Exclusive (G : σ → Op → Env → Prop) (free R C : σ → Prop) (p : Pool Op Ans σ Task Res) :
    Prop
  | rest (hfree : free p.state) (hrest : R p.state)
      (hthreads : ∀ (i : Nat) τ q, p.threads[i]? = some ⟨τ, some q⟩ → Outside h G free R C q)
  | inside (i : Nat) (τ : Task) (q : Prog Op Ans (Res τ))
      (hi : p.threads[i]? = some ⟨τ, some q⟩) (htaken : ¬ free p.state)
      (hsection : Section h G free R C q p.state) (hothers : Others h G free R C p i)

variable {h code reboot} {G : σ → Op → Env → Prop} {A free R C : σ → Prop}
variable {p : Pool Op Ans σ Task Res}

theorem Exclusive.crash_condition (hp : Exclusive h G free R C p) (hRC : ∀ s, R s → C s) :
    C p.state := by
  cases hp with
  | rest hfree hrest hthreads => exact hRC _ hrest
  | inside i τ q hi htaken hsection hothers =>
    rcases hsection.cases with ⟨hfree, -⟩ | ⟨-, hC⟩
    · exact absurd hfree htaken
    · exact hC

/-- A thread after another one or itself has moved to a program that is outside. -/
theorem outside_of_set {threads : List (Thread Op Ans Task Res)} {j : Nat} {τ τ' : Task}
    {q' : Prog Op Ans (Res τ)} {r : Prog Op Ans (Res τ')} (hq' : Outside h G free R C q')
    (hother : j ≠ i → threads[j]? = some ⟨τ', some r⟩ → Outside h G free R C r)
    (hj : (threads.set i ⟨τ, some q'⟩)[j]? = some ⟨τ', some r⟩) : Outside h G free R C r := by
  by_cases hij : i = j
  · subst hij
    have hlt : i < threads.length := by
      simpa using (List.getElem?_eq_some_iff.mp hj).1
    rw [List.getElem?_set_self hlt] at hj
    obtain ⟨rfl, hr⟩ := Sigma.mk.inj (Option.some.inj hj)
    exact Option.some.inj (eq_of_heq hr) ▸ hq'
  · rw [List.getElem?_set_ne hij] at hj
    exact hother (Ne.symm hij) hj

/-- One thread has moved to what is left of its section; the others are outside. -/
theorem Exclusive.moved {τ : Task} {q q' : Prog Op Ans (Res τ)} {s : σ}
    (hi : p.threads[i]? = some ⟨τ, some q⟩) (hothers : Others h G free R C p i)
    (hsection : Section h G free R C q' s) :
    Exclusive h G free R C ⟨s, p.threads.set i ⟨τ, some q'⟩⟩ := by
  rcases hsection.cases with ⟨hfree, hrest, houtside⟩ | ⟨htaken, -⟩
  · exact .rest hfree hrest fun j τ' r hj => outside_of_set houtside (hothers j τ' r) hj
  · refine .inside i τ q' (List.getElem?_set_self (List.getElem?_eq_some_iff.mp hi).1) htaken
      hsection fun j τ' r hj hjr => ?_
    rw [List.getElem?_set_ne hj.symm] at hjr
    exact hothers j τ' r hj hjr

variable (hRC : ∀ s, R s → C s) (hcode : ∀ τ, Outside h G free R C (code τ))
  (hcrash : ∀ s, C s → A s → R (reboot s) ∧ free (reboot s))

theorem Exclusive.step (hp : Exclusive h G free R C p) {e : Env}
    (hadmits : p.Admits G A (.step i e)) :
    Exclusive h G free R C (p.act h code reboot (.step i e)) := by
  rcases act_step p i e with hstay | ⟨τ, op, k, x, s, hi, hx, hmove⟩
  · rw [hstay]
    exact hp
  rw [hmove]
  have hG := hadmits τ op k hi
  cases hp with
  | rest hfree hrest hthreads =>
    cases hthreads i τ _ hi with
    | lock _ hsection =>
      exact .moved hi (fun j τ' r _ hj => hthreads j τ' r hj) (hsection e _ x s hrest hG hx)
    | look hsame hk =>
      obtain rfl := hsame e _ x s hx
      exact .rest hfree hrest fun j τ' r hj => outside_of_set (hk x) (fun _ => hthreads j τ' r) hj
  | inside i₀ τ₀ q₀ hi₀ htaken hsection hothers =>
    by_cases hij : i = i₀
    · subst hij
      obtain ⟨rfl, hq⟩ := Sigma.mk.inj (Option.mem_unique hi hi₀)
      obtain rfl := Option.some.inj (eq_of_heq hq)
      exact .moved hi hothers (hsection.2 e x s hG hx)
    · cases hothers i τ _ hij hi with
      | lock hfree _ => exact absurd (hfree e _ x s hx) htaken
      | look hsame hk =>
        obtain rfl := hsame e _ x s hx
        exact .inside i₀ τ₀ q₀ ((List.getElem?_set_ne hij).trans hi₀) htaken hsection
          fun j τ' r hj => outside_of_set (hk x) fun _ => hothers j τ' r hj

include hcode in
theorem Exclusive.spawn (hp : Exclusive h G free R C p) (τ : Task) :
    Exclusive h G free R C (p.act h code reboot (.spawn τ)) := by
  have hnew {j : Nat} {τ' : Task} {r : Prog Op Ans (Res τ')}
      (hother : p.threads[j]? = some ⟨τ', some r⟩ → Outside h G free R C r)
      (hj : (p.threads ++ [⟨τ, some (code τ)⟩])[j]? = some ⟨τ', some r⟩) :
      Outside h G free R C r := by
    by_cases hlt : j < p.threads.length
    · rw [List.getElem?_append_left hlt] at hj
      exact hother hj
    · rw [List.getElem?_append_right (by omega)] at hj
      obtain ⟨rfl, hr⟩ := Sigma.mk.inj (List.mem_singleton.mp (List.mem_of_getElem? hj))
      exact Option.some.inj (eq_of_heq hr) ▸ hcode _
  cases hp with
  | rest hfree hrest hthreads =>
    exact .rest hfree hrest fun j τ' r hj => hnew (hthreads j τ' r) hj
  | inside i₀ τ₀ q₀ hi₀ htaken hsection hothers =>
    exact .inside i₀ τ₀ q₀
      ((List.getElem?_append_left (List.getElem?_eq_some_iff.mp hi₀).1).trans hi₀) htaken hsection
      fun j τ' r hj => hnew (hothers j τ' r hj)

include hRC hcrash in
theorem Exclusive.crash (hp : Exclusive h G free R C p) (hadmits : p.Admits G A .crash) :
    Exclusive h G free R C (p.act h code reboot .crash) := by
  obtain ⟨hrest, hfree⟩ := hcrash p.state (hp.crash_condition hRC) hadmits
  refine .rest hfree hrest fun j τ r hj => ?_
  rw [act, List.getElem?_map, Option.map_eq_some_iff] at hj
  obtain ⟨t, -, ht⟩ := hj
  obtain ⟨-, v, rfl⟩ := Thread.eq_of_crashed ht
  exact .ret v

include hRC hcode hcrash in
/-- **The invariant rule.** What the sections keep one at a time holds after every admitted
schedule. -/
theorem exclusive_run {actions : List (Action Env Task)}
    (hactions : Admitted h code reboot G A p actions) (hp : Exclusive h G free R C p) :
    Exclusive h G free R C (actions.foldl (act h code reboot) p) := by
  induction actions generalizing p with
  | nil => exact hp
  | cons a rest ih =>
    refine ih hactions.2 ?_
    cases a with
    | spawn τ => exact hp.spawn hcode τ
    | step i e => exact hp.step hactions.1
    | crash => exact hp.crash hRC hcrash hactions.1

end Pool

end SharedNode.Effect
