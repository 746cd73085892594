import SharedNode.Effect.Pool
import SharedNode.Agent.Conduct

/-!
# Replays of a finished command

Interleaved calls of `Executor.Execute` (`internal/agent/executor.go`), with the other users of the
store and restarts in between. Once a final result of a command is in the state file, every
`Execute` of the command that is running or comes later reads it and returns it
(`finished_command_replays`). It makes no call but lookups, locks and unlocks.

* `Task` are the calls that share the executor: `Execute`, `MarkStoppedReported`, the lease writes,
  the write through the result pointer, `Reconcile`. `Release` takes the same locks and stores no
  result; it is left out.
* `Fits` gives the form of a thread between two calls, and whether it holds its service's mutex. In
  its critical section, past the second lookup, a command is pending until the thread itself
  commits.
* An `Execute` that cannot get the file lock returns that error instead of the result
  (`waiting_execute_returns_lock_error`).
-/

namespace SharedNode.Agent

open ControlPlane Effect Prog

/-! ## Tasks -/

/-- The calls that share an executor. -/
inductive Task where
  | execute (c : Command)
  | markStoppedReported (serviceID assignmentID : String)
  | trackLease (commandID : String) (lease : CommandLease)
  | clearLease (commandID : String)
  | stamp (commandID : String) (lease : CommandLease)
  | reconcile

abbrev Task.Res : Task → Type
  | .execute _ => Except AgentError CommandResult
  | _ => Except AgentError Unit

def Task.code (nodeID : String) : (τ : Task) → M τ.Res
  | .execute c => Executor.Execute nodeID c
  | .markStoppedReported svc asg => Executor.markStoppedReported svc asg
  | .trackLease id lease => Executor.trackLease id lease
  | .clearLease id => Executor.clearLease id
  | .stamp id lease => do
    let _ ← ask (.stamp id lease)
    ret (.ok ())
  | .reconcile => Executor.reconcile

/-- A pool of such tasks on a node. -/
abbrev Agents := Pool Op Ans World Task Task.Res

/-- The pool after a schedule, from an empty store. -/
def Agents.run (nodeID : String) (actions : List (Action Env Task)) : Agents :=
  Pool.run handle (Task.code nodeID) World.reboot {} actions

def Agents.act (nodeID : String) (p : Agents) (a : Action Env Task) : Agents :=
  Pool.act handle (Task.code nodeID) World.reboot p a

/-! ## The form of a thread -/

/-- The calls of `execute`: lookups and writes of the active entry, the workspace and the
container. -/
def Op.bodily : Op → Prop
  | .active _ | .setActive .. | .path _ | .restore _ | .start .. | .stop _ | .sync _ => True
  | _ => False

/-- The calls of the tasks without a lock: none of them locks or commits. -/
def Op.unlocked : Op → Prop
  | .active _ | .setActive .. | .setLease .. | .clearLease _ | .stamp .. | .running
  | .removeOrphan _ => True
  | _ => False

/-- What is left of the critical section past the second lookup: bodily calls, and at most one
commit, which is the last. -/
inductive Body (c : Command) : M (Except AgentError CommandResult) → Prop where
  | ret (v : Except AgentError CommandResult) : Body c (.ret v)
  | halt : Body c .halt
  | call {op : Op} {k : Ans op → M (Except AgentError CommandResult)} (hop : op.bodily)
      (hk : ∀ x, Body c (k x)) : Body c (.call op k)
  | commit {svc : String} {r : CommandResult} {a : Option ActiveAssignment}
      {k : Except String Unit → M (Except AgentError CommandResult)}
      (hok : k (.ok ()) = .ret (.ok r)) : Body c (.call (.commit c.commandID svc r a) k)

variable {c : Command} {L : String → Prop} {e : Env} {w w' : World} {nodeID : String} {b : Bool}
  {op : Op} {x : Ans op} {k : Ans op → M (Except AgentError CommandResult)}

theorem Body.bind {α : Type} {p : M α} {f : α → M (Except AgentError CommandResult)}
    (hp : p.Calls Op.bodily) (hf : ∀ a, Body c (f a)) : Body c (p.bind f) := by
  induction p with
  | ret a => exact hf a
  | call op k ih => exact .call hp.1 fun x => ih x (hp.2 x)
  | halt => exact .halt

theorem startContainer_bodily (c : Command) (path : String) :
    (Executor.startContainer c path).Calls Op.bodily := by
  refine ⟨trivial, fun started => ?_⟩
  cases started <;> trivial

theorem startRestored_bodily (c : Command) (active : Option ActiveAssignment) (path : String) :
    (Executor.startRestored c active path).Calls Op.bodily := by
  unfold Executor.startRestored
  split
  · exact startContainer_bodily c path
  · refine ⟨trivial, fun stored => ?_⟩
    cases stored with
    | error err => trivial
    | ok u => exact startContainer_bodily c path

theorem restoreAndStart_bodily (c : Command) (active : Option ActiveAssignment) :
    (Executor.restoreAndStart c active).Calls Op.bodily := by
  unfold Executor.restoreAndStart
  split
  · trivial
  split
  · trivial
  split
  · trivial
  split <;>
  · refine ⟨trivial, fun path => ?_⟩
    cases path with
    | error err => trivial
    | ok path => exact startRestored_bodily c active path

theorem stopAndSync_bodily (c : Command) (active : Option ActiveAssignment) :
    (Executor.stopAndSync c active).Calls Op.bodily := by
  cases active with
  | none => trivial
  | some a =>
    simp only [Executor.stopAndSync]
    split
    · trivial
    split
    · refine ⟨trivial, fun stopped => ?_⟩
      cases stopped <;> trivial
    split
    · trivial
    · refine ⟨trivial, fun synced => ?_⟩
      cases synced <;> trivial

theorem execute_bodily (nodeID : String) (c : Command) :
    (Executor.execute nodeID c).Calls Op.bodily := by
  unfold Executor.execute Executor.currentActive
  split
  · exact ⟨trivial, fun _ => trivial⟩
  split
  · exact ⟨trivial, fun _ => trivial⟩
  refine ⟨trivial, fun active => ?_⟩
  cases c.kind with
  | restoreAndStart => exact restoreAndStart_bodily c active
  | stopAndSync => exact stopAndSync_bodily c active
  | other kind => trivial

theorem body_execute (nodeID : String) (c : Command) :
    Body c ((Executor.execute nodeID c).bind (Executor.record c)) := by
  refine Body.bind (execute_bodily nodeID c) fun outcome => ?_
  match outcome with
  | .error err => exact .ret _
  | .ok (res, active) =>
    by_cases hs : res.status = .stopped
    · cases active with
      | none =>
        have hst : Executor.store c res none = ask (.commit c.commandID c.serviceID res none) := rfl
        exact .commit rfl
      | some a =>
        simp only [Executor.record, Executor.store, hs]
        refine .call trivial fun stored => ?_
        cases stored <;> exact .ret _
    · simp only [Executor.record, Executor.store_of_ne_stopped hs]
      exact .commit rfl

/-- The stored result of the command is the one in `v`, in all persisted fields. -/
def Replayed (c : Command) (w : World) (v : Except AgentError CommandResult) : Prop :=
  ∃ r, v = .ok r ∧
    (w.store.mem.results c.commandID).map CommandResult.persisted = some r.persisted

/-- What a thread on its way out of the critical section returns: anything while the command is
pending, else the stored result or the error `L` of a file lock. -/
def Settled (L : String → Prop) (c : Command) (w : World)
    (v : Except AgentError CommandResult) : Prop :=
  Pending c w ∨ (∃ err, v = .error (.plain err) ∧ L err) ∨ Replayed c w v

/-- The form of an `Execute` between two calls, and whether it holds the mutex. -/
inductive Form (nodeID : String) (L : String → Prop) (c : Command) (w : World) :
    M (Except AgentError CommandResult) → Bool → Prop where
  | arriving {p : M (Except AgentError CommandResult)} (hp : p = Executor.Execute nodeID c) :
      Form nodeID L c w p false
  | waiting {p : M (Except AgentError CommandResult)}
      (hp : p = Executor.underLock c.serviceID (Executor.executeLocked nodeID c)) :
      Form nodeID L c w p false
  | locked {p : M (Except AgentError CommandResult)}
      (hp : p = (ask (.lockFile c.serviceID)).bind
        (Executor.enter c.serviceID (Executor.executeLocked nodeID c))) :
      Form nodeID L c w p true
  | checking {p : M (Except AgentError CommandResult)}
      (hp : p = (Executor.executeLocked nodeID c).bind (Executor.leave c.serviceID)) :
      Form nodeID L c w p true
  | working {p b : M (Except AgentError CommandResult)} (hb : Body c b) (hpend : Pending c w)
      (hp : p = b.bind (Executor.leave c.serviceID)) : Form nodeID L c w p true
  | leaving {p : M (Except AgentError CommandResult)} {v : Except AgentError CommandResult}
      (hv : Settled L c w v) (hp : p = Executor.leave c.serviceID v) : Form nodeID L c w p true
  | left {p : M (Except AgentError CommandResult)} {v : Except AgentError CommandResult}
      (hv : Settled L c w v) (hp : p = (ask (.unlockService c.serviceID)).bind fun _ => ret v) :
      Form nodeID L c w p true
  | returned {p : M (Except AgentError CommandResult)} {v : Except AgentError CommandResult}
      (hp : p = .ret v) : Form nodeID L c w p false

/-- What one call does to the mutex of a command's service. -/
inductive LockStep (c : Command) : Op → Bool → Bool → Prop where
  | lock : LockStep c (.lockService c.serviceID) false true
  | unlock : LockStep c (.unlockService c.serviceID) true false
  | keep {op : Op} (b : Bool) (hl : ∀ svc, op ≠ .lockService svc)
      (hu : ∀ svc, op ≠ .unlockService svc)
      (hc : ∀ id svc r a, op = .commit id svc r a → b = true ∧ id = c.commandID) :
      LockStep c op b b

/-- The choices of a schedule: store writes succeed, lease renewals are tasks of their own, and the
file lock fails with errors in `L` only. -/
def Calm (L : String → Prop) (e : Env) : Prop :=
  e.write = none ∧ e.renewal = .quiet ∧ ∀ err, e.lock = some err → L err

theorem Calm.durable (h : Calm L e) : e.Durable :=
  ⟨h.1, fun _ _ hr => absurd (h.2.1.symm.trans hr) (by simp)⟩

/-- The persisted fields of the command's result are the same. -/
def SameResult (c : Command) (w w' : World) : Prop :=
  (w'.store.mem.results c.commandID).map CommandResult.persisted =
    (w.store.mem.results c.commandID).map CommandResult.persisted

theorem Pending.same (h : Pending c w) (hs : SameResult c w w') : Pending c w' := by
  refine Option.filter_eq_none_iff.mpr fun r hr => ?_
  have hp := hs
  rw [SameResult, hr, Option.map_some] at hp
  obtain ⟨r₀, h₀, hr₀⟩ := Option.map_eq_some_iff.mp hp.symm
  rw [← r.persisted_final, ← hr₀, r₀.persisted_final]
  exact Option.filter_eq_none_iff.mp h r₀ h₀

theorem Settled.same
    {v : Except AgentError CommandResult} (h : Settled L c w v) (hs : SameResult c w w') :
    Settled L c w' v := by
  rcases h with hp | herr | ⟨r, hv, hr⟩
  · exact Or.inl (hp.same hs)
  · exact Or.inr (Or.inl herr)
  · exact Or.inr (Or.inr ⟨r, hv, hs.trans hr⟩)

theorem Form.same {p : M (Except AgentError CommandResult)} (h : Form nodeID L c w p b)
    (hs : SameResult c w w') : Form nodeID L c w' p b := by
  cases h with
  | arriving hp => exact .arriving hp
  | waiting hp => exact .waiting hp
  | locked hp => exact .locked hp
  | checking hp => exact .checking hp
  | working hb hpend hp => exact .working hb (hpend.same hs) hp
  | leaving hv hp => exact .leaving (hv.same hs) hp
  | left hv hp => exact .left (hv.same hs) hp
  | returned hp => exact .returned hp

/-- A thread outside the critical section keeps its form whatever happens to the store. -/
theorem Form.outside {p : M (Except AgentError CommandResult)} (h : Form nodeID L c w p false) :
    Form nodeID L c w' p false := by
  cases h with
  | arriving hp => exact .arriving hp
  | waiting hp => exact .waiting hp
  | returned hp => exact .returned hp

theorem body_step {b : M (Except AgentError CommandResult)} (hb : Body c b) (hpend : Pending c w)
    (he : Calm L e) (hp : .call op k = b.bind (Executor.leave c.serviceID))
    (hh : handle op e w = some (x, w')) :
    Form nodeID L c w' (k x) true ∧ LockStep c op true true := by
  cases hb with
  | ret v =>
    -- the body is done: this is the first of the two unlocks
    cases hp
    refine ⟨.left (Or.inl (hpend.step hh (by simp))) rfl, .keep true (by simp) (by simp) (by simp)⟩
  | halt => cases hp
  | @call op' k' hop hk =>
    cases hp
    have hne : ∀ id svc r a, op ≠ .commit id svc r a := by
      rintro id svc r a rfl
      exact hop
    refine ⟨.working (hk x) (hpend.step hh hne) rfl, .keep true ?_ ?_ fun id svc r a h => ?_⟩
    · rintro svc rfl
      exact hop
    · rintro svc rfl
      exact hop
    · exact absurd h (hne id svc r a)
  | @commit svc r a k' hok =>
    cases hp
    have hx : x = .ok () := handle_commit_reply he.durable hh
    subst hx
    refine ⟨.leaving (v := .ok r) (Or.inr (Or.inr ⟨r, rfl, ?_⟩))
      (congrArg (Prog.bind · (Executor.leave c.serviceID)) hok),
      .keep true (by simp) (by simp) fun id svc' r' a' h => ?_⟩
    · rw [handle_results hh]
      simp [Op.onResults]
    · injection h with h
      exact ⟨rfl, h.symm⟩

/-- The lookups, locks and unlocks: the calls of a replayed command. -/
def Op.passive : Op → Prop
  | .result _ | .lockService _ | .unlockService _ | .lockFile _ | .unlockFile _ => True
  | _ => False

theorem lookup_cases {x : Option CommandResult}
    (hh : handle (.result c.commandID) e w = some (x, w')) :
    (∃ r, Executor.cached x = some r ∧ Replayed c w' (.ok r)) ∨
      Executor.cached x = none ∧ Pending c w' := by
  have hx : x = w'.store.mem.results c.commandID := by
    rw [handle_result_reply hh, handle_results hh]
    rfl
  subst hx
  cases hc : Executor.cached (w'.store.mem.results c.commandID) with
  | none => exact Or.inr ⟨rfl, hc⟩
  | some r =>
    refine Or.inl ⟨r, rfl, r, rfl, ?_⟩
    rw [(Option.filter_eq_some_iff.mp hc).1]
    rfl

theorem Form.step
    (h : Form nodeID L c w (.call op k) b) (he : Calm L e) (hh : handle op e w = some (x, w')) :
    ∃ b', Form nodeID L c w' (k x) b' ∧ LockStep c op b b' := by
  cases h with
  | arriving hp =>
    cases hp
    refine ⟨false, ?_, .keep false (by simp) (by simp) (by simp)⟩
    rcases lookup_cases hh with ⟨r, hr, -⟩ | ⟨hr, -⟩
    · exact .returned (v := .ok r) (by simp [hr])
    · exact .waiting (by simp [hr])
  | waiting hp =>
    cases hp
    exact ⟨true, .locked rfl, .lock⟩
  | locked hp =>
    cases hp
    refine ⟨true, ?_, .keep true (by simp) (by simp) (by simp)⟩
    have hx : x = outcome e.lock := (handle_eq_some.mp hh).2.1
    cases hl : e.lock with
    | none =>
      rw [hl] at hx
      subst hx
      exact .checking rfl
    | some err =>
      rw [hl] at hx
      subst hx
      exact .left (v := .error (.plain err)) (Or.inr (Or.inl ⟨err, rfl, he.2.2 err hl⟩)) rfl
  | checking hp =>
    cases hp
    refine ⟨true, ?_, .keep true (by simp) (by simp) (by simp)⟩
    rcases lookup_cases hh with ⟨r, hr, hrep⟩ | ⟨hr, hpend⟩
    · exact .leaving (v := .ok r) (Or.inr (Or.inr hrep)) (by simp [hr])
    · exact .working (body_execute nodeID c) hpend (by simp [hr])
  | working hb hpend hp => exact ⟨true, body_step hb hpend he hp hh⟩
  | leaving hv hp =>
    cases hp
    exact ⟨true, .left (hv.same (handle_results_same hh (by simp))) rfl,
      .keep true (by simp) (by simp) (by simp)⟩
  | left hv hp =>
    cases hp
    exact ⟨false, .returned rfl, .unlock⟩
  | returned hp => cases hp

/-- Once its command is finished, an `Execute` only looks up, locks and unlocks. -/
theorem Form.passive
    (h : Form nodeID L c w (.call op k) b) (hfin : ¬ Pending c w) : op.passive := by
  cases h with
  | arriving hp | waiting hp | locked hp | checking hp | leaving hv hp | left hv hp =>
    cases hp
    trivial
  | working hb hpend hp => exact absurd hpend hfin
  | returned hp => cases hp

theorem Form.answer {v : Except AgentError CommandResult} (h : Form nodeID L c w (.call op k) b)
    (hfin : ¬ Pending c w) (hh : handle op e w = some (x, w')) (hk : k x = .ret v) :
    (∃ err, v = .error (.plain err) ∧ L err) ∨ Replayed c w' v := by
  cases h with
  | arriving hp =>
    cases hp
    rcases lookup_cases hh with ⟨r, hr, hrep⟩ | ⟨hr, -⟩
    · simp only [hr, ret_bind] at hk
      cases hk
      exact Or.inr hrep
    · simp [hr, Executor.underLock] at hk
  | waiting hp => cases hp; cases hk
  | locked hp =>
    cases hp
    cases x <;> simp [Executor.enter, Executor.executeLocked] at hk
  | checking hp =>
    cases hp
    rcases lookup_cases hh with ⟨r, hr, -⟩ | ⟨hr, hpend⟩
    · simp [hr, Executor.leave] at hk
    · exact absurd (hpend.same (handle_results_same hh (by simp)).symm) hfin
  | working hb hpend hp => exact absurd hpend hfin
  | leaving hv hp => cases hp; cases hk
  | left hv hp =>
    cases hp
    cases hk
    exact (hv.same (handle_results_same hh (by simp))).resolve_left fun hp =>
      hfin (hp.same (handle_results_same hh (by simp)).symm)
  | returned hp => cases hp

/-! ## Pools -/

/-- The form of a thread in a pool, and whether it holds its service's mutex. -/
def Fits (nodeID : String) (L : String → Prop) (w : World) :
    Thread Op Ans Task Task.Res → Bool → Prop
  | ⟨_, none⟩, b => b = false
  | ⟨.execute c, some p⟩, b => Form nodeID L c w p b
  | ⟨_, some p⟩, b => b = false ∧ p.Calls Op.unlocked

/-- A schedule's actions: commands from `S`, and the choices of thread `i` calm for `L i`. -/
def Admitted (S : Command → Prop) (L : Nat → String → Prop) : Action Env Task → Prop
  | .spawn (.execute c) => S c
  | .spawn _ => True
  | .step i e => Calm (L i) e
  | .crash => True

/-- Thread `i` is an `Execute` of `c`. -/
def Runs (p : Agents) (i : Nat) (c : Command) : Prop :=
  ∃ rest : Option (M (Except AgentError CommandResult)), p.threads[i]? = some ⟨.execute c, rest⟩

/-- The invariant of a pool; `held` are the threads that hold their service's mutex. -/
structure PoolInv (nodeID : String) (S : Command → Prop) (L : Nat → String → Prop) (p : Agents)
    (held : Nat → Bool) : Prop where
  saved : p.state.store.Saved
  fits : ∀ i t, p.threads[i]? = some t → Fits nodeID (L i) p.state t (held i)
  mutex : ∀ i c, Runs p i c → held i = true → p.state.mutex c.serviceID = true
  alone : ∀ i j c d, Runs p i c → Runs p j d → held i = true → held j = true →
    c.serviceID = d.serviceID → i = j
  spawned : ∀ i c, Runs p i c → S c

section
variable {nodeID : String} {S : Command → Prop} {L : Nat → String → Prop} {p : Agents}
  {held : Nat → Bool}

theorem reconcileServices_unlocked (services : List RunningService) :
    (Executor.reconcileServices services).Calls Op.unlocked := by
  induction services with
  | nil => trivial
  | cons service rest ih =>
    refine ⟨trivial, fun active => ?_⟩
    simp only [Prog.ret_bind]
    split
    · refine ⟨trivial, fun removed => ?_⟩
      cases removed with
      | error err => trivial
      | ok u => exact ih
    · split
      · refine ⟨trivial, fun stored => ?_⟩
        cases stored with
        | error err => trivial
        | ok u => exact ih
      · exact ih

theorem fits_code (w : World) (L : String → Prop) (τ : Task) :
    Fits nodeID L w ⟨τ, some (τ.code nodeID)⟩ false := by
  cases τ with
  | execute c => exact Form.arriving rfl
  | markStoppedReported svc asg =>
    refine ⟨rfl, trivial, fun active => ?_⟩
    simp only [Prog.ret_bind]
    split
    · trivial
    · exact ⟨trivial, fun _ => trivial⟩
  | trackLease id lease =>
    refine ⟨rfl, ?_⟩
    simp only [Task.code, Executor.trackLease]
    split
    · trivial
    · exact ⟨trivial, fun _ => trivial⟩
  | clearLease id | stamp id lease => exact ⟨rfl, trivial, fun _ => trivial⟩
  | reconcile =>
    refine ⟨rfl, trivial, fun running => ?_⟩
    cases running with
    | error err => trivial
    | ok services => exact reconcileServices_unlocked services

variable {τ : Task} {i : Nat} {t : Thread Op Ans Task Task.Res} {c : Command} {w : World} {b : Bool}
  {op : Op} {e : Env} {x : Ans op} {r : CommandResult} {id : String} {p₀ : Agents}

theorem threads_spawn (h : (p.act nodeID (.spawn τ)).threads[i]? = some t) :
    i < p.threads.length ∧ p.threads[i]? = some t ∨
      i = p.threads.length ∧ t = ⟨τ, some (τ.code nodeID)⟩ := by
  have h : (p.threads ++ [⟨τ, some (τ.code nodeID)⟩])[i]? = some t := h
  rcases Nat.lt_trichotomy i p.threads.length with hi | hi | hi
  · rw [List.getElem?_append_left hi] at h
    exact Or.inl ⟨hi, h⟩
  · subst hi
    simp only [List.getElem?_concat_length, Option.some.injEq] at h
    exact Or.inr ⟨rfl, h.symm⟩
  · rw [List.getElem?_eq_none (by simpa using Nat.succ_le_of_lt hi)] at h
    cases h

theorem PoolInv.spawn (h : PoolInv nodeID S L p held) (hτ : Admitted S L (.spawn τ)) :
    PoolInv nodeID S L (p.act nodeID (.spawn τ)) (Function.update held p.threads.length false) := by
  have hold : ∀ i c, Runs (p.act nodeID (.spawn τ)) i c →
      Function.update held p.threads.length false i = true → Runs p i c ∧ held i = true := by
    rintro i c ⟨rest, hi⟩ hheld
    rcases threads_spawn hi with ⟨hlt, hi⟩ | ⟨rfl, -⟩
    · rw [Function.update_of_ne (Nat.ne_of_lt hlt)] at hheld
      exact ⟨⟨rest, hi⟩, hheld⟩
    · simp at hheld
  refine ⟨h.saved, fun i t hi => ?_, fun i c hr hheld => ?_, fun i j c d hi hj hhi hhj => ?_,
    fun i c hr => ?_⟩
  · rcases threads_spawn hi with ⟨hlt, hi⟩ | ⟨rfl, rfl⟩
    · rw [Function.update_of_ne (Nat.ne_of_lt hlt)]
      exact h.fits i t hi
    · rw [Function.update_self]
      exact fits_code _ _ τ
  · obtain ⟨hr, hheld⟩ := hold i c hr hheld
    exact h.mutex i c hr hheld
  · obtain ⟨hi, hhi⟩ := hold i c hi hhi
    obtain ⟨hj, hhj⟩ := hold j d hj hhj
    exact h.alone i j c d hi hj hhi hhj
  · obtain ⟨rest, hi⟩ := hr
    rcases threads_spawn hi with ⟨hlt, hi⟩ | ⟨rfl, ht⟩
    · exact h.spawned i c ⟨rest, hi⟩
    · cases ht
      exact hτ

/-- A thread of the pool after a crash: it returned before, or it is dead. -/
theorem threads_crash (h : (p.act nodeID .crash).threads[i]? = some t) :
    ∃ t₀, p.threads[i]? = some t₀ ∧ t = t₀.crashed := by
  have h : (p.threads.map Thread.crashed)[i]? = some t := h
  rw [List.getElem?_map] at h
  obtain ⟨t₀, h₀, rfl⟩ := Option.map_eq_some_iff.mp h
  exact ⟨t₀, h₀, rfl⟩

theorem runs_crash (h : Runs (p.act nodeID .crash) i c) : Runs p i c := by
  obtain ⟨rest, hi⟩ := h
  obtain ⟨⟨τ, o⟩, h₀, ht⟩ := threads_crash hi
  obtain rfl : .execute c = τ := (congrArg Sigma.fst ht).trans (Thread.crashed_fst _)
  exact ⟨o, h₀⟩

theorem Fits.crashed {M : String → Prop} {w' : World}
    (h : Fits nodeID M w t b) : Fits nodeID M w' t.crashed false := by
  match t with
  | ⟨τ, some (.ret v)⟩ =>
    cases τ with
    | execute c => exact Form.returned rfl
    | _ => exact ⟨rfl, trivial⟩
  | ⟨τ, some (.call op k)⟩ | ⟨τ, some .halt⟩ | ⟨τ, none⟩ => exact rfl

/-- After a crash no lock is held and every thread is dead or done. -/
theorem PoolInv.crash (h : PoolInv nodeID S L p held) :
    PoolInv nodeID S L (p.act nodeID .crash) fun _ => false := by
  refine ⟨?_, fun i t hi => ?_, by simp,
    by simp, fun i c hr => h.spawned i c (runs_crash hr)⟩
  · exact h.saved.reload
  · obtain ⟨t₀, h₀, rfl⟩ := threads_crash hi
    exact (h.fits i t₀ h₀).crashed

/-- A thread keeps its form through the call of another one, unless that commits a result of the
command whose critical section the thread is in. -/
theorem Fits.frame {M : String → Prop} {w' : World} (h : Fits nodeID M w t b)
    (hh : handle op e w = some (x, w'))
    (hop : ∀ c, t.1 = .execute c → b = true → ∀ svc r a, op ≠ .commit c.commandID svc r a) :
    Fits nodeID M w' t b := by
  match t with
  | ⟨τ, none⟩ => exact h
  | ⟨.execute c, some rest⟩ =>
    cases b with
    | false => exact Form.outside h
    | true => exact Form.same h (handle_results_same hh (hop c rfl rfl))
  | ⟨.markStoppedReported .., some rest⟩ | ⟨.trackLease .., some rest⟩
  | ⟨.clearLease _, some rest⟩ | ⟨.stamp .., some rest⟩ | ⟨.reconcile, some rest⟩ => exact h

theorem PoolInv.moved (h : PoolInv nodeID S L p held) {o rest : Option (M τ.Res)}
    (hi : p.threads[i]? = some ⟨τ, o⟩) (he : e.Durable) (hh : handle op e p.state = some (x, w))
    (hfit : Fits nodeID (L i) w ⟨τ, rest⟩ b)
    (hcommit : ∀ j d, Runs p j d → j ≠ i → held j = true →
      ∀ svc r a, op ≠ .commit d.commandID svc r a)
    (hmutex : ∀ j d, Runs p j d → j ≠ i → held j = true → w.mutex d.serviceID = true)
    (hown : ∀ c, τ = .execute c → b = true → w.mutex c.serviceID = true ∧
      ∀ j d, Runs p j d → j ≠ i → held j = true → d.serviceID ≠ c.serviceID) :
    PoolInv nodeID S L ⟨w, p.threads.set i ⟨τ, rest⟩⟩ (Function.update held i b) := by
  have hget : ∀ j t, (p.threads.set i ⟨τ, rest⟩)[j]? = some t →
      j = i ∧ t = ⟨τ, rest⟩ ∨ j ≠ i ∧ p.threads[j]? = some t := by
    intro j t hj
    by_cases hji : j = i
    · subst hji
      rw [List.getElem?_set_self (List.getElem?_eq_some_iff.mp hi).1, Option.some.injEq] at hj
      exact Or.inl ⟨rfl, hj.symm⟩
    · rw [List.getElem?_set_ne (Ne.symm hji)] at hj
      exact Or.inr ⟨hji, hj⟩
  have hruns : ∀ j d, Runs ⟨w, p.threads.set i ⟨τ, rest⟩⟩ j d →
      j = i ∧ τ = .execute d ∨ j ≠ i ∧ Runs p j d := by
    rintro j d ⟨o', hj⟩
    rcases hget j _ hj with ⟨hji, ht⟩ | ⟨hji, hj⟩
    · exact Or.inl ⟨hji, (congrArg Sigma.fst ht).symm⟩
    · exact Or.inr ⟨hji, o', hj⟩
  refine ⟨handle_saved he hh h.saved, fun j t hj => ?_, fun j d hr hheld => ?_,
    fun j j' d d' hj hj' hh hh' hsvc => ?_, fun j d hr => ?_⟩
  · rcases hget j t hj with ⟨rfl, rfl⟩ | ⟨hji, hj⟩
    · rwa [Function.update_self]
    · rw [Function.update_of_ne hji]
      obtain ⟨τ', o'⟩ := t
      refine (h.fits j _ hj).frame hh fun d hd hheld => ?_
      obtain rfl : τ' = .execute d := hd
      exact hcommit j d ⟨o', hj⟩ hji hheld
  · rcases hruns j d hr with ⟨rfl, hτ⟩ | ⟨hji, hr⟩
    · rw [Function.update_self] at hheld
      exact (hown d hτ hheld).1
    · rw [Function.update_of_ne hji] at hheld
      exact hmutex j d hr hji hheld
  · rcases hruns j d hj with ⟨rfl, hτ⟩ | ⟨hji, hr⟩ <;>
      rcases hruns j' d' hj' with ⟨rfl, hτ'⟩ | ⟨hji', hr'⟩
    · rfl
    · rw [Function.update_self] at hh
      rw [Function.update_of_ne hji'] at hh'
      exact absurd hsvc.symm ((hown d hτ hh).2 j' d' hr' hji' hh')
    · rw [Function.update_of_ne hji] at hh
      rw [Function.update_self] at hh'
      exact absurd hsvc ((hown d' hτ' hh').2 j d hr hji hh)
    · rw [Function.update_of_ne hji] at hh
      rw [Function.update_of_ne hji'] at hh'
      exact h.alone j j' d d' hr hr' hh hh' hsvc
  · rcases hruns j d hr with ⟨rfl, rfl⟩ | ⟨hji, hr⟩
    · exact h.spawned j d ⟨o, hi⟩
    · exact h.spawned j d hr

theorem PoolInv.executed (h : PoolInv nodeID S L p held)
    (hS : ∀ c d, S c → S d → c.commandID = d.commandID → c = d)
    {k : Ans op → M (Except AgentError CommandResult)}
    (hi : p.threads[i]? = some ⟨.execute c, some (.call op k)⟩) (he : Calm (L i) e)
    (hh : handle op e p.state = some (x, w)) :
    ∃ b, PoolInv nodeID S L ⟨w, p.threads.set i ⟨.execute c, some (k x)⟩⟩
      (Function.update held i b) := by
  have hrun : Runs p i c := ⟨_, hi⟩
  obtain ⟨b, hform, hlock⟩ := Form.step (h.fits i _ hi) he hh
  refine ⟨b, h.moved hi he.durable hh hform (fun j d hj hji hheld svc r a hop => ?_)
    (fun j d hj hji hheld => ?_) fun c' hc hb => ?_⟩
  · -- a commit is made inside the critical section of its command
    subst hop
    cases hlock with
    | keep b hl hu hc =>
      obtain ⟨hown, hid⟩ := hc _ _ _ _ rfl
      obtain rfl := hS d c (h.spawned j d hj) (h.spawned i c hrun) hid
      exact hji (h.alone j i d d hj hrun hheld hown rfl)
  · rw [handle_mutex hh]
    generalize hheldi : held i = b₀ at hlock
    cases hlock with
    | lock => simp [Op.onMutex, Function.update_apply, h.mutex j d hj hheld]
    | unlock =>
      have hne : d.serviceID ≠ c.serviceID := fun hsvc =>
        hji (h.alone j i d c hj hrun hheld hheldi hsvc)
      simpa [Op.onMutex, Function.update_of_ne hne] using h.mutex j d hj hheld
    | keep b hl hu hc =>
      rw [Op.onMutex.eq_3 _ _ hl hu]
      exact h.mutex j d hj hheld
  · obtain rfl : c = c' := by simpa using hc
    rw [handle_mutex hh]
    generalize hheldi : held i = b₀ at hlock
    cases hlock with
    | lock =>
      refine ⟨by simp [Op.onMutex], fun j d hj hji hheld hsvc => ?_⟩
      have hfree := handle_lockService hh
      rw [← hsvc, h.mutex j d hj hheld] at hfree
      cases hfree
    | unlock => cases hb
    | keep b hl hu hc =>
      rw [Op.onMutex.eq_3 _ _ hl hu]
      exact ⟨h.mutex i c hrun (hheldi.trans hb), fun j d hj hji hheld hsvc =>
        hji (h.alone j i d c hj hrun hheld (hheldi.trans hb) hsvc)⟩

theorem PoolInv.called (h : PoolInv nodeID S L p held)
    {k : Ans op → M τ.Res} (hi : p.threads[i]? = some ⟨τ, some (.call op k)⟩)
    (hτ : ∀ c, τ ≠ .execute c) (he : e.Durable) (hh : handle op e p.state = some (x, w)) :
    PoolInv nodeID S L ⟨w, p.threads.set i ⟨τ, some (k x)⟩⟩ (Function.update held i false) := by
  have hcalls : op.unlocked ∧ Fits nodeID (L i) w ⟨τ, some (k x)⟩ false := by
    have hfit := h.fits i _ hi
    cases τ with
    | execute c => exact absurd rfl (hτ c)
    | _ => exact ⟨hfit.2.1, rfl, hfit.2.2 x⟩
  have hmutex : w.mutex = p.state.mutex := by
    rw [handle_mutex hh]
    cases op <;> first | rfl | exact absurd hcalls.1 id
  refine h.moved hi he hh hcalls.2 (fun j d hj hji hheld svc r a hop => ?_)
    (fun j d hj hji hheld => ?_) fun c hc => absurd hc (hτ c)
  · subst hop
    exact hcalls.1
  · rw [hmutex]
    exact h.mutex j d hj hheld

theorem Agents.act_step (p : Agents) (nodeID : String) (i : Nat) (e : Env) :
    p.act nodeID (.step i e) = p ∨ ∃ τ op k x w, p.threads[i]? = some ⟨τ, some (.call op k)⟩ ∧
        handle op e p.state = some (x, w) ∧
        p.act nodeID (.step i e) = ⟨w, p.threads.set i ⟨τ, some (k x)⟩⟩ :=
  Pool.act_step p i e

/-- **The invariant is kept.** -/
theorem PoolInv.act (h : PoolInv nodeID S L p held)
    (hS : ∀ c d, S c → S d → c.commandID = d.commandID → c = d) {a : Action Env Task}
    (ha : Admitted S L a) : ∃ held', PoolInv nodeID S L (p.act nodeID a) held' := by
  cases a with
  | spawn τ => exact ⟨_, h.spawn ha⟩
  | crash => exact ⟨_, h.crash⟩
  | step i e =>
    rcases p.act_step nodeID i e with hact | ⟨τ, op, k, x, w, hi, hh, hact⟩ <;> rw [hact]
    · exact ⟨held, h⟩
    · cases τ with
      | execute c =>
        obtain ⟨b, hinv⟩ := h.executed hS hi ha hh
        exact ⟨_, hinv⟩
      | _ => exact ⟨_, h.called hi (by simp) (Calm.durable ha) hh⟩

/-! ## After the commit -/

/-- What an `Execute` of a command with the result `r` in the file may return: that result, or the
error of its file lock. -/
def Answer (M : String → Prop) (r : CommandResult) (v : Except AgentError CommandResult) : Prop :=
  (∃ r', v = .ok r' ∧ r'.persisted = r) ∨ ∃ err, v = .error (.plain err) ∧ M err

/-- The stored result of `id` is `r`, and the `Execute`s of `id` that returned since `p₀` returned
it. -/
structure Finished (L : Nat → String → Prop) (id : String) (r : CommandResult) (p₀ p : Agents) :
    Prop where
  kept : p.state.store.disk.results id = some r
  answers : ∀ i c (v : Except AgentError CommandResult),
    p.threads[i]? = some ⟨.execute c, some (.ret v)⟩ → c.commandID = id →
      p₀.threads[i]? = some ⟨.execute c, some (.ret v)⟩ ∨ Answer (L i) r v

theorem saved_results {s : FileStore} (h : s.Saved) (id : String) :
    s.disk.results id = (s.mem.results id).map CommandResult.persisted := by
  rw [show s.disk = s.mem.persisted from h]
  rfl

theorem not_pending (hs : w.store.Saved)
    (hr : w.store.disk.results c.commandID = some r) (hfin : r.final = true) : ¬ Pending c w := by
  intro hp
  rw [saved_results hs] at hr
  obtain ⟨r₀, h₀, rfl⟩ := Option.map_eq_some_iff.mp hr
  exact Option.filter_eq_none_iff.mp hp r₀ h₀ hfin

theorem Finished.spawn (h : Finished L id r p₀ p)
    (τ : Task) : Finished L id r p₀ (p.act nodeID (.spawn τ)) := by
  refine ⟨h.kept, fun i c v hi hid => ?_⟩
  rcases threads_spawn hi with ⟨-, hi⟩ | ⟨-, ht⟩
  · exact h.answers i c v hi hid
  · -- a new `Execute` has its first lookup to make
    cases τ with
    | execute d => simp [Task.code, Executor.Execute] at ht
    | _ => cases congrArg Sigma.fst ht

theorem Finished.crash (h : Finished L id r p₀ p) : Finished L id r p₀ (p.act nodeID .crash) := by
  refine ⟨h.kept, fun i c v hi hid => ?_⟩
  obtain ⟨t, ht, hcrash⟩ := threads_crash hi
  rw [(Thread.eq_of_crashed hcrash.symm).1] at ht
  exact h.answers i c v ht hid

theorem PoolInv.ne_commit (h : PoolInv nodeID S L p held) {res : CommandResult}
    (hr : p.state.store.disk.results id = some res) (hfin : res.final = true) {k : Ans op → M τ.Res}
    (hi : p.threads[i]? = some ⟨τ, some (.call op k)⟩)
    (he : Calm (L i) e) (hh : handle op e p.state = some (x, w))
    (svc : String) (r : CommandResult) (a : Option ActiveAssignment) : op ≠ .commit id svc r a := by
  rintro rfl
  have hfit := h.fits i _ hi
  cases τ with
  | execute c =>
    obtain ⟨b, -, hlock⟩ := Form.step hfit he hh
    cases hlock with
    | keep b hl hu hc =>
      obtain ⟨-, rfl⟩ := hc _ _ _ _ rfl
      exact Form.passive hfit (not_pending h.saved hr hfin)
  | _ => exact hfit.2.1

theorem Finished.step (hf : Finished L id r p₀ p)
    (h : PoolInv nodeID S L p held) (hfin : r.final = true)
    (he : Calm (L i) e) : Finished L id r p₀ (p.act nodeID (.step i e)) := by
  rcases p.act_step nodeID i e with hact | ⟨τ, op, k, x, w, hi, hh, hact⟩ <;> rw [hact]
  · exact hf
  have hkept : w.store.disk.results id = some r := by
    rw [saved_results (handle_saved he.durable hh h.saved),
      handle_results_same hh (h.ne_commit hf.kept hfin hi he hh), ← saved_results h.saved]
    exact hf.kept
  refine ⟨hkept, fun j c v hj hid => ?_⟩
  by_cases hji : j = i
  · subst hji
    rw [List.getElem?_set_self (List.getElem?_eq_some_iff.mp hi).1, Option.some.injEq] at hj
    obtain rfl : τ = .execute c := congrArg Sigma.fst hj
    subst hid
    have hk : k x = .ret v := by simpa using hj
    rcases Form.answer (h.fits j _ hi) (not_pending h.saved hf.kept hfin) hh hk with
      herr | ⟨r', rfl, hr'⟩
    · exact Or.inr (Or.inr herr)
    · rw [← saved_results (handle_saved he.durable hh h.saved), hkept, Option.some.injEq] at hr'
      exact Or.inr (Or.inl ⟨r', rfl, hr'.symm⟩)
  · rw [List.getElem?_set_ne (Ne.symm hji)] at hj
    exact hf.answers j c v hj hid

end

/-- The file lock fails with `err` in some call of thread `i`. -/
def LockFails (actions : List (Action Env Task)) (i : Nat) (err : String) : Prop :=
  ∃ e, .step i e ∈ actions ∧ e.lock = some err

/-- A command ID determines the command, and a store write succeeds unless a crash comes first. The
lease writes of the renewal goroutine are tasks of the pool. -/
def Regular (actions : List (Action Env Task)) : Prop :=
  (∀ c d, .spawn (.execute c) ∈ actions → .spawn (.execute d) ∈ actions →
    c.commandID = d.commandID → c = d) ∧
  ∀ i e, .step i e ∈ actions → e.write = none ∧ e.renewal = .quiet

theorem Regular.admitted {actions : List (Action Env Task)} (h : Regular actions)
    {a : Action Env Task} (ha : a ∈ actions) :
    Admitted (fun c => .spawn (.execute c) ∈ actions) (LockFails actions) a := by
  cases a with
  | spawn τ =>
    cases τ with
    | execute c => exact ha
    | _ => trivial
  | step i e => exact ⟨(h.2 i e ha).1, (h.2 i e ha).2, fun err herr => ⟨e, ha, herr⟩⟩
  | crash => trivial

theorem poolInv_run (nodeID : String) {S : Command → Prop} {L : Nat → String → Prop}
    (hS : ∀ c d, S c → S d → c.commandID = d.commandID → c = d) {actions : List (Action Env Task)}
    (ha : ∀ a ∈ actions, Admitted S L a) :
    ∃ held, PoolInv nodeID S L (Agents.run nodeID actions) held := by
  have hinit : PoolInv nodeID S L ⟨{}, []⟩ fun _ => false :=
    ⟨rfl, by simp, by simp, by simp, by simp [Runs]⟩
  exact Pool.run_induction (I := fun p => ∃ held, PoolInv nodeID S L p held)
    (fun _ _ ⟨_, h⟩ ha => h.act hS ha) ⟨_, hinit⟩ ha

theorem finished_run {S : Command → Prop} {L : Nat → String → Prop}
    (hS : ∀ c d, S c → S d → c.commandID = d.commandID → c = d) {p : Agents} {held : Nat → Bool}
    (h : PoolInv nodeID S L p held) {id : String} {r : CommandResult}
    (hr : p.state.store.disk.results id = some r) (hfin : r.final = true)
    {later : List (Action Env Task)} (ha : ∀ a ∈ later, Admitted S L a) :
    (∃ held', PoolInv nodeID S L (later.foldl (Agents.act nodeID) p) held') ∧
      Finished L id r p (later.foldl (Agents.act nodeID) p) := by
  refine Pool.run_induction
    (I := fun q => (∃ held', PoolInv nodeID S L q held') ∧ Finished L id r p q)
    (fun q a ⟨⟨held', hinv⟩, hf⟩ ha => ⟨hinv.act hS ha, ?_⟩)
    ⟨⟨held, h⟩, hr, fun _ _ _ hi _ => Or.inl hi⟩ ha
  cases a with
  | spawn τ => exact hf.spawn τ
  | step i e => exact hf.step hinv hfin ha
  | crash => exact hf.crash

theorem Op.passive.store (hop : op.passive)
    (he : e.renewal = .quiet) (hh : handle op e w = some (x, w')) : w'.store = w.store := by
  rw [(handle_eq_some.mp hh).2.2, he]
  cases op with
  | lockFile svc => cases hl : e.lock <;> simp [World.after, World.background, hl]
  | result id | lockService svc | unlockService svc | unlockFile svc => rfl
  | _ => exact hop.elim

/-- With the locks of the service free, a waiting `Execute` takes them, finds the result and
returns. -/
theorem waiting_returns {r : CommandResult}
    (hr : w.store.mem.results c.commandID = some r) (hfin : r.final = true)
    (hmutex : w.mutex c.serviceID = false) (hflock : w.flock c.serviceID = false) :
    (Effect.run handle (Executor.underLock c.serviceID (Executor.executeLocked nodeID c))
      (List.replicate 5 {}) w []).1 = some (.ok r) := by
  have hcached : Executor.cached (some r) = some r := by simp [Executor.cached, hfin]
  simp [Executor.underLock, Executor.executeLocked, Executor.enter, Executor.leave, Effect.run,
    List.replicate, handle, World.background, World.blocked, World.reply, World.after, outcome, hr,
    hcached, hmutex, hflock]

/-- The command `id`, whose final result `r` was in the state file in `p₀`, is replayed in `p`. -/
structure Replays (nodeID : String) (L : Nat → String → Prop) (id : String) (r : CommandResult)
    (p₀ p : Agents) : Prop where
  /-- An `Execute` that returned since `p₀` returned `r`, or the error of its file lock. -/
  returned : ∀ (i : Nat) (c : Command) (v : Except AgentError CommandResult), c.commandID = id →
    p.threads[i]? = some ⟨.execute c, some (.ret v)⟩ →
    p₀.threads[i]? = some ⟨.execute c, some (.ret v)⟩ ∨ Answer (L i) r v
  /-- Its next call is a lookup, a lock or an unlock. -/
  passive : ∀ (i : Nat) (c : Command) op (k : Ans op → M (Except AgentError CommandResult)),
    c.commandID = id → p.threads[i]? = some ⟨.execute c, some (.call op k)⟩ → op.passive
  /-- Its steps leave the store as it is. -/
  unchanged : ∀ (i : Nat) (c : Command) e, c.commandID = id → Runs p i c → e.renewal = .quiet →
    (p.act nodeID (.step i e)).state.store = p.state.store
  /-- One that waits returns `r` when the locks of the service are free and it is scheduled. -/
  waiting : ∀ (i : Nat) (c : Command) op (k : Ans op → M (Except AgentError CommandResult)),
    c.commandID = id → p.threads[i]? = some ⟨.execute c, some (.call op k)⟩ →
    p.state.mutex c.serviceID = false → p.state.flock c.serviceID = false →
    ∃ (n : Nat) (r' : CommandResult), r'.persisted = r ∧
      ((List.replicate n (.step i {})).foldl (Agents.act nodeID) p).threads[i]? =
        some ⟨.execute c, some (.ret (.ok r'))⟩
  /-- A later one returns `r` with its first call. -/
  fresh : ∀ (c : Command) e, c.commandID = id → ∃ r' : CommandResult, r'.persisted = r ∧
    ((p.act nodeID (.spawn (.execute c))).act nodeID
      (.step p.threads.length e)).threads[p.threads.length]? =
      some ⟨.execute c, some (.ret (.ok r'))⟩

section
variable {nodeID : String} {S : Command → Prop} {L : Nat → String → Prop} {p : Agents}
  {held : Nat → Bool} {c : Command} {r : CommandResult}

theorem Agents.solo (nodeID : String) {i : Nat} {τ : Task} {q : M τ.Res} {v : τ.Res} (es : List Env)
    (hi : p.threads[i]? = some ⟨τ, some q⟩)
    (hv : (Effect.run handle q es p.state []).1 = some v) :
    ((es.map (.step i)).foldl (Agents.act nodeID) p).threads[i]? = some ⟨τ, some (.ret v)⟩ :=
  Pool.solo hi hv

theorem saved_result (h : p.state.store.Saved)
    (hr : p.state.store.disk.results c.commandID = some r) :
    ∃ r', p.state.store.mem.results c.commandID = some r' ∧ r'.persisted = r := by
  rw [saved_results h] at hr
  exact Option.map_eq_some_iff.mp hr

theorem Execute_returns {w : World} {e : Env} (hr : w.store.mem.results c.commandID = some r)
    (hfin : r.final = true) :
    (Effect.run handle (Executor.Execute nodeID c) [e] w []).1 = some (.ok r) := by
  have hcached : Executor.cached (some r) = some r := by simp [Executor.cached, hfin]
  simp [Executor.Execute, Effect.run, handle, World.blocked, World.reply, hr, hcached]

theorem PoolInv.unchanged (h : PoolInv nodeID S L p held)
    (hr : p.state.store.disk.results c.commandID = some r) (hfin : r.final = true) {i : Nat}
    {e : Env} (hrun : Runs p i c) (he : e.renewal = .quiet) :
    (p.act nodeID (.step i e)).state.store = p.state.store := by
  rcases p.act_step nodeID i e with hact | ⟨τ, op, k, x, w, hi, hh, hact⟩ <;> rw [hact]
  obtain ⟨rest, hrest⟩ := hrun
  rw [hi, Option.some.injEq] at hrest
  obtain rfl : τ = .execute c := congrArg Sigma.fst hrest
  exact (Form.passive (h.fits i _ hi) (not_pending h.saved hr hfin)).store he hh

theorem PoolInv.waiting (h : PoolInv nodeID S L p held)
    (hr : p.state.store.disk.results c.commandID = some r) (hfin : r.final = true) {i : Nat}
    {op : Op} {k : Ans op → M (Except AgentError CommandResult)}
    (hi : p.threads[i]? = some ⟨.execute c, some (.call op k)⟩)
    (hmutex : p.state.mutex c.serviceID = false) (hflock : p.state.flock c.serviceID = false) :
    ∃ (n : Nat) (r' : CommandResult), r'.persisted = r ∧
      ((List.replicate n (.step i {})).foldl (Agents.act nodeID) p).threads[i]? =
        some ⟨.execute c, some (.ret (.ok r'))⟩ := by
  obtain ⟨r', hmem, rfl⟩ := saved_result h.saved hr
  have hout : held i = false := by
    by_contra hheld
    rw [h.mutex i c ⟨_, hi⟩ (by simpa using hheld)] at hmutex
    cases hmutex
  have hform : Form nodeID (L i) c p.state (.call op k) (held i) := h.fits i _ hi
  rw [hout] at hform
  cases hform with
  | arriving hp =>
    rw [hp] at hi
    exact ⟨1, r', rfl, Agents.solo nodeID [{}] hi (Execute_returns hmem hfin)⟩
  | waiting hp =>
    rw [hp] at hi
    exact ⟨5, r', rfl,
      Agents.solo nodeID (List.replicate 5 {}) hi (waiting_returns hmem hfin hmutex hflock)⟩
  | returned hp => cases hp

theorem PoolInv.fresh (h : PoolInv nodeID S L p held)
    (hr : p.state.store.disk.results c.commandID = some r) (hfin : r.final = true) (e : Env) :
    ∃ r' : CommandResult, r'.persisted = r ∧ ((p.act nodeID (.spawn (.execute c))).act nodeID
        (.step p.threads.length e)).threads[p.threads.length]? =
        some ⟨.execute c, some (.ret (.ok r'))⟩ := by
  obtain ⟨r', hmem, rfl⟩ := saved_result h.saved hr
  have hnew : (p.act nodeID (.spawn (.execute c))).threads[p.threads.length]? =
      some ⟨.execute c, some (Executor.Execute nodeID c)⟩ := by
    simp [Agents.act, Pool.act, Task.code]
  exact ⟨r', rfl, Agents.solo nodeID [e] hnew (Execute_returns hmem hfin)⟩

end

/-- **A finished command is replayed** in every schedule that goes on after its final result reached
the state file. -/
theorem finished_command_replays {nodeID : String} {actions later : List (Action Env Task)}
    (hreg : Regular (actions ++ later)) {id : String} {r : CommandResult}
    (hr : (Agents.run nodeID actions).state.store.disk.results id = some r)
    (hfin : r.final = true) :
    Replays nodeID (LockFails (actions ++ later)) id r (Agents.run nodeID actions)
      (Agents.run nodeID (actions ++ later)) := by
  obtain ⟨held, hinv⟩ := poolInv_run nodeID hreg.1 fun a ha =>
    hreg.admitted (List.mem_append_left later ha)
  obtain ⟨⟨held', hinv'⟩, hf⟩ := finished_run hreg.1 hinv hr hfin fun a ha =>
    hreg.admitted (List.mem_append_right actions ha)
  have hrun : Agents.run nodeID (actions ++ later) =
      later.foldl (Agents.act nodeID) (Agents.run nodeID actions) := Pool.run_append _ _ _
  rw [hrun]
  refine ⟨fun i c v hc hi => hf.answers i c v hi hc, ?_, ?_, ?_, ?_⟩
  · rintro i c op k rfl hi
    exact Form.passive (hinv'.fits i _ hi) (not_pending hinv'.saved hf.kept hfin)
  · rintro i c e rfl hi he
    exact hinv'.unchanged hf.kept hfin hi he
  · rintro i c op k rfl hi hmutex hflock
    exact hinv'.waiting hf.kept hfin hi hmutex hflock
  · rintro c e rfl
    exact hinv'.fresh hf.kept hfin e

/-- Two `Execute`s of one start command: the second looks the command up, then the first one runs to
its end. -/
def twoStarts : List (Action Env Task) :=
  .spawn (.execute (startCommand "c1" "svc" "A" 5)) ::
    .spawn (.execute (startCommand "c1" "svc" "A" 5)) ::
    .step 1 {} :: List.replicate 11 (.step 0 {})

/-- The second one takes the mutex, fails to get the file lock and returns. -/
def failedLock : List (Action Env Task) :=
  [.step 1 {}, .step 1 { lock := some "context canceled" }, .step 1 {}]

theorem twoStarts_regular : Regular (twoStarts ++ failedLock) := by
  refine ⟨fun c d hc hd _ => ?_, fun i e h => ?_⟩
  · simp [twoStarts, failedLock] at hc hd
    rw [hc, hd]
  · simp [twoStarts, failedLock] at h
    rcases h with ⟨-, rfl⟩ | ⟨-, rfl⟩ | ⟨-, rfl⟩ | ⟨-, rfl⟩ | ⟨-, rfl⟩ <;> exact ⟨rfl, rfl⟩

/-- The second of two `Execute`s returns the error of its file lock or the result of the first. -/
theorem finished_command_replays_twoStarts :
    Replays "n" (LockFails (twoStarts ++ failedLock)) "c1" { status := .started }
      (Agents.run "n" twoStarts) (Agents.run "n" (twoStarts ++ failedLock)) :=
  finished_command_replays twoStarts_regular (by decide) rfl

/-- A waiting `Execute` does not always return the stored result: the command is finished, and the
second `Execute`, which waited, returns an error. -/
theorem waiting_execute_returns_lock_error : Regular (twoStarts ++ failedLock) ∧
      (Agents.run "n" twoStarts).state.store.disk.results "c1" = some { status := .started } ∧
      (Agents.run "n" (twoStarts ++ failedLock)).threads[1]? =
        some ⟨.execute (startCommand "c1" "svc" "A" 5),
          some (.ret (.error (.plain "context canceled")))⟩ :=
  ⟨twoStarts_regular, by decide, rfl⟩

end SharedNode.Agent
