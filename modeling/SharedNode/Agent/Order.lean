import Mathlib.Data.List.Induction
import SharedNode.Agent.Conduct

/-!
# The order of a stop

The calls a stop makes (`Process` in `internal/agent/daemon.go`, `Execute` in `executor.go`), over
every history of deliveries, crashes and restarts, under the assumption that a store write succeeds
or the agent crashes:

* `workspace.Sync` runs after the stored stop report, which comes after the accepted
  `ReportStopped`, which comes after the container was stopped (or no entry was active), with no
  start of the service in between (`ReportStored`);
* `ReportStoppedAndSynced` is sent after the result was committed, `Release` after that report was
  accepted, and the acknowledgement after `Release` succeeded.

`Ordered` is this condition on one call and the calls before it. `OrderInv` ties the store to the
calls made: a stopped entry has a stop in the history, a reported one has the stored report, a
stored sync result has its commit. Every call keeps it where it is `Allowed` (`orderInv_step`), and
the agent makes no other call (`Conduct.allowed`, `Recovers.allowed`).
-/

namespace SharedNode.Agent

open ControlPlane Effect Prog

/-! ## The calls of a stop -/

def Starts (svc : String) : Call Op Ans → Prop
  | ⟨.start c _, _⟩ => c.serviceID = svc
  | _ => False

/-- The container of the assignment was stopped, or the service had no active entry. -/
def StopDone (svc asg : String) : Call Op Ans → Prop
  | ⟨.stop c, .ok ()⟩ => c.serviceID = svc ∧ c.assignmentID = asg
  | ⟨.active s, none⟩ => s = svc
  | _ => False

/-- The control plane accepted `ReportStopped` of the assignment. -/
def StopAccepted (svc asg : String) : Call Op Ans → Prop
  | ⟨.reportStopped r, .accepted⟩ => r.serviceID = svc ∧ r.assignmentID = asg
  | _ => False

/-- The accepted report was stored in the state file. -/
def StopStored (svc asg : String) : Call Op Ans → Prop
  | ⟨.setActive s a, .ok ()⟩ => s = svc ∧ a.assignmentID = asg ∧ a.stopReported = true
  | _ => False

/-- The result of the sync was committed. -/
def SyncCommitted (id : String) : Call Op Ans → Prop
  | ⟨.commit i _ r _, .ok ()⟩ => i = id ∧ r.status = .stoppedAndSynced
  | _ => False

/-- The assignment is stopped: since then the service was not started. -/
def Stopped (svc asg : String) : Trace Op Ans → Prop :=
  Since (fun c _ => StopDone svc asg c) (Starts svc)

/-- The stop was reported after it happened, and the report accepted. -/
def Reported (svc asg : String) : Trace Op Ans → Prop :=
  Since (fun c t => StopAccepted svc asg c ∧ Stopped svc asg t) (Starts svc)

/-- The report of a stop was accepted and stored, with no start since. -/
def ReportStored (svc asg : String) : Trace Op Ans → Prop :=
  Since (fun c t => StopStored svc asg c ∧ Reported svc asg t) (Starts svc)

def Ordered : Call Op Ans → Trace Op Ans → Prop
  | ⟨.sync c, _⟩, t => ReportStored c.serviceID c.assignmentID t
  | ⟨.reportStoppedAndSynced r, _⟩, t => Once (SyncCommitted r.commandID) t
  | ⟨.release c, _⟩, t => Once (SyncAccepted c.commandID) t
  | ⟨.ack id _ r, _⟩, t => r.status = .stoppedAndSynced → Once (Released id) t
  | _, _ => True

/-! ## The invariant -/

/-- An active entry the history accounts for. -/
structure ActiveOk (svc : String) (a : ActiveAssignment) (t : Trace Op Ans) : Prop where
  stopped : a.phase = .stopped → Stopped svc a.assignmentID t
  reported : a.stopReported = true → a.phase = .stopped ∧ ReportStored svc a.assignmentID t

/-- A stored result the history accounts for. -/
structure ResultOk (id : String) (r : CommandResult) (t : Trace Op Ans) : Prop where
  notStopped : r.status ≠ .stopped
  synced : r.status = .stoppedAndSynced → r.sync.isSome ∧ Once (SyncCommitted id) t

/-- The store and the calls made agree, and the calls were made in order. -/
structure OrderInv (w : World) (t : Trace Op Ans) : Prop where
  saved : w.store.Saved
  ordered : Always Ordered t
  active : ∀ svc a, w.store.mem.active svc = some a → ActiveOk svc a t
  results : ∀ id r, w.store.mem.results id = some r → ResultOk id r t

/-- Where a call keeps the invariant. -/
def Allowed (w : World) (t : Trace Op Ans) : Op → Prop
  | .setActive svc a =>
    (a.phase = .stopped → Stopped svc a.assignmentID t) ∧
      (a.stopReported = true → a.phase = .stopped ∧ Reported svc a.assignmentID t)
  | .commit _ svc r a =>
    (∀ b, a = some b → ActiveOk svc b t) ∧ r.status ≠ .stopped ∧
      (r.status = .stoppedAndSynced → r.sync.isSome)
  | .start c _ => ∀ a, w.store.mem.active c.serviceID = some a → a.phase ≠ .stopped
  | .sync c => ReportStored c.serviceID c.assignmentID t
  | .reportStoppedAndSynced r => Once (SyncCommitted r.commandID) t
  | .release c => Once (SyncAccepted c.commandID) t
  | .ack id _ r => r.status = .stoppedAndSynced → Once (Released id) t
  | _ => True

variable {w : World} {t : Trace Op Ans} {op : Op} {svc : String} {a : ActiveAssignment}
  {r : CommandResult} {c : Command}

theorem Allowed.ordered (h : Allowed w t op) (x : Ans op) : Ordered ⟨op, x⟩ t := by
  cases op <;> first | exact h | exact trivial

/-- The history of an entry survives every call but a start of its service. -/
theorem ActiveOk.cons {c : Call Op Ans}
    (h : ActiveOk svc a t) (hc : ¬ Starts svc c) : ActiveOk svc a (c :: t) :=
  ⟨fun hp => (h.stopped hp).cons hc, fun hr => ⟨(h.reported hr).1, (h.reported hr).2.cons hc⟩⟩

theorem ResultOk.cons {id : String} (c : Call Op Ans)
    (h : ResultOk id r t) : ResultOk id r (c :: t) :=
  ⟨h.notStopped, fun hs => ⟨(h.synced hs).1, (h.synced hs).2.cons⟩⟩

theorem orderInv_active {e : Env} {w' : World} {x : Ans op}
    (hI : OrderInv w t) (ha : Allowed w t op) (he : e.Durable) (h : handle op e w = some (x, w'))
    (hsvc : w'.store.mem.active svc = some a) :
    ActiveOk svc a (⟨op, x⟩ :: t) := by
  rcases handle_entry h hsvc with hold | rfl | ⟨id, r, rfl⟩
  · cases op with
    | start c p =>
      -- a start of the entry's own service finds it in another phase
      by_cases hs : c.serviceID = svc
      · subst hs
        exact ⟨fun h => absurd h (ha a hold),
          fun hr => absurd ((hI.active _ a hold).reported hr).1 (ha a hold)⟩
      · exact (hI.active svc a hold).cons hs
    | _ => exact (hI.active svc a hold).cons (fun h => h)
  · obtain rfl : x = .ok () := handle_setActive_reply he h
    exact ⟨fun hp => (ha.1 hp).cons (fun h => h),
      fun hr => ⟨(ha.2 hr).1, Since.head ⟨⟨rfl, rfl, hr⟩, (ha.2 hr).2⟩⟩⟩
  · exact (ha.1 a rfl).cons (fun h => h)

theorem orderInv_results {e : Env} {w' : World} {x : Ans op}
    (hI : OrderInv w t) (ha : Allowed w t op) (he : e.Durable) (h : handle op e w = some (x, w'))
    {id : String} (hid : w'.store.mem.results id = some r) :
    ResultOk id r (⟨op, x⟩ :: t) := by
  rcases handle_stored h hid with ⟨r₀, h₀, hp⟩ | ⟨svc, a, rfl⟩
  · have hold := (hI.results id r₀ h₀).cons ⟨op, x⟩
    refine ⟨?_, ?_⟩
    · rw [CommandResult.status_of_persisted hp]
      exact hold.notStopped
    · rw [CommandResult.status_of_persisted hp, CommandResult.sync_of_persisted hp]
      exact hold.synced
  · obtain rfl : x = .ok () := handle_commit_reply he h
    exact ⟨ha.2.1, fun hs => ⟨ha.2.2 hs, Once.head ⟨rfl, hs⟩⟩⟩

/-- **Every allowed call keeps the invariant.** -/
theorem orderInv_step (op : Op) (e : Env) (w : World) (t : Trace Op Ans) (x : Ans op) (w' : World)
    (hI : OrderInv w t) (ha : Allowed w t op) (he : e.Durable) (h : handle op e w = some (x, w')) :
    OrderInv w' (⟨op, x⟩ :: t) where
  saved := handle_saved he h hI.saved
  ordered := ⟨ha.ordered x, hI.ordered⟩
  active _ _ hsvc := orderInv_active hI ha he h hsvc
  results _ _ hid := orderInv_results hI ha he h hid

/-- A restart keeps the invariant: the file holds what memory held. -/
theorem OrderInv.reboot (hI : OrderInv w t) : OrderInv w.reboot t where
  saved := hI.saved.reload
  ordered := hI.ordered
  active svc a h := by
    have hd : w.store.disk.active svc = some a := h
    rw [show w.store.disk = w.store.mem.persisted from hI.saved] at hd
    exact hI.active svc a hd
  results id r h := by
    have hd : w.store.disk.results id = some r := h
    rw [show w.store.disk = w.store.mem.persisted from hI.saved] at hd
    obtain ⟨r₀, h₀, rfl⟩ := Option.map_eq_some_iff.mp hd
    have hold := hI.results id r₀ h₀
    exact ⟨hold.notStopped, fun hs => ⟨by simpa using (hold.synced hs).1, (hold.synced hs).2⟩⟩

theorem OrderInv.sound (hI : OrderInv w t) : Sound w.store.mem where
  reported svc a ha hr := ((hI.active svc a ha).reported hr).1
  results id r hr := ⟨(hI.results id r hr).notStopped, fun hs => ((hI.results id r hr).synced hs).1⟩

/-! ## The agent makes allowed calls only -/

theorem activeOk_of_not_stopped {asg : String} {p : Phase} (hp : p ≠ .stopped)
    (t : Trace Op Ans) : ActiveOk svc { assignmentID := asg, phase := p } t :=
  ⟨fun h => absurd h hp, by simp⟩

theorem Sets.allowed
    (hI : OrderInv w t) (h : Sets c w t a) : Allowed w t (.setActive c.serviceID a) := by
  cases h with
  | starting hk ht => exact ⟨by simp, by simp⟩
  | stopped hk ha hasg ht =>
    subst ht
    exact ⟨fun _ => Since.head ⟨rfl, rfl⟩, by simp⟩
  | absent hk ha ht =>
    subst ht
    exact ⟨fun _ => Since.head rfl, by simp⟩
  | again hk ha hasg hp hr =>
    exact ⟨(hI.active _ _ ha).stopped, by simp [hr]⟩
  | @reported b r t' ht hsvc hrep ha hasg hp =>
    have hst : Stopped c.serviceID b.assignmentID t := (hI.active _ _ ha).stopped hp
    refine ⟨fun _ => hst, fun _ => ⟨hp, ?_⟩⟩
    subst ht
    -- neither the lookup nor the report is the stop, so it lies before both
    refine Since.cons (Since.head ⟨⟨hsvc, hrep.trans hasg.symm⟩, ?_⟩) id
    rcases hst with h | ⟨-, h | ⟨-, h⟩⟩
    · exact h.elim
    · exact h.elim
    · exact h

theorem Commits.activeOk {a : Option ActiveAssignment} (hI : OrderInv w t) (h : Commits c w t r a) :
    ∀ b, a = some b → ActiveOk c.serviceID b t := by
  cases h with
  | rejected message ha => exact fun b hb => hI.active _ _ (ha.trans hb)
  | running hk ha hasg hp => exact fun b hb => hI.active _ _ (ha.trans hb)
  | started hk ha ht =>
    rintro b ⟨rfl⟩
    exact activeOk_of_not_stopped (by simp) t
  | terminal hk ht => simp
  | synced hk ht => simp

theorem Conduct.allowed (hI : OrderInv w t) (h : Conduct c w t op) : Allowed w t op := by
  cases op with
  | setActive svc a =>
    obtain ⟨rfl, -, hset⟩ := h
    exact hset.allowed hI
  | commit id svc r a =>
    obtain ⟨rfl, rfl, -, hcom⟩ := h
    exact ⟨hcom.activeOk hI, hcom.not_stopped, hcom.sync_isSome⟩
  | start d p =>
    obtain ⟨rfl, -, hact⟩ := h
    rintro a ha
    obtain rfl : _ = a := Option.mem_unique hact ha
    simp
  | sync d =>
    obtain ⟨rfl, -, a, ha, hasg, -, hr⟩ := h
    have hstored := ((hI.active _ _ ha).reported hr).2
    rwa [hasg] at hstored
  | reportStoppedAndSynced r =>
    obtain ⟨hid, r', hr', hs⟩ := h
    have hcom := ((hI.results _ _ hr').synced hs).2
    rwa [← hid] at hcom
  | release d =>
    obtain ⟨rfl, -, hacc⟩ := h
    exact hacc
  | ack id l r =>
    obtain ⟨rfl, hrel⟩ := h
    exact hrel
  | _ => trivial

theorem Recovers.allowed (hI : OrderInv w t) (h : Recovers w op) : Allowed w t op := by
  cases op with
  | setActive svc a =>
    obtain ⟨b, hb, hp, rfl⟩ := h
    refine ⟨by simp, fun hr => ?_⟩
    have := ((hI.active _ _ hb).reported hr).1
    rw [hp] at this
    cases this
  | running | active svc | removeOrphan s => trivial
  | _ => exact h.elim

/-- The order invariant is one of everything the agent does for a command. -/
theorem orderInv_keeps (c : Command) : Keeps Env.Durable OrderInv c where
  step op e w t x w' hI hc he h := orderInv_step op e w t x w' hI (hc.allowed hI) he h
  sound _ _ hI := hI.sound

/-! ## Every history -/

theorem orderInv_init : OrderInv {} [] where
  saved := rfl
  ordered := trivial
  active _ _ h := absurd h (by simp)
  results _ _ h := absurd h (by simp)

/-- The order invariant holds after every history of durable choices. -/
theorem orderInv_run (nodeID : String) (events : List Event)
    (hE : ∀ ev ∈ events, ∀ e ∈ ev.choices, e.Durable) :
    OrderInv (Node.run nodeID events).world (Node.run nodeID events).trace := by
  induction events using List.reverseRecOn with
  | nil => exact orderInv_init
  | append_singleton events ev ih =>
    have hprev := ih (List.forall_mem_append.mp hE).1
    have hev := hE ev (List.mem_append_right _ List.mem_cons_self)
    rw [Node.run_append]
    cases ev with
    | deliver c rounds es =>
      exact Node.step_deliver hev hprev (process_conduct (orderInv_keeps c) hprev)
    | restart es =>
      refine Node.step_restart hev
        (reconcile_conduct (fun op e w t x w' hI hr he h => ?_) hprev.reboot)
      exact orderInv_step op e w t x w' hI (hr.allowed hI) he h

/-- **The effects of a stop are ordered.** In every history of deliveries, crashes and restarts in
which a store write succeeds or the agent crashes: `Sync` comes after the stop, the accepted report
and its storing, in this order and with no start in between; the report of the sync comes after its
commit, `Release` after the accepted report, and the acknowledgement after `Release`. -/
theorem stop_effects_ordered (nodeID : String) (events : List Event)
    (hE : ∀ ev ∈ events, ∀ e ∈ ev.choices, e.Durable) (after before : Trace Op Ans) :
    (∀ c x, (Node.run nodeID events).trace = after ++ ⟨.sync c, x⟩ :: before →
      ReportStored c.serviceID c.assignmentID before) ∧
    (∀ r x, (Node.run nodeID events).trace = after ++ ⟨.reportStoppedAndSynced r, x⟩ :: before →
      Once (SyncCommitted r.commandID) before) ∧
    (∀ c x, (Node.run nodeID events).trace = after ++ ⟨.release c, x⟩ :: before →
      Once (SyncAccepted c.commandID) before) ∧
    (∀ id lease r x, (Node.run nodeID events).trace = after ++ ⟨.ack id lease r, x⟩ :: before →
      r.status = .stoppedAndSynced → Once (Released id) before) := by
  have hall := always_iff.mp (orderInv_run nodeID events hE).ordered after
  exact ⟨fun c x h => hall _ before h, fun r x h => hall _ before h, fun c x h => hall _ before h,
    fun id lease r x h => hall _ before h⟩

/-- The order in a history, at its sync. -/
theorem stop_effects_ordered_oneStop :
    ∃ c x after before, (Node.run "n" startAndStop).trace = after ++ ⟨.sync c, x⟩ :: before ∧
      ReportStored c.serviceID c.assignmentID before := by
  have hsplit : (Node.run "n" startAndStop).trace = (Node.run "n" startAndStop).trace.take 17 ++
      ⟨.sync (stopCommand "c2" "s" "a" 5), .ok ⟨"s", "a", 6, 0, "", "", {}⟩⟩ ::
        (Node.run "n" startAndStop).trace.drop 18 := rfl
  exact ⟨_, _, _, _, hsplit,
    (stop_effects_ordered "n" startAndStop durable_startAndStop _ _).1 _ _ hsplit⟩

end SharedNode.Agent
