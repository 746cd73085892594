import SharedNode.Agent.Frame
import SharedNode.Agent.Outline

/-!
# What the agent does, and when

`Conduct c w t op`: while it processes the command `c`, the agent makes the call `op` in a node
state `w` after the calls `t` only under these circumstances. It is read off `Execute`
(`internal/agent/executor.go`) and `Process` (`daemon.go`) once (`process_conduct`), for any
invariant that such calls keep; every property of whole histories is then a matter of what one call
does to its invariant.

* `Sets` and `Commits` list the entries the agent writes and the results it commits, with the call
  each of them follows.
* A stored sync result stands behind the report of a sync, its release and its acknowledgement.
* `Recovers` is the same for `Reconcile` (`reconcile_conduct`).
-/

namespace SharedNode.Agent

open ControlPlane Effect Prog

/-- The control plane accepted `ReportStoppedAndSynced` of the command. -/
def SyncAccepted (id : String) : Call Op Ans → Prop
  | ⟨.reportStoppedAndSynced r, .accepted⟩ => r.commandID = id
  | _ => False

/-- `Release` of the command succeeded. -/
def Released (id : String) : Call Op Ans → Prop
  | ⟨.release c, .ok ()⟩ => c.commandID = id
  | _ => False

/-- The command has no stored result that a delivery would return without executing it. -/
def Pending (c : Command) (w : World) : Prop :=
  Executor.cached (w.store.mem.results c.commandID) = none

/-- The command is pending, and the active entry of its service is a stopped one of its
assignment. -/
def StoppedEntry (c : Command) (w : World) : Prop :=
  Pending c w ∧ ∃ a, w.store.mem.active c.serviceID = some a ∧ a.assignmentID = c.assignmentID ∧
    a.phase = .stopped

def SyncedResult (c : Command) (w : World) : Prop :=
  ∃ r, w.store.mem.results c.commandID = some r ∧ r.status = .stoppedAndSynced

/-- The active entries written for a command. -/
inductive Sets (c : Command) (w : World) (t : Trace Op Ans) : ActiveAssignment → Prop where
  | starting {path : String} {t' : Trace Op Ans} (hk : c.kind = .restoreAndStart)
      (ht : t = ⟨.restore c, .ok path⟩ :: t') :
      Sets c w t { assignmentID := c.assignmentID, phase := .starting }
  | stopped {a : ActiveAssignment} {t' : Trace Op Ans} (hk : c.kind = .stopAndSync)
      (ha : w.store.mem.active c.serviceID = some a) (hasg : a.assignmentID = c.assignmentID)
      (ht : t = ⟨.stop c, .ok ()⟩ :: t') :
      Sets c w t { assignmentID := c.assignmentID, phase := .stopped }
  | absent {t' : Trace Op Ans} (hk : c.kind = .stopAndSync)
      (ha : w.store.mem.active c.serviceID = none) (ht : t = ⟨.active c.serviceID, none⟩ :: t') :
      Sets c w t { assignmentID := c.assignmentID, phase := .stopped }
  | again {a : ActiveAssignment} (hk : c.kind = .stopAndSync)
      (ha : w.store.mem.active c.serviceID = some a) (hasg : a.assignmentID = c.assignmentID)
      (hp : a.phase = .stopped) (hr : a.stopReported = false) : Sets c w t a
  | reported {a : ActiveAssignment} {r : StoppedReport} {t' : Trace Op Ans}
      (ht : t = ⟨.active c.serviceID, some a⟩ :: ⟨.reportStopped r, .accepted⟩ :: t')
      (hsvc : r.serviceID = c.serviceID) (hrep : r.assignmentID = c.assignmentID)
      (ha : w.store.mem.active c.serviceID = some a) (hasg : a.assignmentID = c.assignmentID)
      (hp : a.phase = .stopped) : Sets c w t { a with stopReported := true }

/-- The results committed for a command, each with the active entry committed with it. -/
inductive Commits (c : Command) (w : World) (t : Trace Op Ans) :
    CommandResult → Option ActiveAssignment → Prop where
  | rejected {a : Option ActiveAssignment} (message : String)
      (ha : w.store.mem.active c.serviceID = a) : Commits c w t (failed message) a
  | running {a : ActiveAssignment} (hk : c.kind = .restoreAndStart)
      (ha : w.store.mem.active c.serviceID = some a) (hasg : a.assignmentID = c.assignmentID)
      (hp : a.phase = .running) : Commits c w t { status := .started } (some a)
  | started {path : String} {t' : Trace Op Ans} (hk : c.kind = .restoreAndStart)
      (ha : w.store.mem.active c.serviceID =
        some { assignmentID := c.assignmentID, phase := .starting })
      (ht : t = ⟨.start c path, .ok⟩ :: t') :
      Commits c w t { status := .started }
        (some { assignmentID := c.assignmentID, phase := .running })
  | terminal {path code message : String} {t' : Trace Op Ans} (hk : c.kind = .restoreAndStart)
      (ht : t = ⟨.start c path, .terminal code message⟩ :: t') :
      Commits c w t { status := .failed, code, message } none
  | synced {sync : SyncResult} {t' : Trace Op Ans} (hk : c.kind = .stopAndSync)
      (ht : t = ⟨.sync c, .ok sync⟩ :: t') :
      Commits c w t { status := .stoppedAndSynced, sync := some sync } none

/-- The circumstances of a call made while `c` is processed. -/
def Conduct (c : Command) (w : World) (t : Trace Op Ans) : Op → Prop
  | .setActive svc a => svc = c.serviceID ∧ Pending c w ∧ Sets c w t a
  | .commit id svc r a => id = c.commandID ∧ svc = c.serviceID ∧ Pending c w ∧ Commits c w t r a
  | .restore d => d = c ∧ c.kind = .restoreAndStart ∧ Pending c w ∧
      ∀ a, w.store.mem.active c.serviceID = some a → a.phase ≠ .running ∧ a.phase ≠ .starting ∧
        (a.assignmentID = c.assignmentID ∨ a.phase = .stopped)
  | .start d _ => d = c ∧ c.kind = .restoreAndStart ∧
      w.store.mem.active c.serviceID =
        some { assignmentID := c.assignmentID, phase := .starting }
  | .stop d => d = c ∧ c.kind = .stopAndSync
  | .sync d => d = c ∧ c.kind = .stopAndSync ∧ ∃ a, w.store.mem.active c.serviceID = some a ∧
      a.assignmentID = c.assignmentID ∧ a.phase = .stopped ∧ a.stopReported = true
  | .reportStopped r => r.serviceID = c.serviceID ∧ r.assignmentID = c.assignmentID ∧
      StoppedEntry c w
  | .reportStoppedAndSynced r => r.commandID = c.commandID ∧ SyncedResult c w
  | .release d => d = c ∧ SyncedResult c w ∧ Once (SyncAccepted c.commandID) t
  | .ack id _ r => id = c.commandID ∧
      (r.status = .stoppedAndSynced → Once (Released c.commandID) t)
  | _ => True

/-- The circumstances of a call made by `Reconcile`. -/
def Recovers (w : World) : Op → Prop
  | .setActive svc a => ∃ b, w.store.mem.active svc = some b ∧ b.phase = .starting ∧
      a = { b with phase := .running }
  | .running | .active _ | .removeOrphan _ => True
  | _ => False

/-- What holds of the store at all times: only a stopped entry has a stored report, a stop is never
a committed result, and a sync result has its sync. -/
structure Sound (s : FileState) : Prop where
  reported : ∀ svc a, s.active svc = some a → a.stopReported = true → a.phase = .stopped
  results : ∀ id r, s.results id = some r →
    r.status ≠ .stopped ∧ (r.status = .stoppedAndSynced → r.sync.isSome)

variable {c : Command} {a : Option ActiveAssignment} {w w' : World} {t : Trace Op Ans} {op : Op}
  {e : Env} {x : Ans op}

theorem Commits.not_stopped {res : CommandResult} (h : Commits c w t res a) :
    res.status ≠ .stopped := by
  cases h <;> simp [failed]

theorem Commits.sync_isSome {res : CommandResult} (h : Commits c w t res a)
    (hs : res.status = .stoppedAndSynced) : res.sync.isSome := by
  cases h <;> simp [failed] at hs ⊢

theorem durably_sound : Durably Sound := by
  intro s s' ha hr hs
  refine ⟨fun svc a h => hs.reported svc a (by rw [← ha]; exact h), fun id r h => ?_⟩
  have hp := hr id
  rw [h, Option.map_some] at hp
  obtain ⟨r₀, h₀, hr₀⟩ := Option.map_eq_some_iff.mp hp.symm
  rw [CommandResult.status_of_persisted hr₀.symm, CommandResult.sync_of_persisted hr₀.symm]
  exact hs.results id r₀ h₀

theorem Sets.sound {a : ActiveAssignment}
    (h : Sets c w t a) : a.stopReported = true → a.phase = .stopped := by
  cases h with
  | again hk ha hasg hp hr => exact fun _ => hp
  | reported ht hsvc hrep ha hasg hp => exact fun _ => hp
  | _ => simp

theorem Commits.sound {r : CommandResult} (hs : Sound w.store.mem) (h : Commits c w t r a) :
    ∀ b, a = some b → b.stopReported = true → b.phase = .stopped := by
  cases h with
  | rejected message ha => exact fun b hb => hs.reported _ b (ha.trans hb)
  | running hk ha hasg hp => exact fun b hb => hs.reported _ b (ha.trans hb)
  | started hk ht =>
    rintro b ⟨rfl⟩ hr
    cases hr
  | terminal hk ht => simp
  | synced hk ht => simp

theorem sound_step (hs : Sound w.store.mem) (h : handle op e w = some (x, w'))
    (hset : ∀ svc a, op = .setActive svc a → a.stopReported = true → a.phase = .stopped)
    (hcom : ∀ id svc r a, op = .commit id svc r a →
      (∀ b, a = some b → b.stopReported = true → b.phase = .stopped) ∧ r.status ≠ .stopped ∧
        (r.status = .stoppedAndSynced → r.sync.isSome)) : Sound w'.store.mem where
  reported svc a ha := by
    rcases handle_entry h ha with hold | hop | ⟨id, r, hop⟩
    · exact hs.reported svc a hold
    · exact hset svc a hop
    · exact (hcom id svc r _ hop).1 a rfl
  results id r hr := by
    rcases handle_stored h hr with ⟨r₀, h₀, hp⟩ | ⟨svc, a, hop⟩
    · rw [CommandResult.status_of_persisted hp, CommandResult.sync_of_persisted hp]
      exact hs.results id r₀ h₀
    · exact (hcom id svc r a hop).2

theorem Conduct.sound (hs : Sound w.store.mem) (hc : Conduct c w t op)
    (h : handle op e w = some (x, w')) : Sound w'.store.mem := by
  refine sound_step hs h ?_ ?_
  · rintro svc a rfl
    exact hc.2.2.sound
  · rintro id svc r a rfl
    exact ⟨hc.2.2.2.sound hs, hc.2.2.2.not_stopped, hc.2.2.2.sync_isSome⟩

theorem Recovers.sound (hs : Sound w.store.mem)
    (hc : Recovers w op) (h : handle op e w = some (x, w')) : Sound w'.store.mem := by
  refine sound_step hs h ?_ ?_
  · rintro svc a rfl hr
    obtain ⟨b, hb, hp, rfl⟩ := hc
    cases hp.symm.trans (hs.reported _ b hb hr)
  · rintro id svc r a rfl
    exact hc.elim

/-- An invariant of the calls made for `c`, under choices in `E`. -/
structure Keeps (E : Env → Prop) (I : World → Trace Op Ans → Prop) (c : Command) : Prop where
  step : ∀ op e w t x w', I w t → Conduct c w t op → E e → handle op e w = some (x, w') →
    I w' (⟨op, x⟩ :: t)
  sound : ∀ w t, I w t → Sound w.store.mem

/-! ## Facts that pass over a call -/

/-- A call that leaves the active entries and the stored results as they are, up to stamps. -/
def Op.inert : Op → Prop
  | .setActive .. | .commit .. => False
  | _ => True

/-- A fact about the node and its history that inert calls keep. -/
def Stable (J : World → Trace Op Ans → Prop) : Prop :=
  ∀ ⦃op : Op⦄ ⦃e : Env⦄ ⦃w : World⦄ ⦃t : Trace Op Ans⦄ ⦃x : Ans op⦄ ⦃w' : World⦄,
    handle op e w = some (x, w') → op.inert → J w t → J w' (⟨op, x⟩ :: t)

theorem stable_once (φ : Call Op Ans → Prop) : Stable fun _ t => Once φ t :=
  fun _ _ _ _ _ _ _ _ h => h.cons

theorem stable_imp {p : Prop} {J : World → Trace Op Ans → Prop} (hJ : Stable J) :
    Stable fun w t => p → J w t := fun _ _ _ _ _ _ hh hop h hp => hJ hh hop (h hp)

theorem handle_active_inert (h : handle op e w = some (x, w')) (hop : op.inert) :
    w'.store.mem.active = w.store.mem.active := by
  rw [handle_active h]
  cases op <;> first | rfl | exact hop.elim

theorem Op.inert.ne_commit (hop : op.inert) (id svc : String) (r : CommandResult)
    (a : Option ActiveAssignment) : op ≠ .commit id svc r a := by
  rintro rfl
  exact hop

theorem Pending.step (h : Pending c w) (hh : handle op e w = some (x, w'))
    (hop : ∀ id svc r a, op ≠ .commit id svc r a) : Pending c w' := by
  unfold Pending Executor.cached at h ⊢
  rw [Option.filter_eq_none_iff] at h ⊢
  intro r hr
  rcases handle_stored hh hr with ⟨r₀, h₀, hp⟩ | ⟨svc, a, rfl⟩
  · rw [← r.persisted_final, hp, r₀.persisted_final]
    exact h r₀ h₀
  · exact absurd rfl (hop _ svc r a)

theorem StoppedEntry.inert
    (h : StoppedEntry c w) (hh : handle op e w = some (x, w')) (hop : op.inert) :
    StoppedEntry c w' := by
  obtain ⟨hp, a, ha, hrest⟩ := h
  exact ⟨hp.step hh hop.ne_commit, a, by rw [handle_active_inert hh hop]; exact ha, hrest⟩

theorem SyncedResult.inert
    (h : SyncedResult c w) (hh : handle op e w = some (x, w')) (hop : op.inert) :
    SyncedResult c w' := by
  obtain ⟨r, hr, hs⟩ := h
  obtain ⟨r', hr', hp⟩ := handle_results_kept hh hop.ne_commit hr
  exact ⟨r', hr', (CommandResult.status_of_persisted hp).trans hs⟩

/-! ## The circumstances between the calls -/

section Circumstances

variable {E : Env → Prop} {I : World → Trace Op Ans → Prop} {c : Command}

variable {w w' : World} {t : Trace Op Ans} {J : World → Trace Op Ans → Prop} {e : Env}
  {res : CommandResult}

/-- An inert call leads from one state to the other. -/
def Inertly (s s' : World × Trace Op Ans) : Prop :=
  ∃ op e x, op.inert ∧ handle op e s.1 = some (x, s'.1) ∧ s'.2 = ⟨op, x⟩ :: s.2

def Stable.assertion (hJ : Stable J) : Assertion Inertly where
  holds s := J s.1 s.2
  stable := by
    rintro ⟨w, t⟩ ⟨w', t'⟩ ⟨op, e, x, hop, hh, rfl⟩ h
    exact hJ hh hop h

/-- The state after the active entry was read. -/
structure Reads (c : Command) (a : Option ActiveAssignment) (s : World × Trace Op Ans) : Prop where
  pending : Pending c s.1
  active : s.1.store.mem.active c.serviceID = a
  reported : ∀ b, a = some b → b.stopReported = true → b.phase = .stopped
  last : ∃ t', s.2 = ⟨.active c.serviceID, a⟩ :: t'

/-- The outcome of `execute` is one `Execute` may store. -/
def Recordable (c : Command) (res : CommandResult) (a : Option ActiveAssignment)
    (s : World × Trace Op Ans) : Prop :=
  Pending c s.1 ∧ (Commits c s.1 s.2 res a ∨ ∃ b, a = some b ∧ res.status = .stopped ∧
    b.assignmentID = c.assignmentID ∧ b.phase = .stopped ∧ Sets c s.1 s.2 b)

/-- What a result of `Execute` says about the store. -/
def Stored (c : Command) (res : CommandResult) (w : World) : Prop :=
  (res.status = .stopped → StoppedEntry c w) ∧
    (res.status = .stoppedAndSynced → res.sync.isSome ∧ SyncedResult c w)

theorem stable_stored (res : CommandResult) : Stable fun w _ => Stored c res w :=
  fun _ _ _ _ _ _ hh hop h =>
    ⟨fun hs => (h.1 hs).inert hh hop, fun hs => ⟨(h.2 hs).1, (h.2 hs).2.inert hh hop⟩⟩

theorem cached_stored {x : Option CommandResult} (hs : Sound w'.store.mem)
    (hh : handle (.result c.commandID) e w = some (x, w')) (hr : Executor.cached x = some res) :
    Stored c res w' := by
  have hx : x = some res := (Option.filter_eq_some_iff.mp hr).1
  have hres : w'.store.mem.results c.commandID = some res := by
    rw [handle_results hh, ← hx, handle_result_reply hh]
    rfl
  obtain ⟨hns, hsy⟩ := hs.results _ _ hres
  exact ⟨fun hs => absurd hs hns, fun hs => ⟨hsy hs, res, hres, hs⟩⟩

theorem active_read {svc : String} {a : Option ActiveAssignment}
    (hh : handle (.active svc) e w = some (a, w')) : w'.store.mem.active svc = a := by
  rw [handle_active hh, handle_active_reply hh]
  rfl

/-- What holds between the calls of `Process`. -/
def circumstances (hK : Keeps E I c) : Outline (guarded handle E I (Conduct c)) c where
  later := Inertly
  quiet {op s} hop := by
    cases op with
    | setLease | clearLease | stamp | lockService | unlockService | unlockFile | wait
    | stopRenewal => exact ⟨trivial, fun e x w' _ hh _ => ⟨_, e, x, trivial, hh, rfl⟩⟩
    | _ => cases hop
  opening := .top
  ready _ := True
  renew _ _ := ⟨trivial, fun _ _ _ _ _ _ => trivial⟩
  begun := .top
  failing := .top
  executed res := (stable_stored res).assertion
  lookup _ _ := ⟨trivial, fun _ _ _ _ hh hI =>
    ⟨fun _ hr => cached_stored (hK.sound _ _ hI) hh hr, fun _ => trivial⟩⟩
  lock _ _ := ⟨trivial, fun _ x _ _ _ _ => by cases x <;> trivial⟩
  pending s := Pending c s.1
  lookupLocked _ _ := by
    refine ⟨trivial, fun _ _ _ _ hh hI =>
      ⟨fun _ hr => cached_stored (hK.sound _ _ hI) hh hr, fun hr => ?_⟩⟩
    unfold Pending
    rw [handle_results hh]
    rwa [handle_result_reply hh] at hr
  read := Reads c
  entry _ h := ⟨trivial, fun _ a _ _ hh hI => ⟨h.step hh (by simp), active_read hh,
    fun b hb => (hK.sound _ _ hI).reported _ b ((active_read hh).trans hb), _, rfl⟩⟩
  outcome := Recordable c
  rejected _ _ _ h := ⟨h.pending, Or.inl (.rejected _ h.active)⟩
  running _ _ hk hasg hp h := ⟨h.pending, Or.inl (.running hk h.active hasg hp)⟩
  starting s := Pending c s.1 ∧ c.kind = .restoreAndStart ∧
    s.1.store.mem.active c.serviceID = some (entryOf c .starting)
  path a hk hasg hp s h := by
    refine ⟨trivial, fun e x w' _ hh _ => ?_⟩
    cases x with
    | error err => trivial
    | ok path =>
      have hr : a.stopReported = false := by
        by_contra hr
        have := h.reported a rfl (by simpa using hr)
        rw [hp] at this
        cases this
      refine ⟨h.pending.step hh (by simp), hk, ?_⟩
      rw [handle_active_inert hh trivial, h.active, entryOf, ← hp, ← hasg, ← hr]
  placed s := Pending c s.1 ∧ c.kind = .restoreAndStart ∧
    ∃ path t', s.2 = ⟨.restore c, .ok path⟩ :: t'
  restore a hk hne s h := by
    refine ⟨⟨rfl, hk, h.pending, fun b hb => hne b (h.active.symm.trans hb)⟩,
      fun e x w' _ hh _ => ?_⟩
    cases x with
    | error err => trivial
    | ok path => exact ⟨h.pending.step hh (by simp), hk, path, _, rfl⟩
  put s h := by
    obtain ⟨hpend, hk, path, t', ht⟩ := h
    refine ⟨⟨rfl, hpend, .starting hk ht⟩, fun e x w' _ hh _ => ?_⟩
    cases x with
    | error err => trivial
    | ok u =>
      refine ⟨hpend.step hh (by simp), hk, ?_⟩
      rw [handle_active hh]
      simp [Op.onActive]
  start path s h := by
    obtain ⟨hpend, hk, hact⟩ := h
    refine ⟨⟨rfl, hk, hact⟩, fun e x w' _ hh _ => ?_⟩
    have hpend' := hpend.step hh (by simp)
    have hact' := (congrFun (handle_active_inert hh trivial) c.serviceID).trans hact
    cases x with
    | terminal code message => exact ⟨hpend', Or.inl (.terminal hk rfl)⟩
    | failed err => trivial
    | ok => exact ⟨hpend', Or.inl (.started hk hact' rfl)⟩
  absent s hk h := by
    obtain ⟨t', ht⟩ := h.last
    exact ⟨h.pending, Or.inr ⟨_, rfl, rfl, rfl, rfl, .absent hk h.active ht⟩⟩
  stop a hk hasg s h := by
    refine ⟨⟨rfl, hk⟩, fun e x w' _ hh _ => ?_⟩
    have hact' := (congrFun (handle_active_inert hh trivial) c.serviceID).trans h.active
    cases x with
    | error err => trivial
    | ok u =>
      exact ⟨h.pending.step hh (by simp),
        Or.inr ⟨_, rfl, rfl, rfl, rfl, .stopped hk hact' hasg rfl⟩⟩
  unreported a s hk hasg hp hr h :=
    ⟨h.pending, Or.inr ⟨a, rfl, rfl, hasg, hp, .again hk h.active hasg hp hr⟩⟩
  sync a hk hasg hp hr s h := by
    refine ⟨⟨rfl, hk, a, h.active, hasg, hp, hr⟩, fun e x w' _ hh _ => ?_⟩
    cases x with
    | error err => trivial
    | ok sync => exact ⟨h.pending.step hh (by simp), Or.inl (.synced hk rfl)⟩
  keep res b hs s h := by
    obtain ⟨hpend, hcom | ⟨b, ⟨rfl⟩, -, hasg, hp, hset⟩⟩ := h
    · exact absurd hs hcom.not_stopped
    refine ⟨⟨rfl, hpend, hset⟩, fun e x w' _ hh _ => ?_⟩
    cases x with
    | error err => trivial
    | ok u =>
      refine ⟨fun _ => ⟨hpend.step hh (by simp), b, ?_, hasg, hp⟩,
        fun h => absurd (hs.symm.trans h) (by simp)⟩
      rw [handle_active hh]
      simp [Op.onActive]
  commit res a hs s h := by
    obtain ⟨hpend, hcom | ⟨b, rfl, hst, -⟩⟩ := h
    swap
    · exact nomatch hs hst
    refine ⟨⟨rfl, rfl, hpend, hcom⟩, fun e x w' _ hh _ => ?_⟩
    cases x with
    | error err => trivial
    | ok u =>
      refine ⟨fun h => absurd h hcom.not_stopped, fun h => ⟨hcom.sync_isSome h, res, ?_, h⟩⟩
      rw [handle_results hh]
      simp [Op.onResults]
  processed _ := .top
  lost _ _ _ := ⟨trivial, fun _ _ _ _ _ _ => trivial⟩
  broken := .top
  processed_broken _ _ _ := trivial
  reporting _ := Stable.assertion (J := fun w _ => StoppedEntry c w)
    fun _ _ _ _ _ _ hh hop h => h.inert hh hop
  copy _ hs _ h := ⟨trivial, fun _ _ _ _ hh _ => (h.1 hs).inert hh trivial⟩
  broken_reporting _ _ _ := trivial
  reported s := Pending c s.1 ∧ ∃ r t', s.2 = ⟨.reportStopped r, .accepted⟩ :: t' ∧
    r.serviceID = c.serviceID ∧ r.assignmentID = c.assignmentID
  report lease s h := ⟨⟨rfl, rfl, h⟩, fun e x w' _ hh _ => by
    cases x with
    | accepted => exact ⟨h.1.step hh (by simp), _, _, rfl, rfl, rfl⟩
    | _ => exact StoppedEntry.inert h hh trivial⟩
  marking a s := Pending c s.1 ∧ s.1.store.mem.active c.serviceID = a ∧ ∃ r t',
    s.2 = ⟨.active c.serviceID, a⟩ :: ⟨.reportStopped r, .accepted⟩ :: t' ∧
      r.serviceID = c.serviceID ∧ r.assignmentID = c.assignmentID
  marks s h := ⟨trivial, fun e a w' _ hh _ => by
    obtain ⟨hpend, r, t', ht, hr⟩ := h
    exact ⟨hpend.step hh (by simp), active_read hh, r, t', congrArg _ ht, hr⟩⟩
  broken_marking _ _ _ := trivial
  mark a hasg hp s h := by
    obtain ⟨hpend, hact, r, t', ht, hsvc, hrep⟩ := h
    exact ⟨⟨rfl, hpend, .reported ht hsvc hrep hact hasg hp⟩, fun _ x _ _ _ _ => by
      cases x <;> trivial⟩
  settled res := Stable.assertion (J := fun w _ => res.status = .stoppedAndSynced →
      res.sync.isSome ∧ SyncedResult c w)
    fun _ _ _ _ _ _ hh hop h hs => ⟨(h hs).1, (h hs).2.inert hh hop⟩
  finish _ _ _ h := ⟨trivial, fun _ lost _ _ hh _ => by
    cases lost with
    | true => trivial
    | false => exact fun hs => ⟨(h.2 hs).1, (h.2 hs).2.inert hh trivial⟩⟩
  broken_settled _ _ _ := trivial
  reportStart _ _ _ _ h := ⟨trivial, fun _ _ _ _ hh _ hs =>
    ⟨(h hs).1, (h hs).2.inert hh trivial⟩⟩
  signed _ := Stable.assertion (J := fun w _ => SyncedResult c w)
    fun _ _ _ _ _ _ hh hop h => h.inert hh hop
  sign _ hs _ h := ⟨trivial, fun _ _ _ _ hh _ => (h hs).2.inert hh trivial⟩
  broken_signed _ _ _ := trivial
  synced := Stable.assertion
    (J := fun w t => SyncedResult c w ∧ Once (SyncAccepted c.commandID) t)
    fun _ _ _ _ _ _ hh hop h => ⟨h.1.inert hh hop, h.2.cons⟩
  reportSync sync lease hid _ s h := ⟨⟨hid, h⟩, fun e x w' _ hh _ => by
    have h' := SyncedResult.inert h hh trivial
    cases x with
    | accepted => exact ⟨h', Once.head hid⟩
    | _ => exact h'⟩
  broken_synced _ _ := trivial
  relock _ h := ⟨trivial, fun _ _ _ _ hh _ => ⟨h.1.inert hh trivial, h.2.cons⟩⟩
  released := (stable_once (Released c.commandID)).assertion
  release _ h := ⟨⟨rfl, h.1, h.2⟩, fun _ x _ _ _ _ => by
    cases x with
    | error err => trivial
    | ok u => exact Once.head rfl⟩
  final res := Stable.assertion (J := fun _ t => res.status = .stoppedAndSynced →
    Once (Released c.commandID) t) (stable_imp (stable_once _))
  final_released _ _ h _ := h
  final_settled res s hnone h hs := absurd (h hs).1 (by simp [hnone hs])
  allow _ _ h := ⟨trivial, fun _ lost _ _ _ _ => by
    cases lost with
    | true => trivial
    | false => exact fun hs => (h hs).cons⟩
  acking res _ := Stable.assertion (J := fun _ t => res.status = .stoppedAndSynced →
    Once (Released c.commandID) t) (stable_imp (stable_once _))
  signAck _ _ h := ⟨trivial, fun _ _ _ _ _ _ hs => (h hs).cons⟩
  broken_acking _ _ _ _ := trivial
  acked := .top
  ack _ _ _ h := ⟨⟨rfl, h⟩, fun _ x _ _ _ _ => by
    cases x with
    | accepted => trivial
    | _ => exact fun hs => (h hs).cons⟩
  processed_acked _ _ _ := trivial

/-- **`Process` makes every call in its circumstances**: an invariant such calls keep holds wherever
`Process` is cut and when it returns. -/
theorem process_conduct {nodeID : String} {rounds : Nat} (hK : Keeps E I c) (hI : I w t) :
    wp handle E I (Daemon.process nodeID rounds c) (fun _ w t => I w t) w t := by
  refine wp_mono (fun _ _ _ h => h.1) (wp_of_holds hK.step hI
    ((circumstances hK).process nodeID rounds ?_ fun _ _ => ?_))
  all_goals exact True.intro

end Circumstances

/-! ### Reconciliation -/

section Reconciliation

variable {E : Env → Prop} {I : World → Trace Op Ans → Prop}
  (hstep : ∀ op e w t x w', I w t → Recovers w op → E e → handle op e w = some (x, w') →
    I w' (⟨op, x⟩ :: t))

include hstep

theorem reconcileServices_conduct (services : List RunningService) {w : World} {t : Trace Op Ans}
    (hI : I w t) :
    wp handle E I (Executor.reconcileServices services) (fun _ w t => I w t) w t := by
  induction services generalizing w t with
  | nil => exact hI
  | cons service rest ih =>
    refine wp_perform (G := fun w _ => Recovers w) hstep hI trivial
      fun e active w₁ _ hh hI₁ => ?_
    split
    · refine wp_perform (G := fun w _ => Recovers w) hstep hI₁ trivial
        fun _ removed w₂ _ _ hI₂ => ?_
      cases removed with
      | error err => exact hI₂
      | ok u => exact ih hI₂
    next a ha =>
      split
      next hp =>
        have hact := (Option.filter_eq_some_iff.mp ha).1
        have hmem : w₁.store.mem.active service.serviceID = some a := by
          rw [handle_active hh, ← hact, handle_active_reply hh]
          rfl
        refine wp_perform (G := fun w _ => Recovers w) hstep hI₁ ⟨a, hmem, hp, rfl⟩
          fun _ stored w₂ _ _ hI₂ => ?_
        cases stored with
        | error err => exact hI₂
        | ok u => exact ih hI₂
      · exact ih hI₁

/-- **`Reconcile` makes every call in its circumstances.** -/
theorem reconcile_conduct {w : World} {t : Trace Op Ans} (hI : I w t) :
    wp handle E I Executor.reconcile (fun _ w t => I w t) w t := by
  refine wp_perform (G := fun w _ => Recovers w) hstep hI trivial
    fun _ running w' _ _ hI' => ?_
  cases running with
  | error err => exact hI'
  | ok services => exact reconcileServices_conduct hstep services hI'

end Reconciliation

/-! ## A history -/

/-- A start and a stop of one assignment during which every call succeeds. -/
def startAndStop : List Event :=
  [smoothly (startCommand "c1" "s" "a" 5), smoothly (stopCommand "c2" "s" "a" 5)]

theorem durable_startAndStop : ∀ ev ∈ startAndStop, ∀ e ∈ ev.choices, e.Durable := by
  intro ev hev e he
  have hdefault : e = {} := by
    simp only [startAndStop, List.mem_cons, List.not_mem_nil, or_false] at hev
    rcases hev with rfl | rfl <;> exact List.eq_of_mem_replicate he
  rw [hdefault]
  exact ⟨rfl, by simp⟩

end SharedNode.Agent
