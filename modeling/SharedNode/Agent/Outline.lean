import SharedNode.Agent.Daemon
import SharedNode.Effect.Logic

/-!
# The outline of `Process`

The calls of `Daemon.Process` (`internal/agent/daemon.go`) for one command in the order they are
made. An `Outline` is a proof outline over an arbitrary program logic: a fact for each point between
two calls, and for each call the rule that leads from the fact before it to the one after its
answer. `Outline.process` is the proof that the rules are all that `Process` needs; what its calls
are made for, what it has seen and how far it has come are three such outlines.
-/

namespace SharedNode.Agent

open ControlPlane Effect Prog

/-- The calls whose answers tell `Process` nothing of its command. -/
def Op.quiet : Op → Bool
  | .setLease .. | .clearLease _ | .stamp .. | .lockService _ | .unlockService _ | .unlockFile _
  | .wait | .stopRenewal => true
  | _ => false

/-- The entry of a service in a phase of the command's assignment. -/
abbrev entryOf (c : Command) (phase : Phase) : ActiveAssignment :=
  { assignmentID := c.assignmentID, phase }

section Posts

variable {S α ε : Type} (Q P : S → Prop)

/-- `Q` after a success, `P` after an error. -/
def IfOk : Except ε α → S → Prop
  | .ok _ => Q
  | .error _ => P

/-- `Q` once the control plane accepts, `P` until then. -/
def IfAccepted : Reply → S → Prop
  | .accepted => Q
  | _ => P

/-- `Q` of a final stored result, `P` if there is none. -/
structure IfFinal (Q : CommandResult → S → Prop) (stored : Option CommandResult) (s : S) :
    Prop where
  final : ∀ r, Executor.cached stored = some r → Q r s
  none : Executor.cached stored = none → P s

end Posts

/-- What holds between the calls of `Process`, and the rules of its calls. -/
structure Outline {S : Type} (L : Logic Op Ans S) (c : Command) where
  /-- What a quiet call leaves. -/
  later : S → S → Prop
  quiet : ∀ {op : Op} {s : S}, op.quiet = true → L.call op (fun _ => later s) s
  /-- Before the renewal is started. -/
  opening : Assertion later
  /-- Before `Execute`. -/
  ready : S → Prop
  renew : L.Step opening (.renewLease c.commandID c.lease) fun _ => ready
  /-- In `Execute`, before the lookup under the locks. -/
  begun : Assertion later
  /-- `Execute` fails. -/
  failing : Assertion later
  /-- `Execute` has this result. -/
  executed : CommandResult → Assertion later
  lookup : L.Step ready (.result c.commandID) (IfFinal begun fun r => executed r)
  lock : L.Step begun (.lockFile c.serviceID) (IfOk begun failing)
  /-- The command has no final result. -/
  pending : S → Prop
  lookupLocked : L.Step begun (.result c.commandID) (IfFinal pending fun r => executed r)
  /-- The active entry was read. -/
  read : Option ActiveAssignment → S → Prop
  entry : L.Step pending (.active c.serviceID) read
  /-- `execute` has this outcome. -/
  outcome : CommandResult → Option ActiveAssignment → S → Prop
  rejected : ∀ message a s, read a s → outcome (failed message) a s
  running : ∀ a s, c.kind = .restoreAndStart → a.assignmentID = c.assignmentID →
    a.phase = .running → read (some a) s → outcome { status := .started } (some a) s
  /-- The entry says starting. -/
  starting : S → Prop
  path : ∀ a, c.kind = .restoreAndStart → a.assignmentID = c.assignmentID → a.phase = .starting →
    L.Step (read (some a)) (.path c.serviceID) (IfOk starting failing)
  /-- The workspace was restored. -/
  placed : S → Prop
  restore : ∀ a, c.kind = .restoreAndStart → (∀ b, a = some b → b.phase ≠ .running ∧
      b.phase ≠ .starting ∧ (b.assignmentID = c.assignmentID ∨ b.phase = .stopped)) →
    L.Step (read a) (.restore c) (IfOk placed failing)
  put : L.Step placed (.setActive c.serviceID (entryOf c .starting))
    (IfOk starting failing)
  start : ∀ path, L.Step starting (.start c path) fun
    | .terminal code message => outcome { status := .failed, code, message } none
    | .failed _ => failing
    | .ok => outcome { status := .started } (some (entryOf c .running))
  absent : ∀ s, c.kind = .stopAndSync → read none s →
    outcome { status := .stopped } (some (entryOf c .stopped)) s
  stop : ∀ a, c.kind = .stopAndSync → a.assignmentID = c.assignmentID →
    L.Step (read (some a)) (.stop c)
      (IfOk (outcome { status := .stopped } (some (entryOf c .stopped))) failing)
  unreported : ∀ a s, c.kind = .stopAndSync → a.assignmentID = c.assignmentID →
    a.phase = .stopped → a.stopReported = false → read (some a) s →
      outcome { status := .stopped } (some a) s
  sync : ∀ a, c.kind = .stopAndSync → a.assignmentID = c.assignmentID → a.phase = .stopped →
    a.stopReported = true → L.Step (read (some a)) (.sync c) fun
      | .error _ => failing
      | .ok sync => outcome { status := .stoppedAndSynced, sync := some sync } none
  keep : ∀ res b, res.status = .stopped → L.Step (outcome res (some b)) (.setActive c.serviceID b)
    (IfOk (executed res) failing)
  commit : ∀ res a, (res.status = .stopped → a = none) →
    L.Step (outcome res a) (.commit c.commandID c.serviceID res a)
      (IfOk (executed res) failing)
  /-- `Process` returns. -/
  processed : Except AgentError Unit → Assertion later
  lost : ∀ err, L.Step failing .leaseLost fun lost =>
    processed (.error (if lost then .leaseLost else err))
  /-- `Process` returns an error that is not about its lease. -/
  broken : Assertion later
  processed_broken : ∀ err s, broken s → processed (.error err) s
  /-- The stop is reported with this lease. -/
  reporting : CommandLease → Assertion later
  copy : ∀ res, res.status = .stopped → L.Step (executed res) .currentLease fun lease =>
    reporting lease
  broken_reporting : ∀ lease s, reporting lease s → broken s
  /-- The stop was reported. -/
  reported : S → Prop
  report : ∀ lease, L.Step (reporting lease)
    (.reportStopped ⟨c.serviceID, c.assignmentID, c.commandID, lease⟩)
    (IfAccepted reported (reporting lease))
  /-- The entry was read to mark it. -/
  marking : Option ActiveAssignment → S → Prop
  marks : L.Step reported (.active c.serviceID) marking
  broken_marking : ∀ a s, marking a s → broken s
  mark : ∀ a, a.assignmentID = c.assignmentID → a.phase = .stopped →
    L.Step (marking (some a)) (.setActive c.serviceID { a with stopReported := true })
      (IfOk ready broken)
  /-- The lease is there after `Execute`. -/
  settled : CommandResult → Assertion later
  finish : ∀ res, res.status ≠ .stopped → L.Step (executed res) .leaseLost fun
    | true => processed (.error .leaseLost)
    | false => settled res
  broken_settled : ∀ res s, settled res s → broken s
  reportStart : ∀ res connection, res.status = .started → L.Step (settled res)
    (.reportStarted c.serviceID c.assignmentID (Connection.endpoint connection)) fun _ =>
      settled res
  /-- The sync is reported with this lease. -/
  signed : CommandLease → Assertion later
  sign : ∀ res, res.status = .stoppedAndSynced → L.Step (settled res) .currentLease fun lease =>
    signed lease
  broken_signed : ∀ lease s, signed lease s → broken s
  /-- The report of the sync was accepted. -/
  synced : Assertion later
  reportSync : ∀ (sync : SyncResult) lease, sync.commandID = c.commandID → sync.lease = lease →
    L.Step (signed lease) (.reportStoppedAndSynced sync) (IfAccepted synced (signed lease))
  broken_synced : ∀ s, synced s → broken s
  relock : L.Step synced (.lockFile c.serviceID) fun _ => synced
  /-- The workspace was released. -/
  released : Assertion later
  release : L.Step synced (.release c) (IfOk released broken)
  /-- The result is to be acknowledged. -/
  final : CommandResult → Assertion later
  final_released : ∀ res s, released s → final res s
  final_settled : ∀ res s, (res.status = .stoppedAndSynced → res.sync = none) → settled res s →
    final res s
  allow : ∀ res, L.Step (final res) .leaseLost fun
    | true => processed (.error .leaseLost)
    | false => final res
  /-- The result is acknowledged with this lease. -/
  acking : CommandResult → CommandLease → Assertion later
  signAck : ∀ res, L.Step (final res) .currentLease fun lease => acking res lease
  broken_acking : ∀ res lease s, acking res lease s → broken s
  /-- The result was acknowledged. -/
  acked : Assertion later
  ack : ∀ res lease, L.Step (acking res lease) (.ack c.commandID lease res)
    (IfAccepted acked (acking res lease))
  processed_acked : ∀ r s, acked s → processed r s

namespace Outline

variable {S : Type} {L : Logic Op Ans S} {c : Command} (O : Outline L c) {s : S}
  {active : Option ActiveAssignment} {path nodeID : String} {rounds : Nat} {res : CommandResult}

theorem call_quiet {α : Type} {op : Op} {f : Ans op → M α} {Q : α → S → Prop}
    (P : Assertion O.later) (hop : op.quiet = true) (hs : P s)
    (hf : ∀ x s, P s → Holds L (f x) Q s) :
    Holds L ((ask op).bind f) Q s :=
  Holds.call (O.quiet hop) fun x _ h => hf x _ (P.stable h hs)

/-! ## The executor -/

/-- What `execute` leaves. -/
def Leaves : Except AgentError (CommandResult × Option ActiveAssignment) → S → Prop
  | .error _ => O.failing
  | .ok (res, a) => O.outcome res a

/-- What `Execute` leaves. -/
def Executes : Except AgentError CommandResult → S → Prop
  | .error _ => O.failing
  | .ok res => O.executed res

theorem startContainer (hs : O.starting s) :
    Holds L (Executor.startContainer c path) O.Leaves s := by
  refine Holds.call (O.start path hs) fun started s h => ?_
  cases started <;> exact h

theorem restoreAndStart (hk : c.kind = .restoreAndStart) (hs : O.read active s) :
    Holds L (Executor.restoreAndStart c active) O.Leaves s := by
  unfold Executor.restoreAndStart
  split
  · exact O.rejected _ _ _ hs
  split
  · exact O.rejected _ _ _ hs
  next hother =>
  -- from here on an entry of another assignment is a stopped one
  have hmine : ∀ a, active = some a → a.assignmentID = c.assignmentID ∨ a.phase = .stopped := by
    rintro a rfl
    by_contra hno
    exact hother (by simpa [not_or] using hno)
  split
  next hrun =>
    cases active with
    | none => cases hrun
    | some a =>
      have hp : a.phase = .running := by simpa using hrun
      exact O.running a s hk ((hmine a rfl).resolve_right (by rw [hp]; simp)) hp hs
  next hnrun =>
  split
  next hst =>
    cases active with
    | none => cases hst
    | some a =>
      have hp : a.phase = .starting := by simpa using hst
      have hasg : a.assignmentID = c.assignmentID :=
        (hmine a rfl).resolve_right (by rw [hp]; simp)
      refine Holds.call (O.path a hk hasg hp hs) fun path s h => ?_
      cases path with
      | error err => exact h
      | ok path =>
        simp only [Executor.startRestored]
        rw [if_pos (by simp [hp, hasg])]
        exact O.startContainer h
  next hnst =>
    have hne : ∀ a, active = some a → a.phase ≠ .running ∧ a.phase ≠ .starting := by
      rintro a rfl
      exact ⟨by simpa using hnrun, by simpa using hnst⟩
    refine Holds.call (O.restore active hk
      (fun a ha => ⟨(hne a ha).1, (hne a ha).2, hmine a ha⟩) hs) fun path s h => ?_
    cases path with
    | error err => exact h
    | ok path =>
      simp only [Executor.startRestored]
      rw [if_neg (by cases active <;> simp_all)]
      refine Holds.call (O.put h) fun stored s h => ?_
      cases stored with
      | error err => exact h
      | ok u => exact O.startContainer h

theorem stopAndSync (hk : c.kind = .stopAndSync) (hs : O.read active s) :
    Holds L (Executor.stopAndSync c active) O.Leaves s := by
  cases active with
  | none => exact O.absent s hk hs
  | some a =>
    simp only [Executor.stopAndSync]
    split
    · exact O.rejected _ _ _ hs
    next hasg =>
    rw [ne_eq, not_not] at hasg
    split
    · refine Holds.call (O.stop a hk hasg hs) fun stopped s h => ?_
      cases stopped <;> exact h
    next hp =>
    rw [ne_eq, not_not] at hp
    split
    next hr => exact O.unreported a s hk hasg hp (by simpa using hr) hs
    next hr =>
      refine Holds.call (O.sync a hk hasg hp (by simpa using hr) hs) fun synced s h => ?_
      cases synced <;> exact h

theorem execute (hs : O.pending s) : Holds L (Executor.execute nodeID c) O.Leaves s := by
  unfold Executor.execute
  split
  · exact Holds.call (O.entry hs) fun _ _ h => O.rejected _ _ _ h
  split
  · exact Holds.call (O.entry hs) fun _ _ h => O.rejected _ _ _ h
  refine Holds.call (O.entry hs) fun active s h => ?_
  cases hk : c.kind with
  | restoreAndStart => exact O.restoreAndStart hk h
  | stopAndSync => exact O.stopAndSync hk h
  | other kind => exact O.rejected _ _ _ h

theorem record {r : Except AgentError (CommandResult × Option ActiveAssignment)}
    (hs : O.Leaves r s) : Holds L (Executor.record c r) O.Executes s := by
  match r with
  | .error err => exact hs
  | .ok (res, active) =>
    have hstore : Holds L (Executor.store c res active)
        (IfOk (O.executed res) O.failing) s := by
      by_cases hst : res.status = .stopped
      · cases active with
        | none => exact O.commit res none (fun _ => rfl) hs
        | some b =>
          simp only [Executor.store, hst]
          exact O.keep res b hst hs
      · rw [Executor.store_of_ne_stopped hst]
        exact O.commit res active (fun h => absurd h hst) hs
    refine Holds.seq hstore fun stored s h => ?_
    cases stored <;> exact h

theorem executeLocked (hs : O.begun s) :
    Holds L (Executor.executeLocked nodeID c) O.Executes s := by
  refine Holds.call (O.lookupLocked hs) fun stored s h => ?_
  split
  next r hr => exact h.final r hr
  next hr => exact Holds.seq (O.execute (h.none hr)) fun r s h => O.record h

theorem Execute (hs : O.ready s) : Holds L (Executor.Execute nodeID c) O.Executes s := by
  refine Holds.call (O.lookup hs) fun stored s h => ?_
  split
  next r hr => exact h.final r hr
  next hr =>
  refine O.call_quiet O.begun rfl (h.none hr) fun _ s h => Holds.call (O.lock h)
    fun locked s h => ?_
  cases locked with
  | error err => exact O.call_quiet O.failing rfl h fun _ _ h => h
  | ok u =>
    refine Holds.seq (O.executeLocked h) fun r s h => ?_
    cases r with
    | error err =>
      exact O.call_quiet O.failing rfl h fun _ _ h => O.call_quiet O.failing rfl h fun _ _ h => h
    | ok res =>
      exact O.call_quiet (O.executed res) rfl h fun _ _ h =>
        O.call_quiet (O.executed res) rfl h fun _ _ h => h

/-! ## The daemon -/

/-- A retried operation, which leads from `P` to `Q` if it is accepted. -/
theorem retry {op : M Reply} (P : Assertion O.later) {Q : S → Prop}
    (hop : ∀ s, P s → Holds L op (IfAccepted Q P) s) (hs : P s) :
    Holds L (Daemon.retry rounds op) (IfOk Q P) s := by
  refine Holds.iterate P (fun s hs => Holds.seq (hop s hs) fun r s h => ?_) rounds hs
  cases r with
  | accepted => exact h
  | unauthenticated err => exact h
  | refused err =>
    refine O.call_quiet P rfl h fun waited _ h => ?_
    cases waited <;> exact h

/-- What the loop of `Process` leaves. -/
def Loops : Except AgentError CommandResult → S → Prop
  | .error err => O.processed (.error err)
  | .ok res => fun s => O.executed res s ∧ res.status ≠ .stopped

theorem executeRound (hs : O.ready s) :
    Holds L (Daemon.executeRound nodeID rounds c) (fun r s => r.elim (O.ready s) (O.Loops · s))
      s := by
  refine Holds.seq (O.Execute hs) fun r s h => ?_
  cases r with
  | error err => exact Holds.call (O.lost err h) fun lost s h => h
  | ok res =>
    dsimp only
    split
    next hst => exact ⟨h, hst⟩
    next hst =>
    rw [ne_eq, not_not] at hst
    refine Holds.call (O.copy res hst h) fun lease s h => ?_
    refine Holds.seq (O.retry (O.reporting lease) (fun s h => O.report lease h) h) fun x s h => ?_
    cases x with
    | error err => exact O.processed_broken _ s (O.broken_reporting lease s h)
    | ok u =>
      refine Holds.seq (R := IfOk O.ready O.broken) (Holds.call (O.marks h) fun active s h => ?_)
        fun m s h => ?_
      · split
        · exact O.broken_marking _ s h
        next a ha =>
          obtain ⟨rfl, hm⟩ := Option.filter_eq_some_iff.mp ha
          obtain ⟨hasg, hp⟩ : a.assignmentID = c.assignmentID ∧ a.phase = .stopped := by
            simpa using hm
          refine Holds.call (O.mark a hasg hp h) fun stored s h => ?_
          cases stored <;> exact h
      · cases m with
        | error err => exact O.processed_broken _ s h
        | ok u => exact h

theorem reportStarted (hs : O.settled res s) :
    Holds L (Daemon.reportStarted rounds c res) (fun _ => O.settled res) s := by
  unfold Daemon.reportStarted
  split
  · exact hs
  next hst =>
  rw [ne_eq, not_not] at hst
  split
  · exact hs
  next connection hc =>
    refine Holds.seq (O.retry (Q := O.settled res) (O.settled res) (fun s h => ?_) hs)
      fun x s h => ?_
    · exact L.mono (fun x s h => by cases x <;> exact h) (O.reportStart res connection hst h)
    · cases x <;> exact h

theorem releases (hs : O.synced s) : Holds L (Executor.release c) (IfOk O.released O.broken) s := by
  refine O.call_quiet O.synced rfl hs fun _ s h => Holds.call (O.relock h) fun locked s h => ?_
  cases locked with
  | error err => exact O.call_quiet O.synced rfl h fun _ s h => O.broken_synced s h
  | ok u =>
    refine Holds.call (O.release h) fun released s h => ?_
    cases released with
    | error err =>
      exact O.call_quiet O.broken rfl h fun _ _ h => O.call_quiet O.broken rfl h fun _ _ h => h
    | ok u =>
      exact O.call_quiet O.released rfl h fun _ _ h => O.call_quiet O.released rfl h fun _ _ h => h

theorem reportSynced (hs : O.settled res s) : Holds L (Daemon.reportSynced rounds c res)
      (fun r s => match r with | .ok res => O.final res s | .error _ => O.broken s) s := by
  unfold Daemon.reportSynced
  split
  next sync hst hsync =>
    refine Holds.call (O.sign res hst hs) fun lease s h => ?_
    refine O.call_quiet (O.signed lease) rfl h fun _ s h => ?_
    refine Holds.seq (O.retry (O.signed lease) (fun s h => O.reportSync _ lease rfl rfl h) h)
      fun x s h => ?_
    cases x with
    | error err => exact O.broken_signed lease s h
    | ok u =>
      refine Holds.seq (O.releases h) fun y s h => ?_
      cases y with
      | error err => exact h
      | ok u => exact O.final_released _ s h
  next hne =>
    refine O.final_settled res s (fun hst => ?_) hs
    cases hsync : res.sync with
    | none => rfl
    | some sync => exact absurd hsync (hne sync hst)

theorem acknowledge (hs : O.final res s) :
    Holds L (Daemon.acknowledge rounds c res) (fun r => O.processed r) s := by
  refine Holds.call (O.allow res hs) fun lost s h => ?_
  cases lost with
  | true => exact h
  | false =>
    refine Holds.call (O.signAck res h) fun lease s h => ?_
    refine Holds.seq (O.retry (O.acking res lease) (fun s h => O.ack res lease h) h) fun x s h => ?_
    cases x with
    | error err => exact O.processed_broken _ s (O.broken_acking res lease s h)
    | ok u => exact O.call_quiet O.acked rfl h fun _ s h => O.processed_acked _ s h

theorem conclude {r : Except AgentError CommandResult} (hs : O.Loops r s) :
    Holds L (Daemon.conclude rounds c r) (fun r => O.processed r) s := by
  cases r with
  | error err => exact hs
  | ok res =>
    refine Holds.call (O.finish res hs.2 hs.1) fun lost s h => ?_
    cases lost with
    | true => exact h
    | false =>
      refine Holds.seq (O.reportStarted h) fun x s h => ?_
      cases x with
      | error err => exact O.processed_broken _ s (O.broken_settled res s h)
      | ok u =>
        refine Holds.seq (O.reportSynced h) fun y s h => ?_
        cases y with
        | error err => exact O.processed_broken _ s h
        | ok res' => exact O.acknowledge h

/-- **`Process` makes its calls as the outline says.** -/
theorem process (nodeID : String) (rounds : Nat) (hs : O.opening s)
    (hopening : ∀ s, O.opening s → O.broken s) :
    Holds L (Daemon.process nodeID rounds c) (fun r => O.processed r) s := by
  have htrack : Holds L (Executor.trackLease c.commandID c.lease) (fun _ => O.opening) s := by
    unfold Executor.trackLease
    split
    · exact hs
    · exact O.call_quiet O.opening rfl hs fun _ _ h => h
  refine Holds.seq htrack fun tracked s h => ?_
  cases tracked with
  | error err => exact O.processed_broken _ s (hopening s h)
  | ok u =>
    refine Holds.call (O.renew h) fun _ s h => ?_
    refine Holds.seq (Holds.iterate O.ready (fun s h => O.executeRound h) rounds h) fun r s h => ?_
    refine Holds.seq (O.conclude h) fun done s h => ?_
    exact O.call_quiet (O.processed done) rfl h fun _ _ h => h

end Outline

end SharedNode.Agent
