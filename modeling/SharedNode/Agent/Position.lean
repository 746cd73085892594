import SharedNode.Agent.Outline

/-!
# Where `Process` is

The calls `Daemon.Process` (`internal/agent/daemon.go`) makes for one command, as a protocol. A
stage says how far the command has come, as seen from the calls and their answers: before its lease
is renewed, in `Execute` with a stop still possible, in `Execute` with any other outcome certain,
retrying a report with a copy of the lease it read, and so on.

`process_follows`: `Process` follows the protocol whatever its calls answer. It asks the workspace
only in `Execute`, sends a report or an acknowledgement only with the lease it read last, reads the
lost flag after every `Execute` whose outcome is not a stop, and returns `ErrLeaseLost` once it has
read that flag as set.
-/

namespace SharedNode.Agent

open ControlPlane Effect Prog

/-- How far `Process` has come. -/
inductive Stage where
  /-- Before the renewal goroutine is started. -/
  | opening
  /-- In `Execute`, whose outcome may still be a stop. -/
  | executing
  /-- In `Execute`, whose outcome will be an error or a result other than a stop. -/
  | decided
  /-- Sending `ReportStopped` with this copy of the lease. -/
  | reporting (lease : CommandLease)
  /-- Storing that the stop was reported. -/
  | marking
  /-- After `Execute`, with no copy of the lease in use. -/
  | settled
  /-- Sending the last report or the acknowledgement with this copy of the lease. -/
  | signed (lease : CommandLease)
  /-- The lost flag was read as set. -/
  | denied
  deriving DecidableEq, Repr

namespace Stage

/-- The stage after a call of `Execute`. -/
def afterExecute : (op : Op) → Ans op → Stage
  | .restore _, _ | .path _, _ | .start .., _ | .sync _, _ | .commit .., _ => decided
  | .stop _, .error _ | .setActive .., .error _ | .lockFile _, .error _ => decided
  | .currentLease, lease => reporting lease
  | .leaseLost, true => denied
  | .leaseLost, false => settled
  | _, _ => executing

def next : Stage → (op : Op) → Ans op → Stage
  | opening, .renewLease .., _ => executing
  | executing, op, x => afterExecute op x
  | decided, .leaseLost, true => denied
  | decided, .leaseLost, false => settled
  | reporting _, .reportStopped _, .accepted => marking
  | marking, .result _, _ => executing
  | settled, .currentLease, lease => signed lease
  | settled, .leaseLost, true => denied
  | signed _, .reportStoppedAndSynced _, .accepted => settled
  | signed _, .ack .., .accepted => settled
  | st, _, _ => st

def Fits (c : Command) (st : Stage) : Op → Prop
  | .renewLease id lease => st = opening ∧ id = c.commandID ∧ lease = c.lease
  | .restore d | .sync d => st = executing ∧ d = c
  | .reportStopped r => st = reporting r.lease
  | .reportStoppedAndSynced r => st = signed r.lease
  | .ack _ lease _ => st = signed lease
  | .reportStarted .. | .release _ => st = settled
  | _ => True

theorem afterExecute_ne_opening (op : Op) (x : Ans op) : afterExecute op x ≠ opening := by
  unfold afterExecute
  split <;> simp

theorem next_ne_opening {st : Stage} (hst : st ≠ opening) (op : Op) (x : Ans op) :
    st.next op x ≠ opening := by
  unfold next
  split <;> first | exact hst | exact afterExecute_ne_opening _ _ | simp

theorem next_opening {op : Op} (hop : ∀ id lease, op ≠ .renewLease id lease) (x : Ans op) :
    opening.next op x = opening := by
  cases op with
  | renewLease id lease => exact absurd rfl (hop id lease)
  | _ => rfl

end Stage

/-- The calls of `Process` for a command. -/
def positions (c : Command) : Protocol Op Ans Stage := ⟨Stage.Fits c, Stage.next⟩

/-- What `Process` leaves. -/
def Processed (r : Except AgentError Unit) (st : Stage) : Prop :=
  st ≠ .decided ∧ (st = .denied → r = .error .leaseLost)

/-- The stages between the calls of `Process`. -/
def stages (c : Command) : Outline (positions c).logic c where
  later := Eq
  quiet {op st} hop := by
    cases op with
    | setLease | clearLease | stamp | lockService | unlockService | unlockFile | wait
    | stopRenewal => exact ⟨trivial, fun x => by cases st <;> rfl⟩
    | _ => cases hop
  opening := .fixed (· = .opening)
  ready st := st = .executing ∨ st = .marking
  renew := by
    rintro _ rfl
    exact ⟨⟨rfl, rfl, rfl⟩, fun _ => Or.inl rfl⟩
  begun := .fixed (· = .executing)
  failing := .fixed (· = .decided)
  executed res := .fixed fun st => st = .executing ∨ (st = .decided ∧ res.status ≠ .stopped)
  lookup := by
    rintro st (rfl | rfl) <;> exact ⟨trivial, fun _ => ⟨fun _ _ => Or.inl rfl, fun _ => rfl⟩⟩
  lock := by
    rintro _ rfl
    exact ⟨trivial, fun x => by cases x <;> rfl⟩
  pending := (· = .executing)
  lookupLocked := by
    rintro _ rfl
    exact ⟨trivial, fun _ => ⟨fun _ _ => Or.inl rfl, fun _ => rfl⟩⟩
  read _ := (· = .executing)
  entry := by
    rintro _ rfl
    exact ⟨trivial, fun _ => rfl⟩
  outcome res a st :=
    (st = .executing ∨ st = .decided) ∧ (res.status = .stopped → a.isSome ∧ st = .executing)
  rejected message a st h := ⟨Or.inl h, by simp [failed]⟩
  running a st _ _ _ h := ⟨Or.inl h, by simp⟩
  starting := (· = .decided)
  path a _ _ _ := by
    rintro _ rfl
    exact ⟨trivial, fun x => by cases x <;> rfl⟩
  placed := (· = .decided)
  restore a _ _ := by
    rintro _ rfl
    exact ⟨⟨rfl, rfl⟩, fun x => by cases x <;> rfl⟩
  put := by
    rintro _ rfl
    exact ⟨trivial, fun x => by cases x <;> rfl⟩
  start path := by
    rintro _ rfl
    refine ⟨trivial, fun x => ?_⟩
    cases x with
    | failed err => rfl
    | _ => exact ⟨Or.inr rfl, by simp⟩
  absent st _ h := ⟨Or.inl h, fun _ => ⟨rfl, h⟩⟩
  stop a _ _ := by
    rintro _ rfl
    refine ⟨trivial, fun x => ?_⟩
    cases x with
    | error err => rfl
    | ok u => exact ⟨Or.inl rfl, fun _ => ⟨rfl, rfl⟩⟩
  unreported a st _ _ _ _ h := ⟨Or.inl h, fun _ => ⟨rfl, h⟩⟩
  sync a _ _ _ _ := by
    rintro _ rfl
    refine ⟨⟨rfl, rfl⟩, fun x => ?_⟩
    cases x with
    | error err => rfl
    | ok sync => exact ⟨Or.inr rfl, by simp⟩
  keep res b hs st h := by
    obtain ⟨-, rfl⟩ := h.2 hs
    exact ⟨trivial, fun x => by cases x <;> first | rfl | exact Or.inl rfl⟩
  commit res a hs st h := by
    have hne : res.status ≠ .stopped := fun hst => by simpa [hs hst] using (h.2 hst).1
    refine ⟨trivial, fun x => ?_⟩
    rcases h.1 with rfl | rfl <;> cases x <;> first | rfl | exact Or.inr ⟨rfl, hne⟩
  processed r := .fixed (Processed r)
  lost err := by
    rintro _ rfl
    refine ⟨trivial, fun lost => ?_⟩
    cases lost with
    | true => exact ⟨by simp [positions, Stage.next], fun _ => rfl⟩
    | false => exact ⟨by simp [positions, Stage.next], by simp [positions, Stage.next]⟩
  broken := .fixed fun st => st ≠ .decided ∧ st ≠ .denied
  processed_broken err st h := ⟨h.1, fun hd => absurd hd h.2⟩
  reporting lease := .fixed (· = .reporting lease)
  copy res hs st h := by
    obtain rfl : st = .executing := h.resolve_right fun h => h.2 hs
    exact ⟨trivial, fun _ => rfl⟩
  broken_reporting lease st h := h ▸ ⟨by simp, by simp⟩
  reported := (· = .marking)
  report lease := by
    rintro _ rfl
    exact ⟨rfl, fun x => by cases x <;> rfl⟩
  marking _ := (· = .marking)
  marks := by
    rintro _ rfl
    exact ⟨trivial, fun _ => rfl⟩
  broken_marking a st h := h ▸ ⟨by simp, by simp⟩
  mark a _ _ := by
    rintro _ rfl
    refine ⟨trivial, fun x => ?_⟩
    cases x with
    | error err => exact ⟨by simp [positions, Stage.next], by simp [positions, Stage.next]⟩
    | ok u => exact Or.inr rfl
  settled _ := .fixed (· = .settled)
  finish res hs st h := by
    refine ⟨trivial, fun lost => ?_⟩
    rcases h with rfl | ⟨rfl, -⟩ <;> cases lost <;>
      first | rfl | exact ⟨by simp [positions, Stage.next, Stage.afterExecute], fun _ => rfl⟩
  broken_settled res st h := h ▸ ⟨by simp, by simp⟩
  reportStart res connection _ := by
    rintro _ rfl
    exact ⟨rfl, fun _ => rfl⟩
  signed lease := .fixed (· = .signed lease)
  sign res _ := by
    rintro _ rfl
    exact ⟨trivial, fun _ => rfl⟩
  broken_signed lease st h := h ▸ ⟨by simp, by simp⟩
  synced := .fixed (· = .settled)
  reportSync sync lease _ hl := by
    rintro _ rfl
    exact ⟨congrArg Stage.signed hl.symm, fun x => by cases x <;> rfl⟩
  broken_synced st h := h ▸ ⟨by simp, by simp⟩
  relock := by
    rintro _ rfl
    exact ⟨trivial, fun _ => rfl⟩
  released := .fixed (· = .settled)
  release := by
    rintro _ rfl
    refine ⟨rfl, fun x => ?_⟩
    cases x with
    | error err => exact ⟨by simp [positions, Stage.next], by simp [positions, Stage.next]⟩
    | ok u => rfl
  final _ := .fixed (· = .settled)
  final_released _ _ h := h
  final_settled _ _ _ h := h
  allow res := by
    rintro _ rfl
    refine ⟨trivial, fun lost => ?_⟩
    cases lost with
    | true => exact ⟨by simp [positions, Stage.next], fun _ => rfl⟩
    | false => rfl
  acking _ lease := .fixed (· = .signed lease)
  signAck res := by
    rintro _ rfl
    exact ⟨trivial, fun _ => rfl⟩
  broken_acking res lease st h := h ▸ ⟨by simp, by simp⟩
  acked := .fixed (· = .settled)
  ack res lease := by
    rintro _ rfl
    exact ⟨rfl, fun x => by cases x <;> rfl⟩
  processed_acked r st h := h ▸ ⟨by simp, by simp⟩

/-- **`Process` follows its positions.** -/
theorem process_follows {c : Command} (nodeID : String) (rounds : Nat) :
    Follows (positions c) (Daemon.process nodeID rounds c) Processed .opening :=
  follows_of_holds ((stages c).process nodeID rounds rfl fun _ h => h ▸ ⟨by simp, by simp⟩)

end SharedNode.Agent
