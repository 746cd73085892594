import SharedNode.Effect.Prog
import SharedNode.Agent.State

/-!
# The node an agent acts on

The calls `internal/agent` makes (`Op`), their answers (`Ans`), and what they do to the node
(`World`): the command store, the service locks, the local workspace of each service, the staged
sync drafts and the published revisions. An `Env` is everything the outside decides during one
call; with its default values the call succeeds.

* A local workspace is known by where it came from (`Origin`): a successful `Restore`, an empty
  directory made by `Sync`, or anything else a failed operation left behind. What the game server
  writes into it while it runs does not change its origin.
* `World.sync` follows `Manager.Sync` on that level: it creates a missing workspace, resumes the
  draft staged for the command or stages one from the workspace, and publishes the draft. It can
  fail after any of these.
* The lease renewal goroutine is `World.background`: a step of it may come before any call.
* A run that is cut is a crash; `World.reboot` is what the next process finds.

Left out: the files of a workspace. `World.restore`, `World.sync` and `World.release` let the
outside choose the outcome of the manager, and of a failure whether the workspace is kept, gone or
changed. `Workspace.Manager` models the same functions on files; no theorem connects the two.
-/

namespace SharedNode.Agent

open ControlPlane Effect

/-- Where a local workspace came from. -/
inductive Origin where
  | restored (assignmentID : String) (revision : Int)
  | fresh
  | other
  deriving DecidableEq, Repr

/-- The staged draft of a sync (`sync.json`): the revision it will publish and the workspace its
archives were built from. -/
structure Draft where
  commandID : String
  serviceID : String
  assignmentID : String
  revision : Int
  source : Origin
  deriving DecidableEq, Repr

/-- A revision published by a sync: the command it ran for and the workspace it was built from. -/
structure Publication where
  command : Command
  source : Origin
  deriving DecidableEq, Repr

/-- What a failed operation leaves of the workspace it was about to replace or remove. -/
inductive Left where
  | kept
  | gone
  | other
  deriving DecidableEq, Repr

/-- How far a failing sync came. -/
inductive SyncStage where
  | inspected
  | created
  | drafted
  | published
  deriving DecidableEq, Repr

/-- The outcome of `Workspace.Restore`. -/
inductive RestoreOutcome where
  | ok (path : String)
  | failed (err : String) (left : Left)
  deriving DecidableEq, Repr

/-- The outcome of `Workspace.Sync`. -/
inductive SyncOutcome where
  | ok (sizeBytes : Int) (manifestSHA : String)
  | failed (err : String) (reached : SyncStage)
  deriving DecidableEq, Repr

/-- The outcome of `Workspace.Release`. -/
inductive ReleaseOutcome where
  | ok
  | failed (err : String) (left : Left)
  deriving DecidableEq, Repr

/-- The outcome of `ContainerRuntime.Start`; `terminal` is a `TerminalStartError`. -/
inductive StartReply where
  | ok
  | terminal (code message : String)
  | failed (err : String)
  deriving DecidableEq, Repr

/-- The outcome of a call to the control plane; `unauthenticated` is an error for which
`IsAuthenticationFailure` holds. -/
inductive Reply where
  | accepted
  | refused (err : String)
  | unauthenticated (err : String)
  deriving DecidableEq, Repr

/-- What the renewal goroutine does before a call: nothing, record a renewed lease (with the outcome
of the write), or give the lease up. -/
inductive Renewal where
  | quiet
  | renewed (lease : CommandLease) (write : Option String)
  | lost
  deriving DecidableEq, Repr

/-- `RunningService`, as far as reconciliation reads it. -/
structure RunningService where
  serviceID : String
  assignmentID : String
  deriving DecidableEq, Repr

/-- What the outside decides during one call. -/
structure Env where
  write : Option String := none
  lock : Option String := none
  path : Except String String := .ok ""
  restore : RestoreOutcome := .ok ""
  draftLost : Bool := false
  sync : SyncOutcome := .ok 0 ""
  release : ReleaseOutcome := .ok
  start : StartReply := .ok
  stop : Option String := none
  reply : Reply := .accepted
  wait : Option String := none
  running : Except String (List RunningService) := .ok []
  orphan : Option String := none
  renewal : Renewal := .quiet

/-- The lease of the command being processed: whether it is being renewed, its current value, and
whether it was lost. -/
structure LeaseState where
  renewing : Option String := none
  lease : CommandLease := {}
  lost : Bool := false

/-- The node as the agent sees it. -/
structure World where
  store : FileStore := {}
  mutex : String → Bool := fun _ => false
  flock : String → Bool := fun _ => false
  tree : String → Option Origin := fun _ => none
  drafts : String → Option Draft := fun _ => none
  published : List Publication := []
  lease : LeaseState := {}

/-- The calls of the agent. -/
inductive Op where
  | result (commandID : String)
  | active (serviceID : String)
  | setActive (serviceID : String) (active : ActiveAssignment)
  | commit (commandID serviceID : String) (result : CommandResult)
      (active : Option ActiveAssignment)
  | setLease (commandID : String) (lease : CommandLease)
  | clearLease (commandID : String)
  | stamp (commandID : String) (lease : CommandLease)
  | lockService (serviceID : String)
  | unlockService (serviceID : String)
  | lockFile (serviceID : String)
  | unlockFile (serviceID : String)
  | path (serviceID : String)
  | restore (command : Command)
  | sync (command : Command)
  | release (command : Command)
  | start (command : Command) (workspacePath : String)
  | stop (command : Command)
  | running
  | removeOrphan (service : RunningService)
  | reportStarted (serviceID assignmentID : String) (endpoint : Endpoint)
  | reportStopped (report : StoppedReport)
  | reportStoppedAndSynced (result : SyncResult)
  | ack (commandID : String) (lease : CommandLease) (result : CommandResult)
  | wait
  | renewLease (commandID : String) (lease : CommandLease)
  | currentLease
  | leaseLost
  | stopRenewal
  deriving DecidableEq

abbrev Ans : Op → Type
  | .result _ => Option CommandResult
  | .active _ => Option ActiveAssignment
  | .setActive .. | .commit .. | .setLease .. | .clearLease _ => Except String Unit
  | .stamp .. | .lockService _ | .unlockService _ | .unlockFile _ => Unit
  | .lockFile _ => Except String Unit
  | .path _ | .restore _ => Except String String
  | .sync _ => Except String SyncResult
  | .release _ | .stop _ | .removeOrphan _ => Except String Unit
  | .start .. => StartReply
  | .running => Except String (List RunningService)
  | .reportStarted .. | .reportStopped _ | .reportStoppedAndSynced _ | .ack .. => Reply
  | .wait => Except String Unit
  | .renewLease .. | .stopRenewal => Unit
  | .currentLease => CommandLease
  | .leaseLost => Bool

def outcome : Option String → Except String Unit
  | none => .ok ()
  | some err => .error err

namespace World

def setTree (w : World) (serviceID : String) (tree : Option Origin) : World :=
  { w with tree := Function.update w.tree serviceID tree }

/-- The workspace a failed operation leaves. -/
def leave (w : World) (serviceID : String) : Left → World
  | .kept => w
  | .gone => w.setTree serviceID none
  | .other => w.setTree serviceID (some .other)

def restore (w : World) (c : Command) : RestoreOutcome → Except String String × World
  | .ok path =>
    (.ok path, w.setTree c.serviceID (some (.restored c.assignmentID c.workspace.revision)))
  | .failed err left => (.error err, w.leave c.serviceID left)

def stagingName (c : Command) : String := c.serviceID ++ "-" ++ c.commandID ++ "-sync"

/-- The draft a sync of `c` stages from a workspace. -/
def draftOf (c : Command) (source : Origin) : Draft :=
  ⟨c.commandID, c.serviceID, c.assignmentID, c.workspace.revision + 1, source⟩

/-- The draft a sync goes on with: the staged one, if it is for the same command, assignment,
service and revision, or a new one. -/
def loadDraft (w : World) (c : Command) (draftLost : Bool) : Except String Draft :=
  match if draftLost then none else w.drafts (stagingName c) with
  | some d =>
    if d = draftOf c d.source then .ok d
    else .error "sync descriptor does not match active command"
  | none => .ok (draftOf c ((w.tree c.serviceID).getD .fresh))

/-- The workspace of a sync: a missing one is created empty. -/
def ensureTree (w : World) (serviceID : String) : World :=
  w.setTree serviceID (some ((w.tree serviceID).getD .fresh))

def stage (w : World) (c : Command) (d : Draft) : World :=
  { w with drafts := Function.update w.drafts (stagingName c) (some d) }

/-- The rest of a sync once the draft `d` is staged. -/
def publish (w : World) (c : Command) (d : Draft) : SyncOutcome → Except String SyncResult × World
  | .failed err .published => (.error err, { w with published := ⟨c, d.source⟩ :: w.published })
  | .failed err _ => (.error err, w)
  | .ok sizeBytes manifestSHA =>
    (.ok { serviceID := c.serviceID, assignmentID := c.assignmentID, revision := d.revision,
           sizeBytes, manifestSHA },
      { w with
        published := ⟨c, d.source⟩ :: w.published
        drafts := Function.update w.drafts (stagingName c) none })

/-- `Workspace.Sync`. -/
def sync (w : World) (c : Command) (draftLost : Bool) (o : SyncOutcome) :
    Except String SyncResult × World :=
  match o with
  | .failed err .inspected => (.error err, w)
  | .failed err .created => (.error err, w.ensureTree c.serviceID)
  | o =>
    match (w.ensureTree c.serviceID).loadDraft c draftLost with
    | .error err => (.error err, w.ensureTree c.serviceID)
    | .ok d => ((w.ensureTree c.serviceID).stage c d).publish c d o

/-- `Workspace.Release`: it is keyed by the service only. -/
def release (w : World) (c : Command) : ReleaseOutcome → Except String Unit × World
  | .ok => (.ok (), w.leave c.serviceID .gone)
  | .failed err left => (.error err, w.leave c.serviceID left)

def background (w : World) : Renewal → World
  | .quiet => w
  | .renewed lease write =>
    match w.lease.renewing with
    | none => w
    | some id =>
      { w with
        store := w.store.mutate (fun s => s.setLease id lease) write
        lease := if write.isNone then { w.lease with lease } else ⟨none, lease, true⟩ }
  | .lost =>
    match w.lease.renewing with
    | none => w
    | some _ => { w with lease := { w.lease with renewing := none, lost := true } }

/-- What a new process finds: the stored commands, the workspaces and drafts on disk, no lock held
and no lease renewed. -/
def reboot (w : World) : World :=
  { w with store := w.store.reload, mutex := fun _ => false, flock := fun _ => false, lease := {} }

/-- A lock that is held makes the call wait. -/
def blocked (w : World) (e : Env) : Op → Bool
  | .lockService svc => w.mutex svc
  | .lockFile svc => e.lock.isNone && w.flock svc
  | _ => false

def reply (w : World) (e : Env) : (op : Op) → Ans op
  | .result id => w.store.mem.results id
  | .active svc => w.store.mem.active svc
  | .setActive .. | .commit .. | .setLease .. | .clearLease _ => outcome e.write
  | .stamp .. | .lockService _ | .unlockService _ | .unlockFile _ => ()
  | .lockFile _ => outcome e.lock
  | .path _ => e.path
  | .restore c => (w.restore c e.restore).1
  | .sync c => (w.sync c e.draftLost e.sync).1
  | .release c => (w.release c e.release).1
  | .start .. => e.start
  | .stop _ => outcome e.stop
  | .running => e.running
  | .removeOrphan _ => outcome e.orphan
  | .reportStarted .. | .reportStopped _ | .reportStoppedAndSynced _ | .ack .. => e.reply
  | .wait => outcome e.wait
  | .renewLease .. | .stopRenewal => ()
  | .currentLease => w.lease.lease
  | .leaseLost => w.lease.lost

def after (w : World) (e : Env) : Op → World
  | .setActive svc a => { w with store := w.store.mutate (·.setActive svc a) e.write }
  | .commit id svc r a => { w with store := w.store.mutate (·.commit id svc r a) e.write }
  | .setLease id l => { w with store := w.store.mutate (·.setLease id l) e.write }
  | .clearLease id => { w with store := w.store.mutate (·.clearLease id) e.write }
  | .stamp id l => { w with store := { w.store with mem := w.store.mem.stamp id l } }
  | .lockService svc => { w with mutex := Function.update w.mutex svc true }
  | .unlockService svc => { w with mutex := Function.update w.mutex svc false }
  | .lockFile svc => if e.lock.isNone then
      { w with flock := Function.update w.flock svc true } else w
  | .unlockFile svc => { w with flock := Function.update w.flock svc false }
  | .restore c => (w.restore c e.restore).2
  | .sync c => (w.sync c e.draftLost e.sync).2
  | .release c => (w.release c e.release).2
  | .renewLease id l =>
    -- without a token and a positive generation no goroutine is started
    { w with lease := ⟨if l.token ≠ "" ∧ 0 < l.generation then some id else none, l, false⟩ }
  | .stopRenewal => { w with lease := { w.lease with renewing := none } }
  | _ => w

end World

/-- The meaning of a call: a step of the renewal goroutine, then the call itself. -/
def handle : Handler Op Ans Env World := fun op e w =>
  let w := w.background e.renewal
  if w.blocked e op then none else some (w.reply e op, w.after e op)

abbrev M := Prog Op Ans

abbrev ask (op : Op) : M (Ans op) := Prog.perform op

end SharedNode.Agent
