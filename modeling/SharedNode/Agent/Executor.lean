import SharedNode.Agent.Node

/-!
# The command executor

Model of `internal/agent/executor.go`. `Execute` looks the command up among the stored results,
takes the service's mutex and file lock, looks it up again and runs `execute`; a `stopped` result
with an active entry is stored as the active entry only, every other result is committed.

The store's lookups never fail (`FileStore.Result` and `FileStore.Active` return a nil error), so
the error branches on them are left out. `execute` hands back the active entry next to an error in
the source; `Execute` never reads it there, and the model drops it.
-/

namespace SharedNode.Agent

open ControlPlane Effect Prog

/-- The errors of the agent: `retryable` is a `RetryableError`, `leaseLost` is `ErrLeaseLost`. -/
inductive AgentError where
  | plain (text : String)
  | retryable (text : String)
  | leaseLost
  deriving DecidableEq, Repr

def failed (message : String) : CommandResult := { status := .failed, message }

namespace Executor

/-- The stored result a delivery of the command returns without executing it. -/
def cached (stored : Option CommandResult) : Option CommandResult := stored.filter (·.final)

def currentActive (serviceID : String) : M (Option ActiveAssignment) := ask (.active serviceID)

/-- The start of the container: a terminal error is a failed result that drops the active entry. -/
def startContainer (c : Command) (path : String) :
    M (Except AgentError (CommandResult × Option ActiveAssignment)) := do
  let started ← ask (.start c path)
  match started with
  | .terminal code message => ret (.ok ({ status := .failed, code, message }, none))
  | .failed err => ret (.error (.retryable ("start container: " ++ err)))
  | .ok =>
    ret (.ok ({ status := .started }, some { assignmentID := c.assignmentID, phase := .running }))

/-- The `RestoreAndStart` case of `execute` from the point where the workspace is in place: the
assignment is recorded as starting, then the container is started. -/
def startRestored (c : Command) (active : Option ActiveAssignment) (path : String) :
    M (Except AgentError (CommandResult × Option ActiveAssignment)) := do
  let stored : Except String Unit ←
    if active.any fun a => a.phase = .starting && a.assignmentID = c.assignmentID then
      ret (.ok ())
    else ask (.setActive c.serviceID { assignmentID := c.assignmentID, phase := .starting })
  match stored with
  | .error err => ret (.error (.plain err))
  | .ok () => startContainer c path

/-- The `RestoreAndStart` case of `execute`. -/
def restoreAndStart (c : Command) (active : Option ActiveAssignment) :
    M (Except AgentError (CommandResult × Option ActiveAssignment)) :=
  if ¬ c.connection.any Connection.valid then
    ret (.ok (failed "restore command requires a control-plane assigned public connection", active))
  else if active.any fun a => a.assignmentID ≠ c.assignmentID && a.phase ≠ .stopped then
    ret (.ok (failed "a different assignment is already active for this service", active))
  else if active.any fun a => a.phase = .running then
    ret (.ok ({ status := .started }, active))
  else do
    let path : Except String String ←
      if active.any fun a => a.phase = .starting then ask (.path c.serviceID)
      else ask (.restore c)
    match path with
    | .error err => ret (.error (.retryable ("restore workspace: " ++ err)))
    | .ok path => startRestored c active path

/-- The `StopAndSync` case of `execute`. -/
def stopAndSync (c : Command) :
    Option ActiveAssignment → M (Except AgentError (CommandResult × Option ActiveAssignment))
  | none =>
    ret (.ok ({ status := .stopped }, some { assignmentID := c.assignmentID, phase := .stopped }))
  | some active =>
    if active.assignmentID ≠ c.assignmentID then
      ret (.ok (failed "stop command does not match an active assignment", some active))
    else if active.phase ≠ .stopped then do
      let stopped ← ask (.stop c)
      match stopped with
      | .error err => ret (.error (.retryable ("stop container: " ++ err)))
      | .ok () =>
        ret (.ok ({ status := .stopped },
          some { assignmentID := c.assignmentID, phase := .stopped }))
    else if ¬ active.stopReported then ret (.ok ({ status := .stopped }, some active))
    else do
      let synced ← ask (.sync c)
      match synced with
      | .error err => ret (.error (.retryable ("sync workspace: " ++ err)))
      | .ok sync => ret (.ok ({ status := .stoppedAndSynced, sync := some sync }, none))

def execute (nodeID : String) (c : Command) :
    M (Except AgentError (CommandResult × Option ActiveAssignment)) :=
  if c.commandID = "" ∨ c.serviceID = "" ∨ c.assignmentID = "" then do
    let active ← currentActive c.serviceID
    ret (.ok (failed "command ID, service ID, and assignment ID are required", active))
  else if c.nodeID ≠ nodeID then do
    let active ← currentActive c.serviceID
    ret (.ok (failed "command is assigned to a different node", active))
  else do
    let active ← ask (.active c.serviceID)
    match c.kind with
    | .restoreAndStart => restoreAndStart c active
    | .stopAndSync => stopAndSync c active
    | .other _ => ret (.ok (failed "unsupported command kind", active))

/-- Where `Execute` stores a result: a stop with an active entry goes to that entry alone. -/
def store (c : Command) (result : CommandResult) (active : Option ActiveAssignment) :
    M (Except String Unit) :=
  match active, result.status with
  | some active, .stopped => ask (.setActive c.serviceID active)
  | active, _ => ask (.commit c.commandID c.serviceID result active)

theorem store_of_ne_stopped {c : Command} {result : CommandResult}
    {active : Option ActiveAssignment} (h : result.status ≠ .stopped) :
    store c result active = ask (.commit c.commandID c.serviceID result active) := by
  cases active with
  | none => rfl
  | some a => cases hs : result.status <;> simp [store, hs] at h ⊢

/-- What `Execute` does with the outcome of `execute`. -/
def record (c : Command) : Except AgentError (CommandResult × Option ActiveAssignment) →
      M (Except AgentError CommandResult)
  | .error err => ret (.error err)
  | .ok (result, active) => do
    let stored ← store c result active
    match stored with
    | .error err => ret (.error (.plain err))
    | .ok () => ret (.ok result)

/-- `Execute` once both locks are held. -/
def executeLocked (nodeID : String) (c : Command) : M (Except AgentError CommandResult) := do
  let stored ← ask (.result c.commandID)
  match cached stored with
  | some result => ret (.ok result)
  | none =>
    let outcome ← execute nodeID c
    record c outcome

/-- The two deferred unlocks. -/
def leave {α : Type} (serviceID : String) (r : Except AgentError α) : M (Except AgentError α) := do
  let _ ← ask (.unlockFile serviceID)
  let _ ← ask (.unlockService serviceID)
  ret r

/-- A body with the mutex held and the file lock asked for. -/
def enter {α : Type} (serviceID : String) (body : M (Except AgentError α)) :
    Except String Unit → M (Except AgentError α)
  | .error err => do
    let _ ← ask (.unlockService serviceID)
    ret (.error (.plain err))
  | .ok () => body >>= leave serviceID

/-- A body under the service's mutex and file lock. -/
def underLock {α : Type} (serviceID : String) (body : M (Except AgentError α)) :
    M (Except AgentError α) := do
  let _ ← ask (.lockService serviceID)
  let locked ← ask (.lockFile serviceID)
  enter serviceID body locked

def Execute (nodeID : String) (c : Command) : M (Except AgentError CommandResult) := do
  let stored ← ask (.result c.commandID)
  match cached stored with
  | some result => ret (.ok result)
  | none => underLock c.serviceID (executeLocked nodeID c)

def plainly : Except String Unit → Except AgentError Unit
  | .ok () => .ok ()
  | .error err => .error (.plain err)

def release (c : Command) : M (Except AgentError Unit) :=
  underLock c.serviceID do
    let released ← ask (.release c)
    ret (plainly released)

def markStoppedReported (serviceID assignmentID : String) : M (Except AgentError Unit) := do
  let active ← ask (.active serviceID)
  match active.filter fun a => a.assignmentID = assignmentID && a.phase = .stopped with
  | none => ret (.error (.plain "stopped report does not match active assignment"))
  | some a =>
    let stored ← ask (.setActive serviceID { a with stopReported := true })
    ret (plainly stored)

def trackLease (commandID : String) (lease : CommandLease) : M (Except AgentError Unit) :=
  if lease.token = "" ∧ lease.generation = 0 then ret (.ok ())
  else do
    let stored ← ask (.setLease commandID lease)
    ret (plainly stored)

def clearLease (commandID : String) : M (Except AgentError Unit) := do
  let stored ← ask (.clearLease commandID)
  ret (plainly stored)

/-- The loop of `Reconcile` over the running containers. -/
def reconcileServices : List RunningService → M (Except AgentError Unit)
  | [] => ret (.ok ())
  | service :: rest => do
    let active ← ask (.active service.serviceID)
    match active.filter fun a => a.assignmentID = service.assignmentID with
    | none =>
      let removed ← ask (.removeOrphan service)
      match removed with
      | .error err =>
        ret (.error (.plain
          ("remove unowned local service \"" ++ service.serviceID ++ "\": " ++ err)))
      | .ok () => reconcileServices rest
    | some a =>
      if a.phase = .starting then do
        let stored ← ask (.setActive service.serviceID { a with phase := .running })
        match stored with
        | .error err =>
          ret (.error (.plain
            ("persist recovered running service \"" ++ service.serviceID ++ "\": " ++ err)))
        | .ok () => reconcileServices rest
      else reconcileServices rest

/-- `Reconcile`, for a runtime that lists its containers and can remove an orphan. -/
def reconcile : M (Except AgentError Unit) := do
  let running ← ask .running
  match running with
  | .error err => ret (.error (.plain ("list locally running containers: " ++ err)))
  | .ok services => reconcileServices services

end Executor

end SharedNode.Agent
