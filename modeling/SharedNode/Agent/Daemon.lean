import SharedNode.Agent.Executor

/-!
# The daemon

Model of `internal/agent/daemon.go`: `Daemon.Process` and the retry loop around its calls, and the
life of a node as a sequence of deliveries and restarts (`Node.run`).

* `retry` and the loop of `process` have no bound in the source; here they take a number of rounds,
  and a run that uses them up counts as cut. Every finite part of an execution is a run with enough
  rounds.
* `Run` hands commands to `Process` one at a time. A delivery that is cut leaves the node down;
  nothing is delivered until a restart, which reloads the store and reconciles the containers,
  brings it up again.

Left out: `Register`, the heartbeats and the credentials, the subject of `Agent.Enrollment`.
-/

namespace SharedNode.Agent

open ControlPlane Effect Prog

namespace AgentError

def text : AgentError → String
  | plain t => t
  | retryable t => t
  | leaseLost => "command lease was denied or could not be renewed"

/-- `fmt.Errorf` with a leading text. -/
def wrap (lead : String) (e : AgentError) : AgentError := plain (lead ++ ": " ++ e.text)

end AgentError

namespace Daemon

/-- One round of `retry`: a rejected credential and a cancelled wait end it. -/
def attempt (operation : M Reply) : M (Option (Except AgentError Unit)) := do
  let reply ← operation
  match reply with
  | .accepted => ret (some (.ok ()))
  | .unauthenticated err =>
    ret (some (.error (.plain
      ("node credential was rejected; refusing bootstrap re-enrollment: " ++ err))))
  | .refused err =>
    let waited ← ask .wait
    match waited with
    | .error _ => ret (some (.error (.plain err)))
    | .ok () => ret none

def retry (rounds : Nat) (operation : M Reply) : M (Except AgentError Unit) :=
  (attempt operation).iterate rounds

/-- One round of the loop of `Process`: execute the command, and report a stop before the next
round. -/
def executeRound (nodeID : String) (rounds : Nat) (c : Command) :
    M (Option (Except AgentError CommandResult)) := do
  let executed ← Executor.Execute nodeID c
  match executed with
  | .error err =>
    let lost ← ask .leaseLost
    ret (some (.error (if lost then .leaseLost else err)))
  | .ok result =>
    if result.status ≠ .stopped then ret (some (.ok result))
    else
      let lease ← ask .currentLease
      let reported ← retry rounds
        (ask (.reportStopped ⟨c.serviceID, c.assignmentID, c.commandID, lease⟩))
      match reported with
      | .error err => ret (some (.error (err.wrap "report stopped")))
      | .ok () =>
        let marked ← Executor.markStoppedReported c.serviceID c.assignmentID
        match marked with
        | .error err => ret (some (.error (err.wrap "record stopped report")))
        | .ok () => ret none

def reportStarted (rounds : Nat) (c : Command) (result : CommandResult) :
    M (Except AgentError Unit) :=
  if result.status ≠ .started then ret (.ok ())
  else
    match c.connection with
    | none => ret (.error (.plain "started command is missing its assigned public connection"))
    | some connection => do
      let reported ← retry rounds
        (ask (.reportStarted c.serviceID c.assignmentID connection.endpoint))
      ret (reported.mapError (AgentError.wrap "report started"))

/-- The report of a synced workspace and its release. The result comes back with the command and
lease written into it, which is also written into the stored result. -/
def reportSynced (rounds : Nat) (c : Command) (result : CommandResult) :
    M (Except AgentError CommandResult) :=
  match result.status, result.sync with
  | .stoppedAndSynced, some sync => do
    let lease ← ask .currentLease
    let _ ← ask (.stamp c.commandID lease)
    let sync := { sync with commandID := c.commandID, lease }
    let reported ← retry rounds (ask (.reportStoppedAndSynced sync))
    match reported with
    | .error err => ret (.error (err.wrap "report stopped and synced"))
    | .ok () =>
      let released ← Executor.release c
      match released with
      | .error err => ret (.error (err.wrap "release durably synced local workspace"))
      | .ok () => ret (.ok { result with sync := some sync })
  | _, _ => ret (.ok result)

def acknowledge (rounds : Nat) (c : Command) (result : CommandResult) :
    M (Except AgentError Unit) := do
  let lost ← ask .leaseLost
  if lost then ret (.error .leaseLost)
  else
    let lease ← ask .currentLease
    let acked ← retry rounds (ask (.ack c.commandID lease result))
    match acked with
    | .error err => ret (.error (err.wrap "ack command"))
    | .ok () =>
      let cleared ← Executor.clearLease c.commandID
      ret (cleared.mapError (AgentError.wrap "clear command lease"))

/-- `Process` after the command has a final result. -/
def settle (rounds : Nat) (c : Command) (result : CommandResult) : M (Except AgentError Unit) := do
  let lost ← ask .leaseLost
  if lost then ret (.error .leaseLost)
  else
    let started ← reportStarted rounds c result
    match started with
    | .error err => ret (.error err)
    | .ok () =>
      let synced ← reportSynced rounds c result
      match synced with
      | .error err => ret (.error err)
      | .ok result => acknowledge rounds c result

/-- `Process` after its loop. -/
def conclude (rounds : Nat) (c : Command) :
    Except AgentError CommandResult → M (Except AgentError Unit)
  | .error err => ret (.error err)
  | .ok result => settle rounds c result

def process (nodeID : String) (rounds : Nat) (c : Command) : M (Except AgentError Unit) := do
  let tracked ← Executor.trackLease c.commandID c.lease
  match tracked with
  | .error err => ret (.error (err.wrap "persist command lease"))
  | .ok () =>
    let _ ← ask (.renewLease c.commandID c.lease)
    let executed ← (executeRound nodeID rounds c).iterate rounds
    let done ← conclude rounds c executed
    let _ ← ask .stopRenewal
    ret done

end Daemon

/-! ## The life of a node -/

/-- What happens to a node: a command is delivered, or the agent process is started again. -/
inductive Event where
  | deliver (command : Command) (rounds : Nat) (choices : List Env)
  | restart (choices : List Env)

/-- The environment's choices during an event. -/
def Event.choices : Event → List Env
  | deliver _ _ es => es
  | restart es => es

/-- A node with the calls its agent has made so far. -/
structure Node where
  world : World := {}
  trace : Trace Op Ans := []
  up : Bool := true

namespace Node

def step (nodeID : String) (n : Node) : Event → Node
  | .deliver c rounds es =>
    if n.up then
      match run handle (Daemon.process nodeID rounds c) es n.world n.trace with
      | (r, w, t) => ⟨w, t, r.isSome⟩
    else n
  | .restart es =>
    match run handle Executor.reconcile es n.world.reboot n.trace with
    | (some (.ok ()), w, t) => ⟨w, t, true⟩
    | (_, w, t) => ⟨w, t, false⟩

/-- The node after a history of events, from an empty store. -/
def run (nodeID : String) (events : List Event) : Node := events.foldl (step nodeID) {}

theorem run_append (nodeID : String) (events : List Event) (ev : Event) :
    run nodeID (events ++ [ev]) = (run nodeID events).step nodeID ev := by
  simp [run]

section Invariant

variable {E : Env → Prop} {I : World → Trace Op Ans → Prop} {nodeID : String} {n : Node}

theorem step_deliver {c : Command} {rounds : Nat} {es : List Env} (hes : ∀ e ∈ es, E e)
    (h : I n.world n.trace)
    (hp : wp handle E I (Daemon.process nodeID rounds c) (fun _ => I) n.world n.trace) :
    I (n.step nodeID (.deliver c rounds es)).world
      (n.step nodeID (.deliver c rounds es)).trace := by
  obtain ⟨hret, hcut⟩ := wp_run hes hp
  unfold step
  cases n.up with
  | false => exact h
  | true =>
    cases hr : (Effect.run handle (Daemon.process nodeID rounds c) es n.world n.trace).1 with
    | none => exact hcut hr
    | some a => exact hret a hr

/-- A restart keeps what a reboot and `reconcile` keep at every call. -/
theorem step_restart {es : List Env} (hes : ∀ e ∈ es, E e)
    (hp : wp handle E I Executor.reconcile (fun _ => I) n.world.reboot n.trace) :
    I (n.step nodeID (.restart es)).world (n.step nodeID (.restart es)).trace := by
  obtain ⟨hret, hcut⟩ := wp_run hes hp
  have hall : I (Effect.run handle Executor.reconcile es n.world.reboot n.trace).2.1
      (Effect.run handle Executor.reconcile es n.world.reboot n.trace).2.2 := by
    cases hr : (Effect.run handle Executor.reconcile es n.world.reboot n.trace).1 with
    | none => exact hcut hr
    | some a => exact hret a hr
  unfold step
  simp only
  split
  next heq => rw [heq] at hall; exact hall
  next heq => rw [heq] at hall; exact hall

end Invariant

end Node

/-! ## Commands for runs on fixed inputs -/

/-- A `RestoreAndStart` that node `n` accepts. -/
def startCommand (id svc asg : String) (revision : Int) : Command :=
  { commandID := id, kind := .restoreAndStart, nodeID := "n", serviceID := svc, assignmentID := asg,
    workspace := { revision }, connection := some ⟨"h", 25565⟩ }

/-- A `StopAndSync` that node `n` accepts. -/
def stopCommand (id svc asg : String) (revision : Int) : Command :=
  { commandID := id, kind := .stopAndSync, nodeID := "n", serviceID := svc, assignmentID := asg,
    workspace := { revision } }

/-- The delivery of a command during which every call succeeds. -/
def smoothly (c : Command) : Event := .deliver c 3 (List.replicate 40 {})

end SharedNode.Agent
