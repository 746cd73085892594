import SharedNode.Bootstrap.Request
import SharedNode.Effect.Exclusive

/-!
# The bootstrap runner

Model of the HTTP handler of `internal/bootstraprunner/runner.go`. A create call stores the request
of a job, probes the host key of the node, waits until an operator has approved its fingerprint, and
then applies the bootstrap. All of this is kept in files of the job directory, each written to a
temporary file that is renamed (`writePrivate`), so that a later call goes on where an earlier one
stopped.

The model is of one job. A call that names another job works in another directory under another lock
and is answered `elsewhere`. Create and approve calls hold the lock of the job; the response is
written before the lock is released. Calls that are refused before that touch nothing, and a status
call only reads.

* Any call of the file system may fail; a write that fails may leave a part of the text, or nothing.
  `exists` takes every failure of `stat` for a missing file.
* The log is the history of the job: who stored what, what the probe gave, and what `Apply` was
  called with. `Apply` gets the paths of two files; the log has what they hold.
* `Probe` and `Apply` are answered by the outside. The fingerprint of a probe has the form that
  `ShellExecutor.Probe` checks (`HostKey.valid`).
-/

namespace SharedNode.Bootstrap

open Text Effect Prog
open Workspace (hasSuffix trimStart trimEnd)

/-- What `Probe` returns. -/
structure HostKey where
  knownHosts : Bytes
  fingerprint : Bytes
  valid : isFingerprint fingerprint = true
  deriving DecidableEq, Repr

/-- The files of a job: `request.json`, `request.sha256`, `completed`, `known_hosts`, `fingerprint`,
`approved`, `bootstrap.env` and `apply-error.log`. -/
inductive FileName where
  | request
  | digest
  | completed
  | knownHosts
  | fingerprint
  | approved
  | environment
  | applyError
  deriving DecidableEq, Repr

/-- A file, or the temporary file that is renamed to it. -/
inductive Path where
  | final (name : FileName)
  | temporary (name : FileName)
  deriving DecidableEq, Repr

/-- A request to the runner. -/
structure Http where
  method : Bytes := lit "POST"
  path : Bytes
  authorization : Bytes
  body : Bytes := []
  deriving DecidableEq, Repr

/-- The responses of the runner. -/
inductive Reply where
  | error (code : Nat) (text : String)
  | status (code : Nat) (jobID : Bytes) (state : String)
  | report (jobID : Bytes) (state : String) (lastError fingerprint : Bytes) (request : Request)
  | elsewhere
  deriving DecidableEq, Repr

/-- A call of `Apply`, with what the two files hold, and its error. -/
structure Application where
  call : Option Http
  address : Bytes
  knownHosts : Option Bytes
  fingerprint : Bytes
  environment : Option Bytes
  failure : Option Bytes
  deriving DecidableEq, Repr

/-- What is noted of a job. -/
inductive Event where
  | began (call : Http)
  | probed (key : HostKey)
  | stored (call : Option Http) (name : FileName) (data : Bytes)
  | applied (application : Application)
  | answered (call : Option Http) (reply : Reply)
  deriving DecidableEq, Repr

/-- Why a call of the file system fails. -/
inductive FileError where
  | notExist
  | other
  deriving DecidableEq, Repr

/-- The calls of the runner. -/
inductive Op where
  | lock (call : Http)
  | unlock
  | mkdirAll
  | readFile (name : FileName)
  | stat (name : FileName)
  | writeFile (name : FileName) (data : Bytes)
  | chmod (name : FileName)
  | rename (name : FileName)
  | remove (name : FileName)
  | probe (address : Bytes)
  | apply (address fingerprint : Bytes)
  | respond (reply : Reply)
  deriving DecidableEq, Repr

abbrev Ans : Op → Type
  | .readFile _ => Except FileError Bytes
  | .mkdirAll | .stat _ | .writeFile _ _ | .chmod _ | .rename _ | .remove _ => Except FileError Unit
  | .probe _ => Except Bytes HostKey
  | .apply _ _ => Except Bytes Unit
  | .lock _ | .unlock | .respond _ => Unit

/-- The directory of a job, the call that holds its lock, and its history, newest first. -/
structure World where
  files : Path → Option Bytes := fun _ => none
  holder : Option Http := none
  log : List Event := []

/-- The choices of the outside for one call. -/
structure Choice where
  /-- The calls that fail. -/
  fails : Op → Bool := fun _ => false
  /-- What a failing write leaves: what was there before, or so many bytes of the text. -/
  written : Option Nat := none
  probe : Except Bytes HostKey := .error []
  /-- The error of `Apply`. -/
  failure : Option Bytes := none

/-- The directory with one file changed. -/
def World.set (w : World) (path : Path) (data : Option Bytes) : World :=
  { w with files := fun p => if p = path then data else w.files p }

def World.note (w : World) (event : Event) : World := { w with log := event :: w.log }

/-- A temporary file with that text has been renamed. -/
def World.store (w : World) (name : FileName) (data : Bytes) : World :=
  ((w.set (.final name) (some data)).set (.temporary name) none).note (.stored w.holder name data)

/-- What a call of `Apply` gets. -/
def World.application (w : World) (address fingerprint : Bytes) (failure : Option Bytes) :
    Application :=
  ⟨w.holder, address, w.files (.final .knownHosts), fingerprint, w.files (.final .environment),
    failure⟩

def handle : Handler Op Ans Choice World := fun op e w =>
  let fails := e.fails op
  match op with
  | .lock r =>
    if w.holder.isSome then none else some ((), { w with holder := some r }.note (.began r))
  | .unlock => some ((), { w with holder := none })
  | .mkdirAll | .chmod _ => some (if fails then .error .other else .ok (), w)
  | .readFile name =>
    some (if fails then .error .other else (w.files (.final name)).elim (.error .notExist) .ok, w)
  | .stat name =>
    some (if fails then .error .other
      else (w.files (.final name)).elim (.error .notExist) fun _ => .ok (), w)
  | .writeFile name data =>
    if fails then
      some (.error .other, e.written.elim w fun n => w.set (.temporary name) (some (data.take n)))
    else some (.ok (), w.set (.temporary name) (some data))
  | .rename name =>
    if fails then some (.error .other, w)
    else
      match w.files (.temporary name) with
      | none => some (.error .notExist, w)
      | some data => some (.ok (), w.store name data)
  | .remove name =>
    if fails then some (.error .other, w)
    else
      match w.files (.final name) with
      | none => some (.error .notExist, w)
      | some _ => some (.ok (), w.set (.final name) none)
  | .probe _ =>
    match e.probe with
    | .ok key => some (.ok key, w.note (.probed key))
    | .error err => some (.error err, w)
  | .apply address fingerprint =>
    some (e.failure.elim (.ok ()) .error,
      w.note (.applied (w.application address fingerprint e.failure)))
  | .respond reply => some ((), w.note (.answered w.holder reply))

abbrev M := Prog Op Ans

abbrev ask (op : Op) : M (Ans op) := perform op

def writePrivate (name : FileName) (data : Bytes) : M (Except FileError Unit) := do
  let written ← ask (.writeFile name data)
  match written with
  | .error err => ret (.error err)
  | .ok () =>
    let changed ← ask (.chmod name)
    match changed with
    | .error err => ret (.error err)
    | .ok () => ask (.rename name)

def fileExists (name : FileName) : M Bool := do
  let found ← ask (.stat name)
  ret found.isOk

/-- A step whose failure ends the call with a response. -/
def orReply {ε α : Type} (step : M (Except ε α)) (reply : Reply) (next : α → M Reply) :
    M Reply := do
  let r ← step
  match r with
  | .error _ => ret reply
  | .ok a => next a

def runnerUnavailable : Reply := .error 503 "runner_unavailable"

def invalidRequest : Reply := .error 400 "invalid_request"

/-- `os.Remove` where a missing file is no failure. -/
def removeIfThere (name : FileName) : M (Except FileError Unit) := do
  let removed ← ask (.remove name)
  match removed with
  | .error .other => ret (.error .other)
  | _ => ret (.ok ())

/-! ## `createOrResume` -/

def line (text : Bytes) : Bytes := text ++ lit "\n"

def recordDigest (input : Request) (next : M Reply) : M Reply :=
  orReply (writePrivate .digest (line input.digest)) runnerUnavailable fun _ => next

/-- The request is compared with the one the job has, or becomes the one it has. -/
def sameRequest (input : Request) (next : M Reply) : M Reply := do
  let existingDigest ← ask (.readFile .digest)
  match existingDigest with
  | .ok existing =>
    if trimSpace existing ≠ input.digest then ret (.error 409 "idempotency_conflict") else next
  | .error .other => ret runnerUnavailable
  | .error .notExist =>
    let existing ← ask (.readFile .request)
    match existing with
    | .ok existing =>
      if sha256 existing ≠ input.digest then ret (.error 409 "idempotency_conflict")
      else recordDigest input next
    | .error .other => ret runnerUnavailable
    | .error .notExist =>
      orReply (writePrivate .request input.canonical) runnerUnavailable fun _ =>
        recordDigest input next

def finalizeCompletedJob (input : Request) : M (Except FileError Unit) := do
  let written ← writePrivate .request input.redacted.canonical
  match written with
  | .error err => ret (.error err)
  | .ok () => removeIfThere .environment

/-- The end of a completed job. -/
def finish (input : Request) : M Reply :=
  orReply (finalizeCompletedJob input) runnerUnavailable fun _ =>
    ret (.status 200 input.jobID "completed")

def awaiting (input : Request) : Reply := .status 202 input.jobID "awaiting_host_key_approval"

/-- The host key of the node is asked for and stored. -/
def probeHost (input : Request) : M Reply :=
  let probeFailed := .error 503 "probe_failed"
  orReply (ask (.probe input.address)) probeFailed fun key =>
    orReply (writePrivate .knownHosts (line key.knownHosts)) probeFailed fun _ =>
      orReply (writePrivate .fingerprint (line key.fingerprint)) probeFailed fun _ =>
        ret (awaiting input)

def applyFailed (err : Bytes) : M Reply :=
  orReply (writePrivate .applyError (line err)) runnerUnavailable fun _ =>
    ret (.error 503 "apply_failed")

/-- `Apply` has succeeded. -/
def complete (input : Request) : M Reply :=
  orReply (removeIfThere .applyError) runnerUnavailable fun _ =>
    orReply (writePrivate .completed (lit "completed\n")) runnerUnavailable fun _ => finish input

def applyBootstrap (input : Request) : M Reply :=
  orReply (ask (.readFile .fingerprint)) runnerUnavailable fun fingerprint =>
    orReply (writePrivate .environment (renderEnvironment input)) runnerUnavailable fun _ => do
      let applied ← ask (.apply input.address (trimSpace fingerprint))
      match applied with
      | .error err => applyFailed err
      | .ok () => complete input

/-- `createOrResume` of a job that is not completed. -/
def proceed (input : Request) : M Reply :=
  orReply (ask (.readFile .request)) runnerUnavailable fun existing =>
    if existing ≠ input.canonical then ret runnerUnavailable
    else do
      let known ← fileExists .knownHosts
      if ¬ known then probeHost input
      else do
        let approved ← fileExists .approved
        if ¬ approved then ret (awaiting input) else applyBootstrap input

/-- `createOrResume` under the lock. -/
def resume (input : Request) : M Reply :=
  orReply (ask .mkdirAll) runnerUnavailable fun _ =>
    sameRequest input do
      let completed ← fileExists .completed
      if completed then finish input else proceed input

def locked (call : Http) (body : M Reply) : M Reply := do
  let _ ← ask (.lock call)
  let reply ← body
  let _ ← ask (.respond reply)
  let _ ← ask .unlock
  ret reply

/-- The runner with its secret. -/
structure Runner where
  lib : Library
  secret : Bytes
  approvalSecret : Bytes
  job : Bytes

namespace Runner

variable (h : Runner)

def createOrResume (call : Http) : M Reply :=
  match decodeRequest call.body with
  | none => ret invalidRequest
  | some input =>
    if ¬ validate h.lib input then ret invalidRequest
    else if input.jobID ≠ h.job then ret .elsewhere
    else locked call (resume input)

/-! ## `approve` and `status` -/

end Runner

/-- `approve` under the lock. -/
def approveHost (jobID fingerprint : Bytes) : M Reply :=
  let conflict := .error 409 "host_key_conflict"
  orReply (ask (.readFile .fingerprint)) conflict fun expected =>
    if trimSpace expected ≠ fingerprint then ret conflict
    else
      orReply (writePrivate .approved (line fingerprint)) runnerUnavailable fun _ =>
        ret (.status 200 jobID "approved")

/-- `status`, once the state is known. -/
def report (jobID fingerprint : Bytes) (request : Request) (state : String) : M Reply := do
  let value ← ask (.readFile .applyError)
  match value with
  | .error .other => ret runnerUnavailable
  | .error .notExist => ret (.report jobID state [] (trimSpace fingerprint) request)
  | .ok value => ret (.report jobID state (trimSpace value) (trimSpace fingerprint) request)

/-- `status`, once the request is read. -/
def reportStatus (jobID fingerprint : Bytes) (request : Request) : M Reply := do
  let completed ← fileExists .completed
  if completed then report jobID fingerprint request "completed"
  else do
    let approved ← fileExists .approved
    if approved then report jobID fingerprint request "approved"
    else report jobID fingerprint request "awaiting_host_key_approval"

def readStatus (jobID : Bytes) : M Reply :=
  orReply (ask (.readFile .fingerprint)) (.error 404 "job_not_found") fun fingerprint =>
    orReply (ask (.readFile .request)) runnerUnavailable fun request =>
      match decodeStored request with
      | none => ret runnerUnavailable
      | some request => reportStatus jobID fingerprint request

namespace Runner

variable (h : Runner)

def approve (call : Http) (jobID : Bytes) : M Reply :=
  if ¬ identifier jobID then ret invalidRequest
  else
    match decodeApproval call.body with
    | none => ret invalidRequest
    | some fingerprint =>
      if jobID ≠ h.job then ret .elsewhere else locked call (approveHost jobID fingerprint)

def status (jobID : Bytes) : M Reply :=
  if ¬ identifier jobID then ret invalidRequest
  else if jobID ≠ h.job then ret .elsewhere
  else readStatus jobID

def authorized (call : Http) (secret : Bytes) : Bool :=
  trimStart call.authorization (lit "Bearer ") = secret

def jobOf (path ending : Bytes) : Bytes := trimEnd (trimStart path (lit "/")) ending

def guarded (call : Http) (secret : Bytes) (route : M Reply) : M Reply :=
  if call.method ≠ lit "POST" then ret (.error 405 "method_not_allowed")
  else if ¬ authorized call secret then ret (.error 401 "unauthorized")
  else route

def serveHTTP (call : Http) : M Reply :=
  let path := trimStart call.path (lit "/v1/bootstrap-jobs")
  if path = [] then guarded call h.secret (h.createOrResume call)
  else if hasSuffix path (lit "/approve") then
    guarded call h.approvalSecret (h.approve call (jobOf path (lit "/approve")))
  else if hasSuffix path (lit "/status") then
    guarded call h.approvalSecret (h.status (jobOf path (lit "/status")))
  else ret (.error 404 "404 page not found")

end Runner

end SharedNode.Bootstrap
