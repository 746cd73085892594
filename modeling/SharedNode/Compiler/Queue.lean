import Mathlib.Data.List.AList
import Mathlib.Data.List.Sort
import SharedNode.Compiler.Types
import SharedNode.Effect.Fallible

/-!
# The compiler job queue

Model of `FilesystemCompilerJobQueue` in `compiler/src/job-queue.mjs`: one record file for each job
in the directory `pending`, moved to `archive` when the job is done. A call runs under the queue's
lock as a program over file effects, so a run that is cut is a crash between two of them; nothing
but `initialize` is called after a crash.

* `atomicWrite` is one effect, the rename: before it there is only a temporary file, whose name is
  no record name, and after it the directory is synced.
* The names of record files (`queueKey`) and the digests of bodies are parameters (`Queue`); no
  result needs them to be free of collisions.
* A body is kept as bytes, its base64 form in the file left out. So are `createdAt`, `updatedAt`,
  `lastResult` and `terminalResult`, which no call reads.
-/

namespace SharedNode.Compiler.JobQueue

open Effect Text Prog

/-- The configuration of a queue, with its two uses of SHA-256. -/
structure Queue where
  retryDelayMs : Int := 1000
  /-- `queueKey` with the suffix of a record file. -/
  queueKey : String → String
  sha256 : Bytes → String

/-- The `state` of a record. -/
inductive State where
  | pending
  | running
  | retry
  | terminal
  deriving DecidableEq, Repr

/-- A record file. -/
structure Record where
  id : String
  deploymentId : String
  jobFingerprint : String
  body : Bytes
  bodySha256 : String
  redeliveryBody : Option Bytes := none
  redeliveryBodySha256 : Option String := none
  state : State
  attempts : Int
  nextAttemptAt : Int
  deriving DecidableEq

/-- The input of `enqueue`. -/
structure Input where
  id : String
  deploymentId : String
  jobFingerprint : String
  body : Bytes
  deriving DecidableEq

/-- What `claim` returns. -/
structure Job where
  id : String
  deploymentId : String
  body : Bytes
  attempts : Int
  deriving DecidableEq

/-- The `kind` of an outcome. -/
inductive Outcome where
  | terminal
  | retry
  deriving DecidableEq, Repr

/-! ## File effects -/

inductive Dir where
  | pending
  | archive
  deriving DecidableEq

/-- The record files of the two directories. -/
structure Files where
  pending : AList (fun _ : String => Record) := ∅
  archive : AList (fun _ : String => Record) := ∅

namespace Files

def dir (f : Files) : Dir → AList (fun _ : String => Record)
  | .pending => f.pending
  | .archive => f.archive

def write (f : Files) : Dir → String → Record → Files
  | .pending, name, r => { f with pending := f.pending.insert name r }
  | .archive, name, r => { f with archive := f.archive.insert name r }

def remove (f : Files) : Dir → String → Files
  | .pending, name => { f with pending := f.pending.erase name }
  | .archive, name => { f with archive := f.archive.erase name }

end Files

inductive Op where
  | now
  | list (dir : Dir)
  | read (dir : Dir) (name : String)
  | write (dir : Dir) (name : String) (r : Record)
  | remove (dir : Dir) (name : String)
  /-- `syncDirectory`. -/
  | sync (dir : Dir)

/-- The answer of an effect; a file that is read may be missing. -/
abbrev Ans : Op → Type
  | .now => Int
  | .list _ => List String
  | .read .. => Option Record
  | .write .. | .remove .. | .sync _ => Unit

/-- The meaning of an effect; the choice of the outside is the time. -/
def handle : Handler Op Ans Int Files
  | .now, time, f => some (time, f)
  | .list d, _, f => some ((f.dir d).keys.insertionSort (· ≤ ·), f)
  | .read d name, _, f => some ((f.dir d).lookup name, f)
  | .write d name r, _, f => some ((), f.write d name r)
  | .remove d name, _, f => some ((), f.remove d name)
  | .sync _, _, f => some ((), f)

/-- Programs over file effects that may throw. -/
abbrev M := Fallible Op Ans

abbrev act (op : Op) : M (Ans op) := effect op

def atomicWrite (d : Dir) (name : String) (r : Record) : M Unit := do
  act (.write d name r)
  act (.sync d)

def durableRemove (d : Dir) (name : String) : M Unit := do
  act (.remove d name)
  act (.sync d)

/-! ## Records -/

namespace Queue

variable (q : Queue)

/-- The checks of `readRecord` that the type of a record leaves. -/
def valid (r : Record) : Bool :=
  isSafeInteger r.attempts && isSafeInteger r.nextAttemptAt && q.sha256 r.body = r.bodySha256 &&
    r.redeliveryBody.map q.sha256 = r.redeliveryBodySha256

def readRecordIfPresent (d : Dir) (name : String) : M (Option Record) := do
  match ← act (.read d name) with
  | none => return none
  | some r => if q.valid r then return some r else throw "invalid persisted compiler job"

def readRecord (d : Dir) (name : String) : M Record := do
  match ← q.readRecordIfPresent d name with
  | none => throw "ENOENT: no such file or directory"
  | some r => return r

end Queue

/-- `validateEnqueue`. -/
def validInput (input : Input) : Bool :=
  input.id ≠ "" && input.deploymentId ≠ "" && input.jobFingerprint.length = 64 &&
    input.jobFingerprint.toList.all fun c => ('a' ≤ c && c ≤ 'f') || ('0' ≤ c && c ≤ '9')

/-- The three fields of `assertSameIdentity`. -/
structure Identity where
  id : String
  deploymentId : String
  jobFingerprint : String
  deriving DecidableEq

def Record.identity (r : Record) : Identity := ⟨r.id, r.deploymentId, r.jobFingerprint⟩

def Input.identity (input : Input) : Identity :=
  ⟨input.id, input.deploymentId, input.jobFingerprint⟩

def assertSameIdentity (r other : Identity) : M Unit :=
  if r = other then return () else throw "compiler queue idempotency conflict"

def retryDelay (base attempts : Int) : Int :=
  min (base * 2 ^ (min (max (attempts - 1) 0) 8).toNat) 300000

/-! ## The calls -/

namespace Queue

variable (q : Queue)

def initializeFile (name : String) : M Unit := do
  let record ← q.readRecord .pending name
  match ← q.readRecordIfPresent .archive name with
  | some archived =>
    assertSameIdentity archived.identity record.identity
    if archived.state ≠ .terminal then throw "invalid compiler queue archive state"
    durableRemove .pending name
  | none =>
    if record.state = .running then
      atomicWrite .pending name { record with state := .pending }

/-- The loop of `initialize`. -/
def initializeFiles : List String → M Unit
  | [] => return ()
  | name :: rest => do
    q.initializeFile name
    initializeFiles rest

def initializeQueue : M Unit := do
  let names ← act (.list .pending)
  q.initializeFiles names

/-- A body written by `enqueue` in place of one that is still to be claimed. -/
def Record.replace (r : Record) (body : Bytes) (now : Int) : Record :=
  { r with body, bodySha256 := q.sha256 body, state := .pending, nextAttemptAt := now }

/-- A body written by `enqueue` beside that of a running job. -/
def Record.redeliver (r : Record) (body : Bytes) : Record :=
  { r with redeliveryBody := some body, redeliveryBodySha256 := some (q.sha256 body) }

def newRecord (input : Input) (now : Int) : Record :=
  { id := input.id, deploymentId := input.deploymentId, jobFingerprint := input.jobFingerprint
    body := input.body, bodySha256 := q.sha256 input.body, state := .pending, attempts := 0
    nextAttemptAt := now }

/-- `enqueue`; it returns whether the job was there already. -/
def enqueue (input : Input) : M Bool := do
  if ¬ validInput input then throw "invalid compiler queue job"
  let name := q.queueKey input.id
  match ← q.readRecordIfPresent .archive name with
  | some archived =>
    assertSameIdentity archived.identity input.identity
    return true
  | none =>
    match ← q.readRecordIfPresent .pending name with
    | some existing =>
      assertSameIdentity existing.identity input.identity
      if existing.state = .running then
        atomicWrite .pending name (Record.redeliver q existing input.body)
      else
        let now ← act .now
        atomicWrite .pending name (Record.replace q existing input.body now)
      return true
    | none =>
      let now ← act .now
      atomicWrite .pending name (q.newRecord input now)
      return false

def Record.claim (r : Record) : Record := { r with state := .running, attempts := r.attempts + 1 }

def claimLoop (now : Int) : List String → M (Option Job)
  | [] => return none
  | name :: rest => do
    let record ← q.readRecord .pending name
    if record.state = .running ∨ now < record.nextAttemptAt then claimLoop now rest
    else
      atomicWrite .pending name (Record.claim record)
      return some ⟨record.id, record.deploymentId, record.body, record.attempts + 1⟩

def claim : M (Option Job) := do
  let now ← act .now
  let names ← act (.list .pending)
  q.claimLoop now names

/-- A record whose job is to be tried again: a body that was delivered meanwhile takes the place of
the one that was claimed. -/
def Record.retry (r : Record) (now : Int) : Record :=
  { r with
    body := r.redeliveryBody.getD r.body
    bodySha256 := r.redeliveryBodySha256.getD r.bodySha256
    redeliveryBody := none
    redeliveryBodySha256 := none
    state := .retry
    nextAttemptAt := now + retryDelay q.retryDelayMs r.attempts }

def finish (id : String) (outcome : Outcome) : M Unit := do
  if id = "" then throw "invalid compiler queue outcome"
  let name := q.queueKey id
  let record ← q.readRecord .pending name
  if record.id ≠ id ∨ record.state ≠ .running then throw "compiler queue state conflict"
  match outcome with
  | .terminal =>
    atomicWrite .archive name { record with state := .terminal }
    durableRemove .pending name
  | .retry =>
    let now ← act .now
    atomicWrite .pending name (Record.retry q record now)

end Queue

/-! ## Histories -/

inductive Call where
  | initializeQueue
  | enqueue (input : Input)
  | claim
  | finish (id : String) (outcome : Outcome)
  deriving DecidableEq

inductive Reply where
  | initialized
  | enqueued (duplicate : Bool)
  | claimed (job : Option Job)
  | finished
  deriving DecidableEq

def Call.program (q : Queue) : Call → M Reply
  | .initializeQueue => do q.initializeQueue; return .initialized
  | .enqueue input => return .enqueued (← q.enqueue input)
  | .claim => return .claimed (← q.claim)
  | .finish id outcome => do q.finish id outcome; return .finished

/-- A call with the times of its effects; a call that has fewer of them is cut by a crash. -/
structure Event where
  call : Call
  times : List Int

/-- A call that was made: its reply, `none` if it was cut, and whether it wrote a record. -/
structure Happened where
  call : Call
  reply : Option (Except String Reply)
  wrote : Bool

/-- The effect of a record being renamed into place. -/
def isWrite : Effect.Call Op Ans → Bool
  | ⟨.write .., _⟩ => true
  | _ => false

/-- A queue: its files, whether it was initialized since the last crash, and the calls made so far,
newest first. -/
structure Machine where
  files : Files := {}
  up : Bool := false
  history : List Happened := []

namespace Machine

/-- One call. Only `initialize` is called after a crash. -/
def step (q : Queue) (m : Machine) (ev : Event) : Machine :=
  if m.up = false ∧ ev.call ≠ .initializeQueue then m
  else
    match run handle (ev.call.program q).run ev.times m.files [] with
    | (reply, files, trace) =>
      { files
        up := if ev.call = .initializeQueue then reply.any Except.isOk else reply.isSome
        history := ⟨ev.call, reply, trace.any isWrite⟩ :: m.history }

/-- The queue after a history, from empty directories. -/
def run (q : Queue) (events : List Event) : Machine := events.foldl (step q) {}

end Machine

end SharedNode.Compiler.JobQueue
