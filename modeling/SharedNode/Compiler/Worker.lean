import SharedNode.Effect.Prog
import SharedNode.Compiler.Types

/-!
# The compiler worker

Model of `CompilerWorker.run` (`compiler/src/compiler.mjs`) on the `CallbackBoundControlPlane` of
`compiler/src/http-worker.mjs`, and of `CompilerHttpWorker.processQueued`. The world is what the
runs of one job share: the binding the control plane holds for the deployment, the objects in the
store, the uploads that are still on their way, and whether the queue record is terminal.

* The control plane binds the first publication it receives and answers later preparations with
  that binding and the status `upload_existing`.
* The object store honours `If-None-Match: *`: a `PUT` of a stored key changes nothing and is
  refused. A `PUT` whose response is lost may have arrived, or arrive during a later call.
* A callback is recorded when it is sent, whatever becomes of the request; a publication together
  with the object its key names at that moment.
* A run that is cut is a crash of the worker: the flags of `run` are lost with it.

`validateBundle` and the builder are calls with arbitrary outcomes.
-/

namespace SharedNode.Compiler

open Text Effect Prog

inductive Fate where
  | answered
  | responseLost
  | requestLost
  deriving DecidableEq

/-- What happens to an upload: `late` may arrive during any later call. -/
inductive PutFate where
  | answered
  | responseLost
  | requestLost
  | late
  deriving DecidableEq

/-- The answers of the outside to one call. -/
structure Env where
  grants : Except String (GrantSet × Int)
  download : Except String Bytes
  bundle : Option String := none
  build : Except String Built
  prepare : Fate := .answered
  reconciliation : Grant
  put : PutFate := .answered
  get : Option String := none
  callback : Fate := .answered
  finish : Fate := .answered
  arrives : Option Nat := none

/-- The callbacks that end a job. -/
inductive Callback where
  | published
  | failed
  deriving DecidableEq

/-- What `run` returns. -/
inductive Result where
  | published
  | publishedCallbackUncertain (publication : Publication)
  | uploadReconciliationUncertain (publication : Publication)
  | failed (code : FailureCode)
  deriving DecidableEq

inductive FinishKind where
  | terminal
  | retry
  deriving DecidableEq

/-- The state the runs of a job share. -/
structure World where
  binding : Option Publication := none
  objects : Bytes → Option Bytes := fun _ => none
  uploads : List (Bytes × Bytes) := []
  publications : List (Publication × Option Bytes) := []
  callbacks : List Callback := []
  terminal : Bool := false

/-- The calls of a run. -/
inductive Op where
  | grants
  | download (grant : Grant)
  | validateBundle (archive : Bytes)
  | build
  | prepareUpload (publication : Publication)
  | upload (grant : Grant) (archive : Bytes)
  | fetch (grant : Grant)
  | publish (publication : Publication)
  | failed (code : FailureCode)
  | finish (kind : FinishKind)
  deriving DecidableEq

abbrev Ans : Op → Type
  | .grants => Except String (GrantSet × Int)
  | .download _ => Except String Bytes
  | .build => Except String Built
  | .prepareUpload _ => Except String Prepared
  | .fetch _ => Except String Bytes
  | .validateBundle _ | .upload .. | .publish _ | .failed _ | .finish _ => Except String Unit

namespace World

/-- A `PUT` that arrives at the store: the first one of a key wins. -/
def store (w : World) (key archive : Bytes) : World :=
  { w with objects := Function.update w.objects key (some ((w.objects key).getD archive)) }

/-- An upload on its way may arrive. -/
def arrival (w : World) (i : Option Nat) : World :=
  match i.bind (w.uploads[·]?) with
  | some (key, archive) => w.store key archive
  | none => w

/-- The binding after a preparation of `p`. -/
def bind (w : World) (p : Publication) : World := { w with binding := some (w.binding.getD p) }

/-- The answer to a preparation of `p`. -/
def prepared (w : World) (p : Publication) (reconciliation : Grant) : Prepared where
  status := if w.binding.isSome then .uploadExisting else .uploadPrepared
  publication := w.binding.getD p
  reconciliation := reconciliation

/-- A callback is sent; its fate only decides what the worker hears of it. -/
def send (w : World) (c : Callback) : World := { w with callbacks := c :: w.callbacks }

def reply (w : World) (e : Env) : (op : Op) → Ans op
  | .grants => e.grants
  | .download _ => e.download
  | .validateBundle _ => e.bundle.elim (.ok ()) .error
  | .build => e.build
  | .prepareUpload p =>
    if e.prepare = .answered then .ok (w.prepared p e.reconciliation)
    else .error "callback_delivery_failed"
  | .upload grant _ =>
    if e.put = .answered ∧ w.objects grant.key = none then .ok ()
    else .error "content_upload_failed"
  | .fetch grant =>
    match e.get, w.objects grant.key with
    | none, some object => .ok object
    | _, _ => .error "content_reconciliation_failed"
  | .publish _ | .failed _ =>
    if e.callback = .answered then .ok () else .error "callback_delivery_failed"
  | .finish _ => if e.finish = .answered then .ok () else .error "queue_write_failed"

def after (w : World) (e : Env) : Op → World
  | .prepareUpload p => if e.prepare = .requestLost then w else w.bind p
  | .upload grant archive =>
    match e.put with
    | .answered | .responseLost => w.store grant.key archive
    | .requestLost => w
    | .late => { w with uploads := (grant.key, archive) :: w.uploads }
  | .publish p =>
    { w with publications := (p, w.objects p.content.key) :: w.publications }.send .published
  | .failed _ => w.send .failed
  | .finish kind =>
    if e.finish = .requestLost then w else { w with terminal := kind = .terminal }
  | _ => w

end World

/-- The meaning of a call: an upload on its way may arrive first. -/
def handle : Handler Op Ans Env World := fun op e w =>
  let w := w.arrival e.arrives
  some (w.reply e op, w.after e op)

abbrev M := Prog Op Ans

abbrev ask (op : Op) : M (Ans op) := Prog.perform op

/-- The result of a run, and whether a terminal callback was delivered
(`terminalCallbackDelivered`). -/
structure Outcome where
  result : Result
  delivered : Bool := false
  deriving DecidableEq

/-- The answer of a call that only succeeds or fails. -/
def succeeded {α : Type} : Except String α → Bool
  | .ok _ => true
  | .error _ => false

namespace Worker

/-- The failed callback: it is refused before grants were refreshed, and its errors are dropped. -/
def fail (granted : Bool) (code : String) : M Outcome :=
  if granted then do
    let sent ← ask (.failed (classifyFailure code))
    ret ⟨.failed (classifyFailure code), succeeded sent⟩
  else ret ⟨.failed (classifyFailure code), false⟩

def downloadExact (grant : Grant) (expected : InputArchive) : M (Except String Bytes) := do
  let body ← ask (.download grant)
  match body with
  | .error err => ret (.error err)
  | .ok bytes => ret (exactBody bytes expected)

def uploadExact (grant : Grant) (archive : Bytes) : M (Except String Unit) :=
  ask (.upload grant archive)

def reconcileExactUpload (grant : Grant) (publication : Publication) : M (Except String Unit) :=
  if ¬ isExactReconciliationGrant grant publication.content.key then
    ret (.error "invalid_reconciliation_grant")
  else do
    let body ← ask (.fetch grant)
    match body with
    | .error err => ret (.error err)
    | .ok object =>
      if publication.content.Describes object then ret (.ok ())
      else ret (.error "content_reconciliation_failed")

/-- One attempt after another: the second if the first throws. -/
def orElse (first second : M (Except String Unit)) : M (Except String Unit) := do
  let r ← first
  match r with
  | .ok () => ret (.ok ())
  | .error _ => second

def place (output : Grant) (built : Built) (prepared : Prepared) (bound : Publication) :
    M (Except String Unit) :=
  let upload := uploadExact output built.archive
  let reconcile := reconcileExactUpload prepared.reconciliation bound
  match prepared.status with
  | .uploadPrepared => orElse upload reconcile
  | .uploadExisting => orElse reconcile (orElse upload reconcile)

/-- `run` from the point where the binding is known. -/
def finishRun (output : Grant) (built : Built) (own : Publication) (prepared : Prepared)
    (bound : Publication) : M Outcome := do
  let placed ← place output built prepared bound
  match placed with
  | .error _ => ret ⟨.uploadReconciliationUncertain own, false⟩
  | .ok () =>
    let sent ← ask (.publish bound)
    match sent with
    | .error _ => ret ⟨.publishedCallbackUncertain bound, false⟩
    | .ok () => ret ⟨.published, true⟩

/-- `run` from the upload preparation on: errors no longer lead to a failed callback. -/
def prepareAndPlace (job : Job) (output : Grant) (built : Built) : M Outcome := do
  let own := publicationForControlPlane job built
  let answer ← ask (.prepareUpload own)
  match answer.bind fun prepared => (verifyPreparedUpload prepared job).map (prepared, ·) with
  | .error _ => ret ⟨.uploadReconciliationUncertain own, false⟩
  | .ok (prepared, bound) => finishRun output built own prepared bound

/-- `run` from the download on. -/
def compile (job : Job) (input output : Grant) : M Outcome := do
  let archive ← downloadExact input job.frozenManifest.archive
  match archive with
  | .error err => fail true err
  | .ok archive =>
    let valid ← ask (.validateBundle archive)
    match valid with
    | .error err => fail true err
    | .ok () =>
      let built ← ask .build
      match built with
      | .error err => fail true err
      | .ok built =>
        match verifyBuiltContent built job with
        | some err => fail true err
        | none => prepareAndPlace job output built

def run (job : Job) : M Outcome :=
  match validateCompilerJob job with
  | some err => fail false err
  | none => do
    let answer ← ask .grants
    -- `getGrants` verifies the set with its expiry, `run` once more without
    match answer.bind fun set => (verifyGrantSet set.1 job (some set.2)).map fun _ => set.1 with
    | .error err => fail false err
    | .ok grants =>
      match verifyGrantSet grants job none with
      | .error err => fail true err
      | .ok (input, output) => compile job input output

/-- Whether a queue record is done after an outcome. -/
def finishKind (out : Outcome) : FinishKind :=
  match out.result with
  | .published | .failed _ => if out.delivered then .terminal else .retry
  | _ => .retry

/-- `processQueued`, for a queued body that holds the job. -/
def processQueued (job : Job) : M Unit := do
  let out ← run job
  let stored ← ask (.finish (finishKind out))
  match stored with
  | .ok () => ret ()
  | .error _ => do
    let _ ← ask (.finish .retry)
    ret ()

end Worker

/-! ## A sample job -/

/-- A job whose input is one byte. -/
def sampleJob : Job where
  accountId := lit "a"
  serviceId := lit "s"
  deploymentId := lit "d"
  compilerRequestId := lit "r"
  manifestSha256 := List.replicate 64 0x30
  expectedContentKey :=
    lit "shared-hosting/a/s/compiler-content/" ++ List.replicate 64 0x30 ++ lit ".tar.zst"
  frozenManifest :=
    { sourceFormat := lit "xmcl_server_bundle", importId := lit "i",
      archive :=
        { key := lit "shared-hosting/a/s/compiler-inputs/i.xmcl-server-bundle",
          sha256 := sha256 [1], sizeBytes := 1 } }

def readGrant (key : Bytes) : Grant := ⟨key, .get, true, some 2, none⟩

def sampleGrants : GrantSet where
  accountId := lit "a"
  serviceId := lit "s"
  deploymentId := lit "d"
  compilerRequestId := lit "r"
  manifestSha256 := List.replicate 64 0x30
  grants :=
    [readGrant sampleJob.frozenManifest.archive.key,
     ⟨sampleJob.expectedContentKey, .put, true, some 2, some [(lit "if-none-match", lit "*")]⟩]

/-- A build of the sample job with the given archive. -/
def sampleBuilt (archive : Bytes) : Built where
  archive := archive
  key := sampleJob.expectedContentKey
  sha256 := sha256 archive
  sizeBytes := archive.length
  entries := [⟨lit ".xmcl/launch.sh", 1⟩]
  launch := ⟨lit "generated-server-launcher", lit ".xmcl/launch.sh", []⟩
  wellFormed := true

/-- Choices under which every call of a run that builds `archive` succeeds. -/
def smoothly (archive : Bytes) : Env where
  grants := .ok (sampleGrants, 1)
  download := .ok [1]
  build := .ok (sampleBuilt archive)
  reconciliation := readGrant sampleJob.expectedContentKey

end SharedNode.Compiler
