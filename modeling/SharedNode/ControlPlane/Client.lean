import SharedNode.Effect.Protocol
import SharedNode.Text.Time
import SharedNode.Workspace.Encoding

/-!
# The control-plane client

Model of `internal/controlplane/client.go`: how a request is sent and its response read, `Register`
with the one-time bootstrap credential, `RotateCredential`, and `setCredential`, which stores a
credential in a file before it is used. The credentials are part of the state, since the goroutines
of the daemon share the client.

* A response belongs to the control plane before it reaches the agent: `Exchange.served` is what the
  control plane answered, whether or not the answer arrived.
* `authMu` is held for reading while a request of the node is under way and for writing during a
  rotation; a blocked call does not move. The sections under `mu` are single calls.
* The errors of the write and of the `Chmod` in `setCredential` are assigned to a variable of an
  inner scope, so neither of them fails it.

The signature headers are a function of the rest of the request and are left out. Of the documents
only those that issue a credential are read; for the others the outside says whether they can be
decoded (`Op.decode`).
-/

namespace SharedNode.Enrollment

open Text Effect Prog

/-- The credential a request carries. -/
inductive Scheme where
  | bootstrap
  | node
  deriving DecidableEq, Repr

/-- A request to the control plane. -/
structure Request where
  path : Bytes
  body : Bytes
  scheme : Scheme
  credential : Bytes
  timestamp : Int
  nonce : Bytes
  deriving DecidableEq, Repr

/-- A response of the control plane. -/
structure Response where
  status : Nat
  body : Bytes
  deriving DecidableEq, Repr

/-- The status is in the 2xx range. -/
def Response.accepts (r : Response) : Prop := 200 ≤ r.status ∧ r.status < 300

def Response.rejects (r : Response) : Prop := r.status = 401 ∨ r.status = 403

instance (r : Response) : Decidable r.accepts := inferInstanceAs (Decidable (_ ∧ _))

instance (r : Response) : Decidable r.rejects := inferInstanceAs (Decidable (_ ∨ _))

/-- A request that was sent, and what the control plane answered, `none` if it was not reached. -/
structure Exchange where
  request : Request
  served : Option Response
  deriving DecidableEq, Repr

/-- Why no response is read: the request failed, or the body broke off. -/
inductive Fault where
  | sending (err : String)
  | reading (err : String)
  deriving DecidableEq, Repr

/-- A credential of the node, as it is stored. -/
structure Credential where
  credential : Bytes := []
  expiresAt : Bytes := []
  deriving DecidableEq, Repr

/-- The steps of storing a credential. -/
inductive FileStep where
  | mkdirAll
  | create
  | write (data : Bytes)
  | chmod
  | close
  | remove
  | rename
  deriving DecidableEq, Repr

/-- The methods of the client that the daemon uses beside `Register` and `RotateCredential`. -/
inductive Method where
  | heartbeat
  | next
  | ack (commandID : Bytes)
  | reportStarted (assignmentID : Bytes)
  | reportStopped (assignmentID : Bytes)
  | reportStoppedAndSynced (assignmentID : Bytes)
  | renewLease (commandID : Bytes)
  | workspaceGrants (operation : Bytes)
  deriving DecidableEq, Repr

/-- A use of a method. The body is what its arguments are encoded to, `none` for arguments the
method refuses before it sends anything. -/
structure Errand where
  method : Method
  body : Option Bytes := some []
  deriving DecidableEq, Repr

/-- The calls of the client. -/
inductive Op where
  | now
  | nonce
  | send (request : Request)
  | wait
  | bootstrap
  | credential
  | assign (credential : Credential)
  | consumeBootstrap
  | file (step : FileStep)
  | lock
  | unlock
  | rLock
  | rUnlock
  /-- Whether the document of a response can be read, and whether it holds a command. -/
  | decode (response : Bytes)
  /-- What the daemon has the client do next; `none` when a command is done. -/
  | errand
  | ready
  deriving DecidableEq, Repr

abbrev Ans : Op → Type
  | .now => Int
  | .nonce => Except String Bytes
  | .send _ => Except Fault Response
  -- Whether the context is done.
  | .wait => Bool
  | .bootstrap => Bytes
  | .credential => Credential
  | .file _ => Except String Unit
  | .decode _ => Except String Bool
  | .errand => Option Errand
  | .ready => Except String Unit
  | _ => Unit

/-- The client with its files, and the requests it has sent, newest first. -/
structure World where
  bootstrapCredential : Bytes := []
  issued : Credential := {}
  file : Option Bytes := none
  temporary : Option Bytes := none
  rotating : Bool := false
  sending : Nat := 0
  log : List Exchange := []
  deriving DecidableEq, Repr

/-- The choices of the outside for one call. -/
structure Choice where
  now : Int := 0
  nonce : Except String Bytes := .ok []
  /-- What the control plane answers, `none` if it is not reached. -/
  serve : Request → Option Response := fun _ => none
  /-- The response does not arrive. -/
  fault : Option Fault := none
  file : FileStep → Option String := fun _ => none
  /-- How much a failing write leaves behind. -/
  written : Nat := 0
  done : Bool := false
  decode : Except String Bool := .ok true
  errand : Option Errand := none
  ready : Option String := none

def World.store (w : World) (e : Choice) (step : FileStep) : Except String Unit × World :=
  match e.file step with
  | some err =>
    match step with
    | .write data => (.error err, { w with temporary := some (data.take e.written) })
    | _ => (.error err, w)
  | none =>
    match step with
    | .create => (.ok (), { w with temporary := some [] })
    | .write data => (.ok (), { w with temporary := some data })
    | .remove => (.ok (), { w with temporary := none })
    | .rename => (.ok (), { w with file := w.temporary, temporary := none })
    | .mkdirAll | .chmod | .close => (.ok (), w)

def Choice.receive (e : Choice) (request : Request) : Except Fault Response :=
  match e.serve request, e.fault with
  | some response, none => .ok response
  | _, some fault => .error fault
  | none, none => .error (.sending "no route to the control plane")

/-- A response arrives if the control plane gave it and nothing broke. -/
theorem Choice.receive_eq_ok {e : Choice} {request : Request} {r : Response} :
    e.receive request = .ok r ↔ e.serve request = some r ∧ e.fault = none := by
  unfold receive
  cases e.serve request <;> cases e.fault <;> simp

def handle : Handler Op Ans Choice World := fun op e w =>
  match op with
  | .now => some (e.now, w)
  | .nonce => some (e.nonce, w)
  | .send r => some (e.receive r, { w with log := ⟨r, e.serve r⟩ :: w.log })
  | .wait => some (e.done, w)
  | .bootstrap => some (w.bootstrapCredential, w)
  | .credential => some (w.issued, w)
  | .assign c => some ((), { w with issued := c })
  | .consumeBootstrap => some ((), { w with bootstrapCredential := [] })
  | .file step => some (w.store e step)
  | .lock => if w.rotating ∨ 0 < w.sending then none else some ((), { w with rotating := true })
  | .unlock => some ((), { w with rotating := false })
  | .rLock => if w.rotating then none else some ((), { w with sending := w.sending + 1 })
  | .rUnlock => some ((), { w with sending := w.sending - 1 })
  | .decode _ => some (e.decode, w)
  | .errand => some (e.errand, w)
  | .ready => some (e.ready.elim (.ok ()) .error, w)

abbrev M := Prog Op Ans

abbrev ask (op : Op) : M (Ans op) := perform op

/-- The errors of the client: an `HTTPError`, or any other. -/
inductive ClientError where
  | http (status : Nat)
  | other (text : String)
  deriving DecidableEq, Repr

def ClientError.isAuthenticationFailure : ClientError → Bool
  | http status => status = 401 || status = 403
  | other _ => false

def ClientError.text : ClientError → String
  | http status => "control plane returned HTTP " ++ toString status
  | other text => text

abbrev Outcome := Except ClientError

/-- An error that is not an `HTTPError`. -/
abbrev fail {α : Type} (text : String) : M (Outcome α) := ret (.error (.other text))

/-- What a node says of itself. -/
structure Identity where
  nodeID : Bytes
  instanceID : Bytes
  region : Bytes
  totalMemoryMiB : Int := 0
  totalSharedCPU : Int := 0
  totalWorkspaceGiB : Int := 0
  deriving DecidableEq, Repr

namespace Client

def maxControlPlaneResponseBytes : Nat := 1048576

/-- `send` once the request was made. -/
def receive : Except Fault Response → Outcome Bytes
  | .error (.sending err) => .error (.other ("send control-plane request: " ++ err))
  | .error (.reading err) => .error (.other ("read control-plane response: " ++ err))
  | .ok response =>
    if maxControlPlaneResponseBytes < response.body.length then
      .error (.other "control-plane response exceeds maximum size")
    else if ¬ response.accepts then .error (.http response.status)
    else .ok response.body

def send (path body : Bytes) (scheme : Scheme) (credential : Bytes) : M (Outcome Bytes) := do
  let now ← ask .now
  let nonce ← ask .nonce
  match nonce with
  | .error err => fail ("generate request nonce: " ++ err)
  | .ok nonce =>
    let response ← ask (.send ⟨path, body, scheme, credential, now / 10 ^ 6, nonce⟩)
    ret (receive response)

/-- A body is handed on if it arrives, is not too large and comes with a status that accepts. -/
theorem receive_eq_ok {x : Except Fault Response} {text : Bytes} :
    receive x = .ok text ↔ ∃ r, x = .ok r ∧ r.accepts ∧ r.body = text ∧
      text.length ≤ maxControlPlaneResponseBytes := by
  match x with
  | .error (.sending _) | .error (.reading _) => simp [receive]
  | .ok r =>
    simp only [receive, Except.ok.injEq, exists_eq_left']
    by_cases hlarge : maxControlPlaneResponseBytes < r.body.length
    · simp only [if_pos hlarge, reduceCtorEq, false_iff]
      rintro ⟨-, rfl, hsmall⟩
      omega
    rw [if_neg hlarge]
    by_cases haccepts : r.accepts
    · simp only [haccepts, not_true_eq_false, if_false, Except.ok.injEq, true_and]
      constructor
      · rintro rfl
        exact ⟨rfl, by omega⟩
      · exact fun h => h.1
    · simp [haccepts]

def sendNodeLocked (path body : Bytes) : M (Outcome Bytes) := do
  let issued ← ask .credential
  if issued.credential = [] then
    fail "control-plane node credential is unavailable; register first"
  else send path body .node issued.credential

def sendNode (path body : Bytes) : M (Outcome Bytes) := do
  let _ ← ask .rLock
  let r ← sendNodeLocked path body
  let _ ← ask .rUnlock
  ret r

/-! ## Credentials -/

structure Issue where
  nodeID : Bytes := []
  issued : Credential := {}
  deriving DecidableEq, Repr

/-- The tags of the document that answers a registration or a rotation. -/
def issueFields : List (Text.Field Issue) :=
  [field "nodeId" (·.nodeID) (fun d v => { d with nodeID := v }) text,
   field "credential" (·.issued.credential)
     (fun d v => { d with issued := { d.issued with credential := v } }) text,
   field "expiresAt" (·.issued.expiresAt)
     (fun d v => { d with issued := { d.issued with expiresAt := v } }) text]

/-- `json.Unmarshal` into the document. -/
def decodeIssue (text : Bytes) : Option Issue := (parse text).bind (readFields false issueFields {})

def validateCredential (nodeID credential : Bytes) : Bool :=
  (nodeID ++ lit ".").isPrefixOf credential && credential.length ≠ nodeID.length + 1

/-- The tags of the document in the credential file. -/
def credentialFields : List (Text.Field Credential) :=
  [field "credential" (·.credential) (fun c v => { c with credential := v }) text,
   field "expiresAt" (·.expiresAt) (fun c v => { c with expiresAt := v }) text]

/-- What the credential file holds: the document, and a line feed. -/
def persistedText (c : Credential) : Bytes := renderFields credentialFields c

def persisted (c : Credential) : Bytes := persistedText c ++ lit "\n"

/-- `setCredential` once the temporary file is written. -/
def commit (c : Credential) : M (Outcome Unit) := do
  let closed ← ask (.file .close)
  match closed with
  | .error err =>
    let _ ← ask (.file .remove)
    fail ("write control-plane credential: " ++ err)
  | .ok () =>
    let renamed ← ask (.file .rename)
    match renamed with
    | .error err =>
      let _ ← ask (.file .remove)
      fail ("persist control-plane credential: " ++ err)
    | .ok () =>
      let _ ← ask (.assign c)
      ret (.ok ())

/-- `setCredential` once the credential is valid. -/
def persist (c : Credential) : M (Outcome Unit) := do
  let made ← ask (.file .mkdirAll)
  match made with
  | .error err => fail ("create control-plane credential directory: " ++ err)
  | .ok () =>
    let created ← ask (.file .create)
    match created with
    | .error err => fail ("create control-plane credential: " ++ err)
    | .ok () =>
      let written ← ask (.file (.write (persisted c)))
      -- The error of either call is lost with the variable of the inner scope.
      let _ ← (match written with
        | .ok () => ask (.file .chmod)
        | .error err => ret (.error err))
      commit c

def setCredential (nodeID : Bytes) (c : Credential) : M (Outcome Unit) :=
  if ¬ validateCredential nodeID c.credential then
    fail "control-plane credential does not belong to this node"
  else
    match parseTime c.expiresAt with
    | none => fail "control-plane credential expiry is invalid"
    | some expiry => do
      let now ← ask .now
      if expiry ≤ now then fail "control-plane credential expiry is invalid" else persist c

def registrationBody (id : Identity) : Bytes :=
  renderObject
    [(lit "nodeId", quote id.nodeID), (lit "instanceId", quote id.instanceID),
     (lit "region", quote id.region), (lit "totalMemoryMiB", formatInt id.totalMemoryMiB),
     (lit "totalSharedCpu", formatInt id.totalSharedCPU),
     (lit "totalWorkspaceGiB", formatInt id.totalWorkspaceGiB)]

/-- `Register` with a response. -/
def enroll (id : Identity) (response : Bytes) : M (Outcome Unit) :=
  match decodeIssue response with
  | none => fail "decode registration response"
  | some d =>
    if d.nodeID ≠ id.nodeID then fail "registration response has a different node ID"
    else do
      let set ← setCredential id.nodeID d.issued
      match set with
      | .error err => ret (.error err)
      | .ok () =>
        let _ ← ask .consumeBootstrap
        ret (.ok ())

def register (id : Identity) : M (Outcome Unit) := do
  let bootstrap ← ask .bootstrap
  if bootstrap = [] then fail "control-plane bootstrap credential is unavailable"
  else if id.instanceID = [] then
    fail "control-plane instance ID is required for registration"
  else
    let response ← send (lit "/v1/internal/shared-nodes/register") (registrationBody id) .bootstrap
      bootstrap
    match response with
    | .error err => ret (.error err)
    | .ok response => enroll id response

def nodePath (nodeID rest : Bytes) : Bytes := lit "/v1/internal/shared-nodes/" ++ nodeID ++ rest

/-- `RotateCredential` with a response. -/
def exchangeCredential (nodeID response : Bytes) : M (Outcome Unit) :=
  match decodeIssue response with
  | none => fail "decode credential rotation response"
  | some d =>
    if d.nodeID ≠ nodeID then fail "credential rotation response has a different node ID"
    else setCredential nodeID d.issued

def rotateCredential (nodeID : Bytes) : M (Outcome Unit) := do
  let _ ← ask .lock
  let response ← sendNodeLocked (nodePath nodeID (lit "/credentials:rotate")) []
  let r ← (match response with
    | .error err => ret (.error err)
    | .ok response => exchangeCredential nodeID response)
  let _ ← ask .unlock
  ret r

def credentialNeedsRotation : M Bool := do
  let issued ← ask .credential
  if issued.credential = [] then ret false
  else
    match parseTime issued.expiresAt with
    | none => ret true
    | some expiry =>
      let now ← ask .now
      ret (expiry ≤ now + 120 * 10 ^ 9)

end Client

def Method.path (nodeID : Bytes) : Method → Bytes
  | heartbeat => Client.nodePath nodeID (lit "/heartbeat")
  | next => Client.nodePath nodeID (lit "/commands:next")
  | ack c => Client.nodePath nodeID (lit "/commands/" ++ c ++ lit "/ack")
  | reportStarted a => Client.nodePath nodeID (lit "/assignments/" ++ a ++ lit "/started")
  | reportStopped a => Client.nodePath nodeID (lit "/assignments/" ++ a ++ lit "/stopped")
  | reportStoppedAndSynced a =>
    Client.nodePath nodeID (lit "/assignments/" ++ a ++ lit "/stopped-synced")
  | renewLease c => Client.nodePath nodeID (lit "/commands/" ++ c ++ lit "/lease-renew")
  | workspaceGrants operation => Client.nodePath nodeID (lit "/workspace-grants/" ++ operation)

/-- A use of a method: whether its response holds a command. -/
def Errand.run (nodeID : Bytes) (errand : Errand) : M (Outcome Bool) :=
  match errand.body with
  | none => fail "the arguments are refused"
  | some body => do
    let response ← Client.sendNode (errand.method.path nodeID) body
    match response with
    | .error err => ret (.error err)
    | .ok response =>
      let decoded ← ask (.decode response)
      ret (decoded.mapError .other)

end SharedNode.Enrollment
