import SharedNode.Text.Bytes

/-!
# Control-plane messages

Model of `internal/controlplane/types.go`: the command a node receives, the result it reports, and
the pure checks on them. Identifiers and texts are `String`: they come out of JSON, so they are
valid UTF-8. Object keys and file paths are Go strings that may hold any bytes and are kept as
`Bytes`.

* `Kind` is the `kind` string of a command; `other` is any string but the two the agent knows.
* `CommandResult.persisted` and `SyncResult.persisted` are what survives the JSON round trip of a
  stored result: the fields tagged `json:"-"` come back empty.
-/

namespace SharedNode.ControlPlane

open Text (Bytes)

inductive Kind where
  | restoreAndStart
  | stopAndSync
  | other (kind : String)
  deriving DecidableEq, Repr

/-- `Workspace`: the revision a command is about. -/
structure Workspace where
  objectPrefix : String := ""
  revision : Int := 0
  sha256 : String := ""
  deriving DecidableEq, Repr

/-- `WorkspaceBlob`: an immutable archive and its extraction mapping. -/
structure WorkspaceBlob where
  key : Bytes := []
  sha256 : Bytes := []
  compressedSize : Int := 0
  logicalSize : Int := 0
  paths : List Bytes := []
  deriving DecidableEq, Repr

/-- `WorkspaceManifest`: the layers of one revision. -/
structure WorkspaceManifest where
  schemaVersion : Int := 0
  serviceID : Bytes := []
  assignmentID : Bytes := []
  revision : Int := 0
  createdAt : Bytes := []
  logicalSize : Int := 0
  manifestHash : Bytes := []
  aggregateSHA256 : Bytes := []
  content : Option WorkspaceBlob := none
  config : Option WorkspaceBlob := none
  world : List WorkspaceBlob := []
  deriving DecidableEq, Repr

/-- `InitialWorld`: the world seed of revision zero. -/
structure InitialWorld where
  seedID : String := ""
  sha256 : String := ""
  sizeBytes : Int := 0
  worldName : String := ""
  deriving DecidableEq, Repr

/-- `Connection`: the public endpoint the control plane reserved for an assignment. -/
structure Connection where
  host : String
  hostPort : Int
  deriving DecidableEq, Repr

/-- `Endpoint`: the connection as it is reported. -/
structure Endpoint where
  host : String
  port : Int
  deriving DecidableEq, Repr

/-- The right to process a command, until it expires. -/
structure CommandLease where
  token : String := ""
  generation : Int := 0
  expiresAt : String := ""
  deriving DecidableEq, Repr

/-- A command of the control plane, as far as it is read. -/
structure Command where
  commandID : String := ""
  kind : Kind
  nodeID : String := ""
  serviceID : String := ""
  assignmentID : String := ""
  accountID : String := ""
  workspace : Workspace := {}
  runtimeContent : Option WorkspaceBlob := none
  initialWorld : Option InitialWorld := none
  workspaceGiB : Int := 0
  connection : Option Connection := none
  lease : CommandLease := {}
  deriving DecidableEq, Repr

/-- What a sync published. -/
structure SyncResult where
  serviceID : String := ""
  assignmentID : String := ""
  revision : Int := 0
  sizeBytes : Int := 0
  manifestSHA : String := ""
  commandID : String := ""
  lease : CommandLease := {}
  deriving DecidableEq, Repr

structure StoppedReport where
  serviceID : String
  assignmentID : String
  commandID : String
  lease : CommandLease
  deriving DecidableEq, Repr

/-- The `status` of a command result. -/
inductive Status where
  | failed
  | started
  | stopped
  | stoppedAndSynced
  deriving DecidableEq, Repr

/-- The outcome of a command, as it is stored and reported. -/
structure CommandResult where
  status : Status
  code : String := ""
  message : String := ""
  sync : Option SyncResult := none
  deriving DecidableEq, Repr

/-! ## Connections -/

/-- `[a-z0-9]`. -/
def ingressAlnum (c : Char) : Bool := ('a' ≤ c && c ≤ 'z') || ('0' ≤ c && c ≤ '9')

/-- `[a-z0-9.-]`. -/
def ingressInner (c : Char) : Bool := ingressAlnum c || c == '.' || c == '-'

/-- `validIngressHost`: a match of `ingressHostPattern`, one alphanumeric character, or two of them
around at most 251 inner ones. -/
def validIngressHost (host : String) : Bool :=
  match host.toList with
  | [] => false
  | first :: rest =>
    ingressAlnum first &&
      match rest.getLast? with
      | none => true
      | some last => ingressAlnum last && rest.dropLast.all ingressInner &&
          decide (rest.dropLast.length ≤ 251)

def Connection.valid (c : Connection) : Bool :=
  validIngressHost c.host && decide (1024 ≤ c.hostPort) && decide (c.hostPort ≤ 65535)

def Connection.endpoint (c : Connection) : Endpoint := ⟨c.host, c.hostPort⟩

/-! ## What a stored result keeps -/

/-- The fields of a sync result that its JSON form has; the command and its lease are not among
them. -/
def SyncResult.persisted (r : SyncResult) : SyncResult := { r with commandID := "", lease := {} }

/-- The fields of a command result that its JSON form has. -/
def CommandResult.persisted (r : CommandResult) : CommandResult :=
  { r with sync := r.sync.map SyncResult.persisted }

/-- A result no later delivery of its command may change: anything but a failure without a code. -/
def CommandResult.final (r : CommandResult) : Bool := r.status != .failed || r.code != ""

@[simp] theorem SyncResult.persisted_persisted (r : SyncResult) :
    r.persisted.persisted = r.persisted := rfl

@[simp] theorem CommandResult.persisted_persisted (r : CommandResult) :
    r.persisted.persisted = r.persisted := by
  cases r with
  | mk status code message sync => cases sync <;> rfl

@[simp] theorem CommandResult.persisted_status (r : CommandResult) :
    r.persisted.status = r.status := rfl

@[simp] theorem CommandResult.persisted_final (r : CommandResult) :
    r.persisted.final = r.final := rfl

@[simp] theorem CommandResult.persisted_sync_isSome (r : CommandResult) :
    r.persisted.sync.isSome = r.sync.isSome := by
  simp [CommandResult.persisted]

/-- Results with the same persisted fields agree on their status. -/
theorem CommandResult.status_of_persisted {r s : CommandResult} (h : r.persisted = s.persisted) :
    r.status = s.status := by
  rw [← r.persisted_status, h, s.persisted_status]

theorem CommandResult.sync_of_persisted {r s : CommandResult} (h : r.persisted = s.persisted) :
    r.sync.isSome = s.sync.isSome := by
  rw [← r.persisted_sync_isSome, h, s.persisted_sync_isSome]

end SharedNode.ControlPlane
