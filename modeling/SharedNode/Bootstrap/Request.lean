import SharedNode.Text.Sha256
import SharedNode.Text.Struct
import SharedNode.Workspace.Manifest

/-!
# Bootstrap requests

The request of a bootstrap job as `internal/bootstraprunner/runner.go` has it: what is read from the
body of a call, `validate`, the text that is kept of a request (`json.Marshal`), the same text
without its two secrets, and the environment file of the new node (`renderEnvironment`).

A struct is given by the table of its fields (`Field`) with their names in the document, and each
value by how it is read and written (`Codec`). A body may not have unknown members, a stored request
may.

`net.ParseIP`, `otlpconfig.ValidateEndpoint` and `url.QueryUnescape` are parameters of `validate`.
-/

namespace SharedNode.Bootstrap

open Text
open Workspace (hasPrefix isLetterByte)

/-! ## Requests -/

structure ExpectedProvider where
  instanceName : Bytes := []
  packageCode : Bytes := []
  regionCode : Bytes := []
  zoneCode : Bytes := []
  imageResourceUUID : Bytes := []
  firewallUUID : Bytes := []
  sshKeyUUID : Bytes := []
  deriving DecidableEq, Repr

structure BootstrapConfig where
  releaseManifestURL : Bytes := []
  releaseManifestSHA256 : Bytes := []
  dockerPackageVersion : Bytes := []
  controlPlaneURL : Bytes := []
  logicalRegion : Bytes := []
  objectStorageEndpoint : Bytes := []
  objectStorageRegion : Bytes := []
  objectStorageBucket : Bytes := []
  otlpEndpoint : Bytes := []
  otlpHeaders : Bytes := []
  workspaceVolumeGiB : Int := 0
  bootstrapTimeout : Int := 0
  deriving DecidableEq, Repr

/-- `ExpectedCapacity`; a nil slice of classes is `none`. -/
structure ExpectedCapacity where
  workloadClasses : Option (List Bytes) := none
  totalMemoryMiB : Int := 0
  totalSharedCPU : Int := 0
  totalWorkspaceGiB : Int := 0
  deriving DecidableEq, Repr

/-- The body of a create call. -/
structure Request where
  jobID : Bytes := []
  nodeID : Bytes := []
  instanceID : Bytes := []
  address : Bytes := []
  enrollmentToken : Bytes := []
  expectedProvider : ExpectedProvider := {}
  config : BootstrapConfig := {}
  expectedCapacity : ExpectedCapacity := {}
  deriving DecidableEq, Repr

/-! ## Documents -/

def ExpectedProvider.fields : List (Text.Field ExpectedProvider) :=
  [field "instanceName" instanceName (fun p v => { p with instanceName := v }) text,
   field "packageCode" packageCode (fun p v => { p with packageCode := v }) text,
   field "regionCode" regionCode (fun p v => { p with regionCode := v }) text,
   field "zoneCode" zoneCode (fun p v => { p with zoneCode := v }) text,
   field "imageResourceUUID" imageResourceUUID (fun p v => { p with imageResourceUUID := v }) text,
   field "firewallUUID" firewallUUID (fun p v => { p with firewallUUID := v }) text,
   field "sshKeyUUID" sshKeyUUID (fun p v => { p with sshKeyUUID := v }) text]

def BootstrapConfig.fields : List (Text.Field BootstrapConfig) :=
  [field "releaseManifestUrl" releaseManifestURL
     (fun c v => { c with releaseManifestURL := v }) text,
   field "releaseManifestSha256" releaseManifestSHA256
     (fun c v => { c with releaseManifestSHA256 := v }) text,
   field "dockerPackageVersion" dockerPackageVersion
     (fun c v => { c with dockerPackageVersion := v }) text,
   field "controlPlaneUrl" controlPlaneURL (fun c v => { c with controlPlaneURL := v }) text,
   field "logicalRegion" logicalRegion (fun c v => { c with logicalRegion := v }) text,
   field "objectStorageEndpoint" objectStorageEndpoint
     (fun c v => { c with objectStorageEndpoint := v }) text,
   field "objectStorageRegion" objectStorageRegion
     (fun c v => { c with objectStorageRegion := v }) text,
   field "objectStorageBucket" objectStorageBucket
     (fun c v => { c with objectStorageBucket := v }) text,
   (field "otlpEndpoint" otlpEndpoint (fun c v => { c with otlpEndpoint := v }) text).omitEmpty
     List.isEmpty,
   (field "otlpHeaders" otlpHeaders (fun c v => { c with otlpHeaders := v }) text).omitEmpty
     List.isEmpty,
   field "workspaceVolumeGiB" workspaceVolumeGiB
     (fun c v => { c with workspaceVolumeGiB := v }) integer,
   field "bootstrapTimeoutSeconds" bootstrapTimeout
     (fun c v => { c with bootstrapTimeout := v }) integer]

def ExpectedCapacity.fields : List (Text.Field ExpectedCapacity) :=
  [field "workloadClasses" workloadClasses (fun c v => { c with workloadClasses := v })
     (nilable (listOf text)),
   field "totalMemoryMiB" totalMemoryMiB (fun c v => { c with totalMemoryMiB := v }) integer,
   field "totalSharedCpu" totalSharedCPU (fun c v => { c with totalSharedCPU := v }) integer,
   field "totalWorkspaceGiB" totalWorkspaceGiB
     (fun c v => { c with totalWorkspaceGiB := v }) integer]

def Request.fields (strict : Bool) : List (Text.Field Request) :=
  [field "jobId" jobID (fun r v => { r with jobID := v }) text,
   field "nodeId" nodeID (fun r v => { r with nodeID := v }) text,
   field "instanceId" instanceID (fun r v => { r with instanceID := v }) text,
   field "address" address (fun r v => { r with address := v }) text,
   field "enrollmentToken" enrollmentToken (fun r v => { r with enrollmentToken := v }) text,
   field "expectedProvider" expectedProvider (fun r v => { r with expectedProvider := v })
     (struct strict ExpectedProvider.fields {}),
   field "config" config (fun r v => { r with config := v })
     (struct strict BootstrapConfig.fields {}),
   field "expectedCapacity" expectedCapacity (fun r v => { r with expectedCapacity := v })
     (struct strict ExpectedCapacity.fields {})]

/-- `json.Marshal` of a request: what is kept of it, and what its digest is made of. -/
def Request.canonical (r : Request) : Bytes := renderFields (Request.fields true) r

def Request.redacted (r : Request) : Request :=
  { r with enrollmentToken := [], config := { r.config with otlpHeaders := [] } }

def Request.digest (r : Request) : Bytes := sha256 r.canonical

/-- The request in the body of a call: one document of at most 32 KiB and nothing behind it. -/
def decodeRequest (body : Bytes) : Option Request :=
  if 32 * 1024 < body.length then none
  else (parse body).bind (readFields true (Request.fields true) {})

/-- `json.Unmarshal` of a stored request. -/
def decodeStored (data : Bytes) : Option Request :=
  (parse data).bind (readFields false (Request.fields false) {})

def approvalFields : List (Text.Field Bytes) := [field "fingerprint" id (fun _ v => v) text]

/-- The fingerprint in the body of an approval: the first document within 1 KiB. -/
def decodeApproval (body : Bytes) : Option Bytes :=
  match readValue (maxNestingDepth + 1) (body.take 1024) with
  | some (v, _) => readFields true approvalFields [] v
  | none => none

/-! ## Validation -/

/-- What `validate` asks of other packages. -/
structure Library where
  /-- `net.ParseIP` gives an address of four bytes. -/
  isIPv4 : Bytes → Bool
  validateEndpoint : Bytes → Bool
  queryUnescape : Bytes → Option Bytes

def isAlnum (b : UInt8) : Bool := isLetterByte b || isDigit b

def identifier (value : Bytes) : Bool :=
  match value with
  | [] => false
  | first :: rest =>
    isAlnum first && rest.length ≤ 127 && rest.all fun b => isAlnum b || (lit "_.:-").contains b

def isToken (value : Bytes) : Bool :=
  32 ≤ value.length && value.length ≤ 512 && value.all fun b => isAlnum b || (lit "_-").contains b

def sha256Hex (value : Bytes) : Bool :=
  value.length = 64 && value.all fun b => isDigit b || (0x61 ≤ b && b ≤ 0x66)

def isFingerprint (value : Bytes) : Bool :=
  value.length = 50 && hasPrefix value (lit "SHA256:") &&
    (value.drop 7).all fun b => isAlnum b || (lit "+/").contains b

def validHeaderName (value : Bytes) : Bool :=
  value ≠ [] && value.all fun b => isAlnum b || (lit "!#$%&'*+-.^_`|~").contains b

def validHeaderValue (value : Bytes) : Bool := value.all fun b => 0x20 ≤ b && b ≤ 0x7e

def validHeader (lib : Library) (entry : Bytes) : Bool :=
  entry.contains 0x3d &&
    (lib.queryUnescape (entry.takeWhile (· ≠ 0x3d))).any validHeaderName &&
    (lib.queryUnescape ((entry.dropWhile (· ≠ 0x3d)).drop 1)).any validHeaderValue

/-- `ParseHeaders` succeeds. -/
def validHeaders (lib : Library) (raw : Bytes) : Bool :=
  raw = [] || (raw.length ≤ 4096 && !containsAny raw [0x0d, 0x0a] &&
    (raw.splitOn 0x2c).all (validHeader lib))

def validate (lib : Library) (r : Request) : Bool :=
  identifier r.jobID && identifier r.nodeID && identifier r.instanceID && lib.isIPv4 r.address &&
    isToken r.enrollmentToken && sha256Hex r.config.releaseManifestSHA256 &&
    (r.config.logicalRegion = lit "mow" || r.config.logicalRegion = lit "tpe") &&
    r.expectedCapacity.totalWorkspaceGiB ≤ r.config.workspaceVolumeGiB &&
    60 ≤ r.config.bootstrapTimeout && r.config.bootstrapTimeout ≤ 1800 &&
    0 < r.expectedCapacity.totalMemoryMiB && 0 < r.expectedCapacity.totalSharedCPU &&
    0 < r.expectedCapacity.totalWorkspaceGiB &&
    [r.expectedProvider.instanceName, r.expectedProvider.packageCode, r.expectedProvider.regionCode,
      r.expectedProvider.zoneCode, r.expectedProvider.imageResourceUUID,
      r.expectedProvider.firewallUUID, r.expectedProvider.sshKeyUUID].all identifier &&
    [r.config.releaseManifestURL, r.config.controlPlaneURL, r.config.objectStorageEndpoint].all
      (hasPrefix · (lit "https://")) &&
    (if r.config.otlpEndpoint = [] then r.config.otlpHeaders = []
      else lib.validateEndpoint r.config.otlpEndpoint && validHeaders lib r.config.otlpHeaders)

/-! ## The environment of the node -/

def shellValue (value : Bytes) : Bytes :=
  lit "'" ++ (value.flatMap fun b => if b = 0x27 then lit "'\"'\"'" else [b]) ++ lit "'"

/-- The variables of `renderEnvironment`. -/
def environment (r : Request) : List (Bytes × Bytes) :=
  [(lit "XMCL_NODE_ID", r.nodeID),
   (lit "XMCL_INSTANCE_ID", r.instanceID),
   (lit "XMCL_REGION", r.config.logicalRegion),
   (lit "XMCL_CONTROL_PLANE_URL", r.config.controlPlaneURL),
   (lit "XMCL_ENROLLMENT_TOKEN", r.enrollmentToken),
   (lit "XMCL_INGRESS_HOST", r.address),
   (lit "XMCL_OBJECT_STORAGE_ENDPOINT", r.config.objectStorageEndpoint),
   (lit "XMCL_OBJECT_STORAGE_REGION", r.config.objectStorageRegion),
   (lit "XMCL_OBJECT_STORAGE_BUCKET", r.config.objectStorageBucket),
   (lit "OTEL_EXPORTER_OTLP_ENDPOINT", r.config.otlpEndpoint),
   (lit "OTEL_EXPORTER_OTLP_HEADERS", r.config.otlpHeaders),
   (lit "XMCL_RELEASE_MANIFEST_URL", r.config.releaseManifestURL),
   (lit "XMCL_RELEASE_MANIFEST_SHA256", r.config.releaseManifestSHA256),
   (lit "XMCL_DOCKER_PACKAGE_VERSION", r.config.dockerPackageVersion),
   (lit "XMCL_TOTAL_MEMORY_MIB", formatInt r.expectedCapacity.totalMemoryMiB),
   (lit "XMCL_TOTAL_SHARED_CPU", formatInt r.expectedCapacity.totalSharedCPU),
   (lit "XMCL_TOTAL_WORKSPACE_GIB", formatInt r.expectedCapacity.totalWorkspaceGiB),
   (lit "XMCL_WORKSPACE_VOLUME_GIB", formatInt r.config.workspaceVolumeGiB),
   (lit "XMCL_BOOTSTRAP_TIMEOUT_SECONDS", formatInt r.config.bootstrapTimeout)]

/-- The file of variables that `bootstrap.sh` sources. -/
def renderEnvironment (r : Request) : Bytes :=
  (environment r).flatMap fun entry => entry.1 ++ lit "=" ++ shellValue entry.2 ++ lit "\n"

/-! ## Reading a stored request -/

/-- The strings of a request are valid UTF-8 and its numbers have 64 bits, as what is read from a
document always is. -/
structure Request.WellFormed (r : Request) : Prop where
  strings : ∀ s ∈ [r.jobID, r.nodeID, r.instanceID, r.address, r.enrollmentToken], ValidUtf8 s
  provider : ∀ s ∈ [r.expectedProvider.instanceName, r.expectedProvider.packageCode,
    r.expectedProvider.regionCode, r.expectedProvider.zoneCode,
    r.expectedProvider.imageResourceUUID,
    r.expectedProvider.firewallUUID, r.expectedProvider.sshKeyUUID], ValidUtf8 s
  config : ∀ s ∈ [r.config.releaseManifestURL, r.config.releaseManifestSHA256,
    r.config.dockerPackageVersion, r.config.controlPlaneURL, r.config.logicalRegion,
    r.config.objectStorageEndpoint, r.config.objectStorageRegion, r.config.objectStorageBucket,
    r.config.otlpEndpoint, r.config.otlpHeaders], ValidUtf8 s
  classes : ∀ l ∈ r.expectedCapacity.workloadClasses, ∀ s ∈ l, ValidUtf8 s
  numbers : ∀ n ∈ [r.config.workspaceVolumeGiB, r.config.bootstrapTimeout,
    r.expectedCapacity.totalMemoryMiB, r.expectedCapacity.totalSharedCPU,
    r.expectedCapacity.totalWorkspaceGiB], -2 ^ 63 ≤ n ∧ n < 2 ^ 63

section RoundTrip

variable {r : Request} (h : r.WellFormed)

include h in
theorem read_provider : readFields true ExpectedProvider.fields {}
    (jsonFields ExpectedProvider.fields r.expectedProvider) = some r.expectedProvider := by
  have hvalid := h.provider
  simp only [List.forall_mem_cons] at hvalid
  obtain ⟨h₁, h₂, h₃, h₄, h₅, h₆, h₇, -⟩ := hvalid
  rw [readFields_jsonFields (by decide)]
  simp only [ExpectedProvider.fields, List.foldlM_cons, List.foldlM_nil, Option.bind_eq_bind,
    Option.bind_some, restore_text, h₁, h₂, h₃, h₄, h₅, h₆, h₇]
  rfl

include h in
theorem read_config : readFields true BootstrapConfig.fields {}
    (jsonFields BootstrapConfig.fields r.config) = some r.config := by
  have hvalid := h.config
  have hnumbers := h.numbers
  simp only [List.forall_mem_cons] at hvalid hnumbers
  obtain ⟨h₁, h₂, h₃, h₄, h₅, h₆, h₇, h₈, h₉, h₁₀, -⟩ := hvalid
  obtain ⟨hvolume, htimeout, -⟩ := hnumbers
  rw [readFields_jsonFields (by decide)]
  simp only [BootstrapConfig.fields, List.foldlM_cons, List.foldlM_nil, Option.bind_eq_bind,
    Option.bind_some, restore_text, restore_optional, restore_integer, h₁, h₂, h₃, h₄, h₅,
    h₆, h₇, h₈, h₉, h₁₀, hvolume, htimeout, and_self]
  rfl

include h in
theorem read_capacity : readFields true ExpectedCapacity.fields {}
    (jsonFields ExpectedCapacity.fields r.expectedCapacity) = some r.expectedCapacity := by
  have hnumbers := h.numbers
  simp only [List.forall_mem_cons] at hnumbers
  obtain ⟨-, -, hmemory, hcpu, hworkspace, -⟩ := hnumbers
  have hclasses := @restore_texts _ "workloadClasses" r.expectedCapacity {}
    ExpectedCapacity.workloadClasses (fun c v => { c with workloadClasses := v }) h.classes
  rw [readFields_jsonFields (by decide)]
  simp only [ExpectedCapacity.fields, List.foldlM_cons, List.foldlM_nil, Option.bind_eq_bind,
    Option.bind_some, hclasses, restore_integer, hmemory, hcpu, hworkspace, and_self]
  rfl

include h in
theorem read_request : readFields true (Request.fields true) {}
    (jsonFields (Request.fields true) r) = some r := by
  have hvalid := h.strings
  simp only [List.forall_mem_cons] at hvalid
  obtain ⟨h₁, h₂, h₃, h₄, h₅, -⟩ := hvalid
  rw [readFields_jsonFields (by decide)]
  simp only [Request.fields, List.foldlM_cons, List.foldlM_nil, Option.bind_eq_bind,
    Option.bind_some, restore_text, restore_struct, read_provider h, read_config h, read_capacity h,
    h₁, h₂, h₃, h₄, h₅]
  rfl

include h in
theorem decodeRequest_canonical (hlength : r.canonical.length ≤ 32 * 1024) :
    decodeRequest r.canonical = some r := by
  have hparse : parse r.canonical = some (jsonFields (Request.fields true) r) :=
    parse_renderFields (by decide) r
  rw [decodeRequest, if_neg (by omega), hparse]
  exact read_request h

end RoundTrip

def approvalBody (fingerprint : Bytes) : Bytes := renderFields approvalFields fingerprint

theorem decodeApproval_body {fingerprint : Bytes} (hvalid : ValidUtf8 fingerprint)
    (hlength : (approvalBody fingerprint).length ≤ 1024) :
    decodeApproval (approvalBody fingerprint) = some fingerprint := by
  have hvalue : readValue (maxNestingDepth + 1) (approvalBody fingerprint ++ []) =
      some (jsonFields approvalFields fingerprint, []) :=
    (denotes_renderFields approvalFields fingerprint (maxNestingDepth - 1)).reads [] trivial
  rw [List.append_nil] at hvalue
  rw [decodeApproval, List.take_of_length_le hlength, hvalue]
  exact (readFields_jsonFields (by decide) true fingerprint []).trans
    (congrArg (Option.bind · some) (restore_text hvalid))

end SharedNode.Bootstrap
