import SharedNode.Workspace.Transfer

/-!
# Restoring a workspace

Model of `Manager.Restore` and `Manager.Release` of `internal/workspace/workspace.go` with
everything below them: the download and check of the manifest, the archives in batches of eight
grants, their extraction into a staging directory, and the exchange of that directory for the active
workspace. Revision zero starts from an empty workspace, or from the compiler's content, and may get
an initial world.
-/

namespace SharedNode.Workspace

open Text ControlPlane Storage Effect

/-! ## Extraction -/

/-- `safeChild`. The checks of the path leave nothing for `filepath.Rel` to object to. -/
def safeChild (root : Path) (name : Bytes) : Except String Path :=
  if !validWorkspacePath name then .error "path must be a safe relative slash-separated name"
  else .ok (root ++ components name)

/-- The variables of `extractArchive`: `seen` are the paths of all archives so far. -/
structure Extraction where
  seen : List Bytes
  expected : List Bytes
  total : Int
  entries : Nat
  deriving DecidableEq, Repr

/-- `extractArchive`, the paths of the descriptor as a set. -/
def expectedPaths : List Bytes → List Bytes → Except String (List Bytes)
  | [], expected => .ok expected
  | path :: rest, expected =>
    if !validWorkspacePath path then .error "manifest contains invalid archive path"
    else if expected.contains path then .error "manifest contains duplicate archive path"
    else expectedPaths rest (path :: expected)

/-- Writes a new file; a file that could not be written is removed. -/
def writeNew (target : Path) (bytes : Bytes) (complete : Bool) (text : String) : M Unit := do
  ask (.openExclusive target)
  match ← attempt (ask (.write target bytes)) with
  | .ok () =>
    if !complete then
      let _ ← attempt (ask (.remove target))
      throw text
  | .error _ =>
    let _ ← attempt (ask (.remove target))
    throw text

/-- `extractArchive`, one member. -/
def extractMember (root : Path) (limit : Int) (allowConfigOverlay : Bool) (x : Extraction)
    (header : Member) : M Extraction := do
  let entries := x.entries + 1
  if maxArchiveEntries < entries || !header.regular || !validWorkspacePath header.name ||
      header.size < 0 || limit < header.size || limit < int64 (x.total + header.size) then
    throw "workspace archive violates extraction limits"
  if !x.expected.contains header.name then
    throw "workspace archive member is not in manifest mapping"
  let duplicate := x.seen.contains header.name
  let overlay := duplicate && allowConfigOverlay && isConfigPath header.name
  if duplicate && !overlay then throw "workspace archive contains duplicate local path"
  let target ← check (safeChild root header.name)
  ask (.mkdirAll target.dropLast)
  if overlay then ask (.remove target)
  writeNew target header.body (header.body.length = header.size)
    "workspace archive member has invalid size"
  return { seen := x.seen.insert header.name, expected := x.expected.erase header.name,
           total := int64 (x.total + header.body.length), entries }

/-- `extractArchive`, all members. -/
def extractMembers (root : Path) (limit : Int) (allowConfigOverlay : Bool) :
    List Member → Extraction → M Extraction
  | [], x => return x
  | header :: rest, x => do
    let x ← extractMember root limit allowConfigOverlay x header
    extractMembers root limit allowConfigOverlay rest x

/-- `extractArchive`: the bytes written and the paths seen. -/
def Manager.extractArchive (m : Manager) (archivePath root : Path) (descriptor : WorkspaceBlob)
    (seen : List Bytes) (limit : Int) (allowConfigOverlay : Bool) : M (Int × List Bytes) := do
  let data ← readFile archivePath
  let expected ← check (expectedPaths descriptor.paths [])
  let (members, ended) := m.codec.decode data
  let x ← extractMembers root limit allowConfigOverlay members ⟨seen, expected, 0, 0⟩
  if !ended then throw "read tar archive"
  if x.expected ≠ [] || x.total ≠ descriptor.logicalSize then
    throw "workspace archive does not match manifest path mapping"
  return (x.total, x.seen)

/-! ## Activation -/

def sealReplacedWorkspaces (workspacePath : Path) : M Unit := do
  for p in [workspacePath, withEnding workspacePath ".previous"] do
    match ← describing "inspect replaced workspace ownership" (ask (.stat p)) with
    | none => pure ()
    | some .dir => describing "seal replaced workspace ownership" (ask (.quota .seal p))
    | some _ => throw "replaced workspace must be a real directory"

def replaceWorkspaceWithBackup (staging workspacePath : Path) : M Path := do
  let backup := withEnding workspacePath ".previous"
  ask (.removeAll backup)
  match ← attempt (ask (.stat workspacePath)) with
  | .ok (some _) => describing "stage previous workspace" (ask (.rename workspacePath backup))
  | _ => pure ()
  match ← attempt (ask (.rename staging workspacePath)) with
  | .ok () => return backup
  | .error err =>
    match ← attempt (ask (.stat backup)) with
    | .ok (some _) => let _ ← attempt (ask (.rename backup workspacePath))
    | _ => pure ()
    throw ("activate validated workspace: " ++ err)

def activateStaging (command : Command) (staging workspacePath : Path) : M Unit := do
  sealReplacedWorkspaces workspacePath
  let backup ← replaceWorkspaceWithBackup staging workspacePath
  match ← attempt (ask (.quota (.apply command.workspaceGiB) workspacePath)) with
  | .ok () => let _ ← attempt (ask (.removeAll backup))
  | .error err =>
    let _ ← attempt (ask (.removeAll workspacePath))
    let _ ← attempt (ask (.rename backup workspacePath))
    throw ("apply workspace quota: " ++ err)

def Manager.activateEmptyWorkspace (m : Manager) (command : Command) (workspacePath : Path) :
    M Unit := do
  let staging := m.staging (command.serviceID ++ "-" ++ command.commandID) ++ [lit "workspace"]
  ask (.removeAll staging)
  ask (.mkdirAll staging)
  sealReplacedWorkspaces workspacePath
  let backup ← replaceWorkspaceWithBackup staging workspacePath
  ask (.removeAll backup)

/-! ## Revision zero -/

def Manager.restoreInitialRuntimeContent (m : Manager) (command : Command)
    (content : WorkspaceBlob) (workspacePath : Path) : M Unit := do
  check (validateRuntimeContent content command)
  let response ← describing "request initial runtime content grant"
    (ask (.grants (.restore "blobs" [content.key])))
  let grant ← check (oneGrant response content.key .get)
  let stagingBase := m.staging (command.serviceID ++ "-" ++ command.commandID)
  ask (.removeAll stagingBase)
  deferred (ask (.removeAll stagingBase)) do
    ask (.mkdirAll stagingBase)
    let archivePath := stagingBase ++ [lit "runtime-content.tar.zst"]
    let result ← downloadArchiveWithGrant content archivePath fun _ => return grant
    if (result.length : Int) ≠ content.compressedSize || sha256 result ≠ content.sha256 then
      throw "initial runtime content does not match selected descriptor"
    let extractionRoot := stagingBase ++ [lit "workspace"]
    let _ ← m.extractArchive archivePath extractionRoot content [] (workspaceLimit command) false
    activateStaging command extractionRoot workspacePath
    let aggregate := aggregateDescriptors [content]
    let manifest : WorkspaceManifest :=
      { schemaVersion := 2, serviceID := lit command.serviceID,
        assignmentID := lit command.assignmentID, revision := 0, content := some content,
        logicalSize := content.logicalSize, aggregateSHA256 := aggregate, manifestHash :=
          aggregate }
    ask (.remember (lit command.serviceID) manifest)
    m.persistRestored command.serviceID manifest

def maxInitialWorldBytes : Int := 512 * 2 ^ 20

def maxInitialWorldEntries : Nat := 4096

def initialWorldKey (command : Command) (world : InitialWorld) : Except String Bytes := do
  let start ← workspacePrefix command
  return start ++ lit "/world-seeds/" ++ lit world.seedID ++ lit ".xmcl-world-seed"

/-- `strings.TrimSpace` leaves nothing. -/
def isBlank (text : String) : Bool := text.toList.all isSpace

def validateInitialWorld (world : InitialWorld) (command : Command) : Except String Unit := do
  if command.workspace.revision ≠ 0 || !validIdentifier (lit world.seedID) ||
      !validDigest (lit world.sha256) || world.sizeBytes < 1 ||
      maxInitialWorldBytes < world.sizeBytes || isBlank world.worldName ||
      255 < (lit world.worldName).length || containsAny
        (lit world.worldName) [0x00, 0x0d, 0x0a] then
    throw "initial world selection is invalid"
  let _ ← initialWorldKey command world

/-- `extractInitialWorld`, one entry; `seen` and `total` are those of the entries before it. What is
left of the limit is compared as a `uint64`. -/
def extractWorldEntry (workspacePath : Path) (limit : Int) (entry : ZipEntry)
    (seen : List Bytes) (total : Int) : M (List Bytes × Int) := do
  let name := trimEnd entry.name (lit "/")
  if name = lit "world.json" then
    if entry.isDir || entry.isSymlink then
      throw "initial world archive has invalid manifest entry"
    return (seen, total)
  if name = [] then return (seen, total)
  if entry.isDir then
    if name ≠ lit "world" && !hasPrefix name (lit "world/") then
      throw "initial world archive has a non-world directory"
    return (seen, total)
  if maxInitialWorldEntries < seen.length + 1 || entry.isSymlink || !validWorkspacePath name ||
      !hasPrefix name (lit "world/") || (limit - total) % 2 ^ 64 < entry.size then
    throw "initial world archive violates extraction limits"
  if seen.contains name then throw "initial world archive contains duplicate paths"
  let target ← check (safeChild workspacePath name)
  ask (.mkdirAll target.dropLast)
  match entry.body with
  | none => throw "initial world archive member cannot be opened"
  | some body =>
    writeNew target body (body.length = entry.size) "initial world archive member has invalid size"
    return (name :: seen, total + entry.size)

/-- `extractInitialWorld`, all entries. -/
def extractWorldEntries (workspacePath : Path) (limit : Int) :
    List ZipEntry → List Bytes → Int → M (List Bytes)
  | [], seen, _ => return seen
  | entry :: rest, seen, total => do
    let (seen, total) ← extractWorldEntry workspacePath limit entry seen total
    extractWorldEntries workspacePath limit rest seen total

def Manager.extractInitialWorld (m : Manager) (archivePath workspacePath : Path) (limit : Int) :
    M Unit := do
  let data ← readFile archivePath
  match m.codec.unzip data with
  | none => throw "open initial world archive"
  | some entries =>
    let seen ← extractWorldEntries workspacePath limit entries [] 0
    if seen = [] then throw "initial world archive is empty"

/-- `restoreInitialWorld`, the download: at most `left` attempts, with a fresh grant before each
pause. -/
def downloadInitialWorld (key : Bytes) (archivePath : Path) : Nat → Nat → Grant → M Bytes
  | 0, _, _ => throw "unreachable retry"
  | left + 1, n, grant => do
    let _ ← attempt (ask (.remove archivePath))
    describing "create staged initial world" (ask (.openExclusive archivePath))
    let result ← attempt do
      let body ← download grant key maxInitialWorldBytes
      ask (.write archivePath body)
      return body
    match result with
    | .ok body => return body
    | .error err =>
      let _ ← attempt (ask (.remove archivePath))
      if left = 0 then throw ("download initial world: " ++ err)
      let response ← describing "refresh initial world grant"
        (ask (.grants (.restore "initial-world" [key])))
      let grant ← check (oneGrant response key .get)
      ask (.sleep (2 ^ n * 100))
      downloadInitialWorld key archivePath left (n + 1) grant

def Manager.restoreInitialWorld (m : Manager) (command : Command) (workspacePath : Path) :
    M Unit := do
  match command.initialWorld with
  | none => return
  | some world =>
    check (validateInitialWorld world command)
    let key ← check (initialWorldKey command world)
    let response ← describing "request initial world grant"
      (ask (.grants (.restore "initial-world" [key])))
    let grant ← check (oneGrant response key .get)
    let staging := m.staging (command.serviceID ++ "-" ++ command.commandID ++ "-world")
    ask (.removeAll staging)
    deferred (ask (.removeAll staging)) do
      ask (.mkdirAll staging)
      let archivePath := staging ++ [lit "initial-world.zip"]
      let result ← downloadInitialWorld key archivePath transferAttempts 0 grant
      if (result.length : Int) ≠ world.sizeBytes || sha256 result ≠ lit world.sha256 then
        throw "initial world does not match selected descriptor"
      m.extractInitialWorld archivePath workspacePath (workspaceLimit command)

/-! ## A published revision -/

/-- The variables of the loop over the archives: the paths seen, the bytes extracted and the number
of archives so far. -/
structure Progress where
  seen : List Bytes := []
  extracted : Int := 0
  index : Nat := 0
  deriving DecidableEq, Repr

def Manager.restoreArchive (m : Manager) (command : Command) (manifest : WorkspaceManifest)
    (stagingBase : Path) (grants : List Grant) (s : Progress) (descriptor : WorkspaceBlob) :
    M Progress := do
  let archivePath := stagingBase ++ [lit "blobs", padded 3 s.index ++ lit ".tar.zst"]
  let body ← downloadArchiveWithRefresh descriptor archivePath (grantFor grants descriptor.key)
  if (body.length : Int) ≠ descriptor.compressedSize || sha256 body ≠ descriptor.sha256 then
    throw "workspace blob does not match its descriptor"
  let configOverlay := manifest.config.any fun config => descriptor.key = config.key
  let (extracted, seen) ← m.extractArchive archivePath (stagingBase ++ [lit "workspace"]) descriptor
    s.seen (workspaceLimit command) configOverlay
  if workspaceLimit command < s.extracted + extracted then
    throw "workspace exceeds configured extraction limit"
  return { seen, extracted := s.extracted + extracted, index := s.index + 1 }

/-- `Restore`, the archives of one batch. -/
def Manager.restoreArchives (m : Manager) (command : Command) (manifest : WorkspaceManifest)
    (stagingBase : Path) (grants : List Grant) : List WorkspaceBlob → Progress → M Progress
  | [], s => return s
  | descriptor :: rest, s => do
    let s ← m.restoreArchive command manifest stagingBase grants s descriptor
    m.restoreArchives command manifest stagingBase grants rest s

def Manager.restoreBatches (m : Manager) (command : Command) (manifest : WorkspaceManifest)
    (stagingBase : Path) : List (List WorkspaceBlob) → Progress → M Progress
  | [], s => return s
  | batch :: rest, s => do
    let keys := batch.map (·.key)
    let response ← describing "request blob grants" (ask (.grants (.restore "blobs" keys)))
    let grants ← check (grantsByKey response keys .get)
    let s ← m.restoreArchives command manifest stagingBase grants batch s
    m.restoreBatches command manifest stagingBase rest s

/-- `Restore`, the content a command selects takes the place of the manifest's; another content
drops the config layer. -/
def selectContent (manifest : WorkspaceManifest) (command : Command) :
    Except String WorkspaceManifest :=
  match command.runtimeContent with
  | none => .ok manifest
  | some content => do
    validateRuntimeContent content command
    let replacing := !manifest.content.any fun old => sameArchive old content
    let manifest := { manifest with
      content := some content, config := if replacing then none else manifest.config }
    let aggregate := aggregateDescriptors (manifestDescriptors manifest)
    return { manifest with
      logicalSize := logicalSize (manifestDescriptors manifest),
      aggregateSHA256 := aggregate, manifestHash := aggregate }

/-- `Restore`, the download and the checks of the manifest. -/
def fetchManifest (command : Command) : M WorkspaceManifest := do
  let key := manifestKey (lit command.workspace.objectPrefix) command.workspace.revision
  let response ← describing "request manifest grant" (ask (.grants (.restore "manifest" [])))
  let grant ← check (oneGrant response key .get)
  let bytes ← retried ("download manifest: " ++ ·)
    (fun _ => attempt (download grant key maxManifestBytes)) transferAttempts 0
  if command.workspace.sha256 ≠ "" && lit command.workspace.sha256 ≠ sha256 bytes then
    throw "workspace manifest does not match assigned hash"
  match unmarshal bytes with
  | none => throw "decode workspace v2 manifest"
  | some manifest =>
    check (validateManifest manifest command)
    check (selectContent manifest command)

/-- `Restore` of a published revision. -/
def Manager.restoreRevision (m : Manager) (command : Command) (workspacePath : Path) : M Unit := do
  let manifest ← fetchManifest command
  let descriptors := manifestDescriptors manifest
  let stagingBase := m.staging (command.serviceID ++ "-" ++ command.commandID)
  describing "clean restore staging directory" (ask (.removeAll stagingBase))
  deferred (ask (.removeAll stagingBase)) do
    describing "create restore staging directory" (ask (.mkdirAll (stagingBase ++ [lit "blobs"])))
    let s ← m.restoreBatches command manifest stagingBase
      (batches descriptors.length descriptors) {}
    if s.extracted ≠ manifest.logicalSize then
      throw "workspace archive logical size does not match manifest"
    activateStaging command (stagingBase ++ [lit "workspace"]) workspacePath
    ask (.remember (lit command.serviceID) manifest)
    m.persistRestored command.serviceID manifest
    describing "prepare active workspace ownership" (ask (.quota .prepare workspacePath))

/-- `Restore`: the path of the workspace it has put in place. -/
def Manager.restore (m : Manager) (command : Command) : M Path := do
  if command.workspace.revision < 0 then throw "workspace revision must be non-negative"
  if !validWorkspaceLimit command then
    throw "workspace quota is outside supported restore limits"
  let _ ← check (workspacePrefix command)
  let workspacePath ← check (m.path command.serviceID)
  if command.workspace.revision = 0 then
    match command.runtimeContent with
    | some content =>
      m.restoreInitialRuntimeContent command content workspacePath
      m.restoreInitialWorld command workspacePath
    | none =>
      m.activateEmptyWorkspace command workspacePath
      describing "apply workspace quota"
        (ask (.quota (.apply command.workspaceGiB) workspacePath))
      m.restoreInitialWorld command workspacePath
    describing "prepare active workspace ownership" (ask (.quota .prepare workspacePath))
  else m.restoreRevision command workspacePath
  return workspacePath

def Manager.release (m : Manager) (command : Command) : M Unit := do
  let p ← check (m.path command.serviceID)
  describing "remove released local workspace" (ask (.removeAll p))
  ask (.forget (lit command.serviceID))
  describing "remove released workspace manifest state" do
    match ← ask (.stat (m.restoredPath command.serviceID)) with
    | none => return
    | some _ => ask (.remove (m.restoredPath command.serviceID))

end SharedNode.Workspace
