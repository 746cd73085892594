import SharedNode.Workspace.Transfer

/-!
# Publishing a workspace

Model of `Manager.Sync` of `internal/workspace/workspace.go` with everything below it: the files of
the stopped workspace are collected and split into layers, each layer is archived, a layer that did
not change keeps its descriptor of the previous manifest, the manifest is put together and saved as
a draft, the archives are uploaded in batches of eight grants and the manifest is published last. A
later attempt of the same command goes on with the draft it finds.
-/

namespace SharedNode.Workspace

open Text ControlPlane Storage Effect

/-! ## Files -/

/-- `collectFiles`, the loop: the regular files in the order of the walk, and the latest time one of
them was changed. -/
def collectEntries (root : Path) : List (Path × Node) → List WorkspaceFile → Int →
    Except String (List WorkspaceFile × Int)
  | [], files, createdAt => .ok (files, createdAt)
  | (_, .symlink) :: _, _, _ => .error "workspace contains symlink"
  | (_, .special) :: _, _, _ => .error "workspace contains non-regular file"
  | (_, .dir) :: rest, files, createdAt => collectEntries root rest files createdAt
  | (r, .file bytes modTime) :: rest, files, createdAt =>
    let path := [slash].intercalate r
    if maxWorkspaceBytes < bytes.length then .error "workspace file exceeds configured maximum"
    else if !validWorkspacePath path then .error "workspace contains invalid path"
    else collectEntries root rest (files ++ [⟨path, root ++ r, bytes.length⟩])
      (if createdAt < modTime then modTime else createdAt)

def collectFiles (root : Path) : M (List WorkspaceFile × Int) :=
  describing "walk workspace" do
    let entries ← ask (.walk root)
    let (files, createdAt) ← check (collectEntries root entries [] 0)
    return (sortFiles files, createdAt)

/-! ## Archives -/

/-- `hashFile`: the size and the digest of a file. -/
def hashFile (p : Path) (limit : Int) : M (Int × Bytes) := do
  let bytes ← readFile p
  if limit < bytes.length then throw "file exceeds configured limit"
  return (bytes.length, sha256 bytes)

/-- `buildArchive`, the loop: the names and bytes that are archived. -/
def readSources : List WorkspaceFile → M (List (Bytes × Bytes))
  | [] => return []
  | source :: rest => do
    if !validWorkspacePath source.path || source.size < 0 || maxWorkspaceBytes < source.size then
      throw "invalid workspace archive path or file size"
    let bytes ← readFile source.full
    if (bytes.length : Int) ≠ source.size then throw "workspace file changed while being archived"
    let others ← readSources rest
    return (source.path, bytes) :: others

/-- `buildArchive`; the key of the descriptor is set by the caller. -/
def Manager.buildArchive (m : Manager) (p : Path) (files : List WorkspaceFile) : M Archive := do
  ask (.openExclusive p)
  let sources ← readSources files
  ask (.write p (m.codec.encode sources))
  let (size, sum) ← hashFile p maxBlobBytes
  return { path := pathText p
           descriptor := { sha256 := sum, compressedSize := size,
                           logicalSize := (files.map (·.size)).sum, paths := files.map (·.path) } }

/-- The archive under a key, or with the first of the previous descriptors that is the same
archive. -/
def reuse (previous : List WorkspaceBlob) (key : Bytes) (value : Archive) : Archive :=
  { value with
    descriptor := (previous.find? fun old => sameArchive old value.descriptor).getD
      { value.descriptor with key } }

/-! ## The manifest -/

/-- `buildManifest`, the content a sync takes over: the command's, or compiler content of the
previous manifest. -/
def selectedContent (command : Command) (previous : WorkspaceManifest) : Option WorkspaceBlob :=
  command.runtimeContent <|> previous.content.filter isCompilerContent

/-- `buildManifest`, the content layer. -/
def Manager.buildContent (m : Manager) (stagingBase : Path) (start : Bytes) (command : Command)
    (previous : WorkspaceManifest) (files : List WorkspaceFile) : M Archive := do
  match selectedContent command previous with
  | some content => return { descriptor := content }
  | none =>
    let value ← m.buildArchive (stagingBase ++ [lit "content.tar.zst"]) files
    return reuse previous.content.toList (contentKey start value.descriptor.sha256) value

/-- `buildManifest`, the config layer. -/
def Manager.buildConfig (m : Manager) (stagingBase : Path) (start : Bytes) (revision : Int)
    (previous : WorkspaceManifest) (files : List WorkspaceFile) : M (Option Archive) := do
  if files.isEmpty then return none
  let value ← m.buildArchive (stagingBase ++ [lit "config.tar.zst"]) files
  return some (reuse previous.config.toList (configKey start revision) value)

/-- `buildManifest`, the world layers. -/
def Manager.buildWorld (m : Manager) (stagingBase : Path) (start : Bytes) (revision : Int)
    (previous : WorkspaceManifest) : List (List WorkspaceFile) → Nat → M (List Archive)
  | [], _ => return []
  | group :: rest, index => do
    let value ← m.buildArchive
      (stagingBase ++ [lit "world-" ++ padded 3 index ++ lit ".tar.zst"]) group
    let others ← m.buildWorld stagingBase start revision previous rest (index + 1)
    return reuse previous.world (worldKey start revision index) value :: others

/-- `buildManifest`, the manifest of the archives. The layers of the world are told by their key. -/
def assemble (command : Command) (revision createdAt : Int) (content : WorkspaceBlob)
    (config : Option WorkspaceBlob) (world : List WorkspaceBlob) : WorkspaceManifest :=
  let all := content :: (config.toList ++ world)
  let manifest : WorkspaceManifest :=
    { schemaVersion := 2, serviceID := lit command.serviceID,
      assignmentID := lit command.assignmentID, revision,
      createdAt := formatTime createdAt.toNat, content := some content, config,
      world := all.filter fun blob => contains blob.key (lit "/world/"),
      logicalSize := int64 (logicalSize all) }
  let aggregate := aggregateDescriptors (manifestDescriptors manifest)
  { manifest with aggregateSHA256 := aggregate, manifestHash := aggregate }

def Manager.buildManifest (m : Manager) (stagingBase : Path) (start : Bytes) (command : Command)
    (revision : Int) (files : List WorkspaceFile) (createdAt : Int)
    (previous : WorkspaceManifest) : M (WorkspaceManifest × List Archive) := do
  let layers := classify files
  let content ← m.buildContent stagingBase start command previous layers.content
  let config ← m.buildConfig stagingBase start revision previous layers.config
  let world ← m.buildWorld stagingBase start revision previous layers.world 0
  return (assemble command revision createdAt content.descriptor (config.map (·.descriptor))
      (world.map (·.descriptor)), content :: (config.toList ++ world))

/-- The command with another revision to check a manifest against. -/
def atRevision (command : Command) (revision : Int) : Command :=
  { command with workspace := { command.workspace with revision } }

/-- `previousManifest`; the empty manifest if there is none. -/
def Manager.previousManifest (m : Manager) (command : Command) : M WorkspaceManifest := do
  match ← ask (.recall (lit command.serviceID)) with
  | some manifest => return manifest
  | none =>
    match ← describing "read restored workspace manifest state"
        (ask (.read (m.restoredPath command.serviceID))) with
    | none => return {}
    | some data =>
      match unmarshal data with
      | none => throw "decode restored workspace manifest state"
      | some manifest =>
        describing "validate restored workspace manifest state"
          (check (validateRestoredManifest manifest (atRevision command manifest.revision)))
        ask (.remember (lit command.serviceID) manifest)
        return manifest

/-! ## Drafts -/

/-- `loadSyncDescriptor`, the checks that need no file. -/
def validateDraft (draft : SyncDescriptor) (command : Command) (revision : Int) :
    Except String Unit := do
  if draft.commandID ≠ lit command.commandID || draft.assignmentID ≠ lit command.assignmentID ||
      draft.revision ≠ revision || draft.manifest.serviceID ≠ lit command.serviceID ||
      draft.manifest.assignmentID ≠ lit command.assignmentID ||
      draft.manifest.revision ≠ revision || !validDigest draft.manifestSHA then
    throw "sync descriptor does not match active command"
  match validateManifest draft.manifest (atRevision command revision) with
  | .error err => throw ("validate sync descriptor manifest: " ++ err)
  | .ok () => pure ()
  if sha256 (marshal draft.manifest) ≠ draft.manifestSHA then
    throw "sync descriptor manifest hash is invalid"
  let keys := (manifestDescriptors draft.manifest).map (·.key)
  if draft.archives.length ≠ keys.dedup.length then
    throw "sync descriptor archive mapping is invalid"

/-- `loadSyncDescriptor`, the loop over the archives. -/
def verifyArchives (expected : List WorkspaceBlob) : List Archive → M Unit
  | [] => return
  | stored :: rest => do
    match expected.reverse.find? fun blob => blob.key = stored.descriptor.key with
    | none => throw "sync descriptor archive does not match manifest"
    | some blob =>
      if !sameArchive blob stored.descriptor then
        throw "sync descriptor archive does not match manifest"
      if stored.path ≠ [] then
        match ← attempt (hashFile (pathOf stored.path) maxBlobBytes) with
        | .error _ => throw "sync descriptor archive is missing or changed"
        | .ok (size, sum) =>
          if size ≠ blob.compressedSize || sum ≠ blob.sha256 then
            throw "sync descriptor archive is missing or changed"
      verifyArchives expected rest

def loadSyncDescriptor (stagingBase : Path) (command : Command) (revision : Int) :
    M (Option SyncDescriptor) := do
  match ← describing "read sync descriptor" (ask (.read (stagingBase ++ [lit "sync.json"]))) with
  | none => return none
  | some data =>
    match unmarshalDraft data with
    | none => throw "decode sync descriptor"
    | some draft =>
      check (validateDraft draft command revision)
      verifyArchives (manifestDescriptors draft.manifest) draft.archives
      return some draft

def Manager.newDraft (m : Manager) (stagingBase workspacePath : Path) (start : Bytes)
    (command : Command) (revision : Int) : M SyncDescriptor := do
  describing "clean sync staging" (ask (.removeAll stagingBase))
  describing "create sync staging" (ask (.mkdirAll stagingBase))
  let (files, createdAt) ← collectFiles workspacePath
  let previous ← m.previousManifest command
  let (manifest, archives) ←
    m.buildManifest stagingBase start command revision files createdAt previous
  let draft : SyncDescriptor :=
    { commandID := lit command.commandID, assignmentID := lit command.assignmentID, revision,
      manifest, manifestSHA := sha256 (marshal manifest), archives }
  describing "persist sync descriptor"
    (saveJSON (stagingBase ++ [lit "sync.json"]) (marshalDraft draft))
  return draft

/-! ## Publication -/

/-- `Sync`, the archives of one batch; one without a grant is already published. -/
def uploadArchives (manifest : WorkspaceManifest) (manifestSHA : Bytes) (grants : List Grant) :
    List Archive → M Unit
  | [] => return
  | archive :: rest => do
    match grants.find? fun grant => grant.key = archive.descriptor.key with
    | none => pure ()
    | some grant => uploadArchiveWithRefresh manifest manifestSHA archive grant
    uploadArchives manifest manifestSHA grants rest

/-- `Sync`, the batches. -/
def uploadBatches (manifest : WorkspaceManifest) (manifestSHA : Bytes) :
    List (List Archive) → M Unit
  | [] => return
  | batch :: rest => do
    let keys := batch.map (·.descriptor.key)
    let response ← describing "request sync grants"
      (ask (.grants (.sync manifest manifestSHA keys)))
    let grants ← check (grantsByKeySubset keys .put response [])
    uploadArchives manifest manifestSHA grants batch
    uploadBatches manifest manifestSHA rest

def Manager.publish (m : Manager) (stagingBase : Path) (command : Command) (revision : Int)
    (draft : SyncDescriptor) : M Unit := do
  let manifestBytes := marshal draft.manifest
  if sha256 manifestBytes ≠ draft.manifestSHA then
    throw "persisted sync manifest hash does not match draft"
  let uploads := draft.archives.filter fun archive => archive.path ≠ []
  uploadBatches draft.manifest draft.manifestSHA (batches uploads.length uploads)
  let response ← describing "request manifest publish grant"
    (ask (.grants (.publish draft.manifest draft.manifestSHA)))
  let grant ← check (oneGrant response
    (manifestKey (lit command.workspace.objectPrefix) revision) .put)
  describing "publish workspace manifest"
    (uploadBytes grant grant.key manifestBytes draft.manifestSHA)
  ask (.remember (lit command.serviceID) draft.manifest)
  m.persistRestored command.serviceID draft.manifest
  describing "remove completed sync staging" (ask (.removeAll stagingBase))

def asciiText (s : Bytes) : String := String.ofList (s.map fun b => Char.ofNat b.toNat)

/-- `Sync`, up to the draft: the one that was saved, or a new one. -/
def Manager.syncDraft (m : Manager) (command : Command) : M SyncDescriptor := do
  if command.kind ≠ .stopAndSync then throw "workspace sync requires stop-and-sync command"
  if !validWorkspaceLimit command then throw "workspace quota is outside supported sync limits"
  let start ← check (workspacePrefix command)
  let workspacePath ← check (m.path command.serviceID)
  match ← describing "inspect workspace" (ask (.stat workspacePath)) with
  | none =>
    describing "create empty workspace" (ask (.mkdirAll workspacePath))
    describing "prepare empty workspace ownership" (ask (.quota .prepare workspacePath))
  | some _ => pure ()
  describing "seal stopped workspace ownership" (ask (.quota .seal workspacePath))
  let revision := int64 (command.workspace.revision + 1)
  let stagingBase := m.staging (command.serviceID ++ "-" ++ command.commandID ++ "-sync")
  match ← loadSyncDescriptor stagingBase command revision with
  | some draft => return draft
  | none => m.newDraft stagingBase workspacePath start command revision

/-- `Sync`, once there is a draft. -/
def Manager.syncFrom (m : Manager) (command : Command) (draft : SyncDescriptor) : M SyncResult := do
  let revision := int64 (command.workspace.revision + 1)
  m.publish (m.staging (command.serviceID ++ "-" ++ command.commandID ++ "-sync")) command revision
    draft
  return { serviceID := command.serviceID, assignmentID := command.assignmentID, revision,
           sizeBytes := draft.manifest.logicalSize, manifestSHA := asciiText draft.manifestSHA }

/-- `Sync`: the result names the revision it has published. -/
def Manager.sync (m : Manager) (command : Command) : M SyncResult := do
  let draft ← m.syncDraft command
  m.syncFrom command draft

end SharedNode.Workspace
