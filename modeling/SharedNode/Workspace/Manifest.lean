import SharedNode.ControlPlane.Types
import SharedNode.Text.Path
import SharedNode.Text.Sha256

/-!
# Workspace manifests

Model of the pure part of `internal/workspace/workspace.go`: the limits, the names of objects and
files, the descriptor of an archive and the checks a manifest has to pass before anything it names
is downloaded. Sizes are `Int`, as they come out of JSON; `int64` is the wrap-around of a sum where
the code adds without a bound.

* `validWorkspacePath`, `isWorldPath`, `isConfigPath`, `isContentPath`: the names of files.
* `workspacePrefix`, `manifestKey`, `revisionLayerKey`, `worldLayerKey`: the names of objects.
* `aggregateDescriptors`: the digest that binds the descriptors of a manifest.
* `validateRuntimeContent`, `validateManifest`: the checks, with the error each of them returns.
-/

namespace SharedNode.Workspace

open Text ControlPlane

/-! ## Limits -/

def maxManifestBytes : Nat := 2 ^ 20

def maxWorkspaceBytes : Int := 64 * 2 ^ 30

def maxBlobBytes : Int := 4 * 2 ^ 30

def maxArchiveEntries : Nat := 100000

def worldTargetBytes : Int := 192 * 2 ^ 20

def maxDescriptors : Nat := 130

/-- The 64-bit integer a sum wraps around to. -/
def int64 (n : Int) : Int := n.bmod (2 ^ 64)

theorem int64_eq {n : Int} (h₀ : 0 ≤ n) (h : n < 2 ^ 63) : int64 n = n := by
  unfold int64
  rw [Int.bmod_eq_of_le] <;> omega

def workspaceLimit (command : Command) : Int := command.workspaceGiB * 1024 * 1024 * 1024

def validWorkspaceLimit (command : Command) : Bool :=
  1 ≤ command.workspaceGiB && command.workspaceGiB ≤ maxWorkspaceBytes / (1024 * 1024 * 1024)

/-! ## Strings -/

/-- `strings.HasPrefix`. -/
def hasPrefix (s start : Bytes) : Bool := start.isPrefixOf s

/-- `strings.HasSuffix`. -/
def hasSuffix (s ending : Bytes) : Bool := ending.isSuffixOf s

/-- `strings.Contains`. -/
def contains (s part : Bytes) : Bool := part <:+: s

/-- `strings.TrimPrefix`. -/
def trimStart (s start : Bytes) : Bytes := if hasPrefix s start then s.drop start.length else s

/-- `strings.TrimSuffix`. -/
def trimEnd (s ending : Bytes) : Bytes :=
  if hasSuffix s ending then s.take (s.length - ending.length) else s

def isLetterByte (b : UInt8) : Bool := (0x61 ≤ b && b ≤ 0x7a) || (0x41 ≤ b && b ≤ 0x5a)

def validIdentifier (value : Bytes) : Bool :=
  value ≠ [] && value.length ≤ 128 &&
    value.all fun b => isLetterByte b || isDigit b || b == 0x5f || b == 0x2d

/-- `validSHA256`: 64 hexadecimal digits, none of them a capital letter. -/
def validDigest (value : Bytes) : Bool :=
  validSHA256 value && value.all fun b => !(0x41 ≤ b && b ≤ 0x5a)

theorem validDigest_sha256 (m : Bytes) : validDigest (sha256 m) := by
  rw [validDigest, validSHA256_sha256, sha256_all (by decide)]
  rfl

/-! ## Files -/

def validWorkspacePath (value : Bytes) : Bool :=
  value ≠ [] && value.length ≤ 1024 && !hasPrefix value (lit "/") && !value.contains 0x5c &&
    (components value).all fun part => part ≠ [] && part ≠ dot && part ≠ dotdot

def isUnder (path dir : Bytes) : Bool := path = dir || hasPrefix path (dir ++ lit "/")

def isWorldPath (path : Bytes) : Bool :=
  isUnder path (lit "world") || isUnder path (lit "world_nether") ||
    isUnder path (lit "world_the_end")

def isConfigPath (path : Bytes) : Bool :=
  isUnder path (lit "config") || isUnder path (lit "defaultconfigs")

def isRuntimeContentPath (path : Bytes) : Bool := !isWorldPath path

def isContentPath (path : Bytes) : Bool := !isWorldPath path && !isConfigPath path

/-! ## Objects -/

/-- `workspacePrefix`: the prefix of the service's objects. -/
def workspacePrefix (command : Command) : Except String Bytes :=
  let start := trimEnd (lit command.workspace.objectPrefix) (lit "/")
  let expected := lit "shared-hosting/" ++ lit command.accountID ++ lit "/" ++ lit command.serviceID
  if start ≠ expected || command.accountID = "" || command.serviceID = "" then
    .error "workspace prefix is not the assigned service prefix"
  else .ok start

def manifestKey (start : Bytes) (revision : Int) : Bytes :=
  trimEnd start (lit "/") ++ lit "/revisions/" ++ formatInt revision ++ lit "/manifest.json"

def contentKey (start sha256 : Bytes) : Bytes :=
  start ++ lit "/content/" ++ sha256 ++ lit ".tar.zst"

def configKey (start : Bytes) (revision : Int) : Bytes :=
  start ++ lit "/revisions/" ++ formatInt revision ++ lit "/config.tar.zst"

def worldKey (start : Bytes) (revision : Int) (index : Nat) : Bytes :=
  start ++ lit "/revisions/" ++ formatInt revision ++ lit "/world/world-" ++ padded 3 index ++
    lit ".tar.zst"

def revisionLayerKey (start key name : Bytes) : Bool :=
  hasPrefix key (start ++ lit "/revisions/") &&
    match components (trimStart key (start ++ lit "/revisions/")) with
    | [revision, file] => revision ≠ [] && revision.all isDigit && file = name
    | _ => false

def worldLayerKey (start key : Bytes) : Bool :=
  hasPrefix key (start ++ lit "/revisions/") &&
    match components (trimStart key (start ++ lit "/revisions/")) with
    | [revision, dir, file] =>
      let shard := trimEnd file (lit ".tar.zst")
      revision ≠ [] && revision.all isDigit && dir = lit "world" &&
        hasSuffix file (lit ".tar.zst") && shard ≠ [] && shard.length ≤ 128 &&
        shard.all fun b =>
          isLetterByte b || isDigit b || b == 0x2e || b == 0x5f || b == 0x2d
    | _ => false

/-! ## Descriptors -/

def validDescriptor (value : WorkspaceBlob) : Bool :=
  value.key ≠ [] && validDigest value.sha256 &&
    0 < value.compressedSize && value.compressedSize ≤ maxBlobBytes &&
    0 ≤ value.logicalSize && value.logicalSize ≤ maxWorkspaceBytes &&
    value.paths.length ≤ maxArchiveEntries

def sameArchive (left right : WorkspaceBlob) : Bool :=
  left.sha256 = right.sha256 && left.compressedSize = right.compressedSize &&
    left.logicalSize = right.logicalSize &&
    [0].intercalate left.paths = [0].intercalate right.paths

def isCompilerContent (content : WorkspaceBlob) : Bool :=
  contains content.key (lit "/compiler-content/") && hasSuffix content.key (lit ".tar.zst")

/-- The descriptors of a manifest in the order of its layers. -/
def manifestDescriptors (manifest : WorkspaceManifest) : List WorkspaceBlob :=
  manifest.content.toList ++ manifest.config.toList ++ manifest.world

/-- What is hashed of a descriptor. -/
def aggregateEntry (descriptor : WorkspaceBlob) : Bytes :=
  descriptor.key ++ [0] ++ descriptor.sha256 ++ [0] ++ formatInt descriptor.compressedSize ++
    lit ":" ++ formatInt descriptor.logicalSize ++ [0] ++
    (descriptor.paths.flatMap fun path => path ++ [0]) ++ lit "\n"

def aggregateDescriptors (descriptors : List WorkspaceBlob) : Bytes :=
  sha256 (descriptors.flatMap aggregateEntry)

def logicalSize (descriptors : List WorkspaceBlob) : Int := (descriptors.map (·.logicalSize)).sum

def compressedSize (descriptors : List WorkspaceBlob) : Int :=
  (descriptors.map (·.compressedSize)).sum

/-! ## Checks -/

def validateRuntimeContent (content : WorkspaceBlob) (command : Command) : Except String Unit := do
  let start ← workspacePrefix command
  if !validDescriptor content || !hasPrefix content.key (start ++ lit "/compiler-content/") ||
      !hasSuffix content.key (lit ".tar.zst") || !content.paths.all isRuntimeContentPath ||
      !content.paths.contains (lit ".xmcl/runtime.json") ||
      !content.paths.contains (lit ".xmcl/launch.sh") then
    throw "command runtime content is not a valid compiler-owned content layer"

/-- A path of the config layer may be one of the content layer as well. -/
def overlays (manifest : WorkspaceManifest) (descriptor : WorkspaceBlob) (path : Bytes) : Bool :=
  manifest.config.any (fun config => descriptor.key = config.key) && isConfigPath path &&
    manifest.content.any fun content => content.paths.contains path

/-- `validateManifest`, the loop over the paths of one descriptor: `own` are its paths so far,
`paths` all of them. -/
def validatePaths (manifest : WorkspaceManifest) (descriptor : WorkspaceBlob) :
    List Bytes → List Bytes → List Bytes → Except String (List Bytes)
  | [], _, paths => .ok paths
  | path :: rest, own, paths =>
    if !validWorkspacePath path then .error "workspace manifest has an unsafe local path"
    else if own.contains path then .error "workspace manifest has duplicate local path"
    else if paths.contains path && !overlays manifest descriptor path then
      .error "workspace manifest has duplicate local path"
    else validatePaths manifest descriptor rest (path :: own) (paths.insert path)

/-- `validateManifest`, the loop over the descriptors: `keys` and `paths` are those seen so far. The
result are all paths. -/
def validateDescriptors (manifest : WorkspaceManifest) :
    List WorkspaceBlob → List Bytes → List Bytes → Except String (List Bytes)
  | [], _, paths => .ok paths
  | descriptor :: rest, keys, paths =>
    if !validDescriptor descriptor then .error "workspace manifest has an invalid blob descriptor"
    else if keys.contains descriptor.key then .error "workspace manifest has duplicate blob key"
    else do
      let paths ← validatePaths manifest descriptor descriptor.paths [] paths
      validateDescriptors manifest rest (descriptor.key :: keys) paths

/-- `validateManifest`, the content layer: a customer's own, or one of the compiler's. -/
def validContentLayer (content : WorkspaceBlob) (command : Command) (start : Bytes) : Bool :=
  if content.key = contentKey start content.sha256 then content.paths.all isContentPath
  else (validateRuntimeContent content command).toBool

/-- `validateManifest`, the checks of the layers. -/
def validateLayers (manifest : WorkspaceManifest) (content : WorkspaceBlob) (command : Command)
    (start : Bytes) : Except String Unit := do
  if !validContentLayer content command start then
    throw "workspace manifest content layer is invalid"
  if manifest.config.any fun config =>
      !revisionLayerKey start config.key (lit "config.tar.zst") ||
        !config.paths.all isConfigPath then
    throw "workspace manifest config layer is invalid"
  if manifest.world.any fun descriptor =>
      !worldLayerKey start descriptor.key || !descriptor.paths.all isWorldPath then
    throw "workspace manifest world layer is invalid"

def validateManifest (manifest : WorkspaceManifest) (command : Command) : Except String Unit :=
  match manifest.content with
  | none => .error "workspace v2 manifest does not match assigned service or revision"
  | some content => do
    if manifest.schemaVersion ≠ 2 || manifest.serviceID ≠ lit command.serviceID ||
        manifest.revision ≠ command.workspace.revision || manifest.assignmentID = [] ||
        !validDigest manifest.manifestHash || !validDigest manifest.aggregateSHA256 ||
        manifest.manifestHash ≠ manifest.aggregateSHA256 ||
        manifest.logicalSize < 0 || workspaceLimit command < manifest.logicalSize then
      throw "workspace v2 manifest does not match assigned service or revision"
    let start ← workspacePrefix command
    let descriptors := manifestDescriptors manifest
    if maxDescriptors < descriptors.length ||
        aggregateDescriptors descriptors ≠ manifest.aggregateSHA256 then
      throw "workspace manifest blob descriptor aggregate is invalid"
    let paths ← validateDescriptors manifest descriptors [] []
    if logicalSize descriptors ≠ manifest.logicalSize ||
        maxWorkspaceBytes < compressedSize descriptors || maxArchiveEntries < paths.length then
      throw "workspace manifest logical size is invalid"
    validateLayers manifest content command start

/-- `validateRestoredManifest`: the first restore of compiler content stores a manifest that is
valid for its command only. -/
def validateRestoredManifest (manifest : WorkspaceManifest) (command : Command) :
    Except String Unit :=
  if (validateManifest manifest command).toBool then .ok ()
  else
    match manifest.content with
    | none => .error "restored workspace manifest is invalid"
    | some content =>
      if manifest.schemaVersion ≠ 2 || manifest.serviceID ≠ lit command.serviceID ||
          manifest.revision < 0 || manifest.assignmentID = [] || !isCompilerContent content ||
          manifest.config.isSome || manifest.world ≠ [] ||
          manifest.logicalSize ≠ content.logicalSize ||
          manifest.aggregateSHA256 ≠ aggregateDescriptors (manifestDescriptors manifest) ||
          manifest.manifestHash ≠ manifest.aggregateSHA256 then
        .error "restored workspace manifest is invalid"
      else validateRuntimeContent content command

end SharedNode.Workspace
