import SharedNode.Compiler.Packaging

/-!
# Server bundles

Model of `validateBundle` (`compiler/src/bundle.mjs`): what the compiler requires of a launcher's
bundle before the builder sees it. The zip container and the JSON documents in it are given as what
they decode to; a check of a value's type or of an object's exact keys is the type itself.

A path of a bundle has to be safe and in one of the allowed directories, and the paths have to be in
order. That no path is a directory of another one is not asked.

`Compiler.Documents` models the same function on bytes; no theorem connects the two.
-/

namespace SharedNode.Compiler

open Text

/-! ## Documents -/

structure BundleFile where
  path : JsString
  sha256 : Bytes
  sizeBytes : Int
  deriving DecidableEq

/-- The document `bundle.json`. -/
structure BundleManifest where
  instanceName : JsString
  compatibility : Compatibility
  files : List BundleFile
  deriving DecidableEq

/-- What `artifactIntent` says of a path. -/
inductive Intent where
  | mod
  | config
  | kubejs
  | script
  | datapack
  | globalPack
  | openloader
  | paxi
  | resourcepack
  | data
  deriving DecidableEq

/-- An entry of `resolved/artifacts.json`. -/
structure ResolvedArtifact where
  file : BundleFile
  intent : Intent
  deriving DecidableEq

inductive Provider where
  | modrinth
  | curseforge
  deriving DecidableEq

/-- The source of a remote mod: of a `modrinth` file, `fileId` is the version. -/
structure ModSource where
  provider : Provider
  projectId : Bytes
  fileId : Bytes
  deriving DecidableEq

/-- An entry of `resolved/mods.json`; a remote mod has a file name and a source. -/
structure ModDeclaration where
  file : BundleFile
  remote : Option (JsString × ModSource)
  deriving DecidableEq

/-- A mod of the frozen manifest. `host` is what the checks of its download URL say. -/
structure RemoteMod where
  filename : JsString
  source : ModSource
  sha256 : Bytes
  sizeBytes : Int
  host : Bool := true
  deriving DecidableEq

/-- An archive and the documents in it. `loader` and `version` are what the two resolved documents
say of the compatibility. -/
structure RawBundle where
  byteLength : Nat
  entries : List (JsString × Bytes)
  manifest : BundleManifest
  loader : Compatibility
  version : Compatibility
  artifacts : List ResolvedArtifact
  mods : List ModDeclaration

/-- What `validateBundle` returns. -/
structure Bundle where
  manifest : BundleManifest
  entries : List (JsString × Bytes)
  deriving DecidableEq

/-- `entries.get`. -/
def Bundle.get (bundle : Bundle) (path : JsString) : Option Bytes :=
  (bundle.entries.find? fun entry => entry.1 = path).map Prod.snd

/-! ## Texts -/

/-- A number without a leading zero and with a number of digits in the range. -/
def isNumeral (least most : Nat) (s : Bytes) : Bool :=
  s.all isDigit && least ≤ s.length && s.length ≤ most && s.head? ≠ some 0x30

/-- The expression `0|[1-9]\d{0,2}`. -/
def isVersionPart (s : Bytes) : Bool := s = lit "0" || isNumeral 1 3 s

def validMinecraftVersion (value : Bytes) : Bool :=
  match value.splitOn 0x2e with
  | [major, minor] => isNumeral 2 4 major && isVersionPart minor
  | [major, minor, patch] =>
    (major = lit "1" || isNumeral 2 4 major) && isVersionPart minor && isVersionPart patch
  | _ => false

def isAlnumByte (b : UInt8) : Bool :=
  isDigit b || (0x41 ≤ b && b ≤ 0x5a) || (0x61 ≤ b && b ≤ 0x7a)

/-- A text of at most 128 bytes that starts with a letter or a digit and goes on with those and
`extra`. -/
def isToken (extra : List UInt8) (value : Bytes) : Bool :=
  value.length ≤ 128 && value.head?.any isAlnumByte &&
    value.all fun b => isAlnumByte b || extra.contains b

def validLoaderVersion (value : Bytes) : Bool := isToken (lit "._+-") value

def loaderKinds : List Bytes := [lit "forge", lit "fabric", lit "neoforge", lit "quilt"]

/-- A hexadecimal text in lower case. -/
def lowerHex (value : Bytes) : Bytes :=
  value.map fun b => if 0x41 ≤ b && b ≤ 0x5a then b + 0x20 else b

/-! ## Checks -/

def safeZipPath (path : JsString) : Bool :=
  0 < path.length && path.length ≤ 1024 && !path.contains 0x5c && !startsWith path (js "/") &&
    !hasDrive path &&
    (splitSlash path).all fun part => part ≠ [] && part ≠ js "." && part ≠ js ".."

def resolvedFiles : List String :=
  ["resolved/version.json", "resolved/loader.json", "resolved/artifacts.json", "resolved/mods.json"]

/-- The single files and the directories of `allowedPath`. -/
def instanceFiles : List String :=
  ["instance/server.properties", "instance/pack.toml", "instance/pack.mcmeta",
    "instance/server-icon.png"]

def instanceDirs : List String :=
  ["instance/mods/", "instance/config/", "instance/defaultconfigs/", "instance/kubejs/",
    "instance/scripts/", "instance/datapacks/", "instance/global_packs/", "instance/openloader/",
    "instance/paxi/", "instance/resourcepacks/"]

/-- The expression `(?:^|\/)(?:server|start)\.(?:sh|bat|cmd)$` without regard to case. -/
def isStartScript (path : JsString) : Bool :=
  (splitSlash (path.map foldUnit)).getLast?.any fun part =>
    ["server.sh", "server.bat", "server.cmd", "start.sh", "start.bat", "start.cmd"].any
      fun name => part = js name

def allowedPath (path : JsString) : Bool :=
  safeZipPath path && !isStartScript path &&
    ((resolvedFiles ++ instanceFiles).any (fun name => path = js name) ||
      instanceDirs.any fun dir => startsWith path (js dir))

def artifactIntent (path : JsString) : Intent :=
  if startsWith path (js "instance/mods/") then .mod
  else if startsWith path (js "instance/config/") ||
      startsWith path (js "instance/defaultconfigs/") then .config
  else if startsWith path (js "instance/kubejs/") then .kubejs
  else if startsWith path (js "instance/scripts/") then .script
  else if startsWith path (js "instance/datapacks/") then .datapack
  else if startsWith path (js "instance/global_packs/") then .globalPack
  else if startsWith path (js "instance/openloader/") then .openloader
  else if startsWith path (js "instance/paxi/") then .paxi
  else if startsWith path (js "instance/resourcepacks/") then .resourcepack
  else .data

def safeModFilename (toLowerCase : JsString → JsString) (value : JsString) : Bool :=
  0 < value.length && value.length ≤ 255 && !value.contains 0x2f && !value.contains 0x5c &&
    !value.contains 0 && endsWith (toLowerCase value) (js ".jar")

def maxBundleEntries : Nat := 4096

def maxEntryBytes : Nat := 64 * 1024 * 1024

/-- `readZip`, the limits of the entries. -/
def validZip (entries : List (JsString × Bytes)) : Bool :=
  entries.length ≤ maxBundleEntries && entries.all (fun entry => safeZipPath entry.1) &&
    decide (entries.map Prod.fst).Nodup &&
    entries.all (fun entry => entry.2.length ≤ maxEntryBytes) &&
    ((entries.map fun entry => entry.2.length).sum : Int) ≤ maxPackageInputBytes

/-- `parseManifest`, the loop over the files. -/
def parseFiles : List BundleFile → JsString → Option (List BundleFile)
  | [], _ => some []
  | file :: rest, previous =>
    if !allowedPath file.path || !validSHA256 file.sha256 || !isSafeInteger file.sizeBytes ||
        file.sizeBytes < 0 || !previous.isEmpty && !(previous < file.path) then none
    else (parseFiles rest file.path).map ({ file with sha256 := lowerHex file.sha256 } :: ·)

def parseManifest (value : BundleManifest) : Except Failure BundleManifest :=
  let compatibility := value.compatibility
  if value.instanceName.isEmpty || !validMinecraftVersion compatibility.minecraftVersion ||
      !loaderKinds.contains compatibility.loader ||
      !validLoaderVersion compatibility.loaderVersion ||
      !isSafeInteger compatibility.javaMajor ||
      !validSHA256 compatibility.runtimeCatalogSha256 then
    .error { code := "invalid_bundle_manifest" }
  else
    match parseFiles value.files [] with
    | none => .error { code := "invalid_bundle_manifest" }
    | some files =>
      .ok { value with
        files
        compatibility := { compatibility with
          runtimeCatalogSha256 := lowerHex compatibility.runtimeCatalogSha256 } }

/-- `verifyCompatibility`; a frozen manifest without a Java version has an empty component. -/
def verifyCompatibility (bundle frozen : Compatibility) : Bool :=
  bundle.minecraftVersion = frozen.minecraftVersion && bundle.loader = frozen.loader &&
    bundle.loaderVersion = frozen.loaderVersion &&
    bundle.runtimeCatalogSha256 = frozen.runtimeCatalogSha256 &&
    (frozen.javaComponent.isEmpty ||
      bundle.javaComponent = frozen.javaComponent && bundle.javaMajor = frozen.javaMajor)

/-- `validateFrozenRemoteMod`. -/
def validFrozenMod (toLowerCase : JsString → JsString) (mod : RemoteMod) : Bool :=
  mod.source.projectId ≠ [] && mod.source.fileId ≠ [] && safeModFilename toLowerCase mod.filename &&
    validSHA256 mod.sha256 && isSafeInteger mod.sizeBytes && 1 ≤ mod.sizeBytes

def validArtifactMetadata (artifacts : List ResolvedArtifact) (manifest : BundleManifest) : Bool :=
  (manifest.files.filter fun file => startsWith file.path (js "instance/")).map
    (fun file => ⟨file, artifactIntent file.path⟩) = artifacts

/-- The place of a remote mod in the instance. -/
def modPath (filename : JsString) : JsString := js "instance/mods/" ++ filename

/-- `verifyResolvedMods`, the check of a declaration. -/
def validDeclaration (toLowerCase : JsString → JsString) (localMods : List BundleFile)
    (mods : List RemoteMod) (declaration : ModDeclaration) : Bool :=
  validSHA256 declaration.file.sha256 && isSafeInteger declaration.file.sizeBytes &&
    1 ≤ declaration.file.sizeBytes &&
    match declaration.remote with
    | none =>
      localMods.any fun file => file.path = declaration.file.path &&
        file.sha256 = lowerHex declaration.file.sha256 &&
        file.sizeBytes = declaration.file.sizeBytes
    | some (filename, source) =>
      declaration.file.path = modPath filename && safeModFilename toLowerCase filename &&
        mods.any fun mod => mod.filename = filename && mod.source = source &&
          mod.sha256 = lowerHex declaration.file.sha256 &&
          mod.sizeBytes = declaration.file.sizeBytes

/-- `verifyResolvedMods`, the loop over the frozen mods; `paths` are those so far. -/
def frozenPaths (toLowerCase : JsString → JsString) (localPaths : List JsString) :
    List RemoteMod → List JsString → Except Failure (List JsString)
  | [], paths => .ok paths
  | mod :: rest, paths =>
    if !validFrozenMod toLowerCase mod then .error { code := "invalid_remote_mod" }
    else if paths.contains (modPath mod.filename) || localPaths.contains (modPath mod.filename) then
      .error { code := "remote_mod_collision" }
    else frozenPaths toLowerCase localPaths rest (paths ++ [modPath mod.filename])

def verifyResolvedMods (toLowerCase : JsString → JsString) (declarations : List ModDeclaration)
    (manifest : BundleManifest) (mods : List RemoteMod) : Except Failure Unit := do
  let localMods := manifest.files.filter fun file => startsWith file.path (js "instance/mods/")
  let seen := declarations.map fun declaration => declaration.file.path
  let remotePaths ← frozenPaths toLowerCase (localMods.map (·.path)) mods []
  if !decide seen.Nodup || !declarations.all (validDeclaration toLowerCase localMods mods) ||
      seen.length ≠ localMods.length + remotePaths.length ||
      !(localMods.map (·.path) ++ remotePaths).all seen.contains then
    throw { code := "resolved_mods_mismatch" }

def validateBundle (toLowerCase : JsString → JsString) (raw : RawBundle)
    (compatibility : Compatibility) (mods : List RemoteMod) : Except Failure Bundle := do
  if maxBundleBytes < raw.byteLength then throw { code := "bundle_too_large" }
  if !validZip raw.entries || !(raw.entries.map Prod.fst).contains (js "bundle.json") then
    throw { code := "invalid_bundle" }
  let manifest ← parseManifest raw.manifest
  if !verifyCompatibility manifest.compatibility compatibility then
    throw { code := "frozen_compatibility_mismatch" }
  if !raw.entries.all fun entry => entry.1 = js "bundle.json" ||
      allowedPath entry.1 && manifest.files.any fun file =>
        file.path = entry.1 && file.sizeBytes = entry.2.length &&
          file.sha256 = Text.sha256 entry.2 then
    throw { code := "bundle_hash_or_path_mismatch" }
  if manifest.files.length + 1 ≠ raw.entries.length then
    throw { code := "bundle_manifest_mismatch" }
  if !resolvedFiles.all fun name => (raw.entries.map Prod.fst).contains (js name) then
    throw { code := "missing_resolved_metadata" }
  if raw.loader ≠ manifest.compatibility ||
      raw.version.minecraftVersion ≠ manifest.compatibility.minecraftVersion ||
      raw.version.javaComponent ≠ manifest.compatibility.javaComponent ||
      raw.version.javaMajor ≠ manifest.compatibility.javaMajor ||
      !validArtifactMetadata raw.artifacts manifest then
    throw { code := "resolved_metadata_mismatch" }
  verifyResolvedMods toLowerCase raw.mods manifest mods
  return ⟨manifest, raw.entries⟩

/-! ## The manifest of a bundle -/

theorem pairwise_of_parseFiles {read files : List BundleFile} {previous : JsString}
    (h : parseFiles read previous = some files) :
    (∀ file ∈ files, allowedPath file.path) ∧ (files.map (·.path)).Pairwise (· < ·) ∧
      (previous ≠ [] → ∀ file ∈ files, previous < file.path) := by
  induction read generalizing files previous with
  | nil =>
    cases h
    exact ⟨nofun, .nil, fun _ => nofun⟩
  | cons file rest ih =>
    unfold parseFiles at h
    split at h
    next => cases h
    next hchecks =>
      obtain ⟨files, hrest, rfl⟩ := Option.map_eq_some_iff.mp h
      simp only [Bool.or_eq_true, Bool.not_eq_true', not_or, Bool.not_eq_false,
        Bool.and_eq_true, not_and, decide_eq_false_iff_not, not_not] at hchecks
      obtain ⟨⟨⟨⟨hallowed, -⟩, -⟩, -⟩, horder⟩ := hchecks
      have hne : file.path ≠ [] := by
        rintro hnil
        rw [hnil] at hallowed
        exact absurd hallowed (by decide)
      obtain ⟨hall, hpairwise, habove⟩ := ih hrest
      have hlater := habove hne
      refine ⟨List.forall_mem_cons.mpr ⟨hallowed, hall⟩, ?_, fun hprevious => ?_⟩
      · refine List.pairwise_cons.mpr ⟨?_, hpairwise⟩
        exact List.forall_mem_map.mpr hlater
      · have hfirst : previous < file.path := horder (by simpa using hprevious)
        exact List.forall_mem_cons.mpr
          ⟨hfirst, fun later hmem => List.lt_trans hfirst (hlater later hmem)⟩

theorem parseFiles_of_validateBundle {toLowerCase : JsString → JsString} {raw : RawBundle}
    {compatibility : Compatibility} {mods : List RemoteMod} {bundle : Bundle}
    (h : validateBundle toLowerCase raw compatibility mods = .ok bundle) :
    parseFiles raw.manifest.files [] = some bundle.manifest.files := by
  unfold validateBundle at h
  obtain ⟨-, h⟩ := of_guard h
  obtain ⟨-, h⟩ := of_guard h
  obtain ⟨manifest, hmanifest, h⟩ := bind_eq_ok h
  obtain ⟨-, h⟩ := of_guard h
  obtain ⟨-, h⟩ := of_guard h
  obtain ⟨-, h⟩ := of_guard h
  obtain ⟨-, h⟩ := of_guard h
  obtain ⟨-, h⟩ := of_guard h
  obtain ⟨-, -, h⟩ := bind_eq_ok h
  cases h
  simp only [parseManifest] at hmanifest
  split at hmanifest
  · cases hmanifest
  split at hmanifest
  · cases hmanifest
  next files hfiles =>
    cases hmanifest
    exact hfiles

end SharedNode.Compiler
