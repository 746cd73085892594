import SharedNode.Compiler.Catalog
import SharedNode.Compiler.Zip

/-!
# Bundles as bytes

Model of `validateBundle` (`compiler/src/bundle.mjs`) on the bytes of an archive and the value of
the frozen manifest. The documents of a bundle are values of `JSON.parse`, which is a parameter, as
`inflateRawSync` and the lower case of a file name are.

* `Accepted`: what an accepted bundle is. Its entries are the files of its manifest, and its
  resolved documents say of the files and of the mods what the manifest and the frozen manifest say.
-/

namespace SharedNode.Compiler.Documents

open Text JsValue Compiler.Catalog

/-- What the engine provides: `inflateRawSync`, `JSON.parse` of decoded bytes, `none` when they
throw, and `toLowerCase`. -/
structure Engine where
  inflateRaw : Bytes → Option Bytes
  parseJson : Bytes → Option JsValue
  toLowerCase : JsString → JsString

/-! ## Values -/

def keysWithin (keys : List String) : Option JsValue → Bool
  | some (.obj members) => members.all fun m => (keys.map js).contains m.1
  | _ => false

def truthy : Option JsValue → Bool
  | some (.bool b) => b
  | some (.num t) => t ≠ lit "0"
  | some (.str s) => s ≠ []
  | some (.arr _) | some (.obj _) => true
  | some .null | none => false

mutual

/-- `String`; `none` where it throws, for an object with a `toString` of its own. -/
def toText : JsValue → Option JsString
  | .null => some (js "null")
  | .bool b => some (if b then js "true" else js "false")
  | .num t => some (t.map (·.toUInt16))
  | .str s => some s
  | .arr items => (toTexts items).map commas
  | .obj members =>
    if members.any fun m => m.1 = js "toString" then none else some (js "[object Object]")

/-- The texts of the elements of an array, where `null` has none. -/
def toTexts : List JsValue → Option (List JsString)
  | [] => some []
  | .null :: rest => (toTexts rest).map ([] :: ·)
  | v :: rest => (toText v).bind fun s => (toTexts rest).map (s :: ·)

end

/-! ## The manifest -/

/-- What `parseManifest` returns. -/
structure Manifest where
  instanceName : JsString
  minecraftVersion : JsString
  loaderKind : JsString
  loaderVersion : JsString
  javaComponent : JsString
  javaMajor : Int
  runtimeCatalogSha256 : Bytes
  files : List BundleFile
  deriving DecidableEq

/-- A file of `bundle.json`. -/
def readFile (v : JsValue) : Option BundleFile :=
  if keysWithin ["path", "sha256", "sizeBytes"] (some v) then do
    let path ← asString (get (some v) "path")
    let sha256 ← asString (get (some v) "sha256")
    let sizeBytes ← safeInteger (get (some v) "sizeBytes")
    return ⟨path, encode sha256, sizeBytes⟩
  else none

/-- The members `bundle.json` may have. -/
def manifestKeys : List String :=
  ["schemaVersion", "instanceName", "minecraftVersion", "loader", "javaRequirement",
    "runtimeCatalog", "files"]

def parseManifest (v : Option JsValue) : Option Manifest :=
  let loader := get v "loader"
  let java := get v "javaRequirement"
  let catalog := get v "runtimeCatalog"
  if keysWithin manifestKeys v && asNumber (get v "schemaVersion") = some (lit "1") &&
      isText validMinecraftVersion (get v "minecraftVersion") && isObject loader && isObject java &&
      isObject catalog && isText loaderKinds.contains (get loader "kind") &&
      isText validLoaderVersion (get loader "version") &&
      isText validSHA256 (get catalog "sha256") then do
    let instanceName ← asString (get v "instanceName")
    let minecraftVersion ← asString (get v "minecraftVersion")
    let loaderKind ← asString (get loader "kind")
    let loaderVersion ← asString (get loader "version")
    let javaComponent ← asString (get java "component")
    let javaMajor ← safeInteger (get java "major")
    let listed ← items (get v "files")
    let read ← listed.mapM readFile
    let files ← parseFiles read []
    if instanceName = [] then none
    else
      return { instanceName, minecraftVersion, loaderKind, loaderVersion, javaComponent, javaMajor,
               runtimeCatalogSha256 := lowerHex (bytesOf (get catalog "sha256")), files }
  else none

/-- A component and a version of Java, under the names the document has for them. -/
def isJava (manifest : Manifest) (v : Option JsValue) (major : String) : Bool :=
  asString (get v "component") = some manifest.javaComponent &&
    asNumber (get v major) = some (formatInt manifest.javaMajor)

def verifyCompatibility (manifest : Manifest) (frozen : Option JsValue) : Bool :=
  let compatibility := get frozen "compatibility"
  isObject frozen && asNumber (get frozen "schemaVersion") = some (lit "1") &&
    isObject compatibility &&
    asString (get compatibility "minecraftVersion") = some manifest.minecraftVersion &&
    asString (get compatibility "loader") = some manifest.loaderKind &&
    asString (get compatibility "loaderVersion") = some manifest.loaderVersion &&
    isText (· = manifest.runtimeCatalogSha256)
      (get (get compatibility "runtimeCatalog") "sha256") &&
    (!truthy (get compatibility "java") || isJava manifest (get compatibility "java") "major")

/-! ## The resolved documents -/

/-- `entries.get`. -/
def lookup (entries : List (JsString × Bytes)) (path : JsString) : Option Bytes :=
  (entries.find? fun entry => entry.1 = path).map Prod.snd

def document (E : Engine) (entries : List (JsString × Bytes)) (name : String) : Option JsValue :=
  (lookup entries (js name)).bind E.parseJson

def intentText : Intent → String
  | .mod => "mod"
  | .config => "config"
  | .kubejs => "kubejs"
  | .script => "script"
  | .datapack => "datapack"
  | .globalPack => "global-pack"
  | .openloader => "openloader"
  | .paxi => "paxi"
  | .resourcepack => "resourcepack"
  | .data => "data"

def isArtifactOf (file : BundleFile) (v : JsValue) : Bool :=
  keysWithin ["intent", "path", "sha256", "sizeBytes"] (some v) &&
    asString (get (some v) "path") = some file.path &&
    isText (· = file.sha256) (get (some v) "sha256") &&
    asNumber (get (some v) "sizeBytes") = some (formatInt file.sizeBytes) &&
    asString (get (some v) "intent") = some (js (intentText (artifactIntent file.path)))

def instanceFilesOf (manifest : Manifest) : List BundleFile :=
  manifest.files.filter fun file => startsWith file.path (js "instance/")

def validArtifactMetadata (v : Option JsValue) (manifest : Manifest) : Bool :=
  keysWithin ["schemaVersion", "artifacts"] v &&
    asNumber (get v "schemaVersion") = some (lit "1") &&
    match items (get v "artifacts") with
    | none => false
    | some artifacts =>
      (instanceFilesOf manifest).length = artifacts.length &&
        ((instanceFilesOf manifest).zip artifacts).all fun pair => isArtifactOf pair.1 pair.2

def verifyResolvedMetadata (E : Engine) (entries : List (JsString × Bytes)) (manifest : Manifest) :
    Bool :=
  let loader := document E entries "resolved/loader.json"
  let version := document E entries "resolved/version.json"
  asString (get loader "minecraftVersion") = some manifest.minecraftVersion &&
    asString (get (get loader "loader") "kind") = some manifest.loaderKind &&
    asString (get (get loader "loader") "version") = some manifest.loaderVersion &&
    isJava manifest (get loader "javaRequirement") "major" &&
    isText (· = manifest.runtimeCatalogSha256) (get (get loader "runtimeCatalog") "sha256") &&
    asString (get version "minecraftVersion") = some manifest.minecraftVersion &&
    isJava manifest (get version "javaVersion") "majorVersion" &&
    validArtifactMetadata (document E entries "resolved/artifacts.json") manifest

/-! ## Mods -/

structure FrozenMod where
  filename : JsString
  provider : Provider
  projectId : JsString
  fileId : JsString
  sha256 : Bytes
  sizeBytes : Int
  deriving DecidableEq

def FrozenMod.path (mod : FrozenMod) : JsString := modPath mod.filename

def readProvider (s : JsString) : Option Provider :=
  if s = js "modrinth" then some .modrinth
  else if s = js "curseforge" then some .curseforge
  else none

/-- `validateFrozenRemoteMod`. -/
def readFrozenMod (toLowerCase : JsString → JsString) (v : JsValue) : Option FrozenMod :=
  if keysAre ["downloadUrl", "fileId", "filename", "projectId", "provider", "sha256", "sizeBytes"]
        (some v) && isText validSHA256 (get (some v) "sha256") &&
      (asString (get (some v) "downloadUrl")).isSome then do
    let provider ← (asString (get (some v) "provider")).bind readProvider
    let projectId ← asString (get (some v) "projectId")
    let fileId ← asString (get (some v) "fileId")
    let filename ← asString (get (some v) "filename")
    let sizeBytes ← safeInteger (get (some v) "sizeBytes")
    if projectId = [] || fileId = [] || !safeModFilename toLowerCase filename || sizeBytes < 1 then
      none
    else
      return { filename, provider, projectId, fileId, sizeBytes,
               sha256 := bytesOf (get (some v) "sha256") }
  else none

/-- `verifyResolvedMods`, the loop over the frozen mods; `mods` are those so far. -/
def readFrozenMods (toLowerCase : JsString → JsString) (localPaths : List JsString) :
    List JsValue → List FrozenMod → Except Failure (List FrozenMod)
  | [], mods => .ok mods
  | v :: rest, mods =>
    match readFrozenMod toLowerCase v with
    | none => .error { code := "invalid_remote_mod" }
    | some mod =>
      if (mods.map (·.path)).contains mod.path || localPaths.contains mod.path then
        .error { code := "remote_mod_collision" }
      else readFrozenMods toLowerCase localPaths rest (mods ++ [mod])

/-- An entry of `resolved/mods.json`, with the digest in lower case; a remote mod has a file name
and a source. -/
structure Declaration where
  file : BundleFile
  remote : Option (JsString × JsValue)

/-- `verifyResolvedMods`, the form of a declaration. -/
def readDeclaration (toLowerCase : JsString → JsString) (v : JsValue) : Option Declaration :=
  if isText validSHA256 (get (some v) "sha256") then do
    let path ← asString (get (some v) "path")
    let sizeBytes ← safeInteger (get (some v) "sizeBytes")
    let file : BundleFile := ⟨path, lowerHex (bytesOf (get (some v) "sha256")), sizeBytes⟩
    if sizeBytes < 1 then none
    else
      match get (some v) "source" with
      | none =>
        if keysAre ["path", "sha256", "sizeBytes"] (some v) then some ⟨file, none⟩ else none
      | some source => do
        let filename ← asString (get (some v) "filename")
        if keysAre ["filename", "path", "sha256", "sizeBytes", "source"] (some v) &&
            path = modPath filename && safeModFilename toLowerCase filename &&
            isObject (some source) then some ⟨file, some (filename, source)⟩
        else none
  else none

/-- The source of a declaration is the one of a frozen mod. The identifiers of a `curseforge` file
may be numbers. -/
def matchesSource (mod : FrozenMod) (source : JsValue) : Bool :=
  match mod.provider with
  | .modrinth =>
    keysAre ["projectId", "provider", "versionId"] (some source) &&
      asString (get (some source) "provider") = some (js "modrinth") &&
      asString (get (some source) "projectId") = some mod.projectId &&
      asString (get (some source) "versionId") = some mod.fileId
  | .curseforge =>
    keysAre ["fileId", "projectId", "provider"] (some source) &&
      asString (get (some source) "provider") = some (js "curseforge") &&
      (get (some source) "projectId").bind toText = some mod.projectId &&
      (get (some source) "fileId").bind toText = some mod.fileId

def declares (mod : FrozenMod) (declaration : Declaration) : Bool :=
  match declaration.remote with
  | none => false
  | some (filename, source) =>
    declaration.file = ⟨mod.path, mod.sha256, mod.sizeBytes⟩ && mod.filename = filename &&
      matchesSource mod source

/-- `verifyResolvedMods`, what a declaration has to match: the local file under its path or the
frozen mod under its path, and there is one of either. -/
def validDeclaration (localMods : List BundleFile) (mods : List FrozenMod)
    (declaration : Declaration) : Bool :=
  match declaration.remote with
  | none => localMods.contains declaration.file
  | some _ => mods.any fun mod => declares mod declaration

def localModsOf (manifest : Manifest) : List BundleFile :=
  manifest.files.filter fun file => startsWith file.path (js "instance/mods/")

/-- `verifyResolvedMods`, the checks of all declarations. -/
def validDeclarations (localMods : List BundleFile) (mods : List FrozenMod)
    (declarations : List Declaration) : Bool :=
  let seen := declarations.map (·.file.path)
  decide seen.Nodup && declarations.all (validDeclaration localMods mods) &&
    seen.length = localMods.length + mods.length &&
    (localMods.map (·.path) ++ mods.map (·.path)).all seen.contains

def verifyResolvedMods (E : Engine) (entries : List (JsString × Bytes)) (manifest : Manifest)
    (frozen : Option JsValue) : Except Failure Unit :=
  match items (document E entries "resolved/mods.json"), items (get frozen "mods") with
  | some declared, some mods =>
    match readFrozenMods E.toLowerCase ((localModsOf manifest).map (·.path)) mods [] with
    | .error failure => .error failure
    | .ok remote =>
      match declared.mapM (readDeclaration E.toLowerCase) with
      | none => .error { code := "resolved_mods_mismatch" }
      | some declarations =>
        if validDeclarations (localModsOf manifest) remote declarations then .ok ()
        else .error { code := "resolved_mods_mismatch" }
  | _, _ => .error { code := "resolved_mods_mismatch" }

/-! ## The bundle -/

def fileOf (entry : JsString × Bytes) : BundleFile := ⟨entry.1, sha256 entry.2, entry.2.length⟩

def ofZip : Zip.ZipError → Failure
  | .failure code => { code }
  | .outOfRange => { code := "RangeError" }

/-- `validateBundle`, once the manifest is read. The paths of the manifest differ, so that an entry
has one file it can be. -/
def verifyEntries (E : Engine) (entries : List (JsString × Bytes)) (manifest : Manifest)
    (frozen : Option JsValue) : Except Failure Unit :=
  if !verifyCompatibility manifest frozen then .error { code := "frozen_compatibility_mismatch" }
  else if !entries.all fun entry => entry.1 = js "bundle.json" ||
      allowedPath entry.1 && manifest.files.contains (fileOf entry) then
    .error { code := "bundle_hash_or_path_mismatch" }
  else if manifest.files.length + 1 ≠ entries.length then
    .error { code := "bundle_manifest_mismatch" }
  else if !resolvedFiles.all fun name => (lookup entries (js name)).isSome then
    .error { code := "missing_resolved_metadata" }
  else if !verifyResolvedMetadata E entries manifest then
    .error { code := "resolved_metadata_mismatch" }
  else verifyResolvedMods E entries manifest frozen

/-- `validateBundle`: the manifest and the entries of an archive it accepts. -/
def validateBundle (E : Engine) (archive : Bytes) (frozen : Option JsValue) :
    Except Failure (Manifest × List (JsString × Bytes)) :=
  if maxBundleBytes < archive.length then .error { code := "bundle_too_large" }
  else
    match Zip.readZip E.inflateRaw archive with
    | .error err => .error (ofZip err)
    | .ok entries =>
      match lookup entries (js "bundle.json") with
      | none => .error { code := "invalid_bundle" }
      | some bytes =>
        if maxBundleEntries < entries.length then .error { code := "invalid_bundle" }
        else
          match parseManifest (E.parseJson bytes) with
          | none => .error { code := "invalid_bundle_manifest" }
          | some manifest =>
            match verifyEntries E entries manifest frozen with
            | .error failure => .error failure
            | .ok () => .ok (manifest, entries)

/-! ## Accepted bundles -/

/-- The entries but `bundle.json` are the files of the manifest. -/
structure ListsFiles (manifest : Manifest) (entries : List (JsString × Bytes)) : Prop where
  listed : js "bundle.json" ∈ entries.map Prod.fst
  nodup : (entries.map Prod.fst).Nodup
  perm : ((entries.filter fun entry => entry.1 ≠ js "bundle.json").map fileOf).Perm manifest.files
  allowed : ∀ file ∈ manifest.files, allowedPath file.path
  increasing : (manifest.files.map (·.path)).Pairwise (· < ·)

/-- The document `resolved/artifacts.json` lists the files of the instance, in their order. -/
def ListsArtifacts (E : Engine) (manifest : Manifest) (entries : List (JsString × Bytes)) : Prop :=
  ∃ artifacts, items (get (document E entries "resolved/artifacts.json") "artifacts") =
      some artifacts ∧
    List.Forall₂ (fun file v => isArtifactOf file v = true) (instanceFilesOf manifest) artifacts

/-- The declarations of `resolved/mods.json` are the local mods and the frozen mods. -/
structure ListsMods (localMods : List BundleFile) (mods : List FrozenMod)
    (declarations : List Declaration) : Prop where
  nodup : (declarations.map (·.file.path)).Nodup
  present : ((declarations.filter (·.remote.isNone)).map (·.file)).Perm localMods
  remote : ∀ declaration ∈ declarations, declaration.remote.isSome →
    ∃ mod ∈ mods, declares mod declaration = true
  declared : ∀ mod ∈ mods, ∃ declaration ∈ declarations, declares mod declaration = true
  distinct : (mods.map (·.path)).Nodup
  disjoint : ∀ file ∈ localMods, ∀ mod ∈ mods, file.path ≠ mod.path

/-- The same of the documents: every declaration and every frozen mod can be read. -/
def ResolvesMods (E : Engine) (frozen : Option JsValue) (manifest : Manifest)
    (entries : List (JsString × Bytes)) : Prop :=
  ∃ declared frozenMods declarations mods,
    items (document E entries "resolved/mods.json") = some declared ∧
    items (get frozen "mods") = some frozenMods ∧
    declared.mapM (readDeclaration E.toLowerCase) = some declarations ∧
    frozenMods.mapM (readFrozenMod E.toLowerCase) = some mods ∧
    ListsMods (localModsOf manifest) mods declarations

/-- What an accepted bundle is. -/
structure Accepted (E : Engine) (archive : Bytes) (frozen : Option JsValue) (manifest : Manifest)
    (entries : List (JsString × Bytes)) : Prop where
  read : Zip.readZip E.inflateRaw archive = .ok entries
  parsed : parseManifest (document E entries "bundle.json") = some manifest
  files : ListsFiles manifest entries
  artifacts : ListsArtifacts E manifest entries
  mods : ResolvesMods E frozen manifest entries

/-! ### Files -/

variable {manifest : Manifest} {entries : List (JsString × Bytes)} {E : Engine}

theorem parseFiles_of_parseManifest {v : Option JsValue}
    (h : parseManifest v = some manifest) : ∃ read, parseFiles read [] = some manifest.files := by
  unfold parseManifest at h
  dsimp only at h
  split at h
  next =>
    simp only [Option.bind_eq_bind, Option.bind_eq_some_iff] at h
    obtain ⟨_, -, _, -, _, -, _, -, _, -, _, -, _, -, read, -, files, hfiles, h⟩ := h
    split at h
    next => cases h
    next =>
      cases h
      exact ⟨read, hfiles⟩
  next => cases h

theorem nodup_of_increasing {files : List BundleFile}
    (h : (files.map (·.path)).Pairwise (· < ·)) : (files.map (·.path)).Nodup := by
  refine h.imp fun {a b} hlt => ?_
  rintro rfl
  exact List.lt_irrefl a hlt

theorem eq_of_path_eq {files : List BundleFile} (h : (files.map (·.path)).Nodup) {a b : BundleFile}
    (ha : a ∈ files) (hb : b ∈ files) (heq : a.path = b.path) : a = b :=
  List.inj_on_of_nodup_map h ha hb heq

theorem mem_map_of_lookup {path : JsString} {bytes : Bytes}
    (h : lookup entries path = some bytes) : path ∈ entries.map Prod.fst := by
  obtain ⟨entry, hfind, -⟩ := Option.map_eq_some_iff.mp h
  have hpath := List.find?_some hfind
  exact List.mem_map.mpr ⟨entry, List.mem_of_find?_eq_some hfind, by simpa using hpath⟩

theorem length_filter_ne {path : JsString}
    (hnodup : (entries.map Prod.fst).Nodup) (hmem : path ∈ entries.map Prod.fst) :
    (entries.filter fun entry => entry.1 ≠ path).length + 1 = entries.length := by
  induction entries with
  | nil => cases hmem
  | cons entry rest ih =>
    rw [List.map_cons, List.nodup_cons] at hnodup
    by_cases hentry : entry.1 = path
    · have hrest : ∀ other ∈ rest, other.1 ≠ path := by
        rintro other hother rfl
        exact hnodup.1 (hentry ▸ List.mem_map_of_mem hother)
      rw [List.filter_cons_of_neg (by simpa using hentry),
        List.filter_eq_self.mpr (by simpa using hrest), List.length_cons]
    · have hmem' : path ∈ rest.map Prod.fst :=
        (List.mem_cons.mp hmem).resolve_left fun heq => hentry heq.symm
      rw [List.filter_cons_of_pos (by simpa using hentry), List.length_cons, List.length_cons,
        ih hnodup.2 hmem']

theorem listsFiles
    (hnodup : (entries.map Prod.fst).Nodup) (hlisted : js "bundle.json" ∈ entries.map Prod.fst)
    (hfiles : ∃ read, parseFiles read [] = some manifest.files)
    (hentries : ∀ entry ∈ entries, entry.1 ≠ js "bundle.json" → fileOf entry ∈ manifest.files)
    (hlength : manifest.files.length + 1 = entries.length) : ListsFiles manifest entries := by
  obtain ⟨read, hread⟩ := hfiles
  obtain ⟨hallowed, hincreasing, -⟩ := pairwise_of_parseFiles hread
  have hother := length_filter_ne hnodup hlisted
  have hdistinct : ((entries.filter fun entry => entry.1 ≠ js "bundle.json").map fileOf).Nodup := by
    refine List.Nodup.of_map (·.path) ?_
    rw [List.map_map]
    exact hnodup.sublist (List.filter_sublist.map _)
  have hsubset : ((entries.filter fun entry => entry.1 ≠ js "bundle.json").map fileOf) ⊆
      manifest.files := by
    intro file hfile
    obtain ⟨entry, hentry, rfl⟩ := List.mem_map.mp hfile
    rw [List.mem_filter, decide_eq_true_eq] at hentry
    exact hentries entry hentry.1 hentry.2
  refine ⟨hlisted, hnodup, ?_, hallowed, hincreasing⟩
  refine (List.subperm_of_subset hdistinct hsubset).perm_of_length_le ?_
  rw [List.length_map]
  omega

/-! ### Artifacts -/

theorem listsArtifacts
    (h : validArtifactMetadata (document E entries "resolved/artifacts.json") manifest = true) :
    ListsArtifacts E manifest entries := by
  rw [validArtifactMetadata, Bool.and_eq_true] at h
  obtain ⟨-, h⟩ := h
  split at h
  next => cases h
  next artifacts hitems =>
    simp only [Bool.and_eq_true, decide_eq_true_eq, List.all_eq_true] at h
    refine ⟨artifacts, hitems, List.forall₂_iff_zip.mpr ⟨h.1, fun hmem => h.2 _ hmem⟩⟩

/-! ### Mods -/

theorem mods_of_readFrozenMods {toLowerCase : JsString → JsString} {localPaths : List JsString}
    {values : List JsValue} {before mods : List FrozenMod}
    (hdistinct : (before.map (·.path)).Nodup)
    (hdisjoint : ∀ mod ∈ before, mod.path ∉ localPaths)
    (h : readFrozenMods toLowerCase localPaths values before = .ok mods) :
    ∃ added, mods = before ++ added ∧ values.mapM (readFrozenMod toLowerCase) = some added ∧
      (mods.map (·.path)).Nodup ∧ ∀ mod ∈ mods, mod.path ∉ localPaths := by
  induction values generalizing before with
  | nil =>
    cases h
    exact ⟨[], (List.append_nil _).symm, rfl, hdistinct, hdisjoint⟩
  | cons v rest ih =>
    unfold readFrozenMods at h
    split at h
    next => cases h
    next mod hmod =>
      split at h
      next => cases h
      next hfresh =>
        simp only [Bool.or_eq_true, List.contains_iff_mem, not_or] at hfresh
        have hdistinct' : ((before ++ [mod]).map (·.path)).Nodup := by
          rw [List.map_append, List.map_singleton]
          exact hdistinct.append (List.nodup_singleton _) (by simpa using hfresh.1)
        have hdisjoint' : ∀ m ∈ before ++ [mod], m.path ∉ localPaths := by
          intro m hm
          rcases List.mem_append.mp hm with hbefore | hnew
          · exact hdisjoint m hbefore
          · rw [List.mem_singleton.mp hnew]
            exact hfresh.2
        obtain ⟨added, rfl, hread, hnodup, hall⟩ := ih hdistinct' hdisjoint' h
        refine ⟨mod :: added, by simp, ?_, hnodup, hall⟩
        rw [List.mapM_cons, hmod, hread]
        rfl

theorem path_of_declares {mod : FrozenMod} {declaration : Declaration}
    (h : declares mod declaration = true) :
    declaration.file.path = mod.path ∧ declaration.remote.isSome := by
  unfold declares at h
  split at h
  next => cases h
  next filename source hremote =>
    simp only [Bool.and_eq_true, decide_eq_true_eq] at h
    exact ⟨congrArg BundleFile.path h.1.1, by rw [hremote]; rfl⟩

section Declarations

variable {localMods : List BundleFile} {mods : List FrozenMod} {declarations : List Declaration}

theorem mem_of_validDeclaration {declaration : Declaration}
    (h : validDeclaration localMods mods declaration = true) :
    declaration.remote.isNone ∧ declaration.file ∈ localMods ∨
      ∃ mod ∈ mods, declares mod declaration = true := by
  unfold validDeclaration at h
  split at h
  next hremote => exact .inl ⟨by rw [hremote]; rfl, List.contains_iff_mem.mp h⟩
  next => exact .inr (List.any_eq_true.mp h)

/-- Every local and every frozen mod is declared once: what has its path has to be it, since the
paths differ. -/
theorem listsMods (hlocal : (localMods.map (·.path)).Nodup) (hdistinct : (mods.map (·.path)).Nodup)
    (hdisjoint : ∀ mod ∈ mods, mod.path ∉ localMods.map (·.path))
    (h : validDeclarations localMods mods declarations = true) :
    ListsMods localMods mods declarations := by
  simp only [validDeclarations, Bool.and_eq_true, decide_eq_true_eq, List.all_eq_true] at h
  obtain ⟨⟨⟨hnodup, hvalid⟩, -⟩, hseen⟩ := h
  have hmatch := fun declaration hmem => mem_of_validDeclaration (hvalid declaration hmem)
  have hdeclared : ∀ path ∈ localMods.map (·.path) ++ mods.map (·.path),
      ∃ declaration ∈ declarations, declaration.file.path = path := fun path hpath =>
    List.mem_map.mp (List.contains_iff_mem.mp (hseen path hpath))
  have hfile : ∀ file, file ∈ (declarations.filter (·.remote.isNone)).map (·.file) ↔
      file ∈ localMods := by
    intro file
    constructor
    · intro hfile
      obtain ⟨declaration, hmem, rfl⟩ := List.mem_map.mp hfile
      rw [List.mem_filter] at hmem
      obtain ⟨-, hin⟩ | ⟨mod, -, hdeclares⟩ := hmatch declaration hmem.1
      · exact hin
      · have hsome := (path_of_declares hdeclares).2
        exact absurd hmem.2 (by simpa using Option.isSome_iff_ne_none.mp hsome)
    · intro hmem
      obtain ⟨declaration, hin, hpath⟩ :=
        hdeclared file.path (List.mem_append_left _ (List.mem_map_of_mem hmem))
      obtain ⟨hnone, hown⟩ | ⟨mod, hmod, hdeclares⟩ := hmatch declaration hin
      · obtain rfl := eq_of_path_eq hlocal hown hmem hpath
        exact List.mem_map_of_mem (List.mem_filter.mpr ⟨hin, hnone⟩)
      · rw [(path_of_declares hdeclares).1] at hpath
        exact absurd (List.mem_map.mpr ⟨file, hmem, hpath.symm⟩) (hdisjoint mod hmod)
  have hfiles : ((declarations.filter (·.remote.isNone)).map (·.file)).Nodup := by
    refine List.Nodup.of_map (·.path) ?_
    rw [List.map_map]
    exact hnodup.sublist (List.filter_sublist.map _)
  refine ⟨hnodup, (List.perm_ext_iff_of_nodup hfiles (hlocal.of_map _)).mpr hfile, ?_, ?_,
    hdistinct, ?_⟩
  · intro declaration hmem hsome
    obtain ⟨hnone, -⟩ | hmods := hmatch declaration hmem
    · exact absurd hnone (by simpa using Option.isSome_iff_ne_none.mp hsome)
    · exact hmods
  · intro mod hmod
    obtain ⟨declaration, hin, hpath⟩ :=
      hdeclared mod.path (List.mem_append_right _ (List.mem_map_of_mem hmod))
    obtain ⟨-, hown⟩ | ⟨other, hother, hdeclares⟩ := hmatch declaration hin
    · exact absurd (List.mem_map.mpr ⟨declaration.file, hown, hpath⟩) (hdisjoint mod hmod)
    · have heq : other.path = mod.path := (path_of_declares hdeclares).1.symm.trans hpath
      obtain rfl := List.inj_on_of_nodup_map hdistinct hother hmod heq
      exact ⟨declaration, hin, hdeclares⟩
  · intro file hfile mod hmod heq
    exact hdisjoint mod hmod (List.mem_map.mpr ⟨file, hfile, heq⟩)

end Declarations

theorem mods_of_verifyResolvedMods {frozen : Option JsValue}
    (hfiles : (manifest.files.map (·.path)).Nodup)
    (h : verifyResolvedMods E entries manifest frozen = .ok ()) :
    ResolvesMods E frozen manifest entries := by
  unfold verifyResolvedMods at h
  split at h
  next declared frozenMods hdeclared hfrozen =>
    split at h
    next => cases h
    next mods hmods =>
      split at h
      next => cases h
      next declarations hread =>
        split at h
        next hvalid =>
          obtain ⟨added, heq, hadded, hdistinct, hdisjoint⟩ :=
            mods_of_readFrozenMods (show (([] : List FrozenMod).map (·.path)).Nodup from
              List.nodup_nil) nofun hmods
          obtain rfl : mods = added := heq
          have hlocal : ((localModsOf manifest).map (·.path)).Nodup :=
            hfiles.sublist (List.filter_sublist.map _)
          exact ⟨declared, frozenMods, declarations, mods, hdeclared, hfrozen, hread, hadded,
            listsMods hlocal hdistinct hdisjoint hvalid⟩
        next => cases h
  next => cases h

/-! ### The bundle -/

theorem verifyEntries_ok
    {frozen : Option JsValue} (h : verifyEntries E entries manifest frozen = .ok ()) :
    (∀ entry ∈ entries, entry.1 ≠ js "bundle.json" → fileOf entry ∈ manifest.files) ∧
      manifest.files.length + 1 = entries.length ∧
      validArtifactMetadata (document E entries "resolved/artifacts.json") manifest = true ∧
      verifyResolvedMods E entries manifest frozen = .ok () := by
  unfold verifyEntries at h
  split at h
  · cases h
  split at h
  · cases h
  next hentries =>
  split at h
  · cases h
  next hlength =>
  split at h
  · cases h
  split at h
  · cases h
  next hmetadata =>
  simp only [Bool.not_eq_true', Bool.not_eq_false, List.all_eq_true, Bool.or_eq_true,
    Bool.and_eq_true, decide_eq_true_eq, List.contains_iff_mem] at hentries
  simp only [verifyResolvedMetadata, Bool.not_eq_true', Bool.not_eq_false, Bool.and_eq_true]
    at hmetadata
  refine ⟨fun entry hmem hne => ?_, not_not.mp hlength, hmetadata.2, h⟩
  exact ((hentries entry hmem).resolve_left hne).2

/-- What `validateBundle` returns, for every archive and every frozen manifest. -/
theorem accepted_of_validateBundle {E : Engine} {archive : Bytes} {frozen : Option JsValue}
    {manifest : Manifest} {entries : List (JsString × Bytes)}
    (h : validateBundle E archive frozen = .ok (manifest, entries)) :
    Accepted E archive frozen manifest entries := by
  unfold validateBundle at h
  split at h
  · cases h
  split at h
  · cases h
  next read hread =>
  split at h
  · cases h
  next bytes hbytes =>
  split at h
  · cases h
  split at h
  · cases h
  next parsed hparsed =>
  split at h
  · cases h
  next hverify =>
  obtain ⟨rfl, rfl⟩ := Prod.mk.inj (Except.ok.inj h)
  obtain ⟨directory, records, hlayout⟩ := Zip.layout_of_readZip hread
  obtain ⟨hentries, hlength, hmetadata, hmods⟩ := verifyEntries_ok hverify
  have hfiles := listsFiles hlayout.nodup (mem_map_of_lookup hbytes)
    (parseFiles_of_parseManifest hparsed) hentries hlength
  refine ⟨hread, ?_, hfiles, listsArtifacts hmetadata,
    mods_of_verifyResolvedMods (nodup_of_increasing hfiles.increasing) hmods⟩
  rw [document, hbytes]
  exact hparsed

namespace Sample

/-- A number in little endian order, of two and of four bytes. -/
def le16 (n : Nat) : Bytes := [UInt8.ofNat n, UInt8.ofNat (n / 2 ^ 8)]

def le32 (n : Nat) : Bytes := le16 n ++ le16 (n / 2 ^ 16)

/-- The name of an entry, the CRC-32 of its bytes and the bytes. -/
abbrev Stored := String × Nat × Bytes

/-- The fields that the local header and the record of a stored entry share. -/
def fields (entry : Stored) : Bytes :=
  [le32 entry.2.1, le32 entry.2.2.length, le32 entry.2.2.length, le16 (lit entry.1).length,
    le16 0].flatten

def localHeader (entry : Stored) : Bytes :=
  [le32 0x04034b50, List.replicate 10 0, fields entry, lit entry.1, entry.2.2].flatten

def record (entry : Stored) (offset : Nat) : Bytes :=
  [le32 0x02014b50, List.replicate 12 0, fields entry, List.replicate 10 0, le32 offset,
    lit entry.1].flatten

def layOut : List Stored → Nat → Bytes × Bytes
  | [], _ => ([], [])
  | entry :: rest, offset =>
    let (headers, records) := layOut rest (offset + (localHeader entry).length)
    (localHeader entry ++ headers, record entry offset ++ records)

def zip (entries : List Stored) : Bytes :=
  let (headers, records) := layOut entries 0
  [headers, records, le32 0x06054b50, le32 0, le16 entries.length, le16 entries.length,
    le32 records.length, le32 headers.length, le16 0].flatten

def file (path sha256 size : String) : JsValue :=
  object [("path", ascii path), ("sha256", ascii sha256), ("sizeBytes", number size)]

def jarDigest : String := "0163f1eea7894350060624d315234d40c508ab251ba121714e234503045faadd"

def catalog : JsValue := object [("sha256", ascii jarDigest)]

def java (major : String) : JsValue :=
  object [("component", ascii "java-runtime"), (major, number "17")]

def loader : JsValue := object [("kind", ascii "forge"), ("version", ascii "47.2.0")]

def artifactsDocument : JsValue :=
  object [("schemaVersion", number "1"),
    ("artifacts", .arr [object [("path", ascii "instance/mods/a.jar"), ("sha256", ascii jarDigest),
      ("sizeBytes", number "3"), ("intent", ascii "mod")]])]

def loaderDocument : JsValue :=
  object [("minecraftVersion", ascii "1.20.1"), ("loader", loader),
    ("javaRequirement", java "major"), ("runtimeCatalog", catalog)]

def modsDocument : JsValue :=
  .arr [file "instance/mods/a.jar" jarDigest "3",
    object [("path", ascii "instance/mods/b.jar"), ("filename", ascii "b.jar"),
      ("sha256", ascii jarDigest), ("sizeBytes", number "7"),
      ("source", object [("provider", ascii "curseforge"), ("projectId", number "1"),
        ("fileId", number "2")])]]

def versionDocument : JsValue :=
  object [("minecraftVersion", ascii "1.20.1"), ("javaVersion", java "majorVersion")]

def bundleDocument : JsValue :=
  object [("schemaVersion", number "1"), ("instanceName", ascii "pack"),
    ("minecraftVersion", ascii "1.20.1"), ("loader", loader), ("javaRequirement", java "major"),
    ("runtimeCatalog", catalog),
    ("files", .arr [file "instance/mods/a.jar" jarDigest "3",
      file "resolved/artifacts.json"
        "f00da339a800a6234dac966826c802d50feab7802ba0d3175c822fbcb38cb3a2" "169",
      file "resolved/loader.json"
        "2ce79945bf90cac19bb985fdd433a10a22d0a3aa7574bc72950650503f193051" "227",
      file "resolved/mods.json"
        "4280337784e40639748d061743034ccf1097e98eb3893b6ac96829d7e8183dd2" "322",
      file "resolved/version.json"
        "9ad22be9f9d5214bf1e6b7ad96d477ca1a4dbff604b83a8cf2e963f8caaea915" "90"])]

def frozen : JsValue :=
  object [("schemaVersion", number "1"),
    ("compatibility", object [("minecraftVersion", ascii "1.20.1"), ("loader", ascii "forge"),
      ("loaderVersion", ascii "47.2.0"), ("runtimeCatalog", catalog), ("java", java "major")]),
    ("mods", .arr [object [("provider", ascii "curseforge"), ("projectId", ascii "1"),
      ("fileId", ascii "2"), ("filename", ascii "b.jar"), ("sha256", ascii jarDigest),
      ("sizeBytes", number "7"), ("downloadUrl", ascii "https://example.test/b.jar")]])]

/-- The documents under their names, with the CRC-32 of their texts. -/
def documents : List (String × Nat × JsValue) :=
  [("resolved/artifacts.json", 4224295219, artifactsDocument),
    ("resolved/loader.json", 2295840514, loaderDocument),
    ("resolved/mods.json", 1066586043, modsDocument),
    ("resolved/version.json", 2198134103, versionDocument),
    ("bundle.json", 1532437135, bundleDocument)]

/-- An engine that knows the texts of these documents, and inflates nothing. -/
def engine : Engine where
  inflateRaw _ := none
  toLowerCase := Catalog.toLowerCase
  parseJson bytes := (documents.find? fun d => encode (stringify d.2.2) = bytes).map (·.2.2)

/-- The file of a bundle and the five documents, none of them compressed. -/
def contents : List Stored :=
  ("instance/mods/a.jar", 2028789010, lit "jar") ::
    documents.map fun d => (d.1, d.2.1, encode (stringify d.2.2))

/-- What `readZip` returns for them. -/
def read : List (JsString × Bytes) := contents.map fun entry => (js entry.1, entry.2.2)

set_option maxRecDepth 20000 in
def acceptedArchive : { archive // (validateBundle engine archive (some frozen)).isOk = true } :=
  ⟨zip contents, by
    have hread : Zip.readZip engine.inflateRaw (zip contents) = .ok read := by decide +kernel
    rw [validateBundle, if_neg (by decide +kernel), hread]
    decide +kernel⟩

end Sample

theorem accepted_of_validateBundle_contents : ∃ manifest entries,
    Accepted Sample.engine (Sample.zip Sample.contents) (some Sample.frozen) manifest entries := by
  have hok : (validateBundle Sample.engine (Sample.zip Sample.contents) (some Sample.frozen)).isOk =
      true := Sample.acceptedArchive.property
  cases hresult : validateBundle Sample.engine (Sample.zip Sample.contents)
    (some Sample.frozen) with
  | error failure =>
    rw [hresult] at hok
    cases hok
  | ok result => exact ⟨result.1, result.2, accepted_of_validateBundle hresult⟩

end SharedNode.Compiler.Documents
