import SharedNode.Compiler.Bundle
import SharedNode.Text.Stringify

/-!
# The reviewed builder

Model of `ReviewedRuntimeBuilder.build` (`compiler/src/reviewed-builder.mjs`): the files of the
sandboxed installer, of the bundle and of the remote mods become one output, to which the builder
adds the runtime document and the launcher, and the output becomes one archive that the builder
reads back before it returns it.

What the build gets from outside is `Builder`: the reviewed catalog, the JRE that was found, the
downloads and the installer's output. `toLowerCase` and `normalize` (to NFKC) are the engine's.
-/

namespace SharedNode.Compiler

open Text JsValue

/-! ## The toolchain -/

structure Jre where
  id : Bytes
  sha256 : Bytes
  component : Bytes
  major : Int
  runtimeCatalogRevision : Bytes
  deriving DecidableEq

structure ReviewedArtifact where
  coordinate : Bytes
  sha256 : Bytes
  sizeBytes : Int
  deriving DecidableEq

/-- A reviewed toolchain of the catalog. -/
structure Toolchain where
  minecraftVersion : Bytes
  loader : Bytes
  loaderVersion : Bytes
  javaComponent : Bytes
  javaMajor : Int
  jre : Jre
  artifacts : List ReviewedArtifact
  deriving DecidableEq

def validIdentifier (value : Bytes) : Bool := isToken (lit "._-") value

/-- `parseToolchain`, the texts: none of them needs an escape in JSON. -/
def Toolchain.isReviewed (t : Toolchain) : Bool :=
  validMinecraftVersion t.minecraftVersion && loaderKinds.contains t.loader &&
    validLoaderVersion t.loaderVersion && validIdentifier t.javaComponent && 1 ≤ t.javaMajor &&
    t.javaMajor ≤ 255 && validIdentifier t.jre.id && validSHA256 t.jre.runtimeCatalogRevision

/-- `ReviewedToolchainCatalog`. -/
structure ToolchainCatalog where
  runtimeCatalogRevision : Bytes
  toolchains : List Toolchain
  reviewed : ∀ t ∈ toolchains, t.isReviewed

/-- `ReviewedToolchainCatalog.resolve`. -/
def ToolchainCatalog.resolve (catalog : ToolchainCatalog) (input : Compatibility) :
    Except Failure Toolchain :=
  if input.runtimeCatalogSha256 ≠ catalog.runtimeCatalogRevision ||
      !validMinecraftVersion input.minecraftVersion then
    .error { code := "unsupported_compatibility" }
  else
    match catalog.toolchains.find? fun candidate =>
        candidate.minecraftVersion = input.minecraftVersion && candidate.loader = input.loader &&
          candidate.loaderVersion = input.loaderVersion &&
          candidate.javaComponent = input.javaComponent &&
            candidate.javaMajor = input.javaMajor with
    | some toolchain => .ok toolchain
    | none => .error { code := "unsupported_compatibility" }

/-- `createAssemblyPlan`, the arguments of the launch. -/
def launchArguments (minecraftVersion loader version : Bytes) : Except Failure (List Bytes) :=
  if !loaderKinds.contains loader then .error { code := "unsupported_compatibility" }
  else if loader = lit "forge" then
    .ok [lit "@libraries/net/minecraftforge/forge/" ++ minecraftVersion ++ lit "-" ++ version ++
      lit "/unix_args.txt", lit "nogui"]
  else if loader = lit "neoforge" then
    .ok [lit "@libraries/net/neoforged/neoforge/" ++ version ++ lit "/unix_args.txt", lit "nogui"]
  else .ok [lit "-jar", lit "server.jar", lit "nogui"]

/-! ## Collaborators -/

/-- What the sandbox returns. `attested` is the verdict of `validSandboxAttestation`. -/
structure SandboxOutput where
  attested : Bool
  files : Files

/-- What a build gets from outside. A collaborator that throws, or is not there, answers `none`. -/
structure Builder where
  toLowerCase : JsString → JsString
  normalize : JsString → JsString
  catalog : Option ToolchainCatalog
  capable : Bool := true
  jre : Option Jre
  download : ReviewedArtifact → Except Failure Bytes
  installed : Option SandboxOutput
  downloadRemoteMod : RemoteMod → Except Failure Bytes

/-! ## The output -/

def runtimePath : JsString := js ".xmcl/runtime.json"

def launchPath : JsString := js ".xmcl/launch.sh"

/-- `normalizeSandboxOutput`, what is wrong with a file. -/
def rejectionReason (toLowerCase : JsString → JsString) (path : JsString) (file : OutputFile) :
    Option String :=
  if !safeOutputPath path then some "unsafe_path"
  else if forbiddenOutputPath toLowerCase path then some "forbidden_path"
  else if startsWith path (js ".xmcl/") then some "reserved_path"
  else if !isSafeInteger file.mode then some "invalid_metadata"
  else none

/-- `normalizeSandboxOutput`, the loop. -/
def normalizeEntries (toLowerCase : JsString → JsString) :
    List (JsString × OutputFile) → Files → Except Failure Files
  | [], files => .ok files
  | (path, file) :: rest, files =>
    match rejectionReason toLowerCase path file with
    | some reason =>
      .error ⟨"invalid_installer_output", some reason,
        if safeOutputPath path then some path else none⟩
    | none => normalizeEntries toLowerCase rest (files.set path file)

def normalizeSandboxOutput (toLowerCase : JsString → JsString) (result : SandboxOutput) :
    Except Failure Files :=
  if !result.attested then .error { code := "installer_failed" }
  else if maxOutputFiles < result.files.entries.length ||
      !outputSizeWithinLimit (result.files.entries.map fun entry => entry.2.bytes.length)
        maxSandboxBytes then
    .error { code := "invalid_installer_output" }
  else normalizeEntries toLowerCase result.files.entries .empty

def copyValidatedBundleContent (toLowerCase : JsString → JsString) (bundle : Bundle) :
    List BundleFile → Files → Except Failure Files
  | [], files => .ok files
  | file :: rest, files =>
    if !startsWith file.path (js "instance/") then
      copyValidatedBundleContent toLowerCase bundle rest files
    else
      let outputPath := file.path.drop (js "instance/").length
      match bundle.get file.path with
      | none => .error { code := "invalid_local_content" }
      | some source =>
        if (source.length : Int) ≠ file.sizeBytes || Text.sha256 source ≠ file.sha256 ||
            !safeOutputPath outputPath || forbiddenOutputPath toLowerCase outputPath ||
            files.has outputPath then
          .error { code := "invalid_local_content" }
        else copyValidatedBundleContent toLowerCase bundle rest
          (files.set outputPath ⟨source, 0o644⟩)

def maxArtifactBytes : Int := 512 * 1024 * 1024

def validateRemoteMod (toLowerCase : JsString → JsString) (mod : RemoteMod) : Except Failure Unit :=
  if !validFrozenMod toLowerCase mod || maxArtifactBytes < mod.sizeBytes then
    .error { code := "invalid_remote_mod" }
  else if !mod.host then .error { code := "remote_mod_host_rejected" }
  else .ok ()

def remoteModPath (mod : RemoteMod) : JsString := js "mods/" ++ mod.filename

/-- `addRemoteMods`, the loop; `destinations` are the folded paths so far. -/
def addMods (b : Builder) : List RemoteMod → List JsString → Files → Except Failure Files
  | [], _, files => .ok files
  | mod :: rest, destinations, files => do
    validateRemoteMod b.toLowerCase mod
    let path := remoteModPath mod
    let collisionKey := b.toLowerCase (b.normalize path)
    if destinations.contains collisionKey || !safeOutputPath path ||
        forbiddenOutputPath b.toLowerCase path then
      throw { code := "remote_mod_collision" }
    let bytes ← b.downloadRemoteMod mod
    if (bytes.length : Int) ≠ mod.sizeBytes || Text.sha256 bytes ≠ mod.sha256 then
      throw { code := "remote_mod_hash_mismatch" }
    addMods b rest (collisionKey :: destinations) (files.set path ⟨bytes, 0o644⟩)

def addRemoteMods (b : Builder) (mods : List RemoteMod) (files : Files) : Except Failure Files :=
  if maxOutputFiles < mods.length then .error { code := "invalid_remote_mod" }
  else addMods b mods (files.paths.map fun path => b.toLowerCase (b.normalize path)) files

def addGeneratedFile (files : Files) (path : JsString) (file : OutputFile) : Except Failure Files :=
  if files.has path then .error { code := "invalid_installer_output" } else
    .ok (files.set path file)

/-! ## The generated files -/

structure Runtime where
  runtimeCatalogRevision : Bytes
  minecraftVersion : Bytes
  loader : Bytes
  loaderVersion : Bytes
  component : Bytes
  major : Int
  jreId : Bytes
  arguments : List Bytes
  deriving DecidableEq

def runtimeDescriptor (t : Toolchain) (arguments : List Bytes) : Runtime where
  runtimeCatalogRevision := t.jre.runtimeCatalogRevision
  minecraftVersion := t.minecraftVersion
  loader := t.loader
  loaderVersion := t.loaderVersion
  component := t.javaComponent
  major := t.javaMajor
  jreId := t.jre.id
  arguments := arguments

def launchKind : Bytes := lit "generated-server-launcher"

/-- `encodeJson` of the runtime document. -/
def encodeJson (r : Runtime) : Bytes :=
  renderObject [(lit "schemaVersion", formatInt 1),
    (lit "runtimeCatalogRevision", quote r.runtimeCatalogRevision),
    (lit "minecraftVersion", quote r.minecraftVersion),
    (lit "loader", renderObject
      [(lit "kind", quote r.loader), (lit "version", quote r.loaderVersion)]),
    (lit "java", renderObject
      [(lit "component", quote r.component), (lit "major", formatInt r.major),
      (lit "jreId", quote r.jreId)]),
    (lit "launch", renderObject
      [(lit "path", quote (encode launchPath)), (lit "kind", quote launchKind),
      (lit "arguments", renderArray (r.arguments.map quote))])]

def generatedLauncher (arguments : List Bytes) : Except Failure Bytes :=
  if arguments.all fun argument => argument ≠ [] &&
      argument.all fun b => isAlnumByte b || (lit "_@./:+-").contains b then
    .ok (lit "#!/bin/sh\nset -eu\n: \"$\x7bXMCL_JAVA:?XMCL_JAVA is required\x7d\"\nexec \"$XMCL_JAVA\" " ++
      [0x20].intercalate arguments ++ lit "\n")
  else .error invalidOutput

/-- `validateGeneratedRuntimeAndLauncher`, the checks of the runtime document. -/
def isRuntime (value : Option JsValue) : Bool :=
  let loader := get value "loader"
  let java := get value "java"
  let launch := get value "launch"
  keysAre ["schemaVersion", "runtimeCatalogRevision", "minecraftVersion", "loader",
    "java", "launch"] value &&
    asNumber (get value "schemaVersion") = some (lit "1") &&
    isText validSHA256 (get value "runtimeCatalogRevision") &&
    isText validMinecraftVersion (get value "minecraftVersion") &&
    keysAre ["kind", "version"] loader && isText loaderKinds.contains (get loader "kind") &&
    isText validLoaderVersion (get loader "version") &&
    keysAre ["component", "major", "jreId"] java && isText validIdentifier (get java "component") &&
    (safeInteger (get java "major")).isSome && isText validIdentifier (get java "jreId") &&
    keysAre ["path", "kind", "arguments"] launch &&
    isText (· = encode launchPath) (get launch "path") &&
      isText (· = launchKind) (get launch "kind")

def readRuntime (bytes : Bytes) : Option Runtime :=
  let value := parseJson bytes
  let loader := get value "loader"
  let java := get value "java"
  let launch := get value "launch"
  if isRuntime value then do
    let listed ← items (get launch "arguments")
    let arguments ← listed.mapM fun v => asString (some v)
    return { runtimeCatalogRevision := bytesOf (get value "runtimeCatalogRevision")
             minecraftVersion := bytesOf (get value "minecraftVersion")
             loader := bytesOf (get loader "kind")
             loaderVersion := bytesOf (get loader "version")
             component := bytesOf (get java "component")
             major := (safeInteger (get java "major")).getD 0
             jreId := bytesOf (get java "jreId")
             arguments := arguments.map encode }
  else none

/-- `validateGeneratedRuntimeAndLauncher`. -/
def validGenerated (runtime launcher : Bytes) : Bool :=
  match readRuntime runtime with
  | none => false
  | some value =>
    match launchArguments value.minecraftVersion value.loader value.loaderVersion with
    | .error _ => false
    | .ok expected =>
      match generatedLauncher expected with
      | .error _ => false
      | .ok text => value.arguments = expected &&
          (decode launcher).isSome && decode launcher = decode text

/-- The document that a runtime's text denotes. -/
def Runtime.json (r : Runtime) : Json :=
  .object [("schemaVersion", .num (formatInt 1)),
    ("runtimeCatalogRevision", .str (sanitize r.runtimeCatalogRevision)),
    ("minecraftVersion", .str (sanitize r.minecraftVersion)),
    ("loader", .object [("kind", .str (sanitize r.loader)),
      ("version", .str (sanitize r.loaderVersion))]),
    ("java", .object [("component", .str (sanitize r.component)),
      ("major", .num (formatInt r.major)), ("jreId", .str (sanitize r.jreId))]),
    ("launch", .object [("path", .str (sanitize (encode launchPath))),
      ("kind", .str (sanitize launchKind)),
      ("arguments", .arr (r.arguments.map fun argument => .str (sanitize argument)))])]

theorem parse_encodeJson (r : Runtime) : parse (encodeJson r) = some r.json := by
  have hq : ∀ d s, Denotes (d + 1) (quote s) (.str (sanitize s)) := denotes_quote
  have hi : ∀ d n, Denotes (d + 1) (formatInt n) (.num (formatInt n)) := denotes_formatInt
  have harguments : Denotes 9999 (renderArray (r.arguments.map quote))
      (.arr (r.arguments.map fun argument => .str (sanitize argument))) :=
    denotes_array fun argument _ => hq 9997 argument
  have hloader := denotes_literals (d := 9999) [("kind", _, _), ("version", _, _)]
    (List.forall_mem_cons.mpr ⟨hq _ r.loader, List.forall_mem_singleton.mpr (hq _ r.loaderVersion)⟩)
  have hjava := denotes_literals (d := 9999)
    [("component", _, _), ("major", _, _), ("jreId", _, _)]
    (List.forall_mem_cons.mpr ⟨hq _ r.component, List.forall_mem_cons.mpr
      ⟨hi _ r.major, List.forall_mem_singleton.mpr (hq _ r.jreId)⟩⟩)
  have hlaunch := denotes_literals (d := 9999)
    [("path", _, _), ("kind", _, _), ("arguments", _, _)]
    (List.forall_mem_cons.mpr ⟨hq _ (encode launchPath), List.forall_mem_cons.mpr
      ⟨hq _ launchKind, List.forall_mem_singleton.mpr harguments⟩⟩)
  refine parse_of_denotes (denotes_literals (d := 10000)
    [("schemaVersion", formatInt 1, _), ("runtimeCatalogRevision", _, _),
      ("minecraftVersion", _, _),
      ("loader", _, _), ("java", _, _), ("launch", _, _)] ?_)
  simp only [List.forall_mem_cons, List.not_mem_nil, false_imp_iff, implies_true, and_true]
  exact ⟨hi _ _, hq _ _, hq _ _, hloader, hjava, hlaunch⟩

/-- The texts of a runtime document are as the catalog's checks leave them. -/
structure Runtime.IsReviewed (r : Runtime) : Prop where
  revision : validSHA256 r.runtimeCatalogRevision
  version : validMinecraftVersion r.minecraftVersion
  kind : loaderKinds.contains r.loader
  loader : validLoaderVersion r.loaderVersion
  component : validIdentifier r.component
  major : isSafeInteger r.major
  jre : validIdentifier r.jreId
  text : ∀ s ∈ [r.runtimeCatalogRevision, r.minecraftVersion, r.loader, r.loaderVersion,
    r.component, r.jreId] ++ r.arguments, ValidUtf8 s

/-- The value of a runtime document. -/
def Runtime.value (r : Runtime) : JsValue :=
  object [("schemaVersion", .num (lit "1")),
    ("runtimeCatalogRevision", .str (unitsOf r.runtimeCatalogRevision)),
    ("minecraftVersion", .str (unitsOf r.minecraftVersion)),
    ("loader", object [("kind", .str (unitsOf r.loader)),
      ("version", .str (unitsOf r.loaderVersion))]),
    ("java", object [("component", .str (unitsOf r.component)), ("major", .num (formatInt r.major)),
      ("jreId", .str (unitsOf r.jreId))]),
    ("launch", object [("path", .str (unitsOf (encode launchPath))),
      ("kind", .str (unitsOf launchKind)),
      ("arguments", .arr (r.arguments.map fun argument => .str (unitsOf argument)))])]

theorem ofItems_texts {texts : List Bytes} (h : ∀ s ∈ texts, ValidUtf8 s) :
    ofItems (texts.map fun s => .str (sanitize s)) = texts.map fun s => .str (unitsOf s) := by
  induction texts with
  | nil => rfl
  | cons s rest ih =>
    rw [List.map_cons, ofItems, ih (List.forall_mem_cons.mp h).2, ofJson,
      sanitize_of_valid (h s List.mem_cons_self), List.map_cons]

theorem ofJson_runtime {r : Runtime} (h : r.IsReviewed) : ofJson r.json = r.value := by
  have htext : ∀ s ∈ [r.runtimeCatalogRevision, r.minecraftVersion, r.loader, r.loaderVersion,
      r.component, r.jreId], sanitize s = s := fun s hs =>
    sanitize_of_valid (h.text s (List.mem_append_left _ hs))
  simp only [List.forall_mem_cons, List.not_mem_nil, false_imp_iff, implies_true, and_true] at htext
  obtain ⟨hrevision, hversion, hkind, hloader, hcomponent, hjre⟩ := htext
  have hmajor : parseInt (formatInt r.major) = some r.major := by
    have := h.major
    simp only [isSafeInteger, Bool.and_eq_true, decide_eq_true_eq] at this
    rw [parseInt_formatInt, if_pos (by omega)]
  have hone : (parseInt (formatInt 1)).map formatInt = some (lit "1") := by decide
  have hpath : sanitize (encode launchPath) = encode launchPath :=
    sanitize_of_valid (valid_flatMap_encode _)
  have hlauncher : sanitize launchKind = launchKind := sanitize_of_valid (valid_lit _)
  have harguments := ofItems_texts (List.forall_mem_append.mp h.text).2
  rw [Runtime.json, ofJson_object ["schemaVersion", "runtimeCatalogRevision", "minecraftVersion",
    "loader", "java", "launch"] rfl (by decide)]
  simp only [List.map_cons, List.map_nil, ofJson]
  rw [ofJson_object ["kind", "version"] rfl (by decide),
    ofJson_object ["component", "major", "jreId"] rfl (by decide),
    ofJson_object ["path", "kind", "arguments"] rfl (by decide)]
  simp only [List.map_cons, List.map_nil, ofJson, hrevision, hversion, hkind, hloader, hcomponent,
    hjre, hmajor, hone, hpath, hlauncher, harguments, Option.map_some, Option.getD_some]
  rfl

theorem mapM_asString (texts : List Bytes) :
    (texts.map fun s => JsValue.str (unitsOf s)).mapM (fun v => asString (some v)) =
      some (texts.map unitsOf) := by
  induction texts with
  | nil => rfl
  | cons s rest ih =>
    rw [List.map_cons, List.mapM_cons, ih]
    rfl

theorem isText_unitsOf {p : Bytes → Bool} {s : Bytes} (hp : p s = true) (hs : ValidUtf8 s) :
    isText p (some (.str (unitsOf s))) = true := by
  show p (encode (unitsOf s)) = true
  rwa [encode_unitsOf, sanitize_of_valid hs]

/-- **The runtime document is read back as it was written.** -/
theorem readRuntime_encodeJson {r : Runtime} (h : r.IsReviewed) :
    readRuntime (encodeJson r) = some r := by
  have hvalid : ValidUtf8 (encodeJson r) := by
    have harguments : ValidUtf8 (renderArray (r.arguments.map quote)) :=
      valid_renderArray fun t ht => by
        obtain ⟨s, -, rfl⟩ := List.mem_map.mp ht
        exact valid_quote s
    have hloader : ValidUtf8 (renderObject [(lit "kind", quote r.loader),
        (lit "version", quote r.loaderVersion)]) :=
      valid_renderObject (by simp [valid_quote])
    have hjava : ValidUtf8 (renderObject [(lit "component", quote r.component),
        (lit "major", formatInt r.major), (lit "jreId", quote r.jreId)]) :=
      valid_renderObject (by simp [valid_quote, valid_formatInt])
    have hlaunch : ValidUtf8 (renderObject [(lit "path", quote (encode launchPath)),
        (lit "kind", quote launchKind), (lit "arguments", renderArray (r.arguments.map quote))]) :=
      valid_renderObject (by simp [valid_quote, harguments])
    refine valid_renderObject ?_
    simp only [List.forall_mem_cons, List.not_mem_nil, false_imp_iff, implies_true, and_true]
    exact ⟨valid_formatInt _, valid_quote _, valid_quote _, hloader, hjava, hlaunch⟩
  obtain ⟨t, ht⟩ := exists_decode hvalid
  have hback : encode t = encodeJson r := encode_of_decode (by decide) ht
  have hvalue : parseJson (encodeJson r) = some r.value := by
    rw [parseJson, ht, Option.bind_some, hback, parse_encodeJson, Option.map_some, ofJson_runtime h]
  have htext : ∀ s ∈ [r.runtimeCatalogRevision, r.minecraftVersion, r.loader, r.loaderVersion,
      r.component, r.jreId], ValidUtf8 s := (List.forall_mem_append.mp h.text).1
  simp only [List.forall_mem_cons, List.not_mem_nil, false_imp_iff, implies_true, and_true] at htext
  obtain ⟨hrevision, hversion, hkind, hloader, hcomponent, hjre⟩ := htext
  have hmajor : safeInteger (some (.num (formatInt r.major))) = some r.major := by
    have := h.major
    simp only [isSafeInteger, Bool.and_eq_true, decide_eq_true_eq] at this
    simp [safeInteger, asNumber, parseInt_formatInt, h.major]
    omega
  have hpath : isText (· = encode launchPath) (some (.str (unitsOf (encode launchPath)))) = true :=
    isText_unitsOf (decide_eq_true rfl) (valid_flatMap_encode _)
  have hlaunch : isText (· = launchKind) (some (.str (unitsOf launchKind))) = true :=
    isText_unitsOf (decide_eq_true rfl) (valid_lit _)
  have hbytes : ∀ s, ValidUtf8 s → bytesOf (some (.str (unitsOf s))) = s := fun s hs =>
    (encode_unitsOf s).trans (sanitize_of_valid hs)
  have harguments : (r.arguments.map unitsOf).map encode = r.arguments := by
    rw [List.map_map]
    exact (List.map_congr_left fun s hs => (encode_unitsOf s).trans
      (sanitize_of_valid (h.text s (List.mem_append_right _ hs)))).trans (List.map_id _)
  have hlisted : items (get (get (some r.value) "launch") "arguments") =
      some (r.arguments.map fun argument => .str (unitsOf argument)) := by
    simp [Runtime.value, get_object, items]
  simp only [readRuntime, hvalue, hlisted]
  simp only [isRuntime, Runtime.value, get_object, List.find?_cons,
    String.reduceBEq, Option.map_some, hmajor, hpath, hlaunch,
    isText_unitsOf h.revision hrevision, isText_unitsOf h.version hversion,
    isText_unitsOf h.kind hkind, isText_unitsOf h.loader hloader,
    isText_unitsOf h.component hcomponent, isText_unitsOf h.jre hjre, hbytes _ hrevision,
    hbytes _ hversion, hbytes _ hkind, hbytes _ hloader, hbytes _ hcomponent, hbytes _ hjre,
    Option.getD_some, Option.bind_eq_bind, Option.bind_some, mapM_asString, harguments, asNumber,
    Option.isSome_some, Bool.and_true, decide_true]
  rw [if_pos]
  · rfl
  · simp only [Bool.and_eq_true]
    exact ⟨⟨⟨keysAre_object rfl, keysAre_object rfl⟩, keysAre_object rfl⟩, keysAre_object rfl⟩

theorem valid_intercalate {texts : List Bytes} (h : ∀ s ∈ texts, ValidUtf8 s) :
    ValidUtf8 ([0x20].intercalate texts) := by
  induction texts with
  | nil => exact valid_nil
  | cons s rest ih =>
    cases rest with
    | nil => simpa [List.intercalate] using h s List.mem_cons_self
    | cons u us =>
      have hrest := ih (List.forall_mem_cons.mp h).2
      have heq : [0x20].intercalate (s :: u :: us) = s ++
          ([0x20] ++ [0x20].intercalate (u :: us)) := by
        simp [List.intercalate]
      exact valid_append (h s List.mem_cons_self)
        (valid_append (valid_ascii (by decide)) hrest)

/-- **The generated files pass their own check.** -/
theorem validGenerated_of_reviewed {r : Runtime} (h : r.IsReviewed)
    (hplan : launchArguments r.minecraftVersion r.loader r.loaderVersion = .ok r.arguments)
    {launcher : Bytes} (hlauncher : generatedLauncher r.arguments = .ok launcher) :
    validGenerated (encodeJson r) launcher := by
  have hvalid : ValidUtf8 launcher := by
    unfold generatedLauncher at hlauncher
    split at hlauncher
    · cases hlauncher
      refine valid_append (valid_append (valid_lit _) ?_) (valid_lit _)
      exact valid_intercalate (List.forall_mem_append.mp h.text).2
    · cases hlauncher
  obtain ⟨t, ht⟩ := exists_decode hvalid
  unfold validGenerated
  rw [readRuntime_encodeJson h]
  dsimp only
  rw [hplan]
  dsimp only
  rw [hlauncher]
  dsimp only
  rw [ht]
  simp

/-! ## The archive -/

/-- What is listed of a file of the content. -/
structure ContentEntry where
  path : JsString
  sha256 : Bytes
  sizeBytes : Int
  mode : Int
  deriving DecidableEq

def contentEntry (entry : JsString × OutputFile) : ContentEntry :=
  ⟨entry.1, Text.sha256 entry.2.bytes, entry.2.bytes.length, entry.2.mode⟩

/-- A path that the output may have: the generated files have names the policy forbids. -/
def allowedOutputPath (toLowerCase : JsString → JsString) (path : JsString) : Bool :=
  safeOutputPath path &&
    (path = runtimePath || path = launchPath || !forbiddenOutputPath toLowerCase path)

def validateOutputFiles (toLowerCase : JsString → JsString) (files : Files) :
    Except Failure (List ContentEntry) :=
  if files.entries.length < 2 || maxOutputFiles < files.entries.length ||
      !files.sorted.all (fun entry => allowedOutputPath toLowerCase entry.1 &&
        validOutputMode entry.2.mode) ||
      !files.has runtimePath || !(files.get launchPath).any (fun file => file.mode = 0o755) ||
      !outputSizeWithinLimit (files.sorted.map fun entry => entry.2.bytes.length)
        maxPackageInputBytes then
    .error invalidOutput
  else .ok (files.sorted.map contentEntry)

/-- `validateEntryMetadata`, the loop over the entries. -/
def validEntries (toLowerCase : JsString → JsString) : List ContentEntry → JsString → Bool
  | [], _ => true
  | entry :: rest, previous =>
    allowedOutputPath toLowerCase entry.path && validSHA256 entry.sha256 &&
      isSafeInteger entry.sizeBytes && 0 ≤ entry.sizeBytes && validOutputMode entry.mode &&
      (previous.isEmpty || previous < entry.path) && validEntries toLowerCase rest entry.path

def validateEntryMetadata (toLowerCase : JsString → JsString) (entries : List ContentEntry) :
    Bool :=
  2 ≤ entries.length && entries.length ≤ maxOutputFiles && validEntries toLowerCase entries [] &&
    outputSizeWithinLimit (entries.map (·.sizeBytes)) maxPackageInputBytes

def validContentKey (value : Bytes) : Bool :=
  value ≠ [] && value.length ≤ 1024 && value.all fun b => 0x20 ≤ b && b ≠ 0x7f

structure PackagedContent where
  key : Bytes
  sha256 : Bytes
  sizeBytes : Int
  entries : List ContentEntry

structure GeneratedDescriptor where
  runtimePath : JsString
  runtimeSha256 : Bytes
  launch : Launch

def validGeneratedDescriptor (value : GeneratedDescriptor) : Bool :=
  value.runtimePath = runtimePath && validSHA256 value.runtimeSha256 &&
    value.launch.path = encode launchPath && value.launch.kind = launchKind &&
    value.launch.arguments.isEmpty

/-- An entry is in the archive as the content describes it. -/
def Files.agrees (unpacked : Files) (entry : ContentEntry) : Bool :=
  (unpacked.get entry.path).any fun actual => (actual.bytes.length : Int) = entry.sizeBytes &&
    Text.sha256 actual.bytes = lowerHex entry.sha256 && actual.mode = entry.mode

def validateImmutableContent (toLowerCase : JsString → JsString) (archive : Bytes)
    (content : PackagedContent) (descriptor : GeneratedDescriptor) : Except Failure Unit :=
  if !validContentKey content.key || content.sha256 ≠ Text.sha256 archive ||
      !isSafeInteger content.sizeBytes || content.sizeBytes ≠ archive.length ||
      !validGeneratedDescriptor descriptor ||
      !validateEntryMetadata toLowerCase content.entries then
    .error invalidOutput
  else
    match unpackDeterministicTarZst archive with
    | none => .error invalidOutput
    | some unpacked =>
      if unpacked.entries.length ≠ content.entries.length ||
          !content.entries.all unpacked.agrees then
        .error invalidOutput
      else
        match unpacked.get runtimePath, unpacked.get launchPath with
        | some runtime, some launcher =>
          if descriptor.runtimeSha256 ≠ Text.sha256 runtime.bytes ||
              !validGenerated runtime.bytes launcher.bytes then
            .error invalidOutput
          else .ok ()
        | _, _ => .error invalidOutput

/-! ## The build -/

def resolveVerifiedJre (actual : Option Jre) (expected : Jre) : Except Failure Unit :=
  match actual with
  | none => .error { code := "compiler_unavailable" }
  | some actual =>
    let found : Jre := ⟨actual.id, lowerHex actual.sha256, actual.component, actual.major,
      lowerHex actual.runtimeCatalogRevision⟩
    if found = expected then .ok () else .error { code := "compiler_unavailable" }

/-- `build`, the loop over the artifacts. -/
def fetchArtifacts (b : Builder) : List ReviewedArtifact → Except Failure Unit
  | [] => .ok ()
  | artifact :: rest => do
    let bytes ← b.download artifact
    if (bytes.length : Int) ≠ artifact.sizeBytes || Text.sha256 bytes ≠ artifact.sha256 then
      throw { code := "artifact_hash_mismatch" }
    fetchArtifacts b rest

/-- `build`, from the installer's output to the complete output. -/
def assembleOutput (b : Builder) (t : Toolchain) (arguments : List Bytes) (bundle : Bundle)
    (mods : List RemoteMod) : Except Failure Files :=
  match b.installed with
  | none => .error { code := "installer_failed" }
  | some result => do
    let files ← normalizeSandboxOutput b.toLowerCase result
    let files ← copyValidatedBundleContent b.toLowerCase bundle bundle.manifest.files files
    let files ← addRemoteMods b mods files
    let files ← addGeneratedFile files runtimePath
      ⟨encodeJson (runtimeDescriptor t arguments), 0o644⟩
    let launcher ← generatedLauncher arguments
    addGeneratedFile files launchPath ⟨launcher, 0o755⟩

/-- `build`, from the complete output to the result. -/
def packageOutput (toLowerCase : JsString → JsString) (expectedContentKey : Bytes) (files : Files) :
    Except Failure Built := do
  let entries ← validateOutputFiles toLowerCase files
  let archive ← packageDeterministicTarZst files
  let content : PackagedContent :=
    ⟨expectedContentKey, Text.sha256 archive, archive.length, entries⟩
  match entries.find? fun entry => entry.path = runtimePath with
  | none => throw invalidOutput
  | some runtime =>
    let launch : Launch := ⟨launchKind, encode launchPath, []⟩
    validateImmutableContent toLowerCase archive content ⟨runtimePath, runtime.sha256, launch⟩
    return ⟨archive, content.key, content.sha256, content.sizeBytes,
      entries.map fun entry => ⟨encode entry.path, entry.sizeBytes⟩, launch, true⟩

/-- `build`, everything before the installer's output: the toolchain, and the arguments of its
plan. -/
def Builder.prepare (b : Builder) (bundle : Bundle) (compatibility : Compatibility)
    (expectedContentKey : Bytes) : Except Failure (Toolchain × List Bytes) :=
  match b.catalog with
  | none => .error { code := "compiler_unavailable" }
  | some catalog => do
    if !b.capable then throw { code := "compiler_unavailable" }
    if !validContentKey expectedContentKey then throw { code := "invalid_builder_input" }
    let toolchain ← catalog.resolve bundle.manifest.compatibility
    if compatibility.runtimeCatalogSha256 ≠ catalog.runtimeCatalogRevision then
      throw { code := "unsupported_compatibility" }
    resolveVerifiedJre b.jre toolchain.jre
    let arguments ← launchArguments toolchain.minecraftVersion toolchain.loader
      toolchain.loaderVersion
    fetchArtifacts b toolchain.artifacts
    return (toolchain, arguments)

/-- `ReviewedRuntimeBuilder.build`, with the output it packages. -/
def Builder.build (b : Builder) (bundle : Bundle) (compatibility : Compatibility)
    (mods : List RemoteMod) (expectedContentKey : Bytes) : Except Failure (Files × Built) := do
  let (toolchain, arguments) ← b.prepare bundle compatibility expectedContentKey
  let files ← assembleOutput b toolchain arguments bundle mods
  let built ← packageOutput b.toLowerCase expectedContentKey files
  return (files, built)

/-- `CompilerWorker.run`, the two steps from the downloaded bundle to the build. -/
def Builder.compile (b : Builder) (raw : RawBundle) (job : Job) (mods : List RemoteMod) :
    Except Failure (Files × Built) := do
  let bundle ← validateBundle b.toLowerCase raw job.frozenManifest.compatibility mods
  b.build bundle job.frozenManifest.compatibility mods job.expectedContentKey

/-! ## The paths of the output -/

/-- The paths of an output: those of the installer, of the bundle's instance, of the remote mods and
of the generated files. -/
def outputPaths (installed : Files) (bundle : Bundle) (mods : List RemoteMod) : List JsString :=
  installed.paths ++
    (bundle.manifest.files.filter fun file => startsWith file.path (js "instance/")).map
      (fun file => file.path.drop (js "instance/").length) ++
    mods.map remoteModPath ++ [runtimePath, launchPath]

variable {files files' : Files} {path : JsString} {toLowerCase : JsString → JsString}
  {entries : List (JsString × OutputFile)} {bundle : Bundle} {b : Builder} {mods : List RemoteMod}
  {t : Toolchain} {arguments : List Bytes} {archive key : Bytes} {built : Built}

theorem Files.set_paths (h : files.has path = false)
    (file : OutputFile) : (files.set path file).paths = files.paths ++ [path] := by
  rw [Files.paths, Files.set_entries h, List.map_append]
  rfl

theorem Files.has_eq_false (h : path ∉ files.paths) : files.has path = false := by
  simpa [Files.has] using h

theorem entries_of_normalizeEntries (h : normalizeEntries toLowerCase entries files = .ok files')
    (hnodup : (files.paths ++ entries.map Prod.fst).Nodup) :
    files'.entries = files.entries ++ entries ∧
      ∀ entry ∈ entries, rejectionReason toLowerCase entry.1 entry.2 = none := by
  induction entries generalizing files with
  | nil =>
    cases h
    exact ⟨(List.append_nil _).symm, nofun⟩
  | cons entry rest ih =>
    obtain ⟨path, file⟩ := entry
    unfold normalizeEntries at h
    split at h
    · cases h
    next hreason =>
      have hnew : files.has path = false := Files.has_eq_false fun hmem =>
        (List.nodup_append.mp hnodup).2.2 path hmem path (by simp) rfl
      have hlist : (files.set path file).paths ++ rest.map Prod.fst =
          files.paths ++ ((path, file) :: rest).map Prod.fst := by
        rw [Files.set_paths hnew file, List.append_assoc]
        rfl
      obtain ⟨hentries, hreasons⟩ := ih h (hlist ▸ hnodup)
      refine ⟨?_, List.forall_mem_cons.mpr ⟨hreason, hreasons⟩⟩
      rw [hentries, Files.set_entries hnew, List.append_assoc]
      rfl

/-- A file of the bundle as it is in the output: under its path in the instance, with its bytes, of
which the manifest has the digest. -/
structure IsCopy (bundle : Bundle) (file : BundleFile) (entry : JsString × OutputFile) : Prop where
  path : entry.1 = file.path.drop (js "instance/").length
  bytes : bundle.get file.path = some entry.2.bytes
  digest : Text.sha256 entry.2.bytes = file.sha256

theorem entries_of_copy {list : List BundleFile}
    (h : copyValidatedBundleContent toLowerCase bundle list files = .ok files') :
    ∃ copies, files'.entries = files.entries ++ copies ∧ List.Forall₂ (IsCopy bundle)
        (list.filter fun file => startsWith file.path (js "instance/")) copies := by
  induction list generalizing files with
  | nil =>
    cases h
    exact ⟨[], (List.append_nil _).symm, .nil⟩
  | cons file rest ih =>
    simp only [copyValidatedBundleContent] at h
    split at h
    next hstart =>
      rw [List.filter_cons_of_neg (by simpa using hstart)]
      exact ih h
    next hstart =>
      rw [List.filter_cons_of_pos (by simpa using hstart)]
      split at h
      · cases h
      next source hsource =>
        split at h
        · cases h
        next hok =>
          simp only [ne_eq, Bool.or_eq_true, decide_eq_true_eq, not_or, Bool.not_eq_true,
            not_not] at hok
          obtain ⟨copies, hentries, hcopies⟩ := ih h
          have hcopy : IsCopy bundle file
              (file.path.drop (js "instance/").length, ⟨source, 0o644⟩) :=
            ⟨rfl, hsource, hok.1.1.1.2⟩
          refine ⟨_ :: copies, ?_, .cons hcopy hcopies⟩
          rw [hentries, Files.set_entries hok.2, List.append_assoc]
          rfl

/-- A remote mod as it is in the output: under its file name, with the bytes that were downloaded,
of which the frozen manifest has the digest. -/
structure IsDownload (b : Builder) (mod : RemoteMod) (entry : JsString × OutputFile) : Prop where
  path : entry.1 = remoteModPath mod
  bytes : b.downloadRemoteMod mod = .ok entry.2.bytes
  digest : Text.sha256 entry.2.bytes = mod.sha256

theorem entries_of_addMods {destinations : List JsString}
    (h : addMods b mods destinations files = .ok files')
    (hdest : ∀ path ∈ files.paths, b.toLowerCase (b.normalize path) ∈ destinations) :
    ∃ downloads, files'.entries = files.entries ++ downloads ∧
      List.Forall₂ (IsDownload b) mods downloads := by
  induction mods generalizing destinations files with
  | nil =>
    cases h
    exact ⟨[], (List.append_nil _).symm, .nil⟩
  | cons mod rest ih =>
    obtain ⟨-, -, h⟩ := bind_eq_ok h
    simp only at h
    split at h
    · cases h
    next hok =>
      simp only [Bool.or_eq_true, not_or, Bool.not_eq_true, List.contains_eq_mem,
        decide_eq_false_iff_not] at hok
      obtain ⟨bytes, hbytes, h⟩ := bind_eq_ok h
      split at h
      · cases h
      next hdigest =>
        simp only [ne_eq, Bool.or_eq_true, decide_eq_true_eq, not_or, not_not] at hdigest
        -- A path that is there has its folded form among the destinations.
        have hnew : files.has (remoteModPath mod) = false :=
          Files.has_eq_false fun hmem => hok.1.1 (hdest _ hmem)
        have hdest' : ∀ path ∈ (files.set (remoteModPath mod) ⟨bytes, 0o644⟩).paths,
            b.toLowerCase (b.normalize path) ∈
              b.toLowerCase (b.normalize (remoteModPath mod)) :: destinations := by
          intro path hpath
          rw [Files.set_paths hnew, List.mem_append, List.mem_singleton] at hpath
          rcases hpath with hpath | rfl
          · exact List.mem_cons_of_mem _ (hdest path hpath)
          · exact List.mem_cons_self
        obtain ⟨downloads, hentries, hdownloads⟩ := ih h hdest'
        have hdownload : IsDownload b mod (remoteModPath mod, ⟨bytes, 0o644⟩) :=
          ⟨rfl, hbytes, hdigest.2⟩
        refine ⟨_ :: downloads, ?_, .cons hdownload hdownloads⟩
        rw [hentries, Files.set_entries hnew, List.append_assoc]
        rfl

theorem entries_of_addGeneratedFile {file : OutputFile}
    (h : addGeneratedFile files path file = .ok files') :
    files'.entries = files.entries ++ [(path, file)] := by
  unfold addGeneratedFile at h
  split at h
  · cases h
  next hnew =>
    cases h
    exact Files.set_entries (by simpa using hnew) file

/-- What a complete output is made of. Its paths differ, as those of a map do, so that the parts are
apart. -/
structure Assembled (b : Builder) (installed : Files) (bundle : Bundle) (mods : List RemoteMod)
    (runtime launcher : OutputFile) (copies downloads : List (JsString × OutputFile))
    (files : Files) : Prop where
  entries : files.entries = installed.entries ++ copies ++ downloads ++
    [(runtimePath, runtime), (launchPath, launcher)]
  accepted : ∀ entry ∈ installed.entries, rejectionReason b.toLowerCase entry.1 entry.2 = none
  copied : List.Forall₂ (IsCopy bundle)
    (bundle.manifest.files.filter fun file => startsWith file.path (js "instance/")) copies
  downloaded : List.Forall₂ (IsDownload b) mods downloads

/-- **A complete output** is assembled from the inputs. -/
theorem assembled_of_assembleOutput (h : assembleOutput b t arguments bundle mods = .ok files) :
    ∃ result launcher copies downloads, b.installed = some result ∧
      generatedLauncher arguments = .ok launcher ∧
      Assembled b result.files bundle mods ⟨encodeJson (runtimeDescriptor t arguments), 0o644⟩
        ⟨launcher, 0o755⟩ copies downloads files := by
  unfold assembleOutput at h
  split at h
  · cases h
  next result hinstalled =>
    obtain ⟨normalized, hnormal, h⟩ := bind_eq_ok h
    obtain ⟨copied, hcopy, h⟩ := bind_eq_ok h
    obtain ⟨modded, hmods, h⟩ := bind_eq_ok h
    obtain ⟨withRuntime, hruntime, h⟩ := bind_eq_ok h
    obtain ⟨launcher, hlauncher, hlaunch⟩ := bind_eq_ok h
    have hnormalized : normalized.entries = result.files.entries ∧
        ∀ entry ∈ result.files.entries, rejectionReason b.toLowerCase entry.1 entry.2 = none := by
      unfold normalizeSandboxOutput at hnormal
      split at hnormal
      · cases hnormal
      split at hnormal
      · cases hnormal
      exact entries_of_normalizeEntries hnormal result.files.nodup
    obtain ⟨copies, hcopied, hcopies⟩ := entries_of_copy hcopy
    have hdownload : ∃ downloads, modded.entries = copied.entries ++ downloads ∧
        List.Forall₂ (IsDownload b) mods downloads := by
      unfold addRemoteMods at hmods
      split at hmods
      · cases hmods
      exact entries_of_addMods hmods fun path hpath => List.mem_map_of_mem hpath
    obtain ⟨downloads, hmodded, hdownloads⟩ := hdownload
    refine ⟨result, launcher, copies, downloads, hinstalled, hlauncher, ?_, hnormalized.2, hcopies,
      hdownloads⟩
    rw [entries_of_addGeneratedFile hlaunch, entries_of_addGeneratedFile hruntime, hmodded, hcopied,
      hnormalized.1, List.append_assoc]
    rfl

theorem map_fst_of_forall₂ {α : Type} {R : α → JsString × OutputFile → Prop} {f : α → JsString}
    {l : List α} (hR : ∀ a entry, R a entry → entry.1 = f a)
    (h : List.Forall₂ R l entries) : entries.map Prod.fst = l.map f := by
  induction h with
  | nil => rfl
  | cons hhead _ ih => rw [List.map_cons, List.map_cons, hR _ _ hhead, ih]

/-- **The paths of a complete output** are those the inputs give. -/
theorem paths_of_assembleOutput (h : assembleOutput b t arguments bundle mods = .ok files) :
    ∃ result, b.installed = some result ∧ files.paths = outputPaths result.files bundle mods := by
  obtain ⟨result, launcher, copies, downloads, hinstalled, -, hfiles⟩ :=
    assembled_of_assembleOutput h
  refine ⟨result, hinstalled, ?_⟩
  rw [Files.paths, hfiles.entries]
  simp only [List.map_append, map_fst_of_forall₂ (fun _ _ h => h.path) hfiles.copied,
    map_fst_of_forall₂ (fun _ _ h => h.path) hfiles.downloaded]
  rfl

/-! ## What a build guarantees -/

theorem sum_le_of_sizesWithin {maximum total : Int} {sizes : List Int}
    (h : sizesWithin maximum sizes total) (htotal : total ≤ maximum) :
    total + sizes.sum ≤ maximum := by
  induction sizes generalizing total with
  | nil => simpa using htotal
  | cons size rest ih =>
    simp only [sizesWithin, Bool.and_eq_true, decide_eq_true_eq] at h
    have := ih h.2 h.1.2
    rw [List.sum_cons]
    omega

/-- An archive is not empty, and has at most the bytes the limit allows. -/
theorem length_of_packaged (h : packageDeterministicTarZst files = .ok archive) :
    0 < archive.length ∧ archive.length ≤ maxPackageArchiveBytes := by
  obtain ⟨tar, -, h⟩ := bind_eq_ok h
  simp only [rawZstd] at h
  split at h
  · cases h
  split at h
  · cases h
  next hbound =>
    cases h
    exact ⟨by simp, Nat.le_of_not_lt hbound⟩

theorem mem_paths_of_get {file : OutputFile}
    (h : files.get path = some file) : path ∈ files.paths := by
  obtain ⟨entry, hentry, rfl⟩ := Option.map_eq_some_iff.mp h
  have hpath : entry.1 = path := by simpa using List.find?_some hentry
  exact hpath ▸ List.mem_map_of_mem (List.mem_of_find?_eq_some hentry)

/-- What a build guarantees of the output it packages and of its result. -/
structure Packaged (key : Bytes) (files : Files) (built : Built) : Prop where
  key : built.key = key
  digest : built.sha256 = Text.sha256 built.archive
  size : built.sizeBytes = built.archive.length
  bound : 0 < built.archive.length ∧ built.archive.length ≤ maxPackageArchiveBytes
  entries : built.entries = files.sorted.map fun entry => ⟨encode entry.1, entry.2.bytes.length⟩
  safe : ∀ path ∈ files.paths, safeOutputPath path
  text : ∀ path ∈ files.paths, IsText path ∧ 0 ∉ path
  runtime : runtimePath ∈ files.paths
  launch : launchPath ∈ files.paths
  count : files.entries.length ≤ maxOutputFiles
  total : (files.sorted.map fun entry => (entry.2.bytes.length : Int)).sum ≤ maxPackageInputBytes

/-- The archive was read back: every entry of the content is one of its files. -/
theorem text_of_validateImmutableContent
    {content : PackagedContent} {descriptor : GeneratedDescriptor}
    (h : validateImmutableContent toLowerCase archive content descriptor = .ok ()) :
    ∀ entry ∈ content.entries, IsText entry.path ∧ 0 ∉ entry.path := by
  unfold validateImmutableContent at h
  split at h
  · cases h
  split at h
  · cases h
  next unpacked hunpacked =>
    split at h
    · cases h
    next hok =>
      simp only [Bool.or_eq_true, not_or, Bool.not_eq_true, Bool.not_eq_false',
        List.all_eq_true] at hok
      intro entry hentry
      have hagrees := hok.2 entry hentry
      unfold Files.agrees at hagrees
      obtain ⟨file, hfile⟩ : ∃ file, unpacked.get entry.path = some file :=
        Option.isSome_iff_exists.mp (by
          cases hget : unpacked.get entry.path with
          | none => simp [hget] at hagrees
          | some file => rfl)
      exact mem_unpackDeterministicTarZst hunpacked _ (mem_paths_of_get hfile)

theorem packaged_of_packageOutput (h : packageOutput toLowerCase key files = .ok built) :
    Packaged key files built := by
  obtain ⟨entries, hentries, h⟩ := bind_eq_ok h
  obtain ⟨archive, harchive, h⟩ := bind_eq_ok h
  split at h
  · cases h
  next runtime _ =>
    obtain ⟨⟨⟩, hvalid, h⟩ := bind_eq_ok h
    cases h
    unfold validateOutputFiles at hentries
    split at hentries
    · cases hentries
    next hok =>
      cases hentries
      simp only [Bool.or_eq_true, not_or, Bool.not_eq_true, Bool.not_eq_false', decide_eq_true_eq,
        List.all_eq_true, Bool.and_eq_true, not_lt] at hok
      obtain ⟨⟨⟨⟨⟨-, hcount⟩, hall⟩, hruntime⟩, hlaunch⟩, htotal⟩ := hok
      have hmem : ∀ path ∈ files.paths, ∃ entry ∈ files.sorted, entry.1 = path := by
        intro path hpath
        obtain ⟨entry, hentry, rfl⟩ := List.mem_map.mp hpath
        exact ⟨entry, files.sorted_perm.mem_iff.mpr hentry, rfl⟩
      refine ⟨rfl, rfl, rfl, length_of_packaged harchive, ?_, ?_, ?_, ?_, ?_, hcount, ?_⟩
      · rw [List.map_map]
        rfl
      · intro path hpath
        obtain ⟨entry, hentry, rfl⟩ := hmem path hpath
        have := (hall entry hentry).1
        simp only [allowedOutputPath, Bool.and_eq_true] at this
        exact this.1
      · intro path hpath
        obtain ⟨entry, hentry, rfl⟩ := hmem path hpath
        exact text_of_validateImmutableContent hvalid _ (List.mem_map_of_mem hentry)
      · simpa [Files.has] using hruntime
      · obtain ⟨file, hfile⟩ : ∃ file, files.get launchPath = some file :=
          Option.isSome_iff_exists.mp (by
            cases hget : files.get launchPath with
            | none => simp [hget] at hlaunch
            | some file => rfl)
        exact mem_paths_of_get hfile
      · simp only [outputSizeWithinLimit, Bool.and_eq_true] at htotal
        simpa using sum_le_of_sizesWithin htotal.2 (by decide)

theorem parts_of_build {compatibility : Compatibility}
    (h : b.build bundle compatibility mods key = .ok (files, built)) :
    ∃ t arguments, assembleOutput b t arguments bundle mods = .ok files ∧
      packageOutput b.toLowerCase key files = .ok built := by
  obtain ⟨⟨t, arguments⟩, -, h⟩ := bind_eq_ok h
  obtain ⟨output, houtput, h⟩ := bind_eq_ok h
  obtain ⟨result, hresult, h⟩ := bind_eq_ok h
  obtain ⟨rfl, rfl⟩ := Prod.mk.inj (Except.ok.inj h)
  exact ⟨t, arguments, houtput, hresult⟩

/-- **A build that succeeds** has the paths its inputs give and is packaged as it says. -/
theorem packaged_of_build {compatibility : Compatibility}
    (h : b.build bundle compatibility mods key = .ok (files, built)) :
    (∃ result, b.installed = some result ∧ files.paths = outputPaths result.files bundle mods) ∧
      Packaged key files built := by
  obtain ⟨toolchain, arguments, houtput, hresult⟩ := parts_of_build h
  exact ⟨paths_of_assembleOutput houtput, packaged_of_packageOutput hresult⟩

theorem compile_eq_ok {raw : RawBundle} {job : Job}
    (hbundle : validateBundle b.toLowerCase raw job.frozenManifest.compatibility mods = .ok bundle)
    (hprepare : b.prepare bundle job.frozenManifest.compatibility job.expectedContentKey =
      .ok (t, arguments))
    (houtput : assembleOutput b t arguments bundle mods = .ok files)
    (hpackage : packageOutput b.toLowerCase job.expectedContentKey files = .ok built) :
    b.compile raw job mods = .ok (files, built) := by
  simp only [Builder.compile, hbundle, Builder.build, hprepare, houtput, hpackage, bind,
    Except.bind, pure, Except.pure]

structure ReadsBack (files : Files) (archive : Bytes) (unpacked : Files) : Prop where
  packaged : packageDeterministicTarZst files = .ok archive
  read : unpackDeterministicTarZst archive = some unpacked
  entries : unpacked.entries = files.sorted

theorem get_of_entries {unpacked : Files} (h : unpacked.entries = files.sorted)
    {entry : JsString × OutputFile} (hentry : entry ∈ files.sorted) :
    unpacked.get entry.1 = some entry.2 := by
  rw [← h] at hentry
  have hnodup := unpacked.nodup
  unfold Files.get
  generalize unpacked.entries = l at hentry hnodup
  induction l with
  | nil => cases hentry
  | cons first rest ih =>
    rw [List.map_cons, List.nodup_cons] at hnodup
    rcases List.mem_cons.mp hentry with rfl | hrest
    · simp
    · have hne : first.1 ≠ entry.1 := fun heq => hnodup.1 (heq ▸ List.mem_map_of_mem hrest)
      rw [List.find?_cons_of_neg (by simpa using hne)]
      exact ih hrest hnodup.2

theorem lowerHex_sha256 (bytes : Bytes) : lowerHex (Text.sha256 bytes) = Text.sha256 bytes := by
  have hall := List.all_eq_true.mp
    (sha256_all (p := fun b => !(0x41 ≤ b && b ≤ 0x5a)) (by decide) bytes)
  conv_rhs => rw [← List.map_id (Text.sha256 bytes)]
  refine List.map_congr_left fun b hb => ?_
  have := hall b hb
  rw [Bool.not_eq_true'] at this
  simp [this]

theorem Files.pairwise_sorted (files : Files) :
    files.sorted.Pairwise fun left right => left.1 < right.1 := by
  have hle : files.sorted.Pairwise fun left right => left.1 ≤ right.1 :=
    List.pairwise_insertionSort (fun left right : JsString × OutputFile => left.1 ≤ right.1) _
  have hnodup : (files.sorted.map Prod.fst).Nodup :=
    (files.sorted_perm.map Prod.fst).nodup_iff.mpr files.nodup
  have hne : files.sorted.Pairwise fun left right => left.1 ≠ right.1 := List.pairwise_map.mp hnodup
  refine (hle.and hne).imp fun h => ?_
  by_contra hlt
  exact h.2 (List.le_antisymm h.1 (List.not_lt.mp hlt))

theorem validEntries_of_sorted {previous : JsString}
    (hall : ∀ entry ∈ entries, allowedOutputPath toLowerCase entry.1 &&
      validOutputMode entry.2.mode)
    (hsizes : ∀ entry ∈ entries, isSafeInteger (entry.2.bytes.length : Int))
    (hsorted : entries.Pairwise fun left right => left.1 < right.1)
    (hprevious : ∀ entry ∈ entries, previous.isEmpty || previous < entry.1) :
    validEntries toLowerCase (entries.map contentEntry) previous := by
  induction entries generalizing previous with
  | nil => rfl
  | cons entry rest ih =>
    rw [List.pairwise_cons] at hsorted
    have hrest : validEntries toLowerCase (rest.map contentEntry) entry.1 :=
      ih (List.forall_mem_cons.mp hall).2
        (List.forall_mem_cons.mp hsizes).2 hsorted.2
        fun e he => by simp [hsorted.1 e he]
    have hentry := hall entry List.mem_cons_self
    rw [Bool.and_eq_true] at hentry
    simp only [List.map_cons, validEntries, contentEntry, hentry.1, hentry.2, validSHA256_sha256,
      hsizes entry List.mem_cons_self, Int.natCast_nonneg, decide_true, Bool.and_true,
      Bool.true_and, hprevious entry List.mem_cons_self]
    exact hrest

theorem isSafeInteger_of_sizesWithin {maximum total : Int} {sizes : List Int}
    (h : sizesWithin maximum sizes total) : ∀ size ∈ sizes, isSafeInteger size := by
  induction sizes generalizing total with
  | nil => exact fun _ hsize => absurd hsize List.not_mem_nil
  | cons size rest ih =>
    simp only [sizesWithin, Bool.and_eq_true] at h
    intro s hs
    rcases List.mem_cons.mp hs with rfl | hs
    · exact h.1.1.1.1.1
    · exact ih h.2 s hs

/-- **The entries of a valid output** pass their own check. -/
theorem validateEntryMetadata_of_output (h : (validateOutputFiles toLowerCase files).isOk) :
    validateEntryMetadata toLowerCase (files.sorted.map contentEntry) := by
  unfold validateOutputFiles at h
  split at h
  · simp [Except.isOk, Except.toBool] at h
  next hok =>
    simp only [Bool.or_eq_true, not_or, Bool.not_eq_true, Bool.not_eq_false', decide_eq_true_eq,
      not_lt, List.all_eq_true] at hok
    obtain ⟨⟨⟨⟨⟨hleast, hcount⟩, hall⟩, -⟩, -⟩, htotal⟩ := hok
    have hlength : (files.sorted.map contentEntry).length = files.entries.length := by
      rw [List.length_map, files.sorted_perm.length_eq]
    have hsizes : (files.sorted.map contentEntry).map (·.sizeBytes) =
        files.sorted.map fun entry => (entry.2.bytes.length : Int) := by
      rw [List.map_map]
      rfl
    have hwithin := htotal
    simp only [outputSizeWithinLimit, Bool.and_eq_true] at hwithin
    have hvalid : validEntries toLowerCase (files.sorted.map contentEntry) [] :=
      validEntries_of_sorted (fun entry he => hall entry he)
        (fun entry he => isSafeInteger_of_sizesWithin hwithin.2 _
          (List.mem_map_of_mem (f := fun e : JsString × OutputFile => (e.2.bytes.length : Int)) he))
        files.pairwise_sorted fun _ _ => rfl
    simp only [validateEntryMetadata, hlength, hsizes, hvalid, htotal, hleast, hcount, decide_true,
      Bool.and_self]

theorem packageOutput_eq_ok {unpacked : Files} {runtime launcher : OutputFile}
    (hkey : validContentKey key) (hfiles : (validateOutputFiles toLowerCase files).isOk)
    (hback : ReadsBack files archive unpacked)
    (hruntime : (runtimePath, runtime) ∈ files.sorted)
    (hlauncher : (launchPath, launcher) ∈ files.sorted)
    (hgenerated : validGenerated runtime.bytes launcher.bytes) :
    ∃ built, packageOutput toLowerCase key files = .ok built ∧ built.archive = archive := by
  have hentries := validateEntryMetadata_of_output hfiles
  have hsize : isSafeInteger archive.length := by
    have hlength := length_of_packaged hback.packaged
    simp only [maxPackageArchiveBytes] at hlength
    simp only [isSafeInteger, Bool.and_eq_true, decide_eq_true_eq]
    omega
  have houtput : validateOutputFiles toLowerCase files = .ok (files.sorted.map contentEntry) := by
    unfold validateOutputFiles at hfiles ⊢
    split
    next h =>
      rw [if_pos h] at hfiles
      exact Bool.noConfusion hfiles
    · rfl
  have hget : unpacked.get runtimePath = some runtime := get_of_entries hback.entries hruntime
  have hgetLauncher : unpacked.get launchPath = some launcher :=
    get_of_entries hback.entries hlauncher
  -- The entry that is found for the runtime document is the one of its file.
  obtain ⟨found, hfound, hdigest⟩ : ∃ found,
      (files.sorted.map contentEntry).find? (fun entry => entry.path = runtimePath) = some found ∧
        found.sha256 = Text.sha256 runtime.bytes := by
    cases hf : (files.sorted.map contentEntry).find? (fun entry => entry.path = runtimePath) with
    | none =>
      have := List.find?_eq_none.mp hf _ (List.mem_map_of_mem hruntime)
      simp [contentEntry] at this
    | some found =>
      refine ⟨found, rfl, ?_⟩
      obtain ⟨entry, hentry, rfl⟩ := List.mem_map.mp (List.mem_of_find?_eq_some hf)
      have hfirst := List.find?_some hf
      have hpath : entry.1 = runtimePath := of_decide_eq_true hfirst
      have hsame := get_of_entries hback.entries hentry
      rw [hpath, hget] at hsame
      exact congrArg (fun file : OutputFile => Text.sha256 file.bytes) (Option.some.inj hsame).symm
  have hagrees : (files.sorted.map contentEntry).all unpacked.agrees = true := by
    rw [List.all_eq_true]
    intro entry hentry
    obtain ⟨e, he, rfl⟩ := List.mem_map.mp hentry
    simp [Files.agrees, contentEntry, get_of_entries hback.entries he, lowerHex_sha256]
  have hcount : unpacked.entries.length = (files.sorted.map contentEntry).length := by
    rw [hback.entries, List.length_map]
  have hvalid : validateImmutableContent toLowerCase archive
      ⟨key, Text.sha256 archive, archive.length, files.sorted.map contentEntry⟩
      ⟨runtimePath, found.sha256, ⟨launchKind, encode launchPath, []⟩⟩ = .ok () := by
    rw [hdigest]
    have hdescriptor : validGeneratedDescriptor ⟨runtimePath, Text.sha256 runtime.bytes,
        ⟨launchKind, encode launchPath, []⟩⟩ = true := by
      simp [validGeneratedDescriptor, validSHA256_sha256]
    simp [validateImmutableContent, hkey, hsize, hdescriptor, hentries, hback.read, hcount,
      hagrees, hget, hgetLauncher, hgenerated]
  refine ⟨⟨archive, key, Text.sha256 archive, archive.length,
    (files.sorted.map contentEntry).map fun entry => ⟨encode entry.path, entry.sizeBytes⟩,
    ⟨launchKind, encode launchPath, []⟩, true⟩, ?_, rfl⟩
  unfold packageOutput
  rw [houtput, hback.packaged]
  simp only [bind, Except.bind, hfound, hvalid]
  rfl

end SharedNode.Compiler
