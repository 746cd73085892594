import SharedNode.Compiler.Builder
import SharedNode.Text.Stringify

/-!
# The two readers of the toolchain catalog

A catalog document is validated when it is generated (`validateToolchainCatalog` in
`compiler/src/toolchain-catalog.mjs`, against the bytes of the runtime catalog) and read when the
compiler starts (`ReviewedToolchainCatalog` in `compiler/src/reviewed-builder.mjs`). The document is
a value of `JSON.parse`; the URL parser and the JSON parser of the engine are parameters
(`Engine`). The first reader works on the canonical form of the document, the second on the
document.

The readers differ: the second has a bound on the number of toolchains, wants no members in `java`
but the two it knows, and no artifact twice.
-/

namespace SharedNode.Compiler.Catalog

open Text JsValue

structure Url where
  protocol : JsString
  username : JsString := []
  password : JsString := []
  hostname : JsString
  port : JsString := []
  pathname : JsString
  search : JsString := []
  hash : JsString := []
  deriving DecidableEq, Repr

/-- What the engine provides: `JSON.parse` of decoded bytes, and `new URL`; `none` when they
throw. -/
structure Engine where
  parseJson : Bytes → Option JsValue
  parseUrl : JsString → Option Url

/-! ## Checks both readers make -/

/-- A safe integer in a range. -/
def isCount (least most : Int) (v : Option JsValue) : Bool :=
  (safeInteger v).any fun n => least ≤ n && n ≤ most

/-- `toLowerCase`, for texts in ASCII. -/
def toLowerCase (s : JsString) : JsString :=
  s.map fun u => if 0x41 ≤ u && u ≤ 0x5a then u + 0x20 else u

def loaderTemplate (kind : JsString) : Option JsString :=
  if kind = js "forge" then some (js "forge-unix-args-v1")
  else if kind = js "fabric" then some (js "fabric-server-jar-v1")
  else if kind = js "neoforge" then some (js "neoforge-unix-args-v1")
  else if kind = js "quilt" then some (js "quilt-server-jar-v1")
  else none

/-- `validLoader`. A kind that is no string but prints as one is refused by the source a little
later, by the coordinate of the primary artifact. -/
def validLoader (v : Option JsValue) : Bool :=
  keysAre ["kind", "version"] v &&
    (asString (get v "kind")).any (fun kind => (loaderTemplate kind).isSome) &&
    isText validLoaderVersion (get v "version")

def hasLaunchTemplate (t : Option JsValue) : Bool :=
  (asString (get (get t "loader") "kind")).any fun kind =>
    (loaderTemplate kind).isSome && asString (get t "launchTemplate") = loaderTemplate kind

def isPart (extra : String) (s : Bytes) : Bool :=
  s ≠ [] && s.all fun b => isAlnumByte b || (lit extra).contains b

def validCoordinate (s : Bytes) : Bool :=
  decide (s.length ≤ 256) &&
    match s.splitOn 0x3a with
    | [group, name, version] => isPart "_.-" group && isPart "_.-" name && isPart "._+-" version
    | [group, name, version, classifier] =>
      isPart "_.-" group && isPart "_.-" name && isPart "._+-" version && isPart "_.-" classifier
    | _ => false

def isArtifact (a : Option JsValue) : Bool :=
  keysAre ["coordinate", "role", "sha256", "sizeBytes", "url"] a &&
    (asString (get a "role") = some (js "primary") ||
      asString (get a "role") = some (js "dependency")) &&
    isText validCoordinate (get a "coordinate") && isText validSHA256 (get a "sha256") &&
    isCount 1 maxArtifactBytes (get a "sizeBytes")

/-- The URL is one of an approved host, over HTTPS and with nothing but a host, a path and perhaps a
query. -/
def isApproved (hosts : List JsString) (u : Url) : Bool :=
  u.protocol = js "https:" && u.username = [] && u.password = [] && u.hash = [] && u.port = [] &&
    hosts.contains (toLowerCase u.hostname)

def toolchainKeys : List String :=
  ["artifacts", "java", "jre", "launchTemplate", "loader", "minecraftVersion"]

def jreKeys : List String := ["component", "id", "major", "runtimeCatalogRevision", "sha256"]

/-- `primaryCoordinate` and `expectedPrimaryCoordinate`. -/
def primaryCoordinate (minecraftVersion kind version : JsString) : Option JsString :=
  if kind = js "forge" then
    some (js "net.minecraftforge:forge:" ++ minecraftVersion ++ js "-" ++ version ++
      js ":installer")
  else if kind = js "fabric" then some (js "net.fabricmc:fabric-loader:" ++ version)
  else if kind = js "neoforge" then
    some (js "net.neoforged:neoforge:" ++ version ++ js ":installer")
  else if kind = js "quilt" then some (js "org.quiltmc:quilt-loader:" ++ version)
  else none

/-- A value in a template literal. -/
def textOf : Option JsValue → JsString
  | some (.str s) => s
  | some (.num t) => t.map (·.toUInt16)
  | _ => []

def javaKey (java : Option JsValue) : JsString :=
  textOf (get java "component") ++ 0 :: textOf (get java "major")

/-- `candidateKey`, the compatibility tuple of a toolchain. -/
def candidateKey (t : Option JsValue) : JsString :=
  textOf (get t "minecraftVersion") ++ 0 :: (textOf (get (get t "loader") "kind") ++
    0 :: (textOf (get (get t "loader") "version") ++ 0 :: javaKey (get t "java")))

def artifactsOf (t : Option JsValue) : List JsValue := (items (get t "artifacts")).getD []

/-- The primary artifacts of a toolchain. -/
def primariesOf (t : Option JsValue) : List JsValue :=
  (artifactsOf t).filter fun a => asString (get (some a) "role") = some (js "primary")

/-- There is one primary artifact, and it has the coordinate the loader asks for. -/
def hasPrimary (t : Option JsValue) : Bool :=
  match primariesOf t with
  | [a] =>
    (asString (get (some a) "coordinate")).isSome &&
      asString (get (some a) "coordinate") = primaryCoordinate (textOf (get t "minecraftVersion"))
        (textOf (get (get t "loader") "kind")) (textOf (get (get t "loader") "version"))
  | _ => false

def digest (bytes : Bytes) : JsString := (sha256 bytes).map (·.toUInt16)

/-- The bytes a revision is the digest of. -/
def canonicalJsonBytes (v : JsValue) : Bytes := encode (stringify (canonicalize v))

def zeroSHA256 : JsString := List.replicate 64 0x30

/-- The digest of a catalog whose revision is zeroed. -/
def catalogRevisionFor (document : JsValue) : JsString :=
  digest (canonicalJsonBytes (spread "catalogRevision" (.str zeroSHA256) document))

/-- Checks with the codes of their failures, made in order. -/
def checks : List (Bool × String) → Except String Unit
  | [] => .ok ()
  | (passed, code) :: rest => if passed then checks rest else .error code

theorem checks_eq_ok {l : List (Bool × String)} : checks l = .ok () ↔ ∀ c ∈ l, c.1 = true := by
  induction l with
  | nil => simp [checks]
  | cons c rest ih =>
    obtain ⟨passed, code⟩ := c
    cases passed with
    | true => simp [checks, ih]
    | false => simp [checks]

/-! ## `validateToolchainCatalog` -/

def approvedArtifactHosts : List JsString :=
  [js "maven.fabricmc.net", js "maven.minecraftforge.net", js "maven.neoforged.net",
   js "maven.quiltmc.org", js "libraries.minecraft.net", js "piston-data.mojang.com"]

/-- `validJava`. Members beside the two are let through. -/
def validJava (v : Option JsValue) : Bool :=
  isObject v && isText validIdentifier (get v "component") && isCount 1 255 (get v "major")

def validJre (v : Option JsValue) : Bool :=
  keysAre jreKeys v && isText validIdentifier (get v "id") &&
    isText validIdentifier (get v "component") &&
    isCount 1 (2 ^ 53) (get v "major") && isText validSHA256 (get v "sha256") &&
    isText validSHA256 (get v "runtimeCatalogRevision")

structure RuntimeCatalog where
  revision : JsString
  selected : List JsString
  resolutions : List (JsString × JsValue)

def parseReviewedRuntimeCatalog (E : Engine) (bytes : Bytes) : Except String RuntimeCatalog :=
  let document := E.parseJson bytes
  let platform := get document "platform"
  match items (get document "requirements"), items (get document "runtimes"),
    items (get document "resolutions") with
  | some requirements, some runtimes, some resolutions =>
    let required := requirements.map fun v => javaKey (some v)
    let resolved := resolutions.map fun v => javaKey (some v)
    let selected := runtimes.map fun v => javaKey (some v)
    if asNumber (get document "schemaVersion") = some (lit "1") ∧
        asString (get platform "os") = some (js "linux") ∧
        asString (get platform "architecture") = some (js "x64") ∧
        (∀ v ∈ requirements ++ resolutions ++ runtimes, validJava (some v) = true) ∧
        required.Nodup ∧ resolved.Nodup ∧ selected.Nodup ∧
        selected.all (fun key => required.contains key && resolved.contains key) then
      .ok { revision := digest bytes, selected,
            resolutions := resolutions.map fun v => (javaKey (some v), canonicalize v) }
    else .error "runtime_catalog_malformed"
  | _, _, _ => .error "runtime_catalog_malformed"

/-- `jreFor`, for a Java that was selected. -/
def jreFor (runtime : RuntimeCatalog) (java : Option JsValue) : JsValue :=
  let resolution := ((runtime.resolutions.find? fun r => r.1 == javaKey java).map (·.2)).getD .null
  .obj [(js "id", .str (textOf (get java "component") ++ js "-" ++ textOf (get java "major"))),
        (js "sha256", .str (digest (canonicalJsonBytes resolution))),
        (js "component", (get java "component").getD .null),
        (js "major", (get java "major").getD .null),
        (js "runtimeCatalogRevision", .str runtime.revision)]

def primaryArtifactUrl (minecraftVersion kind version : JsString) : Option JsString :=
  let both := minecraftVersion ++ js "-" ++ version
  if kind = js "forge" then
    some (js "https://maven.minecraftforge.net/net/minecraftforge/forge/" ++ both ++ js "/forge-" ++
      both ++ js "-installer.jar")
  else if kind = js "fabric" then
    some (js "https://maven.fabricmc.net/net/fabricmc/fabric-loader/" ++ version ++
      js "/fabric-loader-" ++ version ++ js ".jar")
  else if kind = js "neoforge" then
    some (js "https://maven.neoforged.net/releases/net/neoforged/neoforge/" ++ version ++
      js "/neoforge-" ++ version ++ js "-installer.jar")
  else if kind = js "quilt" then
    some (js "https://maven.quiltmc.org/repository/release/org/quiltmc/quilt-loader/" ++ version ++
      js "/quilt-loader-" ++ version ++ js ".jar")
  else none

/-- The Minecraft server among the artifacts. -/
def serversOf (t : Option JsValue) : List JsValue :=
  let coordinate :=
    js "com.mojang:minecraft-server:" ++ textOf (get t "minecraftVersion") ++ js ":server"
  (artifactsOf t).filter fun a => asString (get (some a) "coordinate") = some coordinate

/-- The primary artifact comes from where the loader is published, and there is one server. -/
def hasRequiredArtifacts (t : Option JsValue) : Bool :=
  hasPrimary t && (serversOf t).length = 1 &&
    (primariesOf t).all fun a => asString (get (some a) "url") =
      primaryArtifactUrl (textOf (get t "minecraftVersion")) (textOf (get (get t "loader") "kind"))
        (textOf (get (get t "loader") "version"))

def sortArtifacts (artifacts : List JsValue) : List JsValue :=
  let coordinate := fun a => textOf (get (some a) "coordinate")
  let role := fun a => textOf (get (some a) "role")
  artifacts.insertionSort fun a b => coordinate a < coordinate b ∨
    ¬ coordinate b < coordinate a ∧ ¬ role b < role a

def safeUrlPath (pathname : JsString) : Bool :=
  pathname.head? = some 0x2f && decide (1 < pathname.length) && !pathname.contains 0x5c &&
    !pathname.contains 0x25 &&
    ((splitSlash pathname).drop 1).all fun part => part ≠ [] && part ≠ js "." && part ≠ js ".."

/-- `assertTrustedUrl`. -/
def isTrusted (E : Engine) (hosts : List JsString) (v : Option JsValue) : Bool :=
  (asString v).any fun s => (E.parseUrl s).any fun u =>
    isApproved hosts u && u.search = [] && safeUrlPath u.pathname

/-- `validateMinecraftServerUrl`. -/
def isServerUrl (E : Engine) (v : Option JsValue) : Bool :=
  (asString v).any fun s => (E.parseUrl s).any fun u =>
    u.hostname = js "piston-data.mojang.com" &&
      match splitSlash u.pathname with
      | [lead, version, objects, hash, name] =>
        lead = [] && version = js "v1" && objects = js "objects" && name = js "server.jar" &&
          hash.length = 40 && hash.all fun u => (0x30 ≤ u && u ≤ 0x39) || (0x61 ≤ u && u ≤ 0x66)
      | _ => false

def isToolchain (t : Option JsValue) : Bool :=
  keysAre toolchainKeys t && isText validMinecraftVersion (get t "minecraftVersion") &&
    validLoader (get t "loader") && validJava (get t "java") && validJre (get t "jre") &&
    hasLaunchTemplate t && (items (get t "artifacts")).isSome &&
    decide (2 ≤ (artifactsOf t).length) && decide ((artifactsOf t).length ≤ 256)

/-- `validateToolchain`, for the tuples seen before. -/
def toolchainChecks (E : Engine) (hosts : List JsString) (revision : Option JsString)
    (runtime : RuntimeCatalog) (seen : List JsString) (t : Option JsValue) : List (Bool × String) :=
  [(isToolchain t, "toolchain_malformed"),
   (!seen.contains (candidateKey t), "duplicate_toolchain"),
   (runtime.selected.contains (javaKey (get t "java")), "runtime_java_unavailable"),
   (decide (stringify (canonicalize ((get t "jre").getD .null)) =
      stringify (canonicalize (jreFor runtime (get t "java"))) ∧
      asString (get (get t "jre") "runtimeCatalogRevision") = revision), "runtime_java_mismatch"),
   (hasRequiredArtifacts t, "required_artifact_missing"),
   (decide (stringify (.arr (sortArtifacts (artifactsOf t))) = stringify (.arr (artifactsOf t))),
      "toolchain_not_canonical")] ++
  ((artifactsOf t).flatMap fun a =>
    [(isArtifact (some a), "artifact_malformed"),
     (isTrusted E hosts (get (some a) "url"), "artifact_url_rejected")]) ++
  [((serversOf t).all fun a => isServerUrl E (get (some a) "url"), "artifact_url_rejected"),
   (decide (asString (get (get t "loader") "kind") = some (js "neoforge") →
      3 ≤ (artifactsOf t).length), "required_artifact_missing")]

def toolchainListChecks (E : Engine) (hosts : List JsString) (revision : Option JsString)
    (runtime : RuntimeCatalog) : List JsString → List JsValue → List (Bool × String)
  | _, [] => []
  | seen, t :: rest =>
    toolchainChecks E hosts revision runtime seen (some t) ++
      toolchainListChecks E hosts revision runtime (candidateKey (some t) :: seen) rest

def catalogKeys : List String :=
  ["approvedArtifactHosts", "catalogRevision", "runtimeCatalogRevision", "schemaVersion",
   "toolchains"]

def toolchainsOf (d : Option JsValue) : List JsValue := (items (get d "toolchains")).getD []

def hostsOf (d : Option JsValue) : List JsString :=
  ((items (get d "approvedArtifactHosts")).getD []).filterMap fun v => asString (some v)

/-- `parseCatalogDocument`. -/
def isCatalogDocument (d : Option JsValue) : Bool :=
  keysAre catalogKeys d && asNumber (get d "schemaVersion") = some (lit "1") &&
    isText validSHA256 (get d "catalogRevision") &&
    isText validSHA256 (get d "runtimeCatalogRevision") &&
    (items (get d "approvedArtifactHosts")).isSome && (items (get d "toolchains")).isSome &&
    toolchainsOf d ≠ []

def hasApprovedHosts (d : Option JsValue) : Bool :=
  (items (get d "approvedArtifactHosts")).map (List.map fun v => asString (some v)) =
    some (approvedArtifactHosts.map some)

/-- The checks that are made only on request: the text of the document is canonical, and it lists
the expected toolchains. -/
structure Options where
  isCanonical : JsValue → Bool := fun _ => true
  covers : JsValue → Bool := fun _ => true

def catalogChecks (E : Engine) (options : Options) (runtime : RuntimeCatalog) (catalog : JsValue) :
    List (Bool × String) :=
  [(decide (asString (get (some catalog) "runtimeCatalogRevision") = some runtime.revision ∧
      asString (get (some catalog) "catalogRevision") = some (catalogRevisionFor catalog)),
      "catalog_revision_mismatch"),
   (options.isCanonical catalog, "catalog_not_canonical"),
   (hasApprovedHosts (some catalog), "catalog_hosts_invalid")] ++
  toolchainListChecks E (hostsOf (some catalog))
    (asString (get (some catalog) "runtimeCatalogRevision")) runtime []
    (toolchainsOf (some catalog)) ++
  [(options.covers catalog, "catalog_coverage_mismatch")]

def validateToolchainCatalog (E : Engine) (options : Options) (document : JsValue)
    (runtimeCatalogBytes : Bytes) : Except String JsValue :=
  if ¬ isCatalogDocument (some document) then .error "catalog_malformed"
  else
    match parseReviewedRuntimeCatalog E runtimeCatalogBytes with
    | .error code => .error code
    | .ok runtime =>
      match checks (catalogChecks E options runtime (canonicalize document)) with
      | .error code => .error code
      | .ok () => .ok (canonicalize (canonicalize document))

/-! ## `ReviewedToolchainCatalog` -/

/-- `parseJre`, the value. -/
def jreOf (v : Option JsValue) : Jre where
  id := bytesOf (get v "id")
  sha256 := lowerHex (bytesOf (get v "sha256"))
  component := bytesOf (get v "component")
  major := (safeInteger (get v "major")).getD 0
  runtimeCatalogRevision := lowerHex (bytesOf (get v "runtimeCatalogRevision"))

/-- `parseArtifact`, the value. -/
def artifactOf (a : JsValue) : ReviewedArtifact where
  coordinate := bytesOf (get (some a) "coordinate")
  sha256 := lowerHex (bytesOf (get (some a) "sha256"))
  sizeBytes := (safeInteger (get (some a) "sizeBytes")).getD 0

/-- `parseToolchain`, the value. -/
def toolchainOf (t : Option JsValue) : Toolchain where
  minecraftVersion := bytesOf (get t "minecraftVersion")
  loader := bytesOf (get (get t "loader") "kind")
  loaderVersion := bytesOf (get (get t "loader") "version")
  javaComponent := bytesOf (get (get t "java") "component")
  javaMajor := (safeInteger (get (get t "java") "major")).getD 0
  jre := jreOf (get t "jre")
  artifacts := (artifactsOf t).map artifactOf

/-- The members of `java`. -/
def javaKeys : List String := ["component", "major"]

/-- `parseJre`, the checks. -/
def parsesJre (java : Option JsValue) (revision : Option JsString) (v : Option JsValue) : Bool :=
  keysAre jreKeys v && isText validIdentifier (get v "id") &&
    isText validSHA256 (get v "sha256") &&
    asString (get v "component") = asString (get java "component") &&
    asNumber (get v "major") = asNumber (get java "major") &&
    asString (get v "runtimeCatalogRevision") = revision

/-- `parseArtifact`, the checks. -/
def parsesArtifact (E : Engine) (hosts : List JsString) (a : Option JsValue) : Bool :=
  isArtifact a &&
    (asString (get a "url")).any fun s => (E.parseUrl s).any fun u => isApproved hosts u

def coordinatesOf (t : Option JsValue) : List JsString :=
  (artifactsOf t).map fun a => textOf (get (some a) "coordinate")

/-- `parseToolchain`, the checks. Its `validJava` wants the two members and no others. -/
def parsesToolchain (E : Engine) (hosts : List JsString) (revision : Option JsString)
    (t : Option JsValue) : Bool :=
  keysAre toolchainKeys t && isText validMinecraftVersion (get t "minecraftVersion") &&
    validLoader (get t "loader") && keysAre javaKeys (get t "java") && validJava (get t "java") &&
    (items (get t "artifacts")).isSome && artifactsOf t ≠ [] &&
    decide ((artifactsOf t).length ≤ 256) && hasLaunchTemplate t &&
    parsesJre (get t "java") revision (get t "jre") &&
    (artifactsOf t).all (fun a => parsesArtifact E hosts (some a)) && hasPrimary t &&
    decide (coordinatesOf t).Nodup

/-- The expression for a host: `[a-z0-9](?:[a-z0-9.-]*[a-z0-9])?`. -/
def isHost (host : JsString) : Bool :=
  let alnum (u : UInt16) : Bool := (0x61 ≤ u && u ≤ 0x7a) || (0x30 ≤ u && u ≤ 0x39)
  host.head?.any alnum && host.getLast?.any alnum &&
    host.all fun u => alnum u || u = 0x2e || u = 0x2d

/-- `parseCatalog`, the hosts. -/
def parsesHosts (d : Option JsValue) : Bool :=
  ((items (get d "approvedArtifactHosts")).getD []).all (fun v =>
      (asString (some v)).any fun host => host = toLowerCase host && isHost host) &&
    decide (hostsOf d).Nodup

/-- The members a catalog without a revision has. -/
def legacyKeys : List String :=
  ["approvedArtifactHosts", "catalogVersion", "runtimeCatalogRevision", "schemaVersion",
   "toolchains"]

/-- `parseCatalog`, what is checked before the hosts and the toolchains. -/
def parsesDocument (document : JsValue) : Bool :=
  let d := some document
  (keysAre legacyKeys d && isText validIdentifier (get d "catalogVersion") ||
      keysAre catalogKeys d && isText validSHA256 (get d "catalogRevision") &&
        (asString (get d "catalogRevision")).map toLowerCase =
          some (catalogRevisionFor document)) &&
    asNumber (get d "schemaVersion") = some (lit "1") &&
    isText validSHA256 (get d "runtimeCatalogRevision") &&
    ((items (get d "approvedArtifactHosts")).any fun hosts => hosts ≠ []) &&
    (items (get d "toolchains")).isSome && toolchainsOf d ≠ [] &&
    decide ((toolchainsOf d).length ≤ 256)

/-- `parseCatalog`, the keys under which the artifacts of a toolchain are remembered. -/
def coordinateKeys (t : JsValue) : List JsString :=
  (coordinatesOf (some t)).map fun coordinate => candidateKey (some t) ++ 0 :: coordinate

/-- `parseCatalog`, all that is checked. -/
def parsesCatalog (E : Engine) (document : JsValue) : Bool :=
  let d := some document
  parsesDocument document && parsesHosts d &&
    (toolchainsOf d).all (fun t => parsesToolchain E (hostsOf d)
      (asString (get d "runtimeCatalogRevision")) (some t)) &&
    decide ((toolchainsOf d).map fun t => candidateKey (some t)).Nodup &&
    decide ((toolchainsOf d).flatMap coordinateKeys).Nodup

variable {p : Bytes → Bool} {v t : Option JsValue} {s : Bytes}

theorem isText_iff : isText p v = true ↔ ∃ s, asString v = some s ∧ p (encode s) = true := by
  unfold isText
  cases asString v <;> simp

theorem bytesOf_isText (h : isText p v = true) : p (bytesOf v) = true := by
  obtain ⟨s, hs, hp⟩ := isText_iff.mp h
  rw [bytesOf, hs]
  exact hp

theorem safeInteger_eq_some {n : Int} (h : safeInteger v = some n) :
    asNumber v = some (formatInt n) := by
  obtain ⟨t, ht, hn⟩ := Option.bind_eq_some_iff.mp h
  obtain ⟨-, hformat⟩ := Option.filter_eq_some_iff.mp hn
  simp only [Bool.and_eq_true, decide_eq_true_eq] at hformat
  rw [ht, hformat.1]

theorem isCount_iff {least most : Int} :
    isCount least most v = true ↔ ∃ n, safeInteger v = some n ∧ least ≤ n ∧ n ≤ most := by
  unfold isCount
  cases safeInteger v <;> simp

theorem mem_loaderKinds {kind : JsString} (h : (loaderTemplate kind).isSome) :
    encode kind ∈ loaderKinds := by
  unfold loaderTemplate at h
  split_ifs at h with hforge hfabric hneoforge hquilt
  · subst hforge; decide
  · subst hfabric; decide
  · subst hneoforge; decide
  · subst hquilt; decide
  · exact absurd h (by decide)

theorem validSHA256_lowerHex (h : validSHA256 s = true) : validSHA256 (lowerHex s) = true := by
  have hbyte : ∀ n : Fin 256, isHex (UInt8.ofFin n) = true →
      isHex (if 0x41 ≤ UInt8.ofFin n && UInt8.ofFin n ≤ 0x5a then UInt8.ofFin n + 0x20
        else UInt8.ofFin n) = true := by
    decide +kernel
  rw [validSHA256, Bool.and_eq_true, List.all_eq_true] at h ⊢
  refine ⟨by simpa [lowerHex] using h.1, fun b hb => ?_⟩
  obtain ⟨c, hc, rfl⟩ := List.mem_map.mp hb
  exact hbyte c.toFin (h.2 c hc)

/-- What the second reader makes of a toolchain it accepts is a reviewed toolchain. -/
theorem isReviewed_toolchainOf {E : Engine} {hosts : List JsString} {d : Option JsValue}
    (hd : isText validSHA256 (get d "runtimeCatalogRevision") = true)
    (h : parsesToolchain E hosts (asString (get d "runtimeCatalogRevision")) t = true) :
    (toolchainOf t).isReviewed := by
  simp only [parsesToolchain, parsesJre, validLoader, validJava, Bool.and_eq_true,
    decide_eq_true_eq] at h
  obtain ⟨⟨⟨⟨⟨⟨⟨⟨⟨⟨⟨⟨-, hversion⟩, ⟨-, hkind⟩, hloader⟩, -⟩, ⟨-, hcomponent⟩, hmajor⟩, -⟩, -⟩, -⟩,
    -⟩, ⟨⟨⟨⟨⟨-, hid⟩, -⟩, -⟩, -⟩, hrevision⟩⟩, -⟩, -⟩, -⟩ := h
  obtain ⟨kind, hkind, htemplate⟩ := (Option.any_eq_true _ _).mp hkind
  obtain ⟨n, hn, hleast, hmost⟩ := isCount_iff.mp hmajor
  have hjre : validSHA256 (lowerHex (bytesOf (get (get t "jre") "runtimeCatalogRevision"))) := by
    rw [bytesOf, hrevision]
    exact validSHA256_lowerHex (bytesOf_isText hd)
  have hcontains : loaderKinds.contains (bytesOf (get (get t "loader") "kind")) = true := by
    rw [bytesOf, hkind]
    exact List.contains_iff_mem.mpr (mem_loaderKinds htemplate)
  simp only [Toolchain.isReviewed, toolchainOf, jreOf, bytesOf_isText hversion, hcontains,
    bytesOf_isText hloader, bytesOf_isText hcomponent, hn, Option.getD_some, hleast, hmost,
    bytesOf_isText hid, hjre, decide_true, Bool.and_self]

theorem validSHA256_of_parsesCatalog {E : Engine} {document : JsValue}
    (h : parsesCatalog E document = true) :
    isText validSHA256 (get (some document) "runtimeCatalogRevision") = true := by
  simp only [parsesCatalog, parsesDocument, Bool.and_eq_true] at h
  exact h.1.1.1.1.1.1.1.1.2

/-- `new ReviewedToolchainCatalog(document)`. -/
def reviewedToolchainCatalog (E : Engine) (document : JsValue) : Except Failure ToolchainCatalog :=
  if h : parsesCatalog E document = true then
    .ok
      { runtimeCatalogRevision := lowerHex (bytesOf (get (some document) "runtimeCatalogRevision"))
        toolchains := (toolchainsOf (some document)).map fun t => toolchainOf (some t)
        reviewed := by
          have hd := validSHA256_of_parsesCatalog h
          simp only [parsesCatalog, Bool.and_eq_true, List.all_eq_true] at h
          simp only [List.mem_map, forall_exists_index, and_imp, forall_apply_eq_imp_iff₂]
          exact fun t ht => isReviewed_toolchainOf hd (h.1.1.2 t ht) }
  else .error { code := "invalid_reviewed_catalog" }

/-- The compatibility tuple of a listed toolchain. -/
def compatibilityOf (document t : JsValue) : Compatibility where
  minecraftVersion := bytesOf (get (some t) "minecraftVersion")
  javaComponent := bytesOf (get (get (some t) "java") "component")
  javaMajor := (safeInteger (get (get (some t) "java") "major")).getD 0
  runtimeCatalogSha256 := bytesOf (get (some document) "runtimeCatalogRevision")
  loader := bytesOf (get (get (some t) "loader") "kind")
  loaderVersion := bytesOf (get (get (some t) "loader") "version")

/-- The document has no more than the second reader puts up with. -/
structure Plain (document : JsValue) : Prop where
  few : (toolchainsOf (some document)).length ≤ 256
  java : ∀ t ∈ toolchainsOf (some document), keysAre javaKeys (get (some t) "java") = true
  coordinates : ∀ t ∈ toolchainsOf (some document), (coordinatesOf (some t)).Nodup

/-! ## What canonical forms keep -/

section Canonical

variable (v : Option JsValue)

@[simp] theorem get_some_canonicalize (w : JsValue) (key : String) :
    get (some (canonicalize w)) key = (get (some w) key).map canonicalize :=
  get_canonicalize (some w) key

@[simp] theorem isText_canonicalize (p : Bytes → Bool) :
    isText p (v.map canonicalize) = isText p v := by
  rw [isText, isText, asString_canonicalize]

@[simp] theorem safeInteger_canonicalize : safeInteger (v.map canonicalize) = safeInteger v := by
  rw [safeInteger, safeInteger, asNumber_canonicalize]

@[simp] theorem isCount_canonicalize (least most : Int) :
    isCount least most (v.map canonicalize) = isCount least most v := by
  rw [isCount, isCount, safeInteger_canonicalize]

@[simp] theorem textOf_canonicalize : textOf (v.map canonicalize) = textOf v := by
  match v with
  | some (.obj members) => simp [canonicalize_obj, textOf]
  | some (.arr l) => simp [canonicalize_arr, textOf]
  | some .null | some (.bool _) | some (.num _) | some (.str _) | none => rfl

@[simp] theorem javaKey_canonicalize : javaKey (v.map canonicalize) = javaKey v := by
  simp [javaKey]

@[simp] theorem candidateKey_canonicalize : candidateKey (v.map canonicalize) = candidateKey v := by
  simp [candidateKey]

@[simp] theorem validLoader_canonicalize : validLoader (v.map canonicalize) = validLoader v := by
  simp [validLoader]

@[simp] theorem validJava_canonicalize : validJava (v.map canonicalize) = validJava v := by
  simp [validJava]

@[simp] theorem validJre_canonicalize : validJre (v.map canonicalize) = validJre v := by
  simp [validJre]

@[simp] theorem hasLaunchTemplate_canonicalize :
    hasLaunchTemplate (v.map canonicalize) = hasLaunchTemplate v := by
  simp [hasLaunchTemplate]

@[simp] theorem isArtifact_canonicalize : isArtifact (v.map canonicalize) = isArtifact v := by
  simp [isArtifact]

@[simp] theorem isTrusted_canonicalize (E : Engine) (hosts : List JsString) :
    isTrusted E hosts (v.map canonicalize) = isTrusted E hosts v := by
  rw [isTrusted, isTrusted, asString_canonicalize]

@[simp] theorem artifactsOf_canonicalize :
    artifactsOf (v.map canonicalize) = (artifactsOf v).map canonicalize := by
  rw [artifactsOf, artifactsOf, get_canonicalize, items_canonicalize]
  cases items (get v "artifacts") <;> rfl

@[simp] theorem toolchainsOf_canonicalize :
    toolchainsOf (v.map canonicalize) = (toolchainsOf v).map canonicalize := by
  rw [toolchainsOf, toolchainsOf, get_canonicalize, items_canonicalize]
  cases items (get v "toolchains") <;> rfl

theorem primariesOf_canonicalize :
    primariesOf (v.map canonicalize) = (primariesOf v).map canonicalize := by
  simp [primariesOf, List.filter_map, Function.comp_def]

@[simp] theorem hasPrimary_canonicalize : hasPrimary (v.map canonicalize) = hasPrimary v := by
  rw [hasPrimary, hasPrimary, primariesOf_canonicalize]
  match primariesOf v with
  | [] => rfl
  | [a] => simp
  | a :: b :: l => rfl

end Canonical

/-! ## The text of a JRE -/

theorem exists_str_of_isText {p : Bytes → Bool} (h : isText p v = true) :
    ∃ s, v = some (.str s) := by
  obtain ⟨s, hs, -⟩ := isText_iff.mp h
  match v, hs with
  | some (.str s), rfl => exact ⟨s, rfl⟩

theorem exists_num_of_isCount {most : Int} (h : isCount 1 most v = true) :
    ∃ t, v = some (.num t) ∧ (0x2c : UInt16) ∉ t.map UInt8.toUInt16 := by
  obtain ⟨n, hn, -, -⟩ := isCount_iff.mp h
  have hnumber := safeInteger_eq_some hn
  refine ⟨formatInt n, ?_, fun hmem => ?_⟩
  · match v, hnumber with
    | some (.num _), rfl => rfl
  · obtain ⟨b, hb, hcomma⟩ := List.mem_map.mp hmem
    obtain rfl : b = 0x2c := toUInt16_injective hcomma
    exact absurd (mem_formatInt hb) (by decide)

/-- The text of a JRE in canonical form: its first three members. -/
theorem stringify_jre {v : JsValue} (h : keysAre jreKeys (some v) = true) {component id : JsString}
    {major : Bytes} (hcomponent : get (some v) "component" = some (.str component))
    (hid : get (some v) "id" = some (.str id)) (hmajor : get (some v) "major" = some (.num major)) :
    ∃ rest, stringify (canonicalize v) =
      0x7b :: (quoteString (js "component") ++ 0x3a :: (stringify (.str component) ++ 0x2c ::
        (quoteString (js "id") ++ 0x3a :: (stringify (.str id) ++ 0x2c ::
          (quoteString (js "major") ++ 0x3a :: (major.map UInt8.toUInt16 ++ 0x2c :: rest)))))) := by
  rw [canonicalize_of_keysAre (by decide) (by decide) h, stringify_of_names (by
    simp only [jreKeys, List.map_cons, List.map_nil, List.mem_cons, List.not_mem_nil, or_false,
      forall_eq_or_imp, forall_eq]
    decide)]
  simp only [jreKeys, List.map_cons, List.map_nil, commas, memberText, hcomponent, hid, hmajor,
    Option.map_some, Option.getD_some, canonicalize, stringify, List.append_assoc, List.cons_append]
  exact ⟨_, rfl⟩

theorem java_of_jre {runtime : RuntimeCatalog} {jre java : Option JsValue}
    (hjre : validJre jre = true) (hjava : validJava java = true)
    (h : stringify (canonicalize (jre.getD .null)) =
      stringify (canonicalize (jreFor runtime java))) :
    asString (get jre "component") = asString (get java "component") ∧
      asNumber (get jre "major") = asNumber (get java "major") := by
  simp only [validJre, Bool.and_eq_true] at hjre
  obtain ⟨⟨⟨⟨⟨hkeys, hid⟩, hcomponent⟩, hmajor⟩, -⟩, -⟩ := hjre
  simp only [validJava, Bool.and_eq_true] at hjava
  obtain ⟨⟨-, hcomponent'⟩, hmajor'⟩ := hjava
  obtain ⟨v, rfl⟩ : ∃ v, jre = some v := by
    cases jre with
    | none => simp [keysAre] at hkeys
    | some v => exact ⟨v, rfl⟩
  obtain ⟨id, hid⟩ := exists_str_of_isText hid
  obtain ⟨component, hcomponent⟩ := exists_str_of_isText hcomponent
  obtain ⟨component', hcomponent'⟩ := exists_str_of_isText hcomponent'
  obtain ⟨major, hmajor, hcomma⟩ := exists_num_of_isCount hmajor
  obtain ⟨major', hmajor', hcomma'⟩ := exists_num_of_isCount hmajor'
  obtain ⟨rest, hleft⟩ := stringify_jre hkeys hcomponent hid hmajor
  obtain ⟨id', hid'⟩ : ∃ id', get (some (jreFor runtime java)) "id" = some (.str id') :=
    ⟨component' ++ js "-" ++ major'.map UInt8.toUInt16, by rw [jreFor, hcomponent', hmajor']; rfl⟩
  have hcomponent₂ : get (some (jreFor runtime java)) "component" = some (.str component') := by
    rw [jreFor, hcomponent']
    rfl
  have hmajor₂ : get (some (jreFor runtime java)) "major" = some (.num major') := by
    rw [jreFor, hmajor']
    rfl
  obtain ⟨rest', hright⟩ := stringify_jre rfl hcomponent₂ hid' hmajor₂
  rw [Option.getD_some, hleft, hright] at h
  simp only [stringify, List.cons.injEq, true_and, List.append_cancel_left_eq] at h
  -- The component and the id end at their quotes, the major version at the comma after it.
  obtain ⟨rfl, h⟩ := quoteString_sole h
  simp only [List.cons.injEq, true_and, List.append_cancel_left_eq] at h
  obtain ⟨-, h⟩ := quoteString_sole h
  simp only [List.cons.injEq, true_and, List.append_cancel_left_eq] at h
  obtain ⟨hdigits, -⟩ := eq_of_append_separator hcomma hcomma' h
  obtain rfl := List.map_injective_iff.mpr toUInt16_injective hdigits
  rw [hcomponent, hcomponent', hmajor, hmajor']
  exact ⟨rfl, rfl⟩

/-! ## What the first reader guarantees -/

/-- A toolchain that passed the first reader, in the terms of the second. -/
structure Validated (E : Engine) (hosts : List JsString) (revision : Option JsString)
    (t : Option JsValue) : Prop where
  keys : keysAre toolchainKeys t = true
  version : isText validMinecraftVersion (get t "minecraftVersion") = true
  loader : validLoader (get t "loader") = true
  java : validJava (get t "java") = true
  jre : parsesJre (get t "java") revision (get t "jre") = true
  template : hasLaunchTemplate t = true
  isList : (items (get t "artifacts")).isSome = true
  least : artifactsOf t ≠ []
  most : (artifactsOf t).length ≤ 256
  primary : hasPrimary t = true
  artifacts : ∀ a ∈ artifactsOf t, parsesArtifact E hosts (some a) = true

variable {E : Engine} {hosts : List JsString} {revision : Option JsString}
  {runtime : RuntimeCatalog}

theorem Validated.parsesToolchain_iff (h : Validated E hosts revision t) :
    parsesToolchain E hosts revision t = true ↔
      keysAre javaKeys (get t "java") = true ∧ (coordinatesOf t).Nodup := by
  have hartifacts : (artifactsOf t).all (fun a => parsesArtifact E hosts (some a)) = true :=
    List.all_eq_true.mpr h.artifacts
  simp only [parsesToolchain, h.keys, h.version, h.loader, h.java, h.isList, h.least, h.most,
    h.template, h.jre, hartifacts, h.primary, Bool.true_and, Bool.and_true, decide_true, ne_eq,
    not_false_eq_true, Bool.and_eq_true, decide_eq_true_eq]

/-- An artifact of the first reader is one of the second: its URL has to pass more. -/
theorem parsesArtifact_of_isTrusted {a : Option JsValue} (h : isArtifact a = true)
    (hurl : isTrusted E hosts (get a "url") = true) : parsesArtifact E hosts a = true := by
  obtain ⟨s, hs, hparse⟩ := (Option.any_eq_true _ _).mp hurl
  obtain ⟨u, hu, happroved⟩ := (Option.any_eq_true _ _).mp hparse
  simp only [Bool.and_eq_true] at happroved
  simp only [parsesArtifact, h, hs, hu, Option.any_some, happroved.1.1, Bool.and_self]

theorem validated_of_checks {seen : List JsString}
    (h : ∀ c ∈ toolchainChecks E hosts revision runtime seen (t.map canonicalize), c.1 = true) :
    Validated E hosts revision t ∧ candidateKey t ∉ seen := by
  have hfirst : ∀ c ∈ toolchainChecks E hosts revision runtime seen (t.map canonicalize) |>.take 6,
      c.1 = true := fun c hc => h c (List.mem_of_mem_take hc)
  simp only [toolchainChecks, List.cons_append, List.nil_append,
    List.take_succ_cons, List.take_zero, List.mem_cons, List.not_mem_nil, or_false,
    forall_eq_or_imp, forall_eq, decide_eq_true_eq, Bool.not_eq_true', candidateKey_canonicalize,
    get_canonicalize, asString_canonicalize] at hfirst
  obtain ⟨hshape, hseen, -, ⟨htext, hrevision⟩, hrequired, -⟩ := hfirst
  simp only [isToolchain, keysAre_canonicalize, get_canonicalize, isText_canonicalize,
    validLoader_canonicalize, validJava_canonicalize, validJre_canonicalize,
    hasLaunchTemplate_canonicalize, items_canonicalize, Option.isSome_map, artifactsOf_canonicalize,
    List.length_map, Bool.and_eq_true, decide_eq_true_eq] at hshape
  obtain ⟨⟨⟨⟨⟨⟨⟨⟨hkeys, hversion⟩, hloader⟩, hjava⟩, hjre⟩, htemplate⟩, hlist⟩, hleast⟩, hmost⟩ :=
    hshape
  obtain ⟨hcomponent, hmajor⟩ := java_of_jre ((validJre_canonicalize _).trans hjre)
    ((validJava_canonicalize _).trans hjava) htext
  simp only [get_canonicalize, asString_canonicalize, asNumber_canonicalize] at hcomponent hmajor
  simp only [validJre, Bool.and_eq_true] at hjre
  obtain ⟨⟨⟨⟨⟨hjreKeys, hid⟩, -⟩, -⟩, hsha⟩, -⟩ := hjre
  have hartifacts : ∀ a ∈ artifactsOf t, parsesArtifact E hosts (some a) = true := by
    intro a ha
    have hchecks : ∀ c ∈ [(isArtifact ((some a).map canonicalize), "artifact_malformed"),
        (isTrusted E hosts (get ((some a).map canonicalize) "url"), "artifact_url_rejected")],
        c.1 = true := by
      intro c hc
      refine h c (List.mem_append_left _ (List.mem_append_right _
        (List.mem_flatMap.mpr ⟨canonicalize a, ?_, hc⟩)))
      rw [artifactsOf_canonicalize]
      exact List.mem_map_of_mem ha
    simp only [List.mem_cons, List.not_mem_nil, or_false, forall_eq_or_imp, forall_eq,
      isArtifact_canonicalize, get_canonicalize, isTrusted_canonicalize] at hchecks
    exact parsesArtifact_of_isTrusted hchecks.1 hchecks.2
  refine ⟨⟨hkeys, hversion, hloader, hjava, ?_, htemplate, hlist, ?_, hmost, ?_, hartifacts⟩, ?_⟩
  · simp only [parsesJre, hjreKeys, hid, hsha, hcomponent, hmajor, hrevision, decide_true,
      Bool.and_self]
  · exact List.ne_nil_of_length_pos (by omega)
  · simp only [hasRequiredArtifacts, Bool.and_eq_true, hasPrimary_canonicalize] at hrequired
    exact hrequired.1.1
  · simpa using hseen

/-- The loop of the first reader: every toolchain is validated, and no two have one tuple. -/
theorem validated_of_listChecks {seen : List JsString} {l : List JsValue}
    (h : ∀ c ∈ toolchainListChecks E hosts revision runtime seen (l.map canonicalize), c.1 = true) :
    (∀ t ∈ l, Validated E hosts revision (some t) ∧ candidateKey (some t) ∉ seen) ∧
      (l.map fun t => candidateKey (some t)).Nodup := by
  induction l generalizing seen with
  | nil => simp
  | cons t rest ih =>
    have hfirst := validated_of_checks (t := some t)
      (List.forall_mem_append.mp h).1
    obtain ⟨hrest, hnodup⟩ := ih (List.forall_mem_append.mp h).2
    have hkey : candidateKey (some (canonicalize t)) = candidateKey (some t) :=
      candidateKey_canonicalize (some t)
    rw [hkey] at hrest
    refine ⟨?_, ?_⟩
    · rintro s (_ | ⟨_, hs⟩)
      · exact hfirst
      · exact ⟨(hrest s hs).1, fun hmem => (hrest s hs).2 (List.mem_cons_of_mem _ hmem)⟩
    · rw [List.map_cons, List.nodup_cons]
      refine ⟨fun hmem => ?_, hnodup⟩
      obtain ⟨s, hs, heq⟩ := List.mem_map.mp hmem
      exact (hrest s hs).2 (heq ▸ List.mem_cons_self)

/-! ## Texts in ASCII -/

theorem mem_of_splitOn {α : Type} [DecidableEq α] {a b : α} {s : List α} (h : b ∈ s) :
    b = a ∨ ∃ part ∈ s.splitOn a, b ∈ part := by
  have hjoin : ∀ l : List (List α), b ∈ [a].intercalate l → b = a ∨ ∃ part ∈ l, b ∈ part := by
    intro l hb
    induction l with
    | nil => simp at hb
    | cons part rest ih =>
      cases rest with
      | nil => exact .inr ⟨part, List.mem_cons_self, by simpa using hb⟩
      | cons next rest =>
        rw [List.intercalate_cons_cons, List.mem_append, List.mem_append] at hb
        rcases hb with (hb | hb) | hb
        · exact .inr ⟨part, List.mem_cons_self, hb⟩
        · exact .inl (List.mem_singleton.mp hb)
        · rcases ih hb with heq | ⟨part', hmem, hb⟩
          · exact .inl heq
          · exact .inr ⟨part', List.mem_cons_of_mem _ hmem, hb⟩
  exact hjoin _ ((List.intercalate_splitOn a).symm ▸ h)

theorem isDigit_of_isNumeral {least most : Nat} (h : isNumeral least most s = true) :
    ∀ b ∈ s, isDigit b = true := by
  simp only [isNumeral, Bool.and_eq_true, List.all_eq_true] at h
  exact h.1.1.1

theorem isDigit_of_isVersionPart (h : isVersionPart s = true) : ∀ b ∈ s, isDigit b = true := by
  rw [isVersionPart, Bool.or_eq_true, decide_eq_true_eq] at h
  rcases h with rfl | h
  · exact List.all_eq_true.mp (by decide)
  · exact isDigit_of_isNumeral h

theorem ascii_of_minecraftVersion (h : validMinecraftVersion s = true) : ∀ b ∈ s, b < 0x80 := by
  have hparts : ∀ part ∈ s.splitOn 0x2e, ∀ b ∈ part, isDigit b = true := by
    unfold validMinecraftVersion at h
    split at h
    · rename_i major minor hsplit
      rw [Bool.and_eq_true] at h
      rw [hsplit]
      rintro part (_ | ⟨_, _ | ⟨_, hpart⟩⟩)
      · exact isDigit_of_isNumeral h.1
      · exact isDigit_of_isVersionPart h.2
      · exact absurd hpart (List.not_mem_nil)
    · rename_i major minor patch hsplit
      simp only [Bool.and_eq_true, Bool.or_eq_true, decide_eq_true_eq] at h
      rw [hsplit]
      rintro part (_ | ⟨_, _ | ⟨_, _ | ⟨_, hpart⟩⟩⟩)
      · rcases h.1.1 with rfl | hmajor
        · exact List.all_eq_true.mp (by decide)
        · exact isDigit_of_isNumeral hmajor
      · exact isDigit_of_isVersionPart h.1.2
      · exact isDigit_of_isVersionPart h.2
      · exact absurd hpart (List.not_mem_nil)
    · exact absurd h Bool.false_ne_true
  intro b hb
  rcases mem_of_splitOn (a := 0x2e) hb with rfl | ⟨part, hpart, hb⟩
  · decide
  · have hdigit := hparts part hpart b hb
    rw [isDigit, Bool.and_eq_true, decide_eq_true_eq, decide_eq_true_eq] at hdigit
    exact UInt8.lt_of_le_of_lt hdigit.2 (by decide)

theorem ascii_of_isToken {extra value : Bytes} (hextra : extra.all (fun b => decide (b < 0x80)))
    (h : isToken extra value = true) : ∀ b ∈ value, b < 0x80 := by
  intro b hb
  rw [isToken, Bool.and_eq_true, List.all_eq_true] at h
  rcases Bool.or_eq_true_iff.mp (h.2 b hb) with halnum | hmem
  · have hall : ∀ n : Fin 256, isAlnumByte (UInt8.ofFin n) = true → UInt8.ofFin n < 0x80 := by
      decide +kernel
    exact hall b.toFin halnum
  · simpa using List.all_eq_true.mp hextra b (List.contains_iff_mem.mp hmem)

theorem zero_notMem_of_isPart {extra : String} (hextra : 0 ∉ lit extra)
    (h : isPart extra s = true) : 0 ∉ s := by
  intro hmem
  rw [isPart, Bool.and_eq_true, List.all_eq_true] at h
  rcases Bool.or_eq_true_iff.mp (h.2 0 hmem) with halnum | hzero
  · exact absurd halnum (by decide)
  · exact hextra (List.contains_iff_mem.mp hzero)

theorem zero_notMem_of_coordinate (h : validCoordinate s = true) : 0 ∉ s := by
  have hparts : ∀ part ∈ s.splitOn 0x3a, 0 ∉ part := by
    rw [validCoordinate, Bool.and_eq_true] at h
    have hshort : ∀ {s}, isPart "_.-" s = true → 0 ∉ s := zero_notMem_of_isPart (by decide)
    have hversion : ∀ {s}, isPart "._+-" s = true → 0 ∉ s := zero_notMem_of_isPart (by decide)
    obtain ⟨-, h⟩ := h
    split at h
    · rename_i group name version hsplit
      simp only [Bool.and_eq_true] at h
      rw [hsplit]
      simp only [List.mem_cons, List.not_mem_nil, or_false, forall_eq_or_imp, forall_eq]
      exact ⟨hshort h.1.1, hshort h.1.2, hversion h.2⟩
    · rename_i group name version classifier hsplit
      simp only [Bool.and_eq_true] at h
      rw [hsplit]
      simp only [List.mem_cons, List.not_mem_nil, or_false, forall_eq_or_imp, forall_eq]
      exact ⟨hshort h.1.1.1, hshort h.1.1.2, hversion h.1.2, hshort h.2⟩
    · exact absurd h Bool.false_ne_true
  intro hmem
  rcases mem_of_splitOn (a := 0x3a) hmem with heq | ⟨part, hpart, hzero⟩
  · exact absurd heq (by decide)
  · exact hparts part hpart hzero

theorem textOf_of_bytesOf (hp : ∀ s, p s = true → ∀ b ∈ s, b < 0x80)
    {w : Option JsValue} (hv : isText p v = true) (hw : isText p w = true)
    (h : bytesOf v = bytesOf w) : textOf v = textOf w := by
  obtain ⟨s, hs, hps⟩ := isText_iff.mp hv
  obtain ⟨t, ht, hpt⟩ := isText_iff.mp hw
  have htext : ∀ {v : Option JsValue} {s}, asString v = some s → textOf v = s := by
    intro v s hs
    match v, hs with
    | some (.str _), rfl => rfl
  have hencode : encode s = encode t := by simpa [bytesOf, hs, ht] using h
  rw [htext hs, htext ht, eq_of_encode_ascii (hp _ hps), hencode, ← eq_of_encode_ascii (hp _ hpt)]

theorem isText_loaderKinds (h : validLoader v = true) :
    isText loaderKinds.contains (get v "kind") = true := by
  simp only [validLoader, Bool.and_eq_true] at h
  obtain ⟨kind, hkind, htemplate⟩ := (Option.any_eq_true _ _).mp h.1.2
  exact isText_iff.mpr ⟨kind, hkind, List.contains_iff_mem.mpr (mem_loaderKinds htemplate)⟩

theorem ascii_of_loaderKinds (s : Bytes) (h : loaderKinds.contains s = true) :
    ∀ b ∈ s, b < 0x80 := by
  have hall : ∀ s ∈ loaderKinds, s.all (fun b => decide (b < 0x80)) = true := by decide
  exact fun b hb => by simpa using List.all_eq_true.mp (hall s (List.contains_iff_mem.mp h)) b hb

def Toolchain.tuple (t : Toolchain) : Bytes × Bytes × Bytes × Bytes × Int :=
  (t.minecraftVersion, t.loader, t.loaderVersion, t.javaComponent, t.javaMajor)

theorem Validated.candidateKey_eq {u : Option JsValue} (ht : Validated E hosts revision t)
    (hu : Validated E hosts revision u)
    (h : Toolchain.tuple (toolchainOf t) = Toolchain.tuple (toolchainOf u)) :
    candidateKey t = candidateKey u := by
  simp only [Toolchain.tuple, toolchainOf, Prod.mk.injEq] at h
  obtain ⟨hversion, hkind, hloader, hcomponent, hmajor⟩ := h
  have hloaderT := ht.loader
  have hloaderU := hu.loader
  have hjavaT := ht.java
  have hjavaU := hu.java
  simp only [validLoader, Bool.and_eq_true] at hloaderT hloaderU
  simp only [validJava, Bool.and_eq_true] at hjavaT hjavaU
  obtain ⟨m, hm, -⟩ := isCount_iff.mp hjavaT.2
  obtain ⟨n, hn, -⟩ := isCount_iff.mp hjavaU.2
  have hnumber : textOf (get (get t "java") "major") = textOf (get (get u "java") "major") := by
    have htext : ∀ {v : Option JsValue} {s}, asNumber v = some s →
        textOf v = s.map (·.toUInt16) := by
      intro v s hs
      match v, hs with
      | some (.num _), rfl => rfl
    rw [hm, hn, Option.getD_some, Option.getD_some] at hmajor
    rw [htext (safeInteger_eq_some hm), htext (safeInteger_eq_some hn), hmajor]
  rw [candidateKey, candidateKey, javaKey, javaKey, hnumber,
    textOf_of_bytesOf (fun _ => ascii_of_minecraftVersion) ht.version hu.version hversion,
    textOf_of_bytesOf ascii_of_loaderKinds (isText_loaderKinds ht.loader)
      (isText_loaderKinds hu.loader) hkind,
    textOf_of_bytesOf (fun _ => ascii_of_isToken (by decide)) hloaderT.2 hloaderU.2 hloader,
    textOf_of_bytesOf (fun _ => ascii_of_isToken (by decide)) hjavaT.1.2 hjavaU.1.2 hcomponent]

theorem Validated.zero_notMem (h : Validated E hosts revision t) :
    ∀ coordinate ∈ coordinatesOf t, 0 ∉ coordinate := by
  intro coordinate hmem
  obtain ⟨a, ha, rfl⟩ := List.mem_map.mp hmem
  have hartifact := h.artifacts a ha
  simp only [parsesArtifact, isArtifact, Bool.and_eq_true] at hartifact
  obtain ⟨s, hs, hvalid⟩ := isText_iff.mp hartifact.1.1.1.2
  have htext : textOf (get (some a) "coordinate") = s := by
    match get (some a) "coordinate", hs with
    | some (.str _), rfl => rfl
  rw [htext]
  exact fun hzero => zero_notMem_of_coordinate hvalid ((mem_encode (by decide) s).mpr hzero)

/-- The keys of the artifacts differ when those of the toolchains do, and the coordinates in each.
-/
theorem nodup_coordinateKeys {l : List JsValue} (hl : ∀ t ∈ l, Validated E hosts revision (some t))
    (hkeys : (l.map fun t => candidateKey (some t)).Nodup)
    (hcoordinates : ∀ t ∈ l, (coordinatesOf (some t)).Nodup) :
    (l.flatMap coordinateKeys).Nodup := by
  rw [List.nodup_flatMap]
  refine ⟨fun t ht => (hcoordinates t ht).map fun a b hab => ?_, ?_⟩
  · exact (List.cons.inj (List.append_cancel_left hab)).2
  · refine (List.pairwise_map.mp hkeys).imp_of_mem fun {t u} ht hu hne key hkeyT hkeyU => hne ?_
    obtain ⟨c, hc, rfl⟩ := List.mem_map.mp hkeyT
    obtain ⟨c', hc', heq⟩ := List.mem_map.mp hkeyU
    -- The coordinates have no separator in them, so the last one ends the key of the toolchain.
    have hreverse := congrArg List.reverse heq
    simp only [List.reverse_append, List.reverse_cons, List.append_assoc, List.cons_append,
      List.nil_append] at hreverse
    have hsplit := eq_of_append_separator
      (fun hmem => (hl u hu).zero_notMem c' hc' (List.mem_reverse.mp hmem))
      (fun hmem => (hl t ht).zero_notMem c hc (List.mem_reverse.mp hmem)) hreverse
    exact (List.reverse_injective hsplit.2).symm

/-! ## The two readers -/

variable {options : Options} {document : JsValue} {bytes : Bytes}

theorem validateToolchainCatalog_ok_iff :
    (∃ catalog, validateToolchainCatalog E options document bytes = .ok catalog) ↔
      isCatalogDocument (some document) = true ∧
        ∃ runtime, parseReviewedRuntimeCatalog E bytes = .ok runtime ∧
          ∀ c ∈ catalogChecks E options runtime (canonicalize document), c.1 = true := by
  unfold validateToolchainCatalog
  by_cases hdocument : isCatalogDocument (some document) = true
  · rw [if_neg (not_not.mpr hdocument)]
    cases hruntime : parseReviewedRuntimeCatalog E bytes with
    | error code => simp
    | ok runtime =>
      simp only [hdocument, Except.ok.injEq, exists_eq_left', true_and, ← checks_eq_ok]
      cases checks (catalogChecks E options runtime (canonicalize document)) with
      | error code => simp
      | ok _ => simp
  · rw [if_pos hdocument]
    simp [hdocument]

theorem encode_digest (bytes : Bytes) : encode (digest bytes) = sha256 bytes := by
  have hall := sha256_all (p := fun b => decide (b < 0x80)) (by decide) bytes
  exact encode_map_ascii fun b hb => by simpa using List.all_eq_true.mp hall b hb

theorem toLowerCase_digest (bytes : Bytes) : toLowerCase (digest bytes) = digest bytes := by
  have hall := List.all_eq_true.mp (sha256_all
    (p := fun b => !(0x41 ≤ b.toUInt16 && b.toUInt16 ≤ 0x5a)) (by decide) bytes)
  rw [toLowerCase, digest, List.map_map]
  refine List.map_congr_left fun b hb => ?_
  have hb := hall b hb
  rw [Bool.not_eq_true'] at hb
  rw [Function.comp_apply, hb, if_neg Bool.false_ne_true]

theorem catalogRevisionFor_canonicalize (document : JsValue) :
    catalogRevisionFor (canonicalize document) = catalogRevisionFor document := by
  rw [catalogRevisionFor, catalogRevisionFor, canonicalJsonBytes, canonicalJsonBytes,
    canonicalize_spread]

/-- A document that passed the first reader. -/
structure Accepted (E : Engine) (bytes : Bytes) (document : JsValue) : Prop where
  shape : isCatalogDocument (some document) = true
  runtime : asString (get (some document) "runtimeCatalogRevision") = some (digest bytes)
  revision : asString (get (some document) "catalogRevision") = some (catalogRevisionFor document)
  approved : hasApprovedHosts (some document) = true
  toolchains : ∀ t ∈ toolchainsOf (some document), Validated E (hostsOf (some document))
    (asString (get (some document) "runtimeCatalogRevision")) (some t)
  keys : ((toolchainsOf (some document)).map fun t => candidateKey (some t)).Nodup

theorem hostsOf_of_approved {d : Option JsValue} (h : hasApprovedHosts d = true) :
    hostsOf d = approvedArtifactHosts ∧
      items (get d "approvedArtifactHosts") = some (approvedArtifactHosts.map .str) := by
  rw [hasApprovedHosts, decide_eq_true_eq, Option.map_eq_some_iff] at h
  obtain ⟨l, hl, hstrings⟩ := h
  have hstring : ∀ v s, asString (some v) = some s → v = .str s := by
    intro v s hs
    match v, hs with
    | .str _, rfl => rfl
  have hvalues : ∀ (l : List JsValue) (hosts : List JsString),
      l.map (fun v => asString (some v)) = hosts.map some → l = hosts.map .str := by
    intro l
    induction l with
    | nil =>
      intro hosts heq
      rw [List.map_eq_nil_iff.mp heq.symm, List.map_nil]
    | cons v rest ih =>
      intro hosts heq
      cases hosts with
      | nil => simp at heq
      | cons host hosts =>
        obtain ⟨hv, hrest⟩ := List.cons.inj heq
        rw [List.map_cons, hstring v host hv, ih hosts hrest]
  rw [hostsOf, hl, hvalues l _ hstrings]
  exact ⟨rfl, rfl⟩

theorem accepted_of_validate {catalog : JsValue}
    (h : validateToolchainCatalog E options document bytes = .ok catalog) :
    Accepted E bytes document := by
  obtain ⟨hshape, runtime, hruntime, hchecks⟩ := validateToolchainCatalog_ok_iff.mp ⟨_, h⟩
  have hrevision : runtime.revision = digest bytes := by
    simp only [parseReviewedRuntimeCatalog] at hruntime
    split at hruntime
    · split at hruntime
      · rw [← Except.ok.inj hruntime]
      · cases hruntime
    · cases hruntime
  have hfirst : ∀ c ∈ (catalogChecks E options runtime (canonicalize document)).take 3,
      c.1 = true := fun c hc => hchecks c (List.mem_of_mem_take hc)
  have hlist : ∀ c ∈ toolchainListChecks E (hostsOf (some (canonicalize document)))
      (asString (get (some (canonicalize document)) "runtimeCatalogRevision")) runtime []
      (toolchainsOf (some (canonicalize document))), c.1 = true :=
    fun c hc => hchecks c (List.mem_append_left _ (List.mem_append_right _ hc))
  simp only [catalogChecks, List.cons_append, List.nil_append, List.take_succ_cons, List.take_zero,
    List.mem_cons, List.not_mem_nil, or_false, forall_eq_or_imp, forall_eq, decide_eq_true_eq,
    get_some_canonicalize, asString_canonicalize, catalogRevisionFor_canonicalize] at hfirst
  obtain ⟨⟨hbytes, hcatalog⟩, -, hhosts⟩ := hfirst
  have happroved : hasApprovedHosts (some document) = true := by
    rw [hasApprovedHosts, decide_eq_true_eq] at hhosts ⊢
    rw [get_some_canonicalize, items_canonicalize, Option.map_map] at hhosts
    rw [← hhosts]
    refine congrArg (fun f => Option.map f _) (funext fun l => ?_)
    rw [Function.comp_apply, List.map_map]
    exact List.map_congr_left fun v _ => (asString_canonicalize (some v)).symm
  have hsame : hostsOf (some (canonicalize document)) = hostsOf (some document) :=
    (hostsOf_of_approved hhosts).1.trans (hostsOf_of_approved happroved).1.symm
  rw [hsame, get_some_canonicalize, asString_canonicalize,
    show toolchainsOf (some (canonicalize document)) =
      _ from toolchainsOf_canonicalize (some document)]
    at hlist
  obtain ⟨hvalidated, hnodup⟩ := validated_of_listChecks hlist
  exact ⟨hshape, hrevision ▸ hbytes, hcatalog, happroved, fun t ht => (hvalidated t ht).1, hnodup⟩

/-- Of a document that passed the first reader, the second asks to be plain. -/
theorem Accepted.parsesCatalog_iff (h : Accepted E bytes document) :
    parsesCatalog E document = true ↔ Plain document := by
  have hshape := h.shape
  simp only [isCatalogDocument, Bool.and_eq_true, decide_eq_true_eq] at hshape
  obtain ⟨⟨⟨⟨⟨⟨hkeys, hschema⟩, hsha⟩, hruntime⟩, -⟩, hlist⟩, hsome⟩ := hshape
  obtain ⟨hhosts, hitems⟩ := hostsOf_of_approved h.approved
  have hparsesHosts : parsesHosts (some document) = true := by
    rw [parsesHosts, hhosts, hitems]
    decide +kernel
  have hdocument : parsesDocument document = true ↔
      (toolchainsOf (some document)).length ≤ 256 := by
    have hnonempty : approvedArtifactHosts.map JsValue.str ≠ [] := by simp [approvedArtifactHosts]
    have hlower : toLowerCase (catalogRevisionFor document) = catalogRevisionFor document :=
      toLowerCase_digest _
    simp only [parsesDocument, hkeys, hsha, h.revision, Option.map_some, hlower, decide_true,
      Bool.and_self, Bool.or_true, hschema, hruntime, hitems, Option.any_some, hnonempty, hlist,
      hsome, ne_eq, not_false_eq_true, Bool.true_and, decide_eq_true_eq]
  simp only [parsesCatalog, hparsesHosts, Bool.and_eq_true, List.all_eq_true, decide_eq_true_eq,
    hdocument, and_true]
  constructor
  · rintro ⟨⟨⟨hfew, htoolchains⟩, -⟩, -⟩
    exact ⟨hfew, fun t ht => ((h.toolchains t ht).parsesToolchain_iff.mp (htoolchains t ht)).1,
      fun t ht => ((h.toolchains t ht).parsesToolchain_iff.mp (htoolchains t ht)).2⟩
  · intro hplain
    exact ⟨⟨⟨hplain.few, fun t ht => (h.toolchains t ht).parsesToolchain_iff.mpr
      ⟨hplain.java t ht, hplain.coordinates t ht⟩⟩, h.keys⟩,
      nodup_coordinateKeys h.toolchains h.keys hplain.coordinates⟩

/-- A toolchain of the catalog is found under its tuple: no other has the tuple. -/
theorem Accepted.find_toolchain (h : Accepted E bytes document) {t : JsValue}
    (ht : t ∈ toolchainsOf (some document)) :
    ((toolchainsOf (some document)).map fun t => toolchainOf (some t)).find? (fun candidate =>
      candidate.minecraftVersion = (compatibilityOf document t).minecraftVersion &&
        candidate.loader = (compatibilityOf document t).loader &&
        candidate.loaderVersion = (compatibilityOf document t).loaderVersion &&
        candidate.javaComponent = (compatibilityOf document t).javaComponent &&
        candidate.javaMajor = (compatibilityOf document t).javaMajor) =
      some (toolchainOf (some t)) := by
  generalize hfind : List.find? _ _ = found
  cases found with
  | none =>
    have hmiss := List.find?_eq_none.mp hfind _ (List.mem_map_of_mem ht)
    simp [toolchainOf, compatibilityOf] at hmiss
  | some candidate =>
    obtain ⟨u, hu, rfl⟩ := List.mem_map.mp (List.mem_of_find?_eq_some hfind)
    have hmatch := List.find?_some hfind
    simp only [Bool.and_eq_true, decide_eq_true_eq] at hmatch
    obtain ⟨⟨⟨⟨hversion, hkind⟩, hloader⟩, hcomponent⟩, hmajor⟩ := hmatch
    have htuple : Toolchain.tuple (toolchainOf (some u)) =
        Toolchain.tuple (toolchainOf (some t)) := by
      rw [Toolchain.tuple, hversion, hkind, hloader, hcomponent, hmajor]
      rfl
    have hkey := (h.toolchains u hu).candidateKey_eq (h.toolchains t ht) htuple
    rw [List.inj_on_of_nodup_map h.keys hu ht hkey]

/-- Of the documents that `validateToolchainCatalog` accepts, `ReviewedToolchainCatalog` accepts
exactly those with at most 256 toolchains, no further members in `java` and no artifact twice in a
toolchain; in these it resolves the tuple of every listed toolchain to the toolchain. -/
theorem reviewed_iff_plain {catalog : JsValue}
    (h : validateToolchainCatalog E options document bytes = .ok catalog) :
    (∃ reviewed, reviewedToolchainCatalog E document = .ok reviewed ∧
        ∀ t ∈ toolchainsOf (some document),
          reviewed.resolve (compatibilityOf document t) = .ok (toolchainOf (some t))) ↔
      Plain document := by
  have haccepted := accepted_of_validate h
  constructor
  · rintro ⟨reviewed, hreviewed, -⟩
    by_contra hplain
    rw [reviewedToolchainCatalog, dif_neg fun hp => hplain (haccepted.parsesCatalog_iff.mp hp)]
      at hreviewed
    cases hreviewed
  · intro hplain
    rw [reviewedToolchainCatalog, dif_pos (haccepted.parsesCatalog_iff.mpr hplain)]
    refine ⟨_, rfl, fun t ht => ?_⟩
    have hrevision : lowerHex (bytesOf (get (some document) "runtimeCatalogRevision")) =
        bytesOf (get (some document) "runtimeCatalogRevision") := by
      rw [bytesOf, haccepted.runtime, Option.getD_some, encode_digest, lowerHex_sha256]
    have hversion := bytesOf_isText (haccepted.toolchains t ht).version
    simp only [ToolchainCatalog.resolve]
    rw [haccepted.find_toolchain ht, if_neg]
    simp [compatibilityOf, hrevision, hversion]

/-! ## A document -/

namespace Sample

def runtimeCatalog : JsValue :=
  let java := object [("component", ascii "jre"), ("major", number "17")]
  object [("schemaVersion", number "1"),
    ("platform", object [("os", ascii "linux"), ("architecture", ascii "x64")]),
    ("requirements", .arr [java]), ("runtimes", .arr [java]), ("resolutions", .arr [java])]

@[irreducible] def runtimeText : Bytes := encode (stringify runtimeCatalog)

/-- An engine that knows the text of the runtime catalog. The URLs of the document need no more of a
parser. -/
def engine : Engine where
  parseJson bytes := if bytes = runtimeText then some runtimeCatalog else none
  parseUrl s :=
    let rest := s.drop 8
    some { protocol := s.take 6, hostname := rest.takeWhile (· ≠ 0x2f),
           pathname := rest.dropWhile (· ≠ 0x2f) }

def artifact (role coordinate url : String) : JsValue :=
  object [("role", ascii role), ("coordinate", ascii coordinate), ("url", ascii url),
    ("sha256", .str zeroSHA256), ("sizeBytes", number "1")]

/-- A toolchain of the Fabric loader, with further members in `java`. -/
def toolchain (more : List (JsString × JsValue)) : JsValue :=
  object [("minecraftVersion", ascii "1.20.1"),
    ("loader", object [("kind", ascii "fabric"), ("version", ascii "0.15.11")]),
    ("java", .obj ([(js "component", ascii "jre"), (js "major", number "17")] ++ more)),
    ("jre", object [("id", ascii "jre-17"),
      ("sha256", .str (digest (lit "\x7b\"component\":\"jre\",\"major\":17\x7d"))),
      ("component", ascii "jre"), ("major", number "17"),
      ("runtimeCatalogRevision", .str (digest runtimeText))]),
    ("artifacts", .arr [artifact "dependency" "com.mojang:minecraft-server:1.20.1:server"
        ("https://piston-data.mojang.com/v1/objects/" ++
          "0123456789012345678901234567890123456789/server.jar"),
      artifact "primary" "net.fabricmc:fabric-loader:0.15.11"
        ("https://maven.fabricmc.net/net/fabricmc/fabric-loader/0.15.11/" ++
          "fabric-loader-0.15.11.jar")]),
    ("launchTemplate", ascii "fabric-server-jar-v1")]

def draft (more : List (JsString × JsValue)) : JsValue :=
  .obj [(js "schemaVersion", number "1"), (js "catalogRevision", .str zeroSHA256),
    (js "runtimeCatalogRevision", .str (digest runtimeText)),
    (js "approvedArtifactHosts", .arr (approvedArtifactHosts.map .str)),
    (js "toolchains", .arr [toolchain more])]

def lock (more : List (JsString × JsValue)) : JsValue :=
  spread "catalogRevision" (.str (catalogRevisionFor (draft more))) (draft more)

def vendor : List (JsString × JsValue) := [(js "vendor", ascii "x")]

theorem catalogRevisionFor_lock (more : List (JsString × JsValue)) :
    catalogRevisionFor (lock more) = catalogRevisionFor (draft more) := by
  rw [catalogRevisionFor, lock, spread_spread, catalogRevisionFor]

/-- The checks of the document but that of its revision. -/
def passes (more : List (JsString × JsValue)) : Bool :=
  match parseReviewedRuntimeCatalog engine runtimeText with
  | .ok runtime => ((catalogChecks engine {} runtime (canonicalize (lock more))).drop 1).all (·.1)
  | .error _ => false

def members : { mores : List (List (JsString × JsValue)) // mores.all passes = true } :=
  ⟨[[], vendor], by decide +kernel⟩

/-- The document is accepted if its toolchain is: the revision does not have to be computed. -/
theorem validate_lock {more : List (JsString × JsValue)} (hmore : more ∈ members.val) :
    ∃ catalog, validateToolchainCatalog engine {} (lock more) runtimeText = .ok catalog := by
  obtain ⟨runtime, hruntime, hrevision⟩ :
      ∃ runtime, parseReviewedRuntimeCatalog engine runtimeText = .ok runtime ∧
        runtime.revision = digest runtimeText := by
    have hjson : engine.parseJson runtimeText = some runtimeCatalog := if_pos rfl
    rw [parseReviewedRuntimeCatalog, hjson]
    exact ⟨_, rfl, rfl⟩
  have h := List.all_eq_true.mp members.property more hmore
  rw [passes, hruntime] at h
  refine validateToolchainCatalog_ok_iff.mpr ⟨?_, runtime, hruntime, ?_⟩
  · have hsha : ∀ bytes, isText validSHA256 (some (.str (digest bytes))) = true := fun bytes =>
      isText_iff.mpr ⟨_, rfl, by rw [encode_digest]; exact validSHA256_sha256 bytes⟩
    simp only [isCatalogDocument, Bool.and_eq_true]
    exact ⟨⟨⟨⟨⟨⟨rfl, rfl⟩, hsha _⟩, hsha _⟩, rfl⟩, rfl⟩, rfl⟩
  · intro c hc
    rw [catalogChecks, List.cons_append, List.cons_append, List.mem_cons] at hc
    rcases hc with rfl | hc
    · simp only [get_some_canonicalize, asString_canonicalize, catalogRevisionFor_canonicalize,
        catalogRevisionFor_lock, hrevision, decide_eq_true_eq]
      exact ⟨rfl, rfl⟩
    · exact List.all_eq_true.mp h c hc

end Sample

theorem reviewed_iff_plain_sample : ∃ catalog reviewed,
      validateToolchainCatalog Sample.engine {} (Sample.lock []) Sample.runtimeText = .ok catalog ∧
      reviewedToolchainCatalog Sample.engine (Sample.lock []) = .ok reviewed ∧
        ∀ t ∈ toolchainsOf (some (Sample.lock [])),
          reviewed.resolve (compatibilityOf (Sample.lock []) t) = .ok (toolchainOf (some t)) := by
  obtain ⟨catalog, hcatalog⟩ := Sample.validate_lock List.mem_cons_self
  obtain ⟨reviewed, hreviewed, hresolve⟩ := (reviewed_iff_plain hcatalog).mpr
    ⟨by decide +kernel, by decide +kernel, by decide +kernel⟩
  exact ⟨catalog, reviewed, hcatalog, hreviewed, hresolve⟩

/-- A document with one more member in `java`: the generator's check lets it through, the compiler
does not start with it. -/
theorem extra_member_rejected : ∃ catalog,
      validateToolchainCatalog Sample.engine {} (Sample.lock Sample.vendor) Sample.runtimeText =
          .ok catalog ∧
        reviewedToolchainCatalog Sample.engine (Sample.lock Sample.vendor) =
          .error { code := "invalid_reviewed_catalog" } := by
  obtain ⟨catalog, hcatalog⟩ := Sample.validate_lock (.tail _ List.mem_cons_self)
  refine ⟨catalog, hcatalog, ?_⟩
  rw [reviewedToolchainCatalog, dif_neg]
  intro hparses
  have hplain := (accepted_of_validate hcatalog).parsesCatalog_iff.mp hparses
  exact absurd (hplain.java (Sample.toolchain Sample.vendor) List.mem_cons_self) (by decide +kernel)

end SharedNode.Compiler.Catalog
