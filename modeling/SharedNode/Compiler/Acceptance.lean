import SharedNode.Compiler.RoundTrip
import SharedNode.Workspace.Containment

/-!
# What the compiler builds and what a node accepts

The builder and the node check paths separately: the builder with `safeOutputPath` and
`forbiddenOutputPath` (`compiler/src/reviewed-builder.mjs`), the node with `validWorkspacePath`,
`isRuntimeContentPath` (`internal/workspace/workspace.go`) and its file system. Everything the
builder lets through is a valid workspace path, within the node's limits and under the right key. It
does not look at two things the node depends on: an installer's file may be in a world directory,
and one path may be a directory of another one.
-/

namespace SharedNode.Compiler

open Text ControlPlane Storage Effect
open Workspace

/-! ## Two path policies -/

theorem encode_eq_lit {s : JsString} {t : Bytes} (ht : t.all (· < 0x80)) (h : encode s = t) :
    s = t.map UInt8.toUInt16 := by
  rw [← h]
  refine eq_of_encode_ascii fun b hb => ?_
  rw [h] at hb
  exact of_decide_eq_true (List.all_eq_true.mp ht b hb)

theorem valid_of_safeOutputPath {path : JsString} (h : safeOutputPath path) :
    validWorkspacePath (encode path) := by
  simp only [safeOutputPath, Bool.and_eq_true, decide_eq_true_eq, Bool.not_eq_true',
    List.all_eq_true] at h
  obtain ⟨⟨⟨⟨⟨hpos, hlen⟩, hback⟩, hstart⟩, -⟩, hparts⟩ := h
  have hcomponents : ∀ part ∈ components (encode path),
      part ≠ [] ∧ part ≠ dot ∧ part ≠ dotdot := by
    intro part hpart
    rw [components_encode] at hpart
    obtain ⟨p, hp, rfl⟩ := List.mem_map.mp hpart
    obtain ⟨⟨hne, hdot⟩, hdots⟩ := hparts p hp
    refine ⟨fun he => hne (encode_eq_nil.mp he), fun he => hdot ?_, fun he => hdots ?_⟩
    · exact encode_eq_lit (by decide) he
    · exact encode_eq_lit (by decide) he
  have hne : encode path ≠ [] := fun he => by simp [encode_eq_nil.mp he] at hpos
  have hlength := length_encode_le path
  have hslash : hasPrefix (encode path) (lit "/") = false := by
    -- A leading slash would leave an empty first component.
    by_contra hc
    obtain ⟨rest, hrest⟩ := List.isPrefixOf_iff_prefix.mp (Bool.not_eq_false _ ▸ hc)
    have hfirst : components (encode path) = [] :: components rest := by
      have hempty : slash ∉ ([] : Bytes) := List.not_mem_nil
      rw [← hrest]
      exact components_append_slash hempty rest
    exact (hcomponents [] (by rw [hfirst]; exact List.mem_cons_self)).1 rfl
  have hbackslash : (encode path).contains 0x5c = false := by
    rw [List.contains_eq_mem, decide_eq_false_iff_not, mem_encode (by decide)]
    simpa using hback
  simp only [validWorkspacePath, Bool.and_eq_true, decide_eq_true_eq, hslash, hbackslash,
    Bool.not_false, and_true, List.all_eq_true]
  refine ⟨⟨hne, by omega⟩, fun part hpart => ?_⟩
  obtain ⟨h1, h2, h3⟩ := hcomponents part hpart
  exact ⟨⟨h1, h2⟩, h3⟩

theorem isUnder_iff_components {path dir : Bytes} :
    isUnder path dir = true ↔ components dir <+: components path := by
  rw [components_isPrefix, isUnder, Bool.or_eq_true, decide_eq_true_eq]
  exact or_congr Iff.rfl List.isPrefixOf_iff_prefix

/-! ## The content on a node -/

/-- The descriptor of a content, as a node's command carries it. -/
def Content.blob (content : Content) : WorkspaceBlob :=
  ⟨content.key, content.sha256, content.compressedSize, content.logicalSize, content.paths⟩

/-- The files of an output, as an archive holds them. -/
def Files.packed (files : Files) : List (Bytes × Bytes) :=
  files.sorted.map fun entry => (encode entry.1, entry.2.bytes)

/-- No path is a world path, and none lies below another. -/
structure Acceptable (paths : List JsString) : Prop where
  content : ∀ path ∈ paths, isWorldPath (encode path) = false
  apart : ∀ path ∈ paths, ∀ other ∈ paths, isUnder (encode other) (encode path) → other = path

/-- The node takes the content: its command is valid, and on a disk that does not fail the archive
is extracted to exactly these files, whatever the choices of the outside. -/
structure Accepts (m : Manager) (command : Command) (descriptor : WorkspaceBlob)
    (archivePath root : Path) (limit : Int) (files : List (Bytes × Bytes)) (w : Workspace.World) :
    Prop where
  valid : validateRuntimeContent descriptor command = .ok ()
  extracts : ∀ choices : Nat → Workspace.Env, ∃ n x,
    (run (handleSettled fun _ => false).toHandler
      (m.extractArchive archivePath root descriptor [] limit false).run
      ((List.range n).map choices) w []).1 = some (.ok x) ∧
    ∀ r data, (run (handleSettled fun _ => false).toHandler
      (m.extractArchive archivePath root descriptor [] limit false).run
      ((List.range n).map choices) w []).2.1.disk.files root r = some data ↔
        ∃ file ∈ files, components file.1 = r ∧ file.2 = data

section Package

variable {key : Bytes} {files : Files} {built : Built}

theorem mem_packed {file : Bytes × Bytes} :
    file ∈ files.packed ↔ ∃ entry ∈ files.entries, (encode entry.1, entry.2.bytes) = file := by
  rw [Files.packed, List.mem_map]
  simp only [files.sorted_perm.mem_iff]

theorem exists_mem_packed {path : JsString} (h : path ∈ files.paths) :
    ∃ file ∈ files.packed, file.1 = encode path := by
  obtain ⟨entry, hentry, rfl⟩ := List.mem_map.mp h
  exact ⟨_, mem_packed.mpr ⟨entry, hentry, rfl⟩, rfl⟩

theorem exists_path_of_packed {file : Bytes × Bytes} (h : file ∈ files.packed) :
    ∃ path ∈ files.paths, file.1 = encode path := by
  obtain ⟨entry, hentry, rfl⟩ := mem_packed.mp h
  exact ⟨entry.1, List.mem_map_of_mem hentry, rfl⟩

theorem nodup_packed (h : Packaged key files built) : (files.packed.map Prod.fst).Nodup := by
  have hperm : (files.packed.map Prod.fst).Perm (files.paths.map encode) := by
    rw [Files.packed, List.map_map, Files.paths, List.map_map]
    exact files.sorted_perm.map _
  refine hperm.nodup_iff.mpr (files.nodup.map_on fun p hp q hq heq => ?_)
  exact encode_injective (h.text p hp).1 (h.text q hq).1 heq

theorem zero_not_mem_packed (h : Packaged key files built) {file : Bytes × Bytes}
    (hf : file ∈ files.packed) : 0 ∉ file.1 := by
  obtain ⟨path, hpath, heq⟩ := exists_path_of_packed hf
  rw [heq]
  exact fun hmem => (h.text path hpath).2 ((mem_encode (by decide) path).mp hmem)

theorem paths_of_packaged (job : Job) (h : Packaged key files built) :
    (publicationForControlPlane job built).content.blob.paths = files.packed.map Prod.fst := by
  simp only [Content.blob, publicationForControlPlane, h.entries, Files.packed, List.map_map]
  rfl

theorem totalSize_packed (files : Files) : totalSize files.packed =
    (files.sorted.map fun entry => (entry.2.bytes.length : Int)).sum := by
  rw [totalSize, Files.packed, List.map_map]
  rfl

theorem logicalSize_of_packaged (job : Job) (h : Packaged key files built) :
    (publicationForControlPlane job built).content.blob.logicalSize = totalSize files.packed := by
  rw [totalSize_packed]
  simp only [Content.blob, publicationForControlPlane, h.entries, List.map_map]
  rfl

theorem length_packed (files : Files) : files.packed.length = files.entries.length := by
  rw [Files.packed, List.length_map, files.sorted_perm.length_eq]

/-- The descriptor passes the node's check exactly if no path of the output is a world path. -/
theorem validateRuntimeContent_iff {job : Job} {command : Command} {start : Bytes}
    (h : Packaged job.expectedContentKey files built) (hstart : workspacePrefix command = .ok start)
    (hkey : hasPrefix job.expectedContentKey (start ++ lit "/compiler-content/") ∧
      hasSuffix job.expectedContentKey (lit ".tar.zst")) :
    validateRuntimeContent (publicationForControlPlane job built).content.blob command = .ok () ↔
      ∀ path ∈ files.paths, isWorldPath (encode path) = false := by
  have hne : job.expectedContentKey ≠ [] := by
    intro he
    have := hkey.2
    rw [he] at this
    exact absurd this (by decide)
  have hcount := h.count
  have htotal := h.total
  have hsize := totalSize_nonneg files.packed
  rw [totalSize_packed] at hsize
  have hdescriptor : validDescriptor (publicationForControlPlane job built).content.blob =
      true := by
    have hpaths := congrArg List.length (paths_of_packaged job h)
    rw [List.length_map, length_packed] at hpaths
    have hlogical := logicalSize_of_packaged job h
    rw [totalSize_packed] at hlogical
    have hcompressed : (publicationForControlPlane job built).content.blob.compressedSize =
        built.archive.length := h.size
    have hdigest : validDigest (publicationForControlPlane job built).content.blob.sha256 := by
      change validDigest built.sha256
      rw [h.digest]
      exact validDigest_sha256 _
    have hblobKey : (publicationForControlPlane job built).content.blob.key ≠ [] := by
      change built.key ≠ []
      rw [h.key]
      exact hne
    have hbound := h.bound
    simp only [maxPackageArchiveBytes, maxOutputFiles, maxPackageInputBytes] at hbound hcount htotal
    simp only [validDescriptor, hdigest, hcompressed, hlogical, hpaths, Bool.and_true,
      Bool.and_eq_true, decide_eq_true_eq, maxBlobBytes, maxWorkspaceBytes, maxArchiveEntries]
    refine ⟨⟨⟨⟨⟨hblobKey, ?_⟩, ?_⟩, ?_⟩, ?_⟩, ?_⟩ <;> omega
  have hcontains : ∀ path ∈ files.paths,
      (publicationForControlPlane job built).content.blob.paths.contains (encode path) = true := by
    intro path hpath
    obtain ⟨file, hfile, heq⟩ := exists_mem_packed hpath
    rw [paths_of_packaged job h, List.contains_iff_mem, ← heq]
    exact List.mem_map_of_mem hfile
  have hblobKey : (publicationForControlPlane job built).content.blob.key =
      job.expectedContentKey := h.key
  have hruntime := hcontains _ h.runtime
  have hlaunch := hcontains _ h.launch
  rw [show encode runtimePath = lit ".xmcl/runtime.json" by decide] at hruntime
  rw [show encode launchPath = lit ".xmcl/launch.sh" by decide] at hlaunch
  have hall : (publicationForControlPlane job built).content.blob.paths.all isRuntimeContentPath =
      true ↔ ∀ path ∈ files.paths, isWorldPath (encode path) = false := by
    rw [paths_of_packaged job h, List.all_eq_true]
    constructor
    · intro hforall path hpath
      obtain ⟨file, hfile, heq⟩ := exists_mem_packed hpath
      have := hforall file.1 (List.mem_map_of_mem hfile)
      rw [heq] at this
      simpa [isRuntimeContentPath] using this
    · intro hforall path hpath
      obtain ⟨file, hfile, rfl⟩ := List.mem_map.mp hpath
      obtain ⟨p, hp, heq⟩ := exists_path_of_packed hfile
      rw [heq]
      simpa [isRuntimeContentPath] using hforall p hp
  rw [← hall]
  unfold validateRuntimeContent
  rw [hstart]
  simp only [bind, Except.bind, hdescriptor, hblobKey, hkey.1, hkey.2, hruntime, hlaunch,
    Bool.not_true, Bool.false_or, Bool.or_false, Bool.not_eq_true']
  split
  next hfalse => simp [hfalse]
  next htrue => exact iff_of_true rfl (by simpa using htrue)

end Package

theorem key_of_validateCompilerJob {job : Job} (h : validateCompilerJob job = none) :
    hasPrefix job.expectedContentKey (lit "shared-hosting/" ++ job.accountId ++ lit "/" ++
      job.serviceId ++ lit "/compiler-content/") ∧
    hasSuffix job.expectedContentKey (lit ".tar.zst") := by
  simp only [validateCompilerJob] at h
  split at h
  · cases h
  split at h
  · cases h
  split at h
  · cases h
  next hkeys =>
    rw [(not_not.mp hkeys).2]
    constructor
    · refine List.isPrefixOf_iff_prefix.mpr ⟨job.manifestSha256 ++ lit ".tar.zst", ?_⟩
      have hlit : lit "/compiler-content/" = lit "/" ++ lit "compiler-content/" := by
        decide
      simp only [Job.keyBase, hlit, List.append_assoc]
    · exact List.isSuffixOf_iff_suffix.mpr (List.suffix_append _ _)

theorem tree_of_childless {d : Disk} {root : Path} (hroot : d.get root = some .dir)
    (hempty : d.childless root) : Tree root (fun _ => none) d where
  holds :=
    { base := Or.inr hroot
      file := by simp
      dir := fun r r' _ _ hf => absurd rfl hf
      nothing := fun r hr _ =>
        Disk.childless_eq hempty (List.prefix_append _ _) (by simpa using hr) }
  above q hq := by
    by_cases heq : q = root
    · exact Or.inr (heq ▸ hroot)
    · exact Or.inr (Disk.dir_of_below hq heq (by simp [hroot]))
  legal := d.named root (by simp [hroot])

section Accepts

variable {files : Files} {built : Built} {m : Manager} {archivePath root : Path} {limit t : Int}
  {w : Workspace.World}

/-- The archive of a build can be extracted exactly if no path lies below another. -/
theorem unpackable_iff {key : Bytes} {job : Job} (h : Packaged key files built)
    (hlimit : 2 ^ 30 ≤ limit) :
    Unpackable limit false (publicationForControlPlane job built).content.blob
        (files.packed.map fileMember, true) (fun _ => none) ↔
      ∀ path ∈ files.paths, ∀ other ∈ files.paths,
        isUnder (encode other) (encode path) → other = path := by
  have hsize : totalSize files.packed ≤ 2 ^ 30 := by
    have htotal := h.total
    rw [totalSize_packed]
    simp only [maxPackageInputBytes] at htotal
    omega
  rw [unpackable_files (paths_of_packaged job h) (logicalSize_of_packaged job h) (by omega)
    fun file hf => zero_not_mem_packed h hf]
  have hvalid : ∀ file ∈ files.packed, validWorkspacePath file.1 := by
    intro file hf
    obtain ⟨path, hpath, heq⟩ := exists_path_of_packed hf
    rw [heq]
    exact valid_of_safeOutputPath (h.safe path hpath)
  have hlimits : files.packed.length ≤ maxArchiveEntries ∧ totalSize files.packed ≤ limit := by
    rw [length_packed]
    exact ⟨Nat.le_trans h.count (by decide), by omega⟩
  constructor
  · rintro ⟨-, -, -, hsettles⟩ path hpath other hother hunder
    obtain ⟨file, hf, hfile⟩ := exists_mem_packed hpath
    obtain ⟨file', hf', hfile'⟩ := exists_mem_packed hother
    have heq := hsettles.apart file hf file' hf'
      (by rw [hfile, hfile']; exact isUnder_iff_components.mp hunder)
    rw [hfile, hfile'] at heq
    exact encode_injective (h.text other hother).1 (h.text path hpath).1 heq.symm
  · intro hapart
    refine ⟨nodup_packed h, hvalid, fun _ => hlimits, ?_⟩
    refine ⟨fun _ _ hne => absurd rfl hne, fun _ _ _ _ _ => rfl, fun _ _ _ _ _ => rfl, ?_⟩
    intro file hf other hf' hp
    obtain ⟨path, hpath, hfile⟩ := exists_path_of_packed hf
    obtain ⟨path', hpath', hfile'⟩ := exists_path_of_packed hf'
    rw [hfile, hfile'] at hp
    rw [hfile, hfile', hapart path hpath path' hpath' (isUnder_iff_components.mpr hp)]

theorem unpackable_of_accepts {command : Command} {descriptor : WorkspaceBlob}
    {packed : List (Bytes × Bytes)} {members : List Member × Bool}
    (h : Accepts m command descriptor archivePath root limit packed w)
    (harchive : w.disk.get archivePath = some (.file built.archive t))
    (hroot : w.disk.get root = some .dir) (hempty : w.disk.childless root)
    (hdecode : m.codec.decode built.archive = members) :
    Unpackable limit false descriptor members fun _ => none := by
  obtain ⟨n, x, hx, -⟩ := h.extracts fun _ => { broker := fun _ _ => .error "" }
  have hyields : Yields (handleSettled fun _ => false) (fun _ => True) (fun _ => True)
      (m.extractArchive archivePath root descriptor [] limit false)
      (fun _ _ => Unpackable limit false descriptor members fun _ => none) w :=
    yields_extractArchive (Or.inr fun _ => trivial) harchive (tree_of_childless hroot hempty)
      (fun name => by simp) (fun _ _ => trivial) fun d seen hun _ _ _ => by rwa [hdecode] at hun
  exact twp_run (fun _ _ => trivial) hyields hx

/-- **A node accepts what the compiler built** exactly if no path of the output is a world path and
none lies below another one. -/
theorem node_accepts_build {b : Builder} {raw : RawBundle} {bundle : Bundle} {job : Job}
    {mods : List RemoteMod} {result : SandboxOutput} {command : Command}
    (hjob : validateCompilerJob job = none)
    (hbundle : validateBundle b.toLowerCase raw job.frozenManifest.compatibility mods = .ok bundle)
    (hresult : b.installed = some result) (hbuild : b.compile raw job mods = .ok (files, built))
    (hcommand : workspacePrefix command =
      .ok (lit "shared-hosting/" ++ job.accountId ++ lit "/" ++ job.serviceId))
    (hdecode : m.codec.decode built.archive = (files.packed.map fileMember, true))
    (hlimit : 2 ^ 30 ≤ limit) (harchive : w.disk.get archivePath = some (.file built.archive t))
    (hroot : w.disk.get root = some .dir) (hempty : w.disk.childless root) :
    Accepts m command (publicationForControlPlane job built).content.blob archivePath root limit
        files.packed w ↔
      Acceptable (outputPaths result.files bundle mods) := by
  obtain ⟨bundle', hbundle', hbuild⟩ := bind_eq_ok hbuild
  obtain rfl := Except.ok.inj (hbundle'.symm.trans hbundle)
  obtain ⟨⟨result', hresult', hpaths⟩, hpackaged⟩ := packaged_of_build hbuild
  obtain rfl := Option.mem_unique hresult' hresult
  rw [← hpaths]
  have hvalid := validateRuntimeContent_iff hpackaged hcommand (key_of_validateCompilerJob hjob)
  have hunpackable := @unpackable_iff files built limit _ job hpackaged hlimit
  have htree := tree_of_childless hroot hempty
  have hmirrors : Mirrors [] fun _ => none := fun name => by simp
  constructor
  · intro h
    refine ⟨hvalid.mp h.valid, hunpackable.mp ?_⟩
    exact unpackable_of_accepts h harchive hroot hempty hdecode
  · intro h
    refine ⟨hvalid.mpr h.content, fun choices => ?_⟩
    have hyields : Yields (handleSettled fun _ => false) (fun _ => True) (fun _ => False)
        (m.extractArchive archivePath root (publicationForControlPlane job built).content.blob []
          limit false)
        (fun _ w' => ∀ r data, w'.disk.files root r = some data ↔
          ∃ file ∈ files.packed, components file.1 = r ∧ file.2 = data) w := by
      refine yields_extractArchive (Or.inl fun _ _ => rfl) harchive htree hmirrors ?_ ?_
      · intro hno
        rw [hdecode] at hno
        exact absurd (hunpackable.mpr h.apart) hno
      · intro d seen _ htree' _ _ r data
        rw [htree'.holds.files, hdecode, putAll_files (nodup_packed hpackaged)]
        simp
    obtain ⟨n, r, hr⟩ := twp_returns choices (fun _ => trivial) hyields
    have hend := twp_run (fun _ _ => trivial) hyields hr
    cases r with
    | error err => exact hend.elim
    | ok x => exact ⟨n, x, hr, hend⟩

end Accepts

/-! ## A bundle with a remote mod, and one whose paths lie below one another -/

def fabricCompatibility : Compatibility where
  minecraftVersion := lit "1.20.1"
  javaComponent := lit "gamma"
  javaMajor := 17
  runtimeCatalogSha256 := sha256 []
  loader := lit "fabric"
  loaderVersion := lit "0.15.0"

def fabricJob : Job where
  accountId := lit "acc"
  serviceId := lit "a"
  deploymentId := lit "d"
  compilerRequestId := lit "r"
  manifestSha256 := sha256 []
  expectedContentKey := lit "shared-hosting/acc/a/compiler-content/" ++ sha256 [] ++ lit ".tar.zst"
  frozenManifest :=
    { sourceFormat := lit "xmcl_server_bundle", importId := lit "i"
      archive := ⟨lit "shared-hosting/acc/a/compiler-inputs/i.xmcl-server-bundle", sha256 [], 1⟩
      compatibility := fabricCompatibility }

def fabricToolchain : Toolchain where
  minecraftVersion := lit "1.20.1"
  loader := lit "fabric"
  loaderVersion := lit "0.15.0"
  javaComponent := lit "gamma"
  javaMajor := 17
  jre := ⟨lit "jre17", sha256 [], lit "gamma", 17, sha256 []⟩
  artifacts := [⟨lit "net.fabricmc:fabric-loader:0.15.0", sha256 [1], 1⟩]

def fabricArguments : List Bytes := [lit "-jar", lit "server.jar", lit "nogui"]

def fabricInstalled : Files := ⟨[(js "server.jar", ⟨[1], 0o644⟩)], by decide⟩

def fabricBuilder : Builder where
  toLowerCase := List.map foldUnit
  normalize := id
  catalog := some ⟨sha256 [], [fabricToolchain], fun t ht => by
    rw [List.mem_singleton.mp ht]
    decide +kernel⟩
  jre := some fabricToolchain.jre
  download _ := .ok [1]
  installed := some ⟨true, fabricInstalled⟩
  downloadRemoteMod _ := .ok [2]

def bundleFile (entry : JsString × Bytes) : BundleFile :=
  ⟨entry.1, Text.sha256 entry.2, entry.2.length⟩

def remoteMod : RemoteMod := ⟨js "m.jar", ⟨.modrinth, lit "p", lit "v"⟩, sha256 [2], 1, true⟩

section Sample

variable (paths : List String) (mods : List RemoteMod)

/-- The files of the instance: empty, with these paths. -/
def configFiles : List (JsString × Bytes) :=
  paths.map fun path => (js "instance/" ++ js path, [])

def artifactText (path : String) : Bytes :=
  lit "\x7b\"path\":\"instance/" ++ lit path ++ lit "\",\"sha256\":\"" ++ sha256 [] ++
    lit "\",\"sizeBytes\":0,\"intent\":\"config\"\x7d"

def declarationText (mod : RemoteMod) : Bytes :=
  lit "\x7b\"filename\":\"" ++ encode mod.filename ++ lit "\",\"path\":\"" ++
    encode (modPath mod.filename) ++ lit "\",\"sha256\":\"" ++ mod.sha256 ++
    lit "\",\"sizeBytes\":1,\"source\":\x7b\"provider\":\"modrinth\",\"projectId\":\"" ++
    mod.source.projectId ++ lit "\",\"versionId\":\"" ++ mod.source.fileId ++ lit "\"\x7d\x7d"

def fabricDocuments : List (JsString × Bytes) :=
  [(js "resolved/artifacts.json", lit "\x7b\"schemaVersion\":1,\"artifacts\":[" ++
      [0x2c].intercalate (paths.map artifactText) ++ lit "]\x7d"),
    (js "resolved/loader.json", lit "\x7b\"minecraftVersion\":\"1.20.1\",\"loader\":" ++
      lit "\x7b\"kind\":\"fabric\",\"version\":\"0.15.0\"\x7d,\"javaRequirement\":" ++
      lit "\x7b\"component\":\"gamma\",\"major\":17\x7d,\"runtimeCatalog\":\x7b\"sha256\":\"" ++
      sha256 [] ++ lit "\"\x7d\x7d"),
    (js "resolved/mods.json",
      lit "[" ++ [0x2c].intercalate (mods.map declarationText) ++ lit "]"),
    (js "resolved/version.json", lit "\x7b\"minecraftVersion\":\"1.20.1\",\"javaVersion\":" ++
      lit "\x7b\"component\":\"gamma\",\"majorVersion\":17\x7d\x7d")]

def fabricManifest : BundleManifest :=
  ⟨js "pack", fabricCompatibility, (configFiles paths ++ fabricDocuments paths mods).map bundleFile⟩

def fabricRaw : RawBundle where
  byteLength := 1
  entries := (js "bundle.json", []) :: (configFiles paths ++ fabricDocuments paths mods)
  manifest := fabricManifest paths mods
  loader := fabricCompatibility
  version := fabricCompatibility
  artifacts := (configFiles paths).map fun entry => ⟨bundleFile entry, .config⟩
  mods := mods.map fun mod =>
    ⟨⟨modPath mod.filename, mod.sha256, mod.sizeBytes⟩, some (mod.filename, mod.source)⟩

def fabricBundle : Bundle := ⟨fabricManifest paths mods, (fabricRaw paths mods).entries⟩

def fabricRuntime : OutputFile :=
  ⟨encodeJson (runtimeDescriptor fabricToolchain fabricArguments), 0o644⟩

def fabricLauncher : Bytes := ((generatedLauncher fabricArguments).toOption).getD []

def fabricEntries : List (JsString × OutputFile) :=
  fabricInstalled.entries ++ paths.map (fun path => (js path, ⟨[], 0o644⟩)) ++
    mods.map (fun mod => (remoteModPath mod, ⟨[2], 0o644⟩)) ++
    [(runtimePath, fabricRuntime), (launchPath, ⟨fabricLauncher, 0o755⟩)]

end Sample

def nestedPaths : List String := ["config/a", "config/a/b"]

def nestedOutput : Files := ⟨fabricEntries nestedPaths [], by decide⟩

def moddedOutput : Files := ⟨fabricEntries ["config/a"] [remoteMod], by decide⟩

def fabricCommand : Command where
  kind := .restoreAndStart
  serviceID := "a"
  accountID := "acc"
  workspace := { objectPrefix := "shared-hosting/acc/a" }

theorem fabric_job : validateCompilerJob fabricJob = none ∧
    validContentKey fabricJob.expectedContentKey = true ∧ workspacePrefix fabricCommand =
      .ok (lit "shared-hosting/" ++ fabricJob.accountId ++ lit "/" ++ fabricJob.serviceId) := by
  decide +kernel

def outputNames : List String :=
  ["server.jar", "config/a", "config/a/b", "mods/m.jar", ".xmcl/runtime.json", ".xmcl/launch.sh"]

/-- A bundle that builds: its output, and what the checks of the build say. -/
structure FabricBuild (paths : List String) (mods : List RemoteMod) where
  output : Files
  entries : output.entries = fabricEntries paths mods := by rfl
  bundle : validateBundle fabricBuilder.toLowerCase (fabricRaw paths mods)
    fabricJob.frozenManifest.compatibility mods = .ok (fabricBundle paths mods) := by decide +kernel
  prepared : fabricBuilder.prepare (fabricBundle paths mods) fabricJob.frozenManifest.compatibility
    fabricJob.expectedContentKey = .ok (fabricToolchain, fabricArguments) := by decide +kernel
  assembled : assembleOutput fabricBuilder fabricToolchain fabricArguments
    (fabricBundle paths mods) mods = .ok output := by decide +kernel
  valid : (validateOutputFiles fabricBuilder.toLowerCase output).isOk := by decide +kernel
  archive : (packageDeterministicTarZst output).isOk := by decide +kernel
  named : ∀ path ∈ output.paths, path ∈ outputNames.map js := by decide +kernel

def nestedBuild : FabricBuild nestedPaths [] where
  output := nestedOutput

def moddedBuild : FabricBuild ["config/a"] [remoteMod] where
  output := moddedOutput

theorem plain_outputNames : ∀ path ∈ outputNames.map js, PlainPath path := by
  have hall : ∀ name ∈ outputNames, 0 ∉ js name ∧
      ∀ part ∈ splitSlash (js name), part.head? ≠ some 0xfeff := by decide
  refine List.forall_mem_map.mpr fun name hname => ⟨⟨_, rfl⟩, ?_, ?_⟩
  · exact (hall name hname).1
  · exact (hall name hname).2

theorem reviewed_fabric : (runtimeDescriptor fabricToolchain fabricArguments).IsReviewed where
  revision := validSHA256_sha256 []
  version := by decide
  kind := by decide
  loader := by decide
  component := by decide
  major := by decide
  jre := by decide
  text := by
    have hall : ([lit "1.20.1", lit "fabric", lit "0.15.0", lit "gamma", lit "jre17"] ++
        fabricArguments).all (·.all (· < 0x80)) = true := by decide
    intro s hs
    obtain rfl | hs := List.mem_cons.mp hs
    · exact valid_ascii (sha256_all (by decide) [])
    · exact valid_ascii (List.all_eq_true.mp hall s hs)

theorem launcher_fabric : generatedLauncher fabricArguments = .ok fabricLauncher := by
  rfl

theorem generated_fabric : validGenerated fabricRuntime.bytes fabricLauncher :=
  validGenerated_of_reviewed reviewed_fabric (by decide) launcher_fabric

theorem FabricBuild.compile {paths : List String} {mods : List RemoteMod}
    (h : FabricBuild paths mods) : ∃ built,
      fabricBuilder.compile (fabricRaw paths mods) fabricJob mods = .ok (h.output, built) := by
  obtain ⟨entries, hvalid⟩ := exists_of_isOk h.valid
  obtain ⟨archive, harchive⟩ := exists_of_isOk h.archive
  obtain ⟨unpacked, hback⟩ := readsBack_of_packable (packable_of_validateOutputFiles
    (fun path hpath => plain_outputNames path (h.named path hpath)) hvalid).2 harchive
  have hgenerated : ∀ entry ∈ [(runtimePath, fabricRuntime), (launchPath, ⟨fabricLauncher, 0o755⟩)],
      entry ∈ h.output.sorted := fun entry hentry => by
    rw [h.output.sorted_perm.mem_iff, h.entries]
    exact List.mem_append_right _ hentry
  obtain ⟨built, hbuilt, -⟩ := packageOutput_eq_ok fabric_job.2.1 h.valid hback
    (hgenerated _ (.head _)) (hgenerated _ (.tail _ (.head _))) generated_fabric
  exact ⟨built, compile_eq_ok h.bundle h.prepared h.assembled hbuilt⟩

/-- A valid bundle is built and passes the node's check, and no node can extract it. -/
theorem nested_bundle_paths : validateCompilerJob fabricJob = none ∧ ∃ built,
    fabricBuilder.compile (fabricRaw nestedPaths []) fabricJob [] = .ok (nestedOutput, built) ∧
    validateRuntimeContent (publicationForControlPlane fabricJob built).content.blob fabricCommand =
      .ok () ∧
    ¬ Accepts (readerOf (nestedOutput.packed.map fileMember)) fabricCommand
      (publicationForControlPlane fabricJob built).content.blob [lit "archive"]
      [lit "root"] (2 ^ 30)
      nestedOutput.packed (archiveWorld built.archive) := by
  obtain ⟨hjob, -, hcommand⟩ := fabric_job
  obtain ⟨built, hbuilt⟩ := nestedBuild.compile
  obtain ⟨bundle, -, hbuild⟩ := bind_eq_ok hbuilt
  have hpackaged := (packaged_of_build hbuild).2
  refine ⟨hjob, built, hbuilt, ?_, fun h => ?_⟩
  · rw [validateRuntimeContent_iff hpackaged hcommand (key_of_validateCompilerJob hjob)]
    decide
  · have hapart := (unpackable_iff hpackaged (by decide)).mp (unpackable_of_accepts h
      (archiveWorld_archive _) (archiveWorld_dir _) (archiveWorld_childless _) rfl)
    exact absurd (hapart (js "config/a") (by decide) (js "config/a/b") (by decide) (by decide))
      (by decide)

theorem node_accepts_modded : ∃ built,
    fabricBuilder.compile (fabricRaw ["config/a"] [remoteMod]) fabricJob [remoteMod] =
      .ok (moddedOutput, built) ∧
    Accepts (readerOf (moddedOutput.packed.map fileMember)) fabricCommand
      (publicationForControlPlane fabricJob built).content.blob [lit "archive"]
      [lit "root"] (2 ^ 30)
      moddedOutput.packed (archiveWorld built.archive) := by
  obtain ⟨hjob, -, hcommand⟩ := fabric_job
  obtain ⟨built, hbuilt⟩ := moddedBuild.compile
  refine ⟨built, hbuilt, (node_accepts_build hjob moddedBuild.bundle rfl hbuilt hcommand rfl
    (by decide) (archiveWorld_archive _) (archiveWorld_dir _) (archiveWorld_childless _)).mpr ?_⟩
  exact ⟨by decide +kernel, by decide +kernel⟩

end SharedNode.Compiler
