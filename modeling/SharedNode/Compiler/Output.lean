import SharedNode.Compiler.Acceptance

/-!
# What a build packages

`ReviewedRuntimeBuilder.build` (`compiler/src/reviewed-builder.mjs`) collects its output in four
stages, each with its own rule for a path that is there already: the installer's files, the files of
the bundle's instance, the remote mods, and the two generated files. The directory `.xmcl` is kept
from the installer by name, from the bundle by the paths a bundle may have, and from the mods by
their directory.
-/

namespace SharedNode.Compiler

open Text

/-- The directory of the generated files. -/
def reservedDir : JsString := js ".xmcl/"

/-! ## Paths that are not reserved -/

theorem not_reserved_of_head {path : JsString} (h : path.head? ≠ some 0x2e) :
    startsWith path reservedDir = false := by
  cases path with
  | nil => rfl
  | cons u rest =>
    have hu : u ≠ 0x2e := fun heq => h (congrArg some heq)
    have hdot : (0x2e == u) = false := by simpa using hu.symm
    change (0x2e == u && _) = false
    rw [hdot, Bool.false_and]

/-- A path under one of these starts, as far as it goes, has its units. -/
theorem getElem?_of_startsWith {path start : JsString} {i : Nat} (h : startsWith path start)
    (hi : i < start.length) : path[i]? = start[i]? := by
  obtain ⟨rest, rfl⟩ := List.isPrefixOf_iff_prefix.mp h
  exact List.getElem?_append_left hi

/-- Of the paths a bundle may have, none is in the reserved directory of the output. -/
theorem not_reserved_of_allowedPath {path : JsString} (h : allowedPath path)
    (hinstance : startsWith path (js "instance/")) :
    startsWith (path.drop (js "instance/").length) reservedDir = false := by
  have hstarts : ∀ start ∈ instanceFiles ++ instanceDirs,
      9 < (js start).length ∧ (js start)[9]? ≠ some 0x2e := by decide
  have hresolved : ∀ name ∈ resolvedFiles, ¬ startsWith (js name) (js "instance/") := by decide
  refine not_reserved_of_head ?_
  rw [List.head?_drop, show (js "instance/").length = 9 from rfl]
  simp only [allowedPath, Bool.and_eq_true, Bool.or_eq_true, List.any_eq_true, List.mem_append,
    decide_eq_true_eq] at h
  have hstart : ∃ start ∈ instanceFiles ++ instanceDirs, startsWith path (js start) := by
    rcases h.2 with ⟨name, hname | hname, rfl⟩ | ⟨dir, hdir, hpath⟩
    · exact absurd hinstance (hresolved name hname)
    · exact ⟨name, List.mem_append_left _ hname, List.isPrefixOf_iff_prefix.mpr List.prefix_rfl⟩
    · exact ⟨dir, List.mem_append_right _ hdir, hpath⟩
  obtain ⟨start, hmem, hpath⟩ := hstart
  rw [getElem?_of_startsWith hpath (hstarts start hmem).1]
  exact (hstarts start hmem).2

/-! ## The output -/

/-- The output that is packaged: it is assembled from the inputs, and only the generated files are
reserved or forbidden. The paths of a map differ, so that no two parts share one. -/
structure Output (b : Builder) (installed : Files) (bundle : Bundle) (mods : List RemoteMod)
    (runtime launcher : OutputFile) (copies downloads : List (JsString × OutputFile))
    (files : Files) : Prop
    extends Assembled b installed bundle mods runtime launcher copies downloads files where
  reserved : ∀ entry ∈ installed.entries ++ copies ++ downloads,
    startsWith entry.1 reservedDir = false
  permitted : ∀ entry ∈ installed.entries ++ copies ++ downloads,
    forbiddenOutputPath b.toLowerCase entry.1 = false

theorem mem_right_of_forall₂ {α β : Type} {R : α → β → Prop} {l : List α} {l' : List β}
    (h : List.Forall₂ R l l') {b : β} (hb : b ∈ l') : ∃ a ∈ l, R a b := by
  induction h with
  | nil => cases hb
  | cons hhead _ ih =>
    rcases List.mem_cons.mp hb with rfl | hrest
    · exact ⟨_, List.mem_cons_self, hhead⟩
    · obtain ⟨a, ha, hR⟩ := ih hrest
      exact ⟨a, List.mem_cons_of_mem _ ha, hR⟩

section Assembled

variable {b : Builder} {installed : Files} {bundle : Bundle} {mods : List RemoteMod}
  {runtime launcher : OutputFile} {copies downloads : List (JsString × OutputFile)} {files : Files}

theorem reserved_of_assembled (hallowed : ∀ file ∈ bundle.manifest.files, allowedPath file.path)
    (h : Assembled b installed bundle mods runtime launcher copies downloads files) :
    ∀ entry ∈ installed.entries ++ copies ++ downloads, startsWith entry.1 reservedDir = false := by
  intro entry hentry
  rw [List.mem_append, List.mem_append] at hentry
  rcases hentry with (hinstalled | hcopy) | hdownload
  · have haccepted := h.accepted entry hinstalled
    unfold rejectionReason at haccepted
    split at haccepted
    · cases haccepted
    split at haccepted
    · cases haccepted
    split at haccepted
    · cases haccepted
    next hstart => exact Bool.not_eq_true _ ▸ hstart
  · obtain ⟨file, hfile, hcopy⟩ := mem_right_of_forall₂ h.copied hcopy
    rw [List.mem_filter] at hfile
    rw [hcopy.path]
    exact not_reserved_of_allowedPath (hallowed file hfile.1) hfile.2
  · obtain ⟨mod, -, hdownload⟩ := mem_right_of_forall₂ h.downloaded hdownload
    rw [hdownload.path]
    exact not_reserved_of_head fun heq => absurd (Option.some.inj heq) (by decide)

theorem allowed_of_validateOutputFiles {toLowerCase : JsString → JsString}
    {entries : List ContentEntry} (h : validateOutputFiles toLowerCase files = .ok entries) :
    ∀ path ∈ files.paths, allowedOutputPath toLowerCase path := by
  unfold validateOutputFiles at h
  split at h
  · cases h
  next hok =>
    simp only [Bool.or_eq_true, not_or, Bool.not_eq_true, Bool.not_eq_false', List.all_eq_true,
      Bool.and_eq_true] at hok
    intro path hpath
    obtain ⟨entry, hentry, rfl⟩ := List.mem_map.mp hpath
    exact (hok.1.1.1.2 entry (files.sorted_perm.mem_iff.mpr hentry)).1

theorem output_of_assembled {entries : List ContentEntry}
    (hallowed : ∀ file ∈ bundle.manifest.files, allowedPath file.path)
    (hvalid : validateOutputFiles b.toLowerCase files = .ok entries)
    (h : Assembled b installed bundle mods runtime launcher copies downloads files) :
    Output b installed bundle mods runtime launcher copies downloads files := by
  have hreserved := reserved_of_assembled hallowed h
  refine ⟨h, hreserved, fun entry hentry => ?_⟩
  have hpath : entry.1 ∈ files.paths := by
    rw [Files.paths, h.entries]
    exact List.mem_map_of_mem (List.mem_append_left _ hentry)
  have houtput := allowed_of_validateOutputFiles hvalid _ hpath
  simp only [allowedOutputPath, Bool.and_eq_true, Bool.or_eq_true, decide_eq_true_eq,
    Bool.not_eq_true'] at houtput
  -- The two exceptions are reserved, and no input is.
  have hruntime : entry.1 ≠ runtimePath := fun heq =>
    absurd (heq ▸ hreserved entry hentry) (by decide)
  have hlaunch : entry.1 ≠ launchPath := fun heq =>
    absurd (heq ▸ hreserved entry hentry) (by decide)
  exact (houtput.2.resolve_left fun hor => hor.elim hruntime hlaunch)

end Assembled

theorem parts_of_packageOutput {toLowerCase : JsString → JsString} {key : Bytes} {files : Files}
    {built : Built} (h : packageOutput toLowerCase key files = .ok built) :
    (∃ entries, validateOutputFiles toLowerCase files = .ok entries) ∧
      packageDeterministicTarZst files = .ok built.archive := by
  obtain ⟨entries, hentries, h⟩ := bind_eq_ok h
  obtain ⟨archive, harchive, h⟩ := bind_eq_ok h
  split at h
  · cases h
  next runtime _ =>
    obtain ⟨⟨⟩, -, h⟩ := bind_eq_ok h
    cases h
    exact ⟨⟨entries, hentries⟩, harchive⟩

/-- What is packaged when an accepted bundle is built: the files of the installer, of the instance,
of the remote mods and the two generated ones, and nothing else. -/
theorem output_of_compile {b : Builder} {raw : RawBundle} {job : Job} {mods : List RemoteMod}
    {files : Files} {built : Built} (h : b.compile raw job mods = .ok (files, built)) :
    ∃ bundle result toolchain arguments launcher copies downloads,
      validateBundle b.toLowerCase raw job.frozenManifest.compatibility mods = .ok bundle ∧
      b.installed = some result ∧ generatedLauncher arguments = .ok launcher ∧
      packageDeterministicTarZst files = .ok built.archive ∧
      Output b result.files bundle mods ⟨encodeJson (runtimeDescriptor toolchain arguments), 0o644⟩
        ⟨launcher, 0o755⟩ copies downloads files := by
  obtain ⟨bundle, hbundle, h⟩ := bind_eq_ok h
  obtain ⟨toolchain, arguments, houtput, hresult⟩ := parts_of_build h
  obtain ⟨installed, launcher, copies, downloads, hinstalled, hlauncher, hassembled⟩ :=
    assembled_of_assembleOutput houtput
  obtain ⟨⟨entries, hentries⟩, harchive⟩ := parts_of_packageOutput hresult
  have hallowed := (pairwise_of_parseFiles (parseFiles_of_validateBundle hbundle)).1
  exact ⟨bundle, installed, toolchain, arguments, launcher, copies, downloads, hbundle, hinstalled,
    hlauncher, harchive, output_of_assembled hallowed hentries hassembled⟩

theorem output_of_compile_modded : ∃ bundle result toolchain arguments launcher copies downloads,
    fabricBuilder.installed = some result ∧ Output fabricBuilder result.files bundle [remoteMod]
        ⟨encodeJson (runtimeDescriptor toolchain arguments), 0o644⟩
          ⟨launcher, 0o755⟩ copies downloads
        moddedOutput := by
  obtain ⟨built, hbuilt⟩ := moddedBuild.compile
  obtain ⟨bundle, result, toolchain, arguments, launcher, copies, downloads, -, hresult, -, -,
    houtput⟩ := output_of_compile hbuilt
  exact ⟨bundle, result, toolchain, arguments, launcher, copies, downloads, hresult, houtput⟩

end SharedNode.Compiler
