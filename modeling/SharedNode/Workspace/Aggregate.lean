import SharedNode.Text.Json
import SharedNode.Workspace.Manifest

/-!
# What the aggregate of a manifest binds

`aggregateDescriptors` (`internal/workspace/workspace.go`) hashes the descriptors of a manifest one
after the other: the key, the digest, the sizes and the paths, each with a NUL byte behind it, and a
newline behind the last path. `validateManifest` puts no restriction on the bytes of a path beyond
slashes, backslashes and dots, so a path can hold the NUL byte that ends it, or start with the
newline that ends its descriptor; the key of compiler content can hold anything after its prefix.
-/

namespace SharedNode.Workspace

open Text ControlPlane

/-- The separators of the aggregate are not in the names. -/
structure WorkspaceBlob.Separable (d : WorkspaceBlob) : Prop where
  key : 0 ∉ d.key
  path : ∀ p ∈ d.paths, 0 ∉ p
  start : ∀ p ∈ d.paths, p.head? ≠ some 0x0a

/-- A manifest whose names do not have the separators. -/
def Separable (manifest : WorkspaceManifest) : Prop :=
  ∀ d ∈ manifestDescriptors manifest, WorkspaceBlob.Separable d

/-! ## One descriptor -/

/-- The paths of a descriptor are known from what is hashed of them. -/
theorem eq_of_paths {paths paths' : List Bytes} {x y : Bytes}
    (hzero : ∀ p ∈ paths, 0 ∉ p) (hstart : ∀ p ∈ paths, p.head? ≠ some 0x0a)
    (hzero' : ∀ p ∈ paths', 0 ∉ p) (hstart' : ∀ p ∈ paths', p.head? ≠ some 0x0a)
    (h : (paths.flatMap fun path => path ++ [0]) ++ 0x0a :: x =
      (paths'.flatMap fun path => path ++ [0]) ++ 0x0a :: y) : paths = paths' ∧ x = y := by
  -- A list that has ended goes on with a newline, and no path starts with one.
  have hend : ∀ {p : Bytes} {rest x : Bytes}, p.head? ≠ some 0x0a →
      0x0a :: x ≠ p ++ 0 :: rest := by
    intro p rest x hp heq
    cases p with
    | nil => exact absurd (List.cons.inj heq).1 (by decide)
    | cons b p => exact hp (congrArg some (List.cons.inj heq).1.symm)
  induction paths generalizing paths' with
  | nil =>
    cases paths' with
    | nil => exact ⟨rfl, (List.cons.inj h).2⟩
    | cons q rest =>
      simp only [List.flatMap_nil, List.nil_append, List.flatMap_cons, List.append_assoc,
        List.cons_append] at h
      exact absurd h (hend (hstart' q List.mem_cons_self))
  | cons p rest ih =>
    cases paths' with
    | nil =>
      simp only [List.flatMap_nil, List.nil_append, List.flatMap_cons, List.append_assoc,
        List.cons_append] at h
      exact absurd h.symm (hend (hstart p List.mem_cons_self))
    | cons q rest' =>
      simp only [List.flatMap_cons, List.append_assoc, List.cons_append, List.nil_append] at h
      obtain ⟨rfl, hrest⟩ := eq_of_append_separator (hzero p List.mem_cons_self)
        (hzero' q List.mem_cons_self) h
      obtain ⟨rfl, hxy⟩ := ih (List.forall_mem_cons.mp hzero).2
        (List.forall_mem_cons.mp hstart).2
        (List.forall_mem_cons.mp hzero').2
        (List.forall_mem_cons.mp hstart').2 hrest
      exact ⟨rfl, hxy⟩

theorem zero_notMem_of_validDigest {s : Bytes} (h : validDigest s = true) : 0 ∉ s := by
  intro hmem
  rw [validDigest, validSHA256, Bool.and_eq_true, Bool.and_eq_true, List.all_eq_true] at h
  exact absurd (h.1.2 0 hmem) (by decide)

/-- What is hashed of a valid descriptor ends where the descriptor ends, and determines it. -/
theorem eq_of_aggregateEntry {d e : WorkspaceBlob} {x y : Bytes} (hd : validDescriptor d = true)
    (he : validDescriptor e = true) (hsd : WorkspaceBlob.Separable d)
    (hse : WorkspaceBlob.Separable e) (h : aggregateEntry d ++ x = aggregateEntry e ++ y) :
    d = e ∧ x = y := by
  simp only [validDescriptor, Bool.and_eq_true] at hd he
  obtain ⟨⟨⟨⟨⟨⟨-, hsha⟩, -⟩, -⟩, -⟩, -⟩, -⟩ := hd
  obtain ⟨⟨⟨⟨⟨⟨-, gsha⟩, -⟩, -⟩, -⟩, -⟩, -⟩ := he
  have hcolon : lit ":" = [0x3a] := rfl
  have hnewline : lit "\n" = [0x0a] := rfl
  simp only [aggregateEntry, hcolon, hnewline, List.append_assoc, List.cons_append,
    List.nil_append] at h
  obtain ⟨hkey, h⟩ := eq_of_append_separator hsd.key hse.key h
  obtain ⟨hdigest, h⟩ := eq_of_append_separator (zero_notMem_of_validDigest hsha)
    (zero_notMem_of_validDigest gsha) h
  obtain ⟨hcompressed, h⟩ := eq_of_append_separator (mt mem_formatInt (by decide))
    (mt mem_formatInt (by decide)) h
  obtain ⟨hlogical, h⟩ := eq_of_append_separator (mt mem_formatInt (by decide))
    (mt mem_formatInt (by decide)) h
  obtain ⟨hpaths, hxy⟩ := eq_of_paths hsd.path hsd.start hse.path hse.start h
  rw [WorkspaceBlob.mk.injEq]
  exact ⟨⟨hkey, hdigest, formatInt_injective hcompressed, formatInt_injective hlogical, hpaths⟩,
    hxy⟩

/-! ## All descriptors -/

theorem eq_of_aggregate {l l' : List WorkspaceBlob} (hl : ∀ d ∈ l, validDescriptor d = true)
    (hl' : ∀ d ∈ l', validDescriptor d = true) (hs : ∀ d ∈ l, WorkspaceBlob.Separable d)
    (hs' : ∀ d ∈ l', WorkspaceBlob.Separable d)
    (h : l.flatMap aggregateEntry = l'.flatMap aggregateEntry) : l = l' := by
  induction l generalizing l' with
  | nil =>
    cases l' with
    | nil => rfl
    | cons e rest => simp [aggregateEntry] at h
  | cons d rest ih =>
    cases l' with
    | nil => simp [aggregateEntry] at h
    | cons e rest' =>
      obtain ⟨rfl, hrest⟩ := eq_of_aggregateEntry (hl d List.mem_cons_self)
        (hl' e List.mem_cons_self) (hs d List.mem_cons_self) (hs' e List.mem_cons_self) h
      rw [ih (List.forall_mem_cons.mp hl).2
        (List.forall_mem_cons.mp hl').2
        (List.forall_mem_cons.mp hs).2
        (List.forall_mem_cons.mp hs').2 hrest]

theorem validDescriptor_of_validateDescriptors {manifest : WorkspaceManifest}
    {l : List WorkspaceBlob} {keys paths result : List Bytes}
    (h : validateDescriptors manifest l keys paths = .ok result) :
    ∀ d ∈ l, validDescriptor d = true := by
  induction l generalizing keys paths with
  | nil => exact fun d hd => absurd hd List.not_mem_nil
  | cons d rest ih =>
    unfold validateDescriptors at h
    by_cases hvalid : validDescriptor d = true
    · rw [hvalid, Bool.not_true, if_neg Bool.false_ne_true] at h
      split at h
      · cases h
      · cases hpaths : validatePaths manifest d d.paths [] paths with
        | error err => rw [hpaths] at h; cases h
        | ok paths' =>
          rw [hpaths] at h
          rintro e (_ | ⟨_, he⟩)
          · exact hvalid
          · exact ih h e he
    · rw [if_pos (by simpa using hvalid)] at h
      cases h

theorem validDescriptor_of_validateManifest {manifest : WorkspaceManifest} {command : Command}
    (h : validateManifest manifest command = .ok ()) :
    ∀ d ∈ manifestDescriptors manifest, validDescriptor d = true := by
  unfold validateManifest at h
  split at h
  · cases h
  · split at h
    · cases h
    · cases hstart : workspacePrefix command with
      | error err => rw [hstart] at h; cases h
      | ok start =>
        rw [hstart] at h
        simp only [bind, Except.bind] at h
        split at h
        · cases h
        · cases hpaths : validateDescriptors manifest (manifestDescriptors manifest) [] [] with
          | error err => rw [hpaths] at h; cases h
          | ok paths => exact validDescriptor_of_validateDescriptors hpaths

/-- The bytes that are hashed determine the descriptors of valid manifests, as long as the
separators are not in the names. -/
theorem descriptors_of_aggregate {manifest manifest' : WorkspaceManifest} {command : Command}
    (h : validateManifest manifest command = .ok ())
    (h' : validateManifest manifest' command = .ok ())
    (hs : Separable manifest) (hs' : Separable manifest')
    (hbytes : (manifestDescriptors manifest).flatMap aggregateEntry =
      (manifestDescriptors manifest').flatMap aggregateEntry) :
    manifestDescriptors manifest = manifestDescriptors manifest' :=
  eq_of_aggregate (validDescriptor_of_validateManifest h) (validDescriptor_of_validateManifest h')
    hs hs' hbytes

/-! ## Names with separators -/

namespace Sample

/-- A command for the service `s`. -/
def command : Command :=
  { kind := .restoreAndStart, serviceID := "s", accountID := "a",
    workspace := { objectPrefix := "shared-hosting/a/s" }, workspaceGiB := 1 }

def start : Bytes := lit "shared-hosting/a/s"

def digest : Bytes := List.replicate 64 0x30

def blob (key : Bytes) (paths : List Bytes) : WorkspaceBlob :=
  { key, sha256 := digest, compressedSize := 1, paths }

def manifest (content : WorkspaceBlob) (config : Option WorkspaceBlob) (createdAt : Bytes := []) :
    WorkspaceManifest :=
  { schemaVersion := 2, serviceID := lit "s", assignmentID := lit "x", createdAt,
    manifestHash := aggregateDescriptors (content :: config.toList),
    aggregateSHA256 := aggregateDescriptors (content :: config.toList),
    content := some content, config }

/-- The checks of the manifest but that of its aggregate. -/
def passes (content : WorkspaceBlob) (config : Option WorkspaceBlob) (createdAt : Bytes) : Bool :=
  match validateDescriptors (manifest content config createdAt)
    (content :: config.toList) [] [] with
  | .error _ => false
  | .ok paths => logicalSize (content :: config.toList) = 0 &&
      compressedSize (content :: config.toList) ≤ maxWorkspaceBytes &&
      paths.length ≤ maxArchiveEntries &&
      decide (validateLayers (manifest content config createdAt) content command start = .ok ())

theorem validateManifest_manifest {content : WorkspaceBlob} {config : Option WorkspaceBlob}
    {createdAt : Bytes} (h : passes content config createdAt = true) :
    validateManifest (manifest content config createdAt) command = .ok () := by
  unfold passes at h
  split at h
  · cases h
  next paths hpaths =>
  simp only [Bool.and_eq_true, decide_eq_true_eq] at h
  obtain ⟨⟨⟨hlogical, hcompressed⟩, hcount⟩, hlayers⟩ := h
  have hdescriptors : manifestDescriptors (manifest content config createdAt) =
      content :: config.toList := by
    simp [manifestDescriptors, manifest]
  have hstart : workspacePrefix command = .ok start := by decide
  have hfew : (maxDescriptors < (content :: config.toList).length ||
      aggregateDescriptors (content :: config.toList) ≠
        (manifest content config createdAt).aggregateSHA256) = false := by
    cases config <;> simp [manifest, maxDescriptors]
  have hdigest : validDigest (aggregateDescriptors (content :: config.toList)) = true :=
    validDigest_sha256 _
  have hassigned : lit "x" ≠ [] := by decide
  unfold validateManifest
  split
  · rename_i hnone
    simp [manifest] at hnone
  · rename_i other hsome
    obtain rfl : content = other := Option.some.inj hsome
    rw [if_neg (by simp [manifest, command, hdigest, workspaceLimit, hassigned]), hstart]
    simp only [bind, Except.bind, hdescriptors, hpaths]
    rw [hfew, if_neg Bool.false_ne_true, if_neg (by simp [hlogical, manifest, hcompressed, hcount])]
    exact hlayers

/-- A path with the byte that ends a path, and two paths. -/
def joined : WorkspaceManifest :=
  manifest (blob (contentKey start digest) [lit "a" ++ 0 :: lit "b"]) none

def parted : WorkspaceManifest :=
  manifest (blob (contentKey start digest) [lit "a", lit "b"]) none

/-- The same, made at another time. -/
def dated : WorkspaceManifest :=
  manifest (blob (contentKey start digest) [lit "a", lit "b"]) none (lit "2026-01-01T00:00:00Z")

/-- Paths that spell a config layer, and the config layer. -/
def spelled : WorkspaceManifest :=
  manifest (blob (contentKey start digest)
    [lit "a", lit "\n" ++ configKey start 0, digest, lit "1:0"]) none

def layered : WorkspaceManifest :=
  manifest (blob (contentKey start digest) [lit "a"]) (some (blob (configKey start 0) []))

/-- Paths every compiler content has. -/
def generated : List Bytes := [lit ".xmcl/runtime.json", lit ".xmcl/launch.sh"]

/-- The key of compiler content that spells a path, and the path. -/
def keyed : WorkspaceManifest :=
  manifest (blob (start ++ lit "/compiler-content/c.tar.zst" ++ 0 :: digest ++ 0 :: lit "1:0" ++
    0 :: lit "d.tar.zst") generated) none

def listed : WorkspaceManifest :=
  manifest (blob (start ++ lit "/compiler-content/c.tar.zst")
    ([lit "d.tar.zst", digest, lit "1:0"] ++ generated)) none

/-- Valid manifests with the same bytes and different descriptors. -/
structure Ambiguous (m m' : WorkspaceManifest) : Prop where
  valid : validateManifest m command = .ok ()
  valid' : validateManifest m' command = .ok ()
  bytes : (manifestDescriptors m).flatMap aggregateEntry =
    (manifestDescriptors m').flatMap aggregateEntry
  differ : manifestDescriptors m ≠ manifestDescriptors m'

end Sample

/-- A path with a NUL byte, one that starts with a newline, and a key with a NUL byte. -/
theorem ambiguous_manifests : Sample.Ambiguous Sample.joined Sample.parted ∧
      Sample.Ambiguous Sample.spelled Sample.layered ∧
      Sample.Ambiguous Sample.keyed Sample.listed := by
  have hjoined : validateManifest Sample.joined Sample.command = .ok () :=
    Sample.validateManifest_manifest (by decide +kernel)
  have hparted : validateManifest Sample.parted Sample.command = .ok () :=
    Sample.validateManifest_manifest (by decide +kernel)
  have hspelled : validateManifest Sample.spelled Sample.command = .ok () :=
    Sample.validateManifest_manifest (by decide +kernel)
  have hlayered : validateManifest Sample.layered Sample.command = .ok () :=
    Sample.validateManifest_manifest (by decide +kernel)
  have hkeyed : validateManifest Sample.keyed Sample.command = .ok () :=
    Sample.validateManifest_manifest (by decide +kernel)
  have hlisted : validateManifest Sample.listed Sample.command = .ok () :=
    Sample.validateManifest_manifest (by decide +kernel)
  refine ⟨?_, ?_, ?_⟩
  · exact ⟨hjoined, hparted, by decide +kernel, by decide +kernel⟩
  · exact ⟨hspelled, hlayered, by decide +kernel, by decide +kernel⟩
  · exact ⟨hkeyed, hlisted, by decide +kernel, by decide +kernel⟩

theorem descriptors_of_aggregate_sample : validateManifest Sample.parted Sample.command = .ok () ∧
      validateManifest Sample.dated Sample.command = .ok () ∧ Sample.parted ≠ Sample.dated ∧
      manifestDescriptors Sample.parted = manifestDescriptors Sample.dated := by
  have hparted : validateManifest Sample.parted Sample.command = .ok () :=
    Sample.validateManifest_manifest (by decide +kernel)
  have hdated : validateManifest Sample.dated Sample.command = .ok () :=
    Sample.validateManifest_manifest (by decide +kernel)
  have hseparable : Separable Sample.parted := by
    intro d hd
    obtain rfl := List.mem_singleton.mp hd
    exact ⟨by decide +kernel, by decide +kernel, by decide +kernel⟩
  refine ⟨hparted, hdated, fun heq => ?_, ?_⟩
  · exact absurd (congrArg WorkspaceManifest.createdAt heq) (by decide)
  · exact descriptors_of_aggregate hparted hdated hseparable hseparable rfl

end SharedNode.Workspace
