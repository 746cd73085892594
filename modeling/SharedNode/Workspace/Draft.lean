import SharedNode.Workspace.Encoding

/-!
# The draft of a sync

A sync pins the manifest it is about to publish and the archives it has built in `sync.json`, so
that an agent that was restarted goes on with the same draft. `SyncDescriptor` is what that file
holds (`internal/workspace/workspace.go`).

* `paths_of_unmarshalDraft`: a draft that is read back names the archives it was written with.
-/

namespace SharedNode.Workspace

open Text

/-- `archive`, `syncArchive`: where an archive is stored locally, and its descriptor. The path is
empty for one that needs no upload. -/
structure Archive where
  path : Bytes := []
  descriptor : ControlPlane.WorkspaceBlob := {}
  deriving DecidableEq, Repr

/-- The draft of a sync (`sync.json`). -/
structure SyncDescriptor where
  commandID : Bytes := []
  assignmentID : Bytes := []
  revision : Int := 0
  manifest : ControlPlane.WorkspaceManifest := {}
  manifestSHA : Bytes := []
  archives : List Archive := []
  deriving DecidableEq, Repr

/-- The tags of `syncArchive`. -/
def archiveFields : List (Text.Field Archive) :=
  [field "path" (·.path) (fun a v => { a with path := v }) text,
   field "descriptor" (·.descriptor) (fun a v => { a with descriptor := v }) blob]

/-- The tags of `syncDescriptor`. -/
def draftFields : List (Text.Field SyncDescriptor) :=
  [field "commandId" (·.commandID) (fun d v => { d with commandID := v }) text,
   field "assignmentId" (·.assignmentID) (fun d v => { d with assignmentID := v }) text,
   field "revision" (·.revision) (fun d v => { d with revision := v }) integer,
   field "manifest" (·.manifest) (fun d v => { d with manifest := v })
     (struct false manifestFields {}),
   field "manifestSha256" (·.manifestSHA) (fun d v => { d with manifestSHA := v }) text,
   field "archives" (·.archives) (fun d v => { d with archives := v })
     (listOf (struct false archiveFields {}))]

/-- `json.Marshal` of a draft. -/
def marshalDraft (d : SyncDescriptor) : Bytes := renderFields draftFields d

/-- `json.Unmarshal` into a new draft. -/
def unmarshalDraft (text : Bytes) : Option SyncDescriptor :=
  (parse text).bind (readFields false draftFields {})

/-! ## Reading a draft back -/

/-- An archive that is read back has its path, with the invalid bytes replaced. -/
theorem path_of_readFields {a a' : Archive}
    (h : readFields false archiveFields {} (jsonFields archiveFields a) = some a') :
    a'.path = sanitize a.path := by
  rw [readFields_jsonFields (by decide)] at h
  simp only [archiveFields, List.foldlM_cons, List.foldlM_nil, Option.bind_eq_bind,
    Option.bind_eq_some_iff] at h
  obtain ⟨a₁, hpath, a₂, hdescriptor, hend⟩ := h
  obtain rfl := Option.some.inj hpath
  obtain ⟨descriptor, -, rfl⟩ := Option.map_eq_some_iff.mp hdescriptor
  rw [← Option.some.inj hend]
  rfl

theorem paths_of_mapM {l l' : List Archive}
    (h : (l.map (jsonFields archiveFields)).mapM (readFields false archiveFields {}) = some l') :
    l'.map (·.path) = l.map fun a => sanitize a.path := by
  induction l generalizing l' with
  | nil => rw [← Option.some.inj h]; rfl
  | cons a l ih =>
    simp only [List.map_cons, List.mapM_cons, Option.bind_eq_bind, Option.bind_eq_some_iff] at h
    obtain ⟨a', ha, rest, hrest, hl⟩ := h
    rw [← Option.some.inj hl, List.map_cons, List.map_cons, path_of_readFields ha, ih hrest]

/-- **A draft that is read back** names the archives it was written with, up to the invalid bytes of
their paths. -/
theorem paths_of_unmarshalDraft {d d' : SyncDescriptor}
    (h : unmarshalDraft (marshalDraft d) = some d') :
    d'.archives.map (·.path) = d.archives.map fun a => sanitize a.path := by
  have hparse : parse (marshalDraft d) = some (jsonFields draftFields d) :=
    parse_renderFields (by decide) d
  rw [unmarshalDraft, hparse, Option.bind_some, readFields_jsonFields (by decide)] at h
  simp only [draftFields, List.foldlM_cons, List.foldlM_nil, Option.bind_eq_bind,
    Option.bind_eq_some_iff] at h
  -- the archives are the last of the fields
  obtain ⟨_, -, _, -, _, -, _, -, _, -, _, harchives, hend⟩ := h
  obtain rfl := Option.some.inj hend
  obtain ⟨archives, hread, rfl⟩ := Option.map_eq_some_iff.mp harchives
  exact paths_of_mapM hread

end SharedNode.Workspace
