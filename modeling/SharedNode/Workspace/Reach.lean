import SharedNode.Workspace.Calls
import SharedNode.Workspace.Restore
import SharedNode.Workspace.Sync

/-!
# What the calls of a manager reach

Where the file operations of `Restore`, `Sync` and `Release` (`internal/workspace/workspace.go`)
lie, whatever the answers they get: each function of the manager names paths below a few bases only,
and leaves bytes in files below fewer still (`Op.Local`). The bases are the arguments of the
function, so that the same lemma serves for every directory it is used with. Up to the draft of a
sync no call leaves the node (`Op.Offline`).

The archives of a draft are read wherever the draft says they are; the functions that use one are
described for a draft whose archives lie below the bases (`Housed`).
-/

namespace SharedNode.Workspace

open Text ControlPlane Storage Effect

variable {bases : List Path} {archivePath p : Path}

def Inside (bases : List Path) (p : Path) : Prop := ∃ b ∈ bases, b <+: p

/-- The call names paths inside `near` only, or makes a directory above one of them, and leaves
bytes at paths in `filled` only. -/
structure Op.Local (near : List Path) (filled : Path → Prop) (op : Op) : Prop where
  names : ∀ p ∈ op.names, Inside near p ∨ op = .mkdirAll p ∧ ∃ b ∈ near, p <+: b
  fills : ∀ p ∈ op.fills, filled p

/-- The call goes to the control plane or the store. -/
def Op.isExchange : Op → Bool
  | .grants _ | .get _ | .put _ _ => true
  | _ => false

/-- A local call that needs neither of them. -/
def Op.Offline (near : List Path) (filled : Path → Prop) (op : Op) : Prop :=
  op.Local near filled ∧ op.isExchange = false

/-- The calls of the program are local. -/
abbrev Reaches (near : List Path) (filled : Path → Prop) {α : Type} (p : M α) : Prop :=
  Confined (Op.Local near filled) p fun _ => True

theorem Inside.mono {bases' : List Path} (h : Inside bases p) (hb : ∀ b ∈ bases, Inside bases' b) :
    Inside bases' p := by
  obtain ⟨b, hmem, hbp⟩ := h
  obtain ⟨b', hmem', hbb⟩ := hb b hmem
  exact ⟨b', hmem', hbb.trans hbp⟩

theorem inside_of_mem (h : p ∈ bases) : Inside bases p :=
  ⟨p, h, List.prefix_rfl⟩

theorem Inside.append (h : Inside bases p) (r : Path) : Inside bases (p ++ r) := by
  obtain ⟨b, hmem, hb⟩ := h
  exact ⟨b, hmem, hb.trans (List.prefix_append p r)⟩

section Local

variable {near : List Path} {filled : Path → Prop}

variable {op : Op} {p target root workspacePath : Path} {name : Bytes}

theorem local_far (h : op.names = []) : op.Local near filled := by
  refine ⟨by simp [h], fun p hp => ?_⟩
  cases op <;> simp_all [Op.names, Op.fills]

theorem local_near (hp : Inside near p) (h : op.names = [p])
    (hf : op.fills = []) : op.Local near filled := by
  refine ⟨fun q hq => ?_, by simp [hf]⟩
  obtain rfl : q = p := by simpa [h] using hq
  exact Or.inl hp

theorem local_mkdirAll (hp : Inside near p) : (Op.mkdirAll p.dropLast).Local near filled := by
  refine ⟨fun q hq => ?_, by simp [Op.fills]⟩
  obtain rfl : q = p.dropLast := by simpa [Op.names] using hq
  obtain ⟨b, hb, hbp⟩ := hp
  by_cases hne : b = p
  · exact Or.inr ⟨rfl, b, hb, hne ▸ List.dropLast_prefix p⟩
  · exact Or.inl ⟨b, hb, prefix_dropLast hbp hne⟩

theorem local_write {bytes : Bytes} (hp : Inside near p) (hf : filled p) :
    (Op.write p bytes).Local near filled := by
  constructor
  · intro q hq
    obtain rfl : q = p := by simpa [Op.names] using hq
    exact Or.inl hp
  · intro q hq
    obtain rfl : q = p := by simpa [Op.fills] using hq
    exact hf

theorem local_rename {q : Path} (hp : Inside near p) (hq : Inside near q) (hf : filled q) :
    (Op.rename p q).Local near filled := by
  constructor
  · intro r hr
    rcases List.mem_pair.mp hr with rfl | rfl
    · exact Or.inl hp
    · exact Or.inl hq
  · intro r hr
    obtain rfl : r = q := by simpa [Op.fills] using hr
    exact hf

/-! ## Files and transfers -/

theorem readFile_offline (hp : Inside near p) :
    Confined (Op.Offline near filled) (readFile p) fun _ => True := by
  refine confined_asked ⟨local_near hp rfl rfl, rfl⟩ fun r => ?_
  cases r with
  | none => exact confined_throw
  | some bytes => exact confined_pure trivial

theorem download_local (grant : Grant) (key : Bytes) (limit : Int) :
    Reaches near filled (download grant key limit) := by
  refine confined_checked fun _ => ?_
  refine confined_asked (local_far rfl) fun body => ?_
  exact confined_guard fun _ => confined_pure trivial

theorem locally {α : Type} {ψ : α → Prop} {x : M α}
    (hx : Confined (Op.Offline near filled) x ψ) : Confined (Op.Local near filled) x ψ :=
  hx.mono (fun _ h => h.1) fun _ h => h

theorem fetch_local (grant : Grant) (key : Bytes) (limit : Int) (hp : Inside near p)
    (hf : filled p) :
    Reaches near filled (do
      let body ← download grant key limit
      ask (.write p body)
      return body) := by
  refine (download_local _ _ _).bind fun body _ => ?_
  exact confined_asked (local_write hp hf) fun _ => confined_pure trivial

theorem downloadArchiveWithGrant_local (descriptor : WorkspaceBlob)
    {nextGrant : Nat → M Grant} (hp : Inside near p) (hf : filled p)
    (hnext : ∀ n, Reaches near filled (nextGrant n)) :
    Reaches near filled (downloadArchiveWithGrant descriptor p nextGrant) := by
  have hremove : (Op.remove p).Local near filled := local_near hp rfl rfl
  refine confined_retried (fun _ => local_far rfl) (fun n => ?_) _ _
  refine confined_dropped hremove fun _ => ?_
  refine confined_described (local_near hp rfl rfl) fun _ => ?_
  refine (hnext n).attempt.bind fun r _ => ?_
  cases r with
  | error err => exact confined_dropped hremove fun _ => confined_throw
  | ok grant =>
    refine (fetch_local _ _ _ hp hf).attempt.bind fun r _ => ?_
    cases r with
    | ok body => exact confined_pure fun _ _ => trivial
    | error err => exact confined_dropped hremove fun _ => confined_pure fun _ _ => trivial

theorem downloadArchiveWithRefresh_local (descriptor : WorkspaceBlob) (initial : Grant)
    (hp : Inside near p) (hf : filled p) :
    Reaches near filled (downloadArchiveWithRefresh descriptor p initial) := by
  refine downloadArchiveWithGrant_local descriptor hp hf fun n => ?_
  split
  · exact confined_pure trivial
  · refine confined_described (local_far rfl) fun _ => ?_
    exact confined_check fun _ _ => trivial

theorem saveJSON_offline (text : Bytes) (hp : Inside near p) (hf : filled p)
    (htmp : Inside near (withEnding p ".tmp")) (hftmp : filled (withEnding p ".tmp")) :
    Confined (Op.Offline near filled) (saveJSON p text) fun _ => True := by
  refine confined_asked ⟨local_mkdirAll hp, rfl⟩ fun _ => ?_
  refine confined_asked ⟨local_write htmp hftmp, rfl⟩ fun _ => ?_
  refine confined_dropped ⟨local_rename htmp hp hf, rfl⟩ fun r => ?_
  cases r with
  | ok _ => exact confined_pure trivial
  | error err => exact confined_dropped ⟨local_near htmp rfl rfl, rfl⟩ fun _ => confined_throw

/-! ## Extraction -/

theorem writeNew_local (bytes : Bytes) (complete : Bool) (text : String)
    (hp : Inside near target) (hf : filled target) :
    Reaches near filled (writeNew target bytes complete text) := by
  have hremove : (Op.remove target).Local near filled := local_near hp rfl rfl
  refine confined_asked (local_near hp rfl rfl) fun _ => ?_
  refine confined_dropped (local_write hp hf) fun r => ?_
  cases r with
  | error err => exact confined_dropped hremove fun _ => confined_throw
  | ok _ =>
    dsimp only
    split
    · exact confined_dropped hremove fun _ => confined_throw
    · exact confined_pure trivial

theorem safeChild_eq (h : safeChild root name = .ok target) : target = root ++ components name := by
  unfold safeChild at h
  split at h
  · cases h
  · exact (Except.ok.inj h).symm

/-- A safe child of a base lies below it, and so does its directory. -/
theorem safeChild_inside (hroot : Inside near root) (h : safeChild root name = .ok target) :
    Inside near target ∧ Inside near target.dropLast := by
  rw [safeChild_eq h]
  refine ⟨hroot.append _, ?_⟩
  rw [List.dropLast_append_of_ne_nil (components_ne_nil name)]
  exact hroot.append _

theorem safeChild_filled (hroot : ∀ r, filled (root ++ r))
    (h : safeChild root name = .ok target) : filled target := by
  rw [safeChild_eq h]
  exact hroot _

theorem extractMember_local (limit : Int) (overlay : Bool) (x : Extraction)
    (header : Member) (hp : Inside near root) (hf : ∀ r, filled (root ++ r)) :
    Reaches near filled (extractMember root limit overlay x header) := by
  unfold extractMember
  refine confined_guard fun _ => ?_
  refine confined_guard fun _ => ?_
  refine confined_guard fun _ => ?_
  refine (confined_check fun target h => And.intro (safeChild_inside hp h)
    (safeChild_filled hf h)).bind fun target ht => ?_
  refine confined_asked (local_near ht.1.2 rfl rfl) fun _ => ?_
  have hwrite : Confined (Op.Local near filled) _ _ := writeNew_local header.body
    (header.body.length = header.size) "workspace archive member has invalid size" ht.1.1 ht.2
  split
  · refine confined_asked (local_near ht.1.1 rfl rfl) fun _ => ?_
    exact hwrite.bind fun _ _ => confined_pure trivial
  · exact hwrite.bind fun _ _ => confined_pure trivial

theorem extractMembers_local (limit : Int) (overlay : Bool) (members : List Member)
    (x : Extraction) (hp : Inside near root) (hf : ∀ r, filled (root ++ r)) :
    Reaches near filled (extractMembers root limit overlay members x) := by
  induction members generalizing x with
  | nil => exact confined_pure trivial
  | cons header rest ih =>
    exact (extractMember_local limit overlay x header hp hf).bind fun x _ => ih x

theorem extractArchive_local (m : Manager) (descriptor : WorkspaceBlob) (seen : List Bytes)
    (limit : Int) (overlay : Bool) (ha : Inside near archivePath) (hp : Inside near root)
    (hf : ∀ r, filled (root ++ r)) :
    Reaches near filled (m.extractArchive archivePath root descriptor seen limit overlay) := by
  refine (locally (readFile_offline ha)).bind fun data _ => ?_
  refine confined_checked fun expected => ?_
  refine (extractMembers_local limit overlay _ _ hp hf).bind fun x _ => ?_
  refine confined_guard fun _ => ?_
  exact confined_guard fun _ => confined_pure trivial

/-! ## Activation -/

theorem sealReplacedWorkspaces_local (hp : Inside near workspacePath)
    (hb : Inside near (withEnding workspacePath ".previous")) :
    Reaches near filled (sealReplacedWorkspaces workspacePath) := by
  refine (confined_forIn fun p hmem _ => ?_).bind fun _ (_ : True) => confined_pure trivial
  have hnear : Inside near p := by
    rcases List.mem_pair.mp hmem with rfl | rfl
    · exact hp
    · exact hb
  refine confined_described (local_near hnear rfl rfl) fun r => ?_
  split
  · exact confined_pure trivial
  · refine confined_described (local_near hnear rfl rfl) fun _ => ?_
    exact confined_pure trivial
  · exact confined_throw

theorem replaceWorkspaceWithBackup_local {staging : Path} (hs : Inside near staging)
    (hp : Inside near workspacePath) (hb : Inside near (withEnding workspacePath ".previous"))
    (hfp : filled workspacePath)
    (hfb : filled (withEnding workspacePath ".previous")) :
    Confined (Op.Local near filled) (replaceWorkspaceWithBackup staging workspacePath)
      fun backup => backup = withEnding workspacePath ".previous" := by
  refine confined_asked (local_near hb rfl rfl) fun _ => ?_
  refine confined_dropped (local_near hp rfl rfl) fun r => ?_
  split
  on_goal 1 =>
    refine confined_described (local_rename hp hb hfb) fun _ => ?_
  -- with or without a workspace to put aside, the staging directory is then moved
  all_goals
    refine confined_dropped (local_rename hs hp hfp) fun r => ?_
    cases r with
    | ok _ => exact confined_pure rfl
    | error err =>
      refine confined_dropped (local_near hb rfl rfl) fun r => ?_
      split
      · exact confined_dropped (local_rename hb hp hfp) fun _ => confined_throw
      · exact confined_throw

theorem activateStaging_local (command : Command) {staging : Path}
    (hs : Inside near staging) (hp : Inside near workspacePath)
    (hb : Inside near (withEnding workspacePath ".previous")) (hfp : filled workspacePath)
    (hfb : filled (withEnding workspacePath ".previous")) :
    Reaches near filled (activateStaging command staging workspacePath) := by
  refine (sealReplacedWorkspaces_local hp hb).bind fun _ _ => ?_
  refine (replaceWorkspaceWithBackup_local hs hp hb hfp hfb).bind fun backup hbackup => ?_
  subst hbackup
  refine confined_dropped (local_near hp rfl rfl) fun r => ?_
  cases r with
  | ok _ => exact confined_dropped (local_near hb rfl rfl) fun _ => confined_pure trivial
  | error err =>
    refine confined_dropped (local_near hp rfl rfl) fun _ => ?_
    exact confined_dropped (local_rename hb hp hfp) fun _ => confined_throw

end Local

/-! ## Restore and release -/

/-- The bases hold where a service's state is saved. -/
structure StateBases (m : Manager) (serviceID : String) (near : List Path)
    (filled : Path → Prop) : Prop where
  path : Inside near (m.restoredPath serviceID)
  pathFilled : filled (m.restoredPath serviceID)
  tmp : Inside near (withEnding (m.restoredPath serviceID) ".tmp")
  tmpFilled : filled (withEnding (m.restoredPath serviceID) ".tmp")

structure ActiveBases (workspacePath : Path) (near : List Path)
    (filled : Path → Prop) : Prop where
  path : Inside near workspacePath
  pathFilled : ∀ r, filled (workspacePath ++ r)
  backup : Inside near (withEnding workspacePath ".previous")
  backupFilled : filled (withEnding workspacePath ".previous")

/-- The staging directory of a restore. -/
abbrev Manager.restoreStaging (m : Manager) (command : Command) : Path :=
  m.staging (command.serviceID ++ "-" ++ command.commandID)

/-- The bases hold the staging directories of a restore and what it fills there. -/
structure StagingBases (m : Manager) (command : Command) (near : List Path)
    (filled : Path → Prop) : Prop where
  base : Inside near (m.restoreStaging command)
  blobs : ∀ name, filled (m.restoreStaging command ++ [lit "blobs", name])
  tree : ∀ r, filled (m.restoreStaging command ++ [lit "workspace"] ++ r)
  content : filled (m.restoreStaging command ++ [lit "runtime-content.tar.zst"])
  worldBase : Inside near (m.staging (command.serviceID ++ "-" ++ command.commandID ++ "-world"))
  world : filled (m.staging (command.serviceID ++ "-" ++ command.commandID ++ "-world") ++
    [lit "initial-world.zip"])

section Restore

variable {near : List Path} {filled : Path → Prop} {m : Manager} {command : Command}
  {workspacePath : Path}

theorem ActiveBases.filled_path {near : List Path} {filled : Path → Prop} {workspacePath : Path}
    (ha : ActiveBases workspacePath near filled) : filled workspacePath := by
  simpa using ha.pathFilled []

theorem persistRestored_offline {serviceID : String} (manifest : WorkspaceManifest)
    (hs : StateBases m serviceID near filled) :
    Confined (Op.Offline near filled) (m.persistRestored serviceID manifest) fun _ => True := by
  unfold Manager.persistRestored
  refine confined_guard fun _ => ?_
  exact saveJSON_offline _ hs.path hs.pathFilled hs.tmp hs.tmpFilled

theorem activateEmptyWorkspace_local (hs : StagingBases m command near filled)
    (ha : ActiveBases workspacePath near filled) :
    Reaches near filled (m.activateEmptyWorkspace command workspacePath) := by
  have hstaging := hs.base.append [lit "workspace"]
  refine confined_asked (local_near hstaging rfl rfl) fun _ => ?_
  refine confined_asked (local_near hstaging rfl rfl) fun _ => ?_
  refine (sealReplacedWorkspaces_local ha.path ha.backup).bind fun _ _ => ?_
  refine (replaceWorkspaceWithBackup_local hstaging ha.path ha.backup ha.filled_path
    ha.backupFilled).bind fun backup hbackup => ?_
  subst hbackup
  exact confined_ask (local_near ha.backup rfl rfl)

theorem restoreInitialRuntimeContent_local (content : WorkspaceBlob)
    (hs : StagingBases m command near filled) (ha : ActiveBases workspacePath near filled)
    (hst : StateBases m command.serviceID near filled) :
    Reaches near filled (m.restoreInitialRuntimeContent command content workspacePath) := by
  have hclean : ∀ {op : Op}, op.names = [m.restoreStaging command] →
      op.fills = [] → Reaches near filled (ask op) :=
    fun hn hf => confined_ask (local_near hs.base hn hf)
  refine confined_checked fun _ => ?_
  refine confined_described (local_far rfl) fun _ => ?_
  refine confined_checked fun grant => ?_
  refine (hclean rfl rfl).bind fun _ _ => ?_
  refine Confined.deferred ?_ (hclean rfl rfl)
  refine (hclean rfl rfl).bind fun _ _ => ?_
  refine (downloadArchiveWithGrant_local content (hs.base.append _) hs.content
    fun _ => confined_pure trivial).bind fun result _ => ?_
  refine confined_guard fun _ => ?_
  refine (extractArchive_local m content [] _ false (hs.base.append _) (hs.base.append _)
    hs.tree).bind fun _ _ => ?_
  refine (activateStaging_local command (hs.base.append _) ha.path ha.backup ha.filled_path
    ha.backupFilled).bind fun _ _ => ?_
  refine confined_asked (local_far rfl) fun _ => ?_
  exact locally (persistRestored_offline _ hst)

theorem components_of_world {name : Bytes} (h : hasPrefix name (lit "world/")) :
    ∃ r, r ≠ [] ∧ components name = lit "world" :: r := by
  obtain ⟨rest, rfl⟩ := List.isPrefixOf_iff_prefix.mp h
  refine ⟨components rest, components_ne_nil rest, ?_⟩
  rw [show lit "world/" ++ rest = lit "world" ++ slash :: rest from rfl]
  exact components_append_slash (by decide) rest

theorem extractWorldEntry_local (limit : Int) (entry : ZipEntry) (seen : List Bytes) (total : Int)
    (hp : Inside near (workspacePath ++ [lit "world"]))
    (hf : ∀ r, filled (workspacePath ++ lit "world" :: r)) :
    Reaches near filled (extractWorldEntry workspacePath limit entry seen total) := by
  unfold extractWorldEntry
  dsimp only
  split
  · refine confined_guard fun _ => ?_
    exact confined_pure trivial
  split
  · exact confined_pure trivial
  split
  · refine confined_guard fun _ => ?_
    exact confined_pure trivial
  refine confined_guard fun hlimits => ?_
  refine confined_guard fun _ => ?_
  refine (confined_check fun target h => h).bind fun target htarget => ?_
  simp only [Bool.or_eq_true, not_or, Bool.not_eq_true', Bool.not_eq_false] at hlimits
  obtain ⟨r, hr, hcomponents⟩ := components_of_world hlimits.1.2
  have htarget : target = workspacePath ++ [lit "world"] ++ r := by
    rw [safeChild_eq htarget, hcomponents, List.append_assoc]
    rfl
  have hdir : Inside near target.dropLast := by
    rw [htarget, List.dropLast_append_of_ne_nil hr]
    exact hp.append _
  refine confined_asked (local_near hdir rfl rfl) fun _ => ?_
  split
  · exact confined_throw
  · refine (writeNew_local _ _ _ (htarget ▸ hp.append r) ?_).bind fun _ _ => confined_pure trivial
    rw [htarget, List.append_assoc]
    exact hf r

theorem extractWorldEntries_local (limit : Int) (entries : List ZipEntry) (seen : List Bytes)
    (total : Int) (hp : Inside near (workspacePath ++ [lit "world"]))
    (hf : ∀ r, filled (workspacePath ++ lit "world" :: r)) :
    Reaches near filled (extractWorldEntries workspacePath limit entries seen total) := by
  induction entries generalizing seen total with
  | nil => exact confined_pure trivial
  | cons entry rest ih =>
    exact (extractWorldEntry_local limit entry seen total hp hf).bind fun r _ => ih r.1 r.2

theorem extractInitialWorld_local (limit : Int) (harchive : Inside near archivePath)
    (ha : ActiveBases workspacePath near filled) :
    Reaches near filled (m.extractInitialWorld archivePath workspacePath limit) := by
  refine (locally (readFile_offline harchive)).bind fun data _ => ?_
  split
  · exact confined_throw
  · refine (extractWorldEntries_local limit _ [] 0 (ha.path.append _)
      fun r => ha.pathFilled _).bind fun seen _ => ?_
    split
    · exact confined_throw
    · exact confined_pure trivial

theorem downloadInitialWorld_local (key : Bytes) (left n : Nat) (grant : Grant)
    (hp : Inside near archivePath) (hf : filled archivePath) :
    Reaches near filled (downloadInitialWorld key archivePath left n grant) := by
  have hremove : (Op.remove archivePath).Local near filled := local_near hp rfl rfl
  induction left generalizing n grant with
  | zero => exact confined_throw
  | succ left ih =>
    refine confined_dropped hremove fun _ => ?_
    refine confined_described (local_near hp rfl rfl) fun _ => ?_
    refine (fetch_local _ _ _ hp hf).attempt.bind fun r _ => ?_
    cases r with
    | ok body => exact confined_pure trivial
    | error err =>
      refine confined_dropped hremove fun _ => ?_
      refine confined_guard fun _ => ?_
      refine confined_described (local_far rfl) fun _ => ?_
      refine confined_checked fun grant => ?_
      exact confined_asked (local_far rfl) fun _ => ih _ _

theorem restoreInitialWorld_local (hs : StagingBases m command near filled)
    (ha : ActiveBases workspacePath near filled) :
    Reaches near filled (m.restoreInitialWorld command workspacePath) := by
  unfold Manager.restoreInitialWorld
  split
  · exact confined_pure trivial
  refine confined_checked fun _ => ?_
  refine confined_checked fun key => ?_
  refine confined_described (local_far rfl) fun _ => ?_
  refine confined_checked fun grant => ?_
  refine confined_asked (local_near hs.worldBase rfl rfl) fun _ => ?_
  refine Confined.deferred ?_ (confined_ask (local_near hs.worldBase rfl rfl))
  refine confined_asked (local_near hs.worldBase rfl rfl) fun _ => ?_
  refine (downloadInitialWorld_local key _ _ grant (hs.worldBase.append _) hs.world).bind
    fun result _ => ?_
  refine confined_guard fun _ => ?_
  exact extractInitialWorld_local _ (hs.worldBase.append _) ha

theorem restoreArchive_local (manifest : WorkspaceManifest) (grants : List Grant) (x : Progress)
    (descriptor : WorkspaceBlob) (hs : StagingBases m command near filled) :
    Reaches near filled (m.restoreArchive command manifest
      (m.restoreStaging command) grants x descriptor) := by
  refine (downloadArchiveWithRefresh_local descriptor _ (hs.base.append _) (hs.blobs _)).bind
    fun body _ => ?_
  refine confined_guard fun _ => ?_
  refine (extractArchive_local m descriptor x.seen _ _ (hs.base.append _) (hs.base.append _)
    hs.tree).bind fun r _ => ?_
  exact confined_guard fun _ => confined_pure trivial

theorem restoreArchives_local (manifest : WorkspaceManifest) (grants : List Grant)
    (descriptors : List WorkspaceBlob) (x : Progress) (hs : StagingBases m command near filled) :
    Reaches near filled (m.restoreArchives command manifest
      (m.restoreStaging command) grants descriptors x) := by
  induction descriptors generalizing x with
  | nil => exact confined_pure trivial
  | cons descriptor rest ih =>
    exact (restoreArchive_local manifest grants x descriptor hs).bind fun x _ => ih x

theorem restoreBatches_local (manifest : WorkspaceManifest) (groups : List (List WorkspaceBlob))
    (x : Progress) (hs : StagingBases m command near filled) :
    Reaches near filled (m.restoreBatches command manifest
      (m.restoreStaging command) groups x) := by
  induction groups generalizing x with
  | nil => exact confined_pure trivial
  | cons group rest ih =>
    refine confined_described (local_far rfl) fun _ => ?_
    refine confined_checked fun grants => ?_
    exact (restoreArchives_local manifest grants group x hs).bind fun x _ => ih x

theorem fetchManifest_local : Reaches near filled (fetchManifest command) := by
  refine confined_described (local_far rfl) fun _ => ?_
  refine confined_checked fun grant => ?_
  refine (confined_retried (ψ := fun _ => True) (fun _ => local_far rfl) (fun _ =>
    (download_local grant _ _).attempt.mono (fun _ h => h) fun _ _ _ _ => trivial) _ _).bind
      fun bytes _ => ?_
  refine confined_guard fun _ => ?_
  split
  · exact confined_throw
  · refine confined_checked fun _ => ?_
    exact confined_check fun _ _ => trivial

theorem restoreRevision_local (hs : StagingBases m command near filled)
    (ha : ActiveBases workspacePath near filled)
    (hst : StateBases m command.serviceID near filled) :
    Reaches near filled (m.restoreRevision command workspacePath) := by
  refine fetchManifest_local.bind fun manifest _ => ?_
  refine confined_described (local_near hs.base rfl rfl) fun _ => ?_
  refine Confined.deferred ?_ (confined_ask (local_near hs.base rfl rfl))
  refine confined_described (local_near (hs.base.append _) rfl rfl) fun _ => ?_
  refine (restoreBatches_local manifest _ _ hs).bind fun x _ => ?_
  refine confined_guard fun _ => ?_
  refine (activateStaging_local command (hs.base.append _) ha.path ha.backup ha.filled_path
    ha.backupFilled).bind fun _ _ => ?_
  refine confined_asked (local_far rfl) fun _ => ?_
  refine (locally (persistRestored_offline _ hst)).bind fun _ _ => ?_
  exact confined_describing (confined_ask (local_near ha.path rfl rfl))

theorem restore_local (hs : StagingBases m command near filled)
    (ha : ∀ workspacePath, m.path command.serviceID = .ok workspacePath →
      ActiveBases workspacePath near filled)
    (hst : StateBases m command.serviceID near filled) :
    Reaches near filled (m.restore command) := by
  unfold Manager.restore
  refine confined_guard fun _ => ?_
  refine confined_guard fun _ => ?_
  refine confined_checked fun _ => ?_
  refine (confined_check fun path h => ha path h).bind fun workspacePath ha => ?_
  have hprepare : Reaches near filled (do
      describing "prepare active workspace ownership" (ask (.quota .prepare workspacePath))
      return workspacePath) :=
    (confined_describing (confined_ask (local_near ha.path rfl rfl))).bind
      fun _ _ => confined_pure trivial
  split
  · split
    · refine (restoreInitialRuntimeContent_local _ hs ha hst).bind fun _ _ => ?_
      exact (restoreInitialWorld_local hs ha).bind fun _ _ => hprepare
    · refine (activateEmptyWorkspace_local hs ha).bind fun _ _ => ?_
      refine confined_described (local_near ha.path rfl rfl) fun _ => ?_
      exact (restoreInitialWorld_local hs ha).bind fun _ _ => hprepare
  · exact (restoreRevision_local hs ha hst).bind fun _ _ => confined_pure trivial

theorem release_local (hp : ∀ workspacePath, m.path command.serviceID = .ok workspacePath →
      Inside near workspacePath) (hst : StateBases m command.serviceID near filled) :
    Reaches near filled (m.release command) := by
  refine (confined_check fun path h => hp path h).bind fun workspacePath hp => ?_
  refine confined_described (local_near hp rfl rfl) fun _ => ?_
  refine confined_asked (local_far rfl) fun _ => ?_
  refine confined_describing (confined_asked (local_near hst.path rfl rfl) fun r => ?_)
  split
  · exact confined_pure trivial
  · exact confined_ask (local_near hst.path rfl rfl)

end Restore

/-! ## Sync -/

/-- An archive of a draft lies inside the bases, if it was built at all. -/
def Housed (near : List Path) (archive : Archive) : Prop :=
  archive.path = [] ∨ Inside near (pathOf archive.path)

section Sync

variable {near : List Path} {filled : Path → Prop} {m : Manager} {command : Command}
  {stagingBase : Path}

theorem collectEntries_inside {root : Path} (hroot : Inside near root) :
    ∀ (entries : List (Path × Node)) (files : List WorkspaceFile) (createdAt : Int)
      {r : List WorkspaceFile × Int}, (∀ file ∈ files, Inside near file.full) →
      collectEntries root entries files createdAt = .ok r → ∀ file ∈ r.1, Inside near file.full
  | [], files, createdAt, r, hfiles, h => by
    cases h
    exact hfiles
  | (_, .symlink) :: _, _, _, _, _, h => nomatch h
  | (_, .special) :: _, _, _, _, _, h => nomatch h
  | (_, .dir) :: rest, files, createdAt, r, hfiles, h =>
    collectEntries_inside hroot rest files createdAt hfiles h
  | (p, .file bytes modTime) :: rest, files, createdAt, r, hfiles, h => by
    unfold collectEntries at h
    dsimp only at h
    split at h
    · cases h
    split at h
    · cases h
    refine collectEntries_inside hroot rest _ _ (fun file hfile => ?_) h
    rcases List.mem_append.mp hfile with hfile | hfile
    · exact hfiles file hfile
    · rw [List.mem_singleton.mp hfile]
      exact hroot.append p

theorem collectFiles_offline {root : Path} (hroot : Inside near root) :
    Confined (Op.Offline near filled) (collectFiles root)
      fun r => ∀ file ∈ r.1, Inside near file.full := by
  refine confined_describing (confined_asked ⟨local_near hroot rfl rfl, rfl⟩ fun entries => ?_)
  refine (confined_check fun r h =>
    collectEntries_inside hroot entries [] 0 (fun _ h => nomatch h) h).bind fun r hr => ?_
  exact confined_pure fun file hfile => hr file ((sortFiles_perm r.1).mem_iff.mp hfile)

theorem hashFile_offline (limit : Int) (hp : Inside near p) :
    Confined (Op.Offline near filled) (hashFile p limit) fun _ => True := by
  refine (readFile_offline hp).bind fun bytes _ => ?_
  exact confined_guard fun _ => confined_pure trivial

theorem readSources_offline (files : List WorkspaceFile)
    (hfiles : ∀ file ∈ files, Inside near file.full) :
    Confined (Op.Offline near filled) (readSources files) fun _ => True := by
  induction files with
  | nil => exact confined_pure trivial
  | cons file rest ih =>
    unfold readSources
    refine confined_guard fun _ => ?_
    refine (readFile_offline (hfiles file List.mem_cons_self)).bind fun bytes _ => ?_
    refine confined_guard fun _ => ?_
    refine (ih (List.forall_mem_cons.mp hfiles).2).bind fun others _ => ?_
    exact confined_pure trivial

theorem buildArchive_offline (files : List WorkspaceFile) (hp : Inside near p) (hf : filled p)
    (hfiles : ∀ file ∈ files, Inside near file.full) :
    Confined (Op.Offline near filled) (m.buildArchive p files)
      fun archive => archive.path = pathText p := by
  refine confined_asked ⟨local_near hp rfl rfl, rfl⟩ fun _ => ?_
  refine (readSources_offline files hfiles).bind fun sources _ => ?_
  refine confined_asked ⟨local_write hp hf, rfl⟩ fun _ => ?_
  refine (hashFile_offline _ hp).bind fun _ _ => ?_
  exact confined_pure rfl

def isArchiveName (name : Bytes) : Prop :=
  name = lit "content.tar.zst" ∨ name = lit "config.tar.zst" ∨
    ∃ index, name = lit "world-" ++ padded 3 index ++ lit ".tar.zst"

def BuiltIn (dir : Path) (archive : Archive) : Prop :=
  archive.path = [] ∨ ∃ name, isArchiveName name ∧ archive.path = pathText (dir ++ [name])

theorem mem_of_mem_classify (files : List WorkspaceFile) :
    (∀ file ∈ (classify files).content, file ∈ files) ∧
      (∀ file ∈ (classify files).config, file ∈ files) ∧
        ∀ group ∈ (classify files).world, ∀ file ∈ group, file ∈ files := by
  have hperm := classify_perm files
  have hall : ∀ file, file ∈ (classify files).content ∨ file ∈ (classify files).config ∨
      file ∈ (classify files).world.flatten → file ∈ files := by
    intro file h
    refine hperm.mem_iff.mp ?_
    simpa [List.mem_append, or_assoc] using h
  refine ⟨fun file h => hall file (Or.inl h), fun file h => hall file (Or.inr (Or.inl h)), ?_⟩
  exact fun group hg file h => hall file (Or.inr (Or.inr (List.mem_flatten.mpr ⟨group, hg, h⟩)))

section Archives

variable (start : Bytes) (revision : Int) (previous : WorkspaceManifest)
  (files : List WorkspaceFile) (hp : Inside near stagingBase)
  (hf : ∀ name, isArchiveName name → filled (stagingBase ++ [name]))

include hp hf

theorem buildContent_offline (hfiles : ∀ file ∈ files, Inside near file.full) :
    Confined (Op.Offline near filled)
      (m.buildContent stagingBase start command previous files) (BuiltIn stagingBase) := by
  unfold Manager.buildContent
  split
  · exact confined_pure (Or.inl rfl)
  · have hname : isArchiveName (lit "content.tar.zst") := Or.inl rfl
    refine (buildArchive_offline files (hp.append _) (hf _ hname) hfiles).bind
      fun value hvalue => ?_
    exact confined_pure (Or.inr ⟨_, hname, hvalue⟩)

theorem buildConfig_offline (hfiles : ∀ file ∈ files, Inside near file.full) :
    Confined (Op.Offline near filled) (m.buildConfig stagingBase start revision previous files)
      fun r => ∀ archive ∈ r, BuiltIn stagingBase archive := by
  unfold Manager.buildConfig
  split
  · exact confined_pure fun _ h => nomatch h
  · have hname : isArchiveName (lit "config.tar.zst") := Or.inr (Or.inl rfl)
    refine (buildArchive_offline files (hp.append _) (hf _ hname) hfiles).bind
      fun value hvalue => ?_
    refine confined_pure fun archive h => ?_
    obtain rfl := Option.mem_some_iff.mp h
    exact Or.inr ⟨_, hname, hvalue⟩

theorem buildWorld_offline (groups : List (List WorkspaceFile)) (index : Nat)
    (hfiles : ∀ group ∈ groups, ∀ file ∈ group, Inside near file.full) :
    Confined (Op.Offline near filled)
      (m.buildWorld stagingBase start revision previous groups index)
      fun r => ∀ archive ∈ r, BuiltIn stagingBase archive := by
  induction groups generalizing index with
  | nil => exact confined_pure fun _ h => nomatch h
  | cons group rest ih =>
    have hname : isArchiveName (lit "world-" ++ padded 3 index ++ lit ".tar.zst") :=
      Or.inr (Or.inr ⟨index, rfl⟩)
    refine (buildArchive_offline group (hp.append _) (hf _ hname)
      (hfiles group List.mem_cons_self)).bind fun value hvalue => ?_
    refine (ih _ (List.forall_mem_cons.mp hfiles).2).bind fun others hothers => ?_
    refine confined_pure fun archive h => ?_
    rcases List.mem_cons.mp h with rfl | h
    · exact Or.inr ⟨_, hname, hvalue⟩
    · exact hothers archive h

theorem buildManifest_offline (createdAt : Int) (hfiles : ∀ file ∈ files, Inside near file.full) :
    Confined (Op.Offline near filled)
      (m.buildManifest stagingBase start command revision files createdAt previous)
      fun r => ∀ archive ∈ r.2, BuiltIn stagingBase archive := by
  obtain ⟨hcontent, hconfig, hworld⟩ := mem_of_mem_classify files
  refine (buildContent_offline start previous _ hp hf
    fun file h => hfiles file (hcontent file h)).bind fun content hcontent => ?_
  refine (buildConfig_offline start revision previous _ hp hf
    fun file h => hfiles file (hconfig file h)).bind fun config hconfig => ?_
  refine (buildWorld_offline start revision previous hp hf _ 0
    fun group hg file h => hfiles file (hworld group hg file h)).bind fun world hworld => ?_
  refine confined_pure fun archive h => ?_
  rcases List.mem_cons.mp h with rfl | h
  · exact hcontent
  rcases List.mem_append.mp h with h | h
  · exact hconfig archive (Option.mem_toList.mp h)
  · exact hworld archive h

end Archives

theorem previousManifest_offline (hst : Inside near (m.restoredPath command.serviceID)) :
    Confined (Op.Offline near filled) (m.previousManifest command) fun _ => True := by
  refine confined_asked ⟨local_far rfl, rfl⟩ fun r => ?_
  split
  · exact confined_pure trivial
  refine confined_described ⟨local_near hst rfl rfl, rfl⟩ fun r => ?_
  split
  · exact confined_pure trivial
  split
  · exact confined_throw
  refine (confined_describing (confined_check fun _ _ => trivial)).bind fun _ (_ : True) => ?_
  exact confined_asked ⟨local_far rfl, rfl⟩ fun _ => confined_pure trivial

theorem verifyArchives_offline (expected : List WorkspaceBlob) (archives : List Archive)
    (h : ∀ archive ∈ archives, Housed near archive) :
    Confined (Op.Offline near filled) (verifyArchives expected archives) fun _ => True := by
  induction archives with
  | nil => exact confined_pure trivial
  | cons stored rest ih =>
    have hrest := ih (List.forall_mem_cons.mp h).2
    unfold verifyArchives
    split
    · exact confined_throw
    refine confined_guard fun _ => ?_
    split
    next hpath =>
      have hnear := (h stored List.mem_cons_self).resolve_left hpath
      refine (hashFile_offline _ hnear).attempt.bind fun r _ => ?_
      split
      · exact confined_throw
      · exact confined_guard fun _ => hrest
    · exact hrest

theorem verifyExisting_local (key : Bytes) (size : Int) (sum : Bytes) :
    Reaches near filled (verifyExisting key size sum) := by
  refine confined_asked (local_far rfl) fun body => ?_
  split
  · exact confined_throw
  · exact confined_pure trivial

theorem upload_local (grant : Grant) (key bytes : Bytes) (size : Int) (sum : Bytes) :
    Reaches near filled (upload grant key bytes size sum) := by
  unfold upload
  refine confined_guard fun _ => ?_
  refine confined_checked fun _ => ?_
  dsimp only
  split
  · exact confined_dropped (local_far rfl) fun _ => confined_throw
  refine confined_guard fun _ => ?_
  refine confined_asked (local_far rfl) fun r => ?_
  split
  · exact verifyExisting_local _ _ _
  · split
    · exact confined_throw
    · exact confined_pure trivial

theorem uploadArchiveWithRefresh_local (manifest : WorkspaceManifest) (manifestSHA : Bytes)
    (archive : Archive) (initial : Grant) (h : Inside near (pathOf archive.path)) :
    Reaches near filled (uploadArchiveWithRefresh manifest manifestSHA archive initial) := by
  refine confined_retried (fun _ => local_far rfl) (fun n => ?_) _ _
  refine (confined_describing (locally (readFile_offline h))).bind fun bytes (_ : True) => ?_
  split
  on_goal 1 => refine (confined_pure (ψ := fun _ => True) trivial).bind fun grant _ => ?_
  on_goal 2 =>
    refine confined_described (local_far rfl) fun _ => ?_
    refine confined_checked fun grants => ?_
    refine (confined_pure (ψ := fun _ => True) trivial).bind fun grant _ => ?_
  -- with the first grant or a fresh one, what is granted is sent
  all_goals
    cases grant with
    | none => exact confined_pure fun _ _ => trivial
    | some grant => exact (upload_local _ _ _ _ _).attempt

theorem uploadArchives_local (manifest : WorkspaceManifest) (manifestSHA : Bytes)
    (grants : List Grant) (archives : List Archive)
    (h : ∀ archive ∈ archives, Inside near (pathOf archive.path)) :
    Reaches near filled (uploadArchives manifest manifestSHA grants archives) := by
  induction archives with
  | nil => exact confined_pure trivial
  | cons archive rest ih =>
    have hrest := ih (List.forall_mem_cons.mp h).2
    unfold uploadArchives
    split
    · exact hrest
    · exact (uploadArchiveWithRefresh_local manifest manifestSHA archive _
        (h archive List.mem_cons_self)).bind fun _ _ => hrest

theorem uploadBatches_local (manifest : WorkspaceManifest) (manifestSHA : Bytes)
    (groups : List (List Archive))
    (h : ∀ group ∈ groups, ∀ archive ∈ group, Inside near (pathOf archive.path)) :
    Reaches near filled (uploadBatches manifest manifestSHA groups) := by
  induction groups with
  | nil => exact confined_pure trivial
  | cons group rest ih =>
    refine confined_described (local_far rfl) fun _ => ?_
    refine confined_checked fun grants => ?_
    refine (uploadArchives_local manifest manifestSHA grants group
      (h group List.mem_cons_self)).bind fun _ _ => ?_
    exact ih (List.forall_mem_cons.mp h).2

theorem mem_of_mem_batches {α : Type} {n : Nat} {l group : List α} (hg : group ∈ batches n l)
    {a : α} (ha : a ∈ group) : a ∈ l := by
  induction n generalizing l with
  | zero => cases hg
  | succ n ih =>
    unfold batches at hg
    split at hg
    · cases hg
    rcases List.mem_cons.mp hg with rfl | hg
    · exact List.mem_of_mem_take ha
    · exact List.mem_of_mem_drop (ih hg)

theorem publish_local (revision : Int) (draft : SyncDescriptor) (hp : Inside near stagingBase)
    (hst : StateBases m command.serviceID near filled)
    (h : ∀ archive ∈ draft.archives, Housed near archive) :
    Reaches near filled (m.publish stagingBase command revision draft) := by
  unfold Manager.publish
  refine confined_guard fun _ => ?_
  refine (uploadBatches_local _ _ _ fun group hg archive ha => ?_).bind fun _ _ => ?_
  · have hmem := List.mem_filter.mp (mem_of_mem_batches hg ha)
    exact (h archive hmem.1).resolve_left (by simpa using hmem.2)
  refine confined_described (local_far rfl) fun _ => ?_
  refine confined_checked fun grant => ?_
  refine (confined_describing (confined_retried (ψ := fun _ => True) (fun _ => local_far rfl)
    (fun _ => (upload_local _ _ _ _ _).attempt) _ _)).bind fun _ (_ : True) => ?_
  refine confined_asked (local_far rfl) fun _ => ?_
  refine (locally (persistRestored_offline _ hst)).bind fun _ _ => ?_
  exact confined_describing (confined_ask (local_near hp rfl rfl))

end Sync

end SharedNode.Workspace
