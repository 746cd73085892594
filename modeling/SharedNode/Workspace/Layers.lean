import Mathlib.Algebra.Order.BigOperators.Group.List
import Mathlib.Data.List.Chain
import Mathlib.Data.List.Perm.Basic
import SharedNode.Storage.Disk
import SharedNode.Workspace.Manifest

/-!
# The layers of a workspace

`classify` (`internal/workspace/workspace.go`) splits the files of a workspace into a content layer,
a config layer and the shards of the world directories, one archive each.

* `isContentPath_of_mem`, `isConfigPath_of_mem`, `isWorldPath_of_mem`: each layer has the paths its
  check in `validateManifest` asks for.
* `shards_flatten`, `ne_nil_of_mem_shards`: cutting a group into shards loses and adds nothing, and
  no shard is empty.
-/

namespace SharedNode.Workspace

open Text ControlPlane Storage

structure WorkspaceFile where
  /-- The path below the workspace, with slashes. -/
  path : Bytes
  /-- Where the file is on the disk. -/
  full : Path
  size : Int
  deriving DecidableEq, Repr

def sortFiles (files : List WorkspaceFile) : List WorkspaceFile :=
  files.insertionSort fun left right => left.path ≤ right.path

/-- The files of a workspace by layer, those of the worlds in shards. -/
structure Layers where
  content : List WorkspaceFile
  config : List WorkspaceFile
  world : List (List WorkspaceFile)
  deriving DecidableEq, Repr

/-- The first component of a path is one of the names. -/
def startsIn (dirs : List String) (path : Bytes) : Bool :=
  (components path).head?.any fun dir => dirs.any fun name => dir = lit name

def worldDirs : List String := ["world", "world_nether", "world_the_end"]

def configDirs : List String := ["config", "defaultconfigs"]

/-- The group of a file in a world directory: the first two components of its path. -/
def worldGroup (file : WorkspaceFile) : Option Bytes :=
  if startsIn worldDirs file.path then
    match components file.path with
    | dir :: name :: _ => some (dir ++ lit "/" ++ name)
    | dir :: _ => some dir
    | [] => none
  else none

/-- `classify`, the inner loop: a shard is closed when the next file would make it larger than the
target. -/
def shards : List WorkspaceFile → List WorkspaceFile → Int → List (List WorkspaceFile)
  | [], shard, _ => if shard.isEmpty then [] else [shard]
  | file :: rest, shard, size =>
    if !shard.isEmpty && worldTargetBytes < int64 (size + file.size) then
      shard :: shards rest [file] file.size
    else shards rest (shard ++ [file]) (int64 (size + file.size))

def worldGroups (files : List WorkspaceFile) : List Bytes :=
  (files.filterMap worldGroup).dedup.insertionSort (· ≤ ·)

/-- What is in no directory of a world or of the configuration is content. -/
def classify (files : List WorkspaceFile) : Layers where
  content := sortFiles (files.filter fun file =>
    !startsIn worldDirs file.path && !startsIn configDirs file.path)
  config := sortFiles (files.filter fun file =>
    !startsIn worldDirs file.path && startsIn configDirs file.path)
  world := (worldGroups files).flatMap fun group =>
    shards (sortFiles (files.filter fun file => worldGroup file = some group)) [] 0

/-! ## Shards -/

theorem shards_flatten (files shard : List WorkspaceFile) (size : Int) :
    (shards files shard size).flatten = shard ++ files := by
  induction files generalizing shard size with
  | nil =>
    unfold shards
    split
    next h => simp [List.isEmpty_iff.mp h]
    · simp
  | cons file rest ih =>
    unfold shards
    split
    · rw [List.flatten_cons, ih]
      rfl
    · rw [ih, List.append_assoc]
      rfl

variable {files shard files' : List WorkspaceFile} {file : WorkspaceFile}

theorem ne_nil_of_mem_shards {group : List WorkspaceFile} {size : Int}
    (h : group ∈ shards files shard size) : group ≠ [] := by
  induction files generalizing shard size with
  | nil =>
    unfold shards at h
    split at h
    · cases h
    next hne =>
      obtain rfl := List.mem_singleton.mp h
      simpa using hne
  | cons file rest ih =>
    unfold shards at h
    split at h
    next hne =>
      rcases List.mem_cons.mp h with rfl | h
      · simp only [Bool.and_eq_true, Bool.not_eq_eq_eq_not, Bool.not_true] at hne
        simpa using hne.1
      · exact ih h
    · exact ih h

/-! ## The sizes of the shards -/

/-- The bytes of a shard. -/
def shardSize (shard : List WorkspaceFile) : Int := (shard.map (·.size)).sum

/-- The first file of the second shard does not fit into the first one. -/
def Full (left right : List WorkspaceFile) : Prop :=
  ∃ first ∈ right.head?, worldTargetBytes < shardSize left + first.size

/-- A shard as the loop may leave it. -/
def Fits (shard : List WorkspaceFile) : Prop :=
  shardSize shard ≤ worldTargetBytes ∨ shard.length = 1

/-- No two of the sizes overflow. -/
def Moderate (files : List WorkspaceFile) : Prop :=
  ∀ file ∈ files, 0 ≤ file.size ∧ file.size < 2 ^ 62

theorem shardSize_append (shard : List WorkspaceFile) (file : WorkspaceFile) :
    shardSize (shard ++ [file]) = shardSize shard + file.size := by
  simp [shardSize]

theorem shardSize_nonneg (h : Moderate shard) : 0 ≤ shardSize shard := by
  refine List.sum_nonneg fun size hsize => ?_
  obtain ⟨file, hfile, rfl⟩ := List.mem_map.mp hsize
  exact (h file hfile).1

theorem shardSize_lt (hfits : shard = [] ∨ Fits shard)
    (h : Moderate shard) : shardSize shard < 2 ^ 62 := by
  rcases hfits with rfl | hle | hone
  · simp [shardSize]
  · exact lt_of_le_of_lt hle (by decide)
  · obtain ⟨file, rfl⟩ := List.length_eq_one_iff.mp hone
    have := (h file List.mem_cons_self).2
    simpa [shardSize] using this

section Loop

variable {files shard : List WorkspaceFile} {file : WorkspaceFile}

theorem int64_shardSize (hfits : shard = [] ∨ Fits shard) (hshard : Moderate shard)
    (hfile : 0 ≤ file.size ∧ file.size < 2 ^ 62) :
    int64 (shardSize shard + file.size) = shardSize (shard ++ [file]) := by
  have hnonneg := shardSize_nonneg hshard
  have hlt := shardSize_lt hfits hshard
  rw [shardSize_append]
  exact int64_eq (by omega) (by omega)

theorem fits_append
    (h : ¬ (!shard.isEmpty && worldTargetBytes < shardSize (shard ++ [file])) = true) :
    Fits (shard ++ [file]) := by
  by_cases hempty : shard = []
  · exact Or.inr (by simp [hempty])
  · refine Or.inl ?_
    simpa [hempty] using h

theorem moderate_append (hshard : Moderate shard) (hfile : 0 ≤ file.size ∧ file.size < 2 ^ 62) :
    Moderate (shard ++ [file]) := by
  intro f hf
  rcases List.mem_append.mp hf with hf | hf
  · exact hshard f hf
  · rwa [List.mem_singleton.mp hf]

theorem fits_of_mem_shards (hfiles : Moderate files) (hshard : Moderate shard)
    (hfits : shard = [] ∨ Fits shard) :
    ∀ group ∈ shards files shard (shardSize shard), Fits group := by
  induction files generalizing shard with
  | nil =>
    intro group hgroup
    unfold shards at hgroup
    split at hgroup
    · cases hgroup
    next hne =>
      obtain rfl := List.mem_singleton.mp hgroup
      exact hfits.resolve_left (by simpa using hne)
  | cons file rest ih =>
    have hfile := hfiles file List.mem_cons_self
    have hrest : Moderate rest := (List.forall_mem_cons.mp hfiles).2
    have hone : shardSize [file] = file.size := by simp [shardSize]
    intro group hgroup
    unfold shards at hgroup
    rw [int64_shardSize hfits hshard hfile] at hgroup
    split at hgroup
    next hclose =>
      rw [Bool.and_eq_true] at hclose
      rcases List.mem_cons.mp hgroup with rfl | hgroup
      · exact hfits.resolve_left (by simpa using hclose.1)
      · rw [← hone] at hgroup
        exact ih hrest (by simpa [Moderate] using hfile) (Or.inr (Or.inr rfl)) group hgroup
    next hopen =>
      exact ih hrest (moderate_append hshard hfile) (Or.inr (fits_append hopen)) group hgroup

theorem head_shards (first : WorkspaceFile) (files shard : List WorkspaceFile) (size : Int) :
    ∃ more groups, shards files (first :: shard) size = (first :: more) :: groups := by
  induction files generalizing shard size with
  | nil => exact ⟨shard, [], rfl⟩
  | cons file rest ih =>
    unfold shards
    split
    · exact ⟨shard, _, rfl⟩
    · exact ih _ _

theorem isChain_shards (hfiles : Moderate files) (hshard : Moderate shard)
    (hfits : shard = [] ∨ Fits shard) : (shards files shard (shardSize shard)).IsChain Full := by
  induction files generalizing shard with
  | nil =>
    unfold shards
    split
    · exact .nil
    · exact .singleton _
  | cons file rest ih =>
    have hfile := hfiles file List.mem_cons_self
    have hrest : Moderate rest := (List.forall_mem_cons.mp hfiles).2
    have hone : shardSize [file] = file.size := by simp [shardSize]
    unfold shards
    rw [int64_shardSize hfits hshard hfile]
    split
    next hclose =>
      rw [Bool.and_eq_true, decide_eq_true_eq, shardSize_append] at hclose
      have hnext := ih hrest (by simpa [Moderate] using hfile)
        (Or.inr (Or.inr rfl) : [file] = [] ∨ _)
      rw [hone] at hnext
      obtain ⟨more, groups, heq⟩ := head_shards file rest [] file.size
      rw [heq] at hnext ⊢
      exact List.isChain_cons_cons.mpr ⟨⟨file, rfl, hclose.2⟩, hnext⟩
    next hopen =>
      exact ih hrest (moderate_append hshard hfile) (Or.inr (fits_append hopen))

end Loop

/-! ## All files, once -/

theorem sortFiles_perm (files : List WorkspaceFile) : (sortFiles files).Perm files :=
  List.perm_insertionSort _ _

@[simp] theorem mem_sortFiles :
    file ∈ sortFiles files ↔ file ∈ files := (sortFiles_perm files).mem_iff

theorem flatMap_filter_perm {α β : Type} [DecidableEq β] (key : α → Option β) (l : List α)
    {keys : List β} (hnodup : keys.Nodup) :
    (keys.flatMap fun k => l.filter fun a => key a = some k).Perm
      (l.filter fun a => (key a).any fun k => keys.contains k) := by
  induction keys with
  | nil => simp
  | cons k keys ih =>
    obtain ⟨hk, hnodup⟩ := List.nodup_cons.mp hnodup
    refine ((ih hnodup).append_left _).trans ?_
    have hsplit := List.filter_append_perm (fun a => decide (key a = some k))
      (l.filter fun a => (key a).any fun x => (k :: keys).contains x)
    refine List.Perm.trans (List.Perm.of_eq ?_) hsplit
    rw [List.filter_filter, List.filter_filter]
    congr 1
    · refine List.filter_congr fun a _ => ?_
      cases hkey : key a with
      | none => simp
      | some x => by_cases hx : x = k <;> simp [hx]
    · refine List.filter_congr fun a _ => ?_
      cases hkey : key a with
      | none => simp
      | some x =>
        by_cases hx : x = k
        · subst hx
          simpa using hk
        · simp [hx]

theorem worldGroup_isSome (file : WorkspaceFile) :
    (worldGroup file).isSome = startsIn worldDirs file.path := by
  unfold worldGroup
  split
  next h =>
    rw [h]
    split
    · rfl
    · rfl
    next hc => simp [startsIn, hc] at h
  next h => simpa using (Bool.eq_false_iff.mpr h).symm

theorem world_flatten (files : List WorkspaceFile) : (classify files).world.flatten.Perm
    (files.filter fun file => startsIn worldDirs file.path) := by
  have hflat : (classify files).world.flatten =
      (worldGroups files).flatMap fun group =>
        sortFiles (files.filter fun file => worldGroup file = some group) := by
    unfold classify
    induction worldGroups files with
    | nil => rfl
    | cons group groups ih => rw [List.flatMap_cons, List.flatMap_cons, List.flatten_append, ih,
        shards_flatten, List.nil_append]
  have hnodup : (worldGroups files).Nodup :=
    (List.perm_insertionSort _ _).nodup_iff.mpr (List.nodup_dedup _)
  rw [hflat]
  refine (List.Perm.flatMap_left _ fun _ _ => sortFiles_perm _).trans ?_
  refine (flatMap_filter_perm worldGroup files hnodup).trans (List.Perm.of_eq ?_)
  refine List.filter_congr fun file hfile => ?_
  rw [← worldGroup_isSome]
  cases hg : worldGroup file with
  | none => rfl
  | some g =>
    have : g ∈ worldGroups files := by
      rw [worldGroups, List.mem_insertionSort, List.mem_dedup, List.mem_filterMap]
      exact ⟨file, hfile, hg⟩
    simpa using this

/-- **The layers have exactly the files.** -/
theorem classify_perm (files : List WorkspaceFile) :
    ((classify files).content ++ (classify files).config ++ (classify files).world.flatten).Perm
      files := by
  have hworld := world_flatten files
  have hrest : ((classify files).content ++ (classify files).config).Perm
      (files.filter fun file => !startsIn worldDirs file.path) := by
    have hsplit := (List.filter_append_perm (fun file => !startsIn configDirs file.path)
      (files.filter fun file => !startsIn worldDirs file.path))
    rw [List.filter_filter, List.filter_filter] at hsplit
    refine ((sortFiles_perm _).append (sortFiles_perm _)).trans (List.Perm.trans ?_ hsplit)
    refine List.Perm.of_eq ?_
    congr 1
    · exact List.filter_congr fun file _ => Bool.and_comm _ _
    · refine List.filter_congr fun file _ => ?_
      rw [Bool.not_not, Bool.and_comm]
  have hall := List.filter_append_perm (fun file => !startsIn worldDirs file.path) files
  simp only [Bool.not_not] at hall
  exact (hrest.append hworld).trans hall

/-! ## The paths of each layer -/

/-- The first component of a path is a name exactly if the path is that name or below it. -/
theorem isUnder_iff {path dir : Bytes} (hdir : slash ∉ dir) :
    isUnder path dir = true ↔ (components path).head? = some dir := by
  unfold isUnder
  simp only [Bool.or_eq_true, decide_eq_true_eq, hasPrefix, List.isPrefixOf_iff_prefix]
  constructor
  · rintro (rfl | ⟨rest, rfl⟩)
    · rw [components_of_not_mem hdir]
      rfl
    · have : dir ++ lit "/" ++ rest = dir ++ slash :: rest := by
        rw [List.append_assoc]
        rfl
      rw [this, components_append_slash hdir]
      rfl
  · intro h
    obtain ⟨rest, hrest⟩ : ∃ rest, components path = dir :: rest := by
      cases hc : components path with
      | nil => exact absurd hc (components_ne_nil path)
      | cons c rest =>
        rw [hc, List.head?_cons, Option.some.injEq] at h
        exact ⟨rest, by rw [h]⟩
    have hjoin := intercalate_components path
    rw [hrest] at hjoin
    cases rest with
    | nil => exact Or.inl (by simpa [List.intercalate] using hjoin.symm)
    | cons c rest =>
      refine Or.inr ⟨[slash].intercalate (c :: rest), ?_⟩
      rw [← hjoin, List.intercalate_cons_cons]
      rfl

theorem startsIn_cons (name : String) (names : List String) (path : Bytes) (h : slash ∉ lit name) :
    startsIn (name :: names) path = (isUnder path (lit name) || startsIn names path) := by
  rw [Bool.eq_iff_iff, Bool.or_eq_true, isUnder_iff h]
  unfold startsIn
  cases (components path).head? with
  | none => simp
  | some dir => simp

theorem startsIn_worldDirs (path : Bytes) : startsIn worldDirs path = isWorldPath path := by
  have hnil : startsIn [] path = false := by simp [startsIn]
  rw [worldDirs, startsIn_cons _ _ _ (by decide), startsIn_cons _ _ _ (by decide),
    startsIn_cons _ _ _ (by decide), hnil, Bool.or_false, isWorldPath, Bool.or_assoc]

theorem startsIn_configDirs (path : Bytes) : startsIn configDirs path = isConfigPath path := by
  have hnil : startsIn [] path = false := by simp [startsIn]
  rw [configDirs, startsIn_cons _ _ _ (by decide), startsIn_cons _ _ _ (by decide), hnil,
    Bool.or_false, isConfigPath]

theorem isContentPath_of_mem (h : file ∈ (classify files).content) : isContentPath file.path := by
  have := (List.mem_filter.mp (mem_sortFiles.mp h)).2
  rwa [startsIn_worldDirs, startsIn_configDirs] at this

theorem isConfigPath_of_mem (h : file ∈ (classify files).config) : isConfigPath file.path := by
  have := (List.mem_filter.mp (mem_sortFiles.mp h)).2
  rw [startsIn_worldDirs, startsIn_configDirs, Bool.and_eq_true] at this
  exact this.2

theorem isWorldPath_of_mem
    (hs : shard ∈ (classify files).world) (h : file ∈ shard) : isWorldPath file.path := by
  have := (world_flatten files).mem_iff.mp (List.mem_flatten.mpr ⟨shard, hs, h⟩)
  have := (List.mem_filter.mp this).2
  rwa [startsIn_worldDirs] at this

/-! ## Everything about the layers -/

/-- The files are in the layers once each, on paths of their layer; the shards are sorted, of one
group, within the target, and not smaller than they could be. -/
structure Classified (files : List WorkspaceFile) (layers : Layers) : Prop where
  once : (layers.content ++ layers.config ++ layers.world.flatten).Perm files
  content : ∀ file ∈ layers.content, isContentPath file.path
  config : ∀ file ∈ layers.config, isConfigPath file.path
  world : ∀ shard ∈ layers.world, ∀ file ∈ shard, isWorldPath file.path
  sorted : ∀ shard ∈ layers.world, shard.Pairwise fun left right => left.path < right.path
  nonempty : ∀ shard ∈ layers.world, shard ≠ []
  group : ∀ shard ∈ layers.world, ∃ group, ∀ file ∈ shard, worldGroup file = some group
  fits : ∀ shard ∈ layers.world, shardSize shard ≤ worldTargetBytes ∨ shard.length = 1
  full : layers.world.IsChain fun left right =>
    ∀ group, (∀ file ∈ left ++ right, worldGroup file = some group) → Full left right

theorem nodup_filter (h : (files.map (·.path)).Nodup)
    (p : WorkspaceFile → Bool) : ((files.filter p).map (·.path)).Nodup :=
  h.sublist (List.filter_sublist.map _)

theorem pairwise_sortFiles (h : (files.map (·.path)).Nodup) :
    (sortFiles files).Pairwise fun left right => left.path < right.path := by
  have hle : (sortFiles files).Pairwise fun left right => left.path ≤ right.path :=
    List.pairwise_insertionSort (fun left right : WorkspaceFile => left.path ≤ right.path) _
  have hne : (sortFiles files).Pairwise fun left right => left.path ≠ right.path :=
    List.pairwise_map.mp (((sortFiles_perm files).map _).nodup_iff.mpr h)
  refine (hle.and hne).imp fun hboth => ?_
  by_contra hlt
  exact hboth.2 (List.le_antisymm hboth.1 (List.not_lt.mp hlt))

theorem sortFiles_congr (h : (files.map (·.path)).Nodup)
    (hperm : files'.Perm files) : sortFiles files' = sortFiles files := by
  have h' : (files'.map (·.path)).Nodup := (hperm.map _).nodup_iff.mpr h
  refine List.Perm.eq_of_pairwise (fun a b _ _ hab hba => ?_) (pairwise_sortFiles h')
    (pairwise_sortFiles h) ((sortFiles_perm _).trans (hperm.trans (sortFiles_perm _).symm))
  exact absurd (List.lt_trans hab hba) (List.lt_irrefl _)

theorem worldGroups_congr (hperm : files'.Perm files) : worldGroups files' = worldGroups files := by
  have hsorted : ∀ l : List WorkspaceFile, (worldGroups l).Pairwise (· ≤ ·) := fun l =>
    List.pairwise_insertionSort (fun left right : Bytes => left ≤ right) _
  refine List.Perm.eq_of_pairwise (fun a b _ _ hab hba => List.le_antisymm hab hba) (hsorted _)
    (hsorted _) ?_
  exact (List.perm_insertionSort _ _).trans
    ((hperm.filterMap worldGroup).dedup.trans (List.perm_insertionSort _ _).symm)

theorem classify_congr (h : (files.map (·.path)).Nodup)
    (hperm : files'.Perm files) : classify files' = classify files := by
  have hsort : ∀ p : WorkspaceFile → Bool, sortFiles (files'.filter p) =
      sortFiles (files.filter p) :=
    fun p => sortFiles_congr (nodup_filter h p) (hperm.filter p)
  unfold classify
  simp only [hsort, worldGroups_congr hperm]

theorem isChain_flatMap {groups : List Bytes} {f : Bytes → List (List WorkspaceFile)}
    (hnodup : groups.Nodup) (hne : ∀ group ∈ groups, ∀ shard ∈ f group, shard ≠ [])
    (hin : ∀ group ∈ groups, ∀ shard ∈ f group, ∀ file ∈ shard, worldGroup file = some group)
    (hchain : ∀ group ∈ groups, (f group).IsChain Full) :
    (groups.flatMap f).IsChain fun left right =>
      ∀ group, (∀ file ∈ left ++ right, worldGroup file = some group) → Full left right := by
  induction groups with
  | nil => exact .nil
  | cons group groups ih =>
    obtain ⟨hnot, hnodup⟩ := List.nodup_cons.mp hnodup
    refine List.IsChain.append ((hchain group List.mem_cons_self).imp fun _ _ hfull _ _ => hfull)
      (ih hnodup (List.forall_mem_cons.mp hne).2
        (List.forall_mem_cons.mp hin).2
        (List.forall_mem_cons.mp hchain).2) ?_
    intro left hleft right hright common hall
    -- A shard of this group and one of a later group have no group in common.
    have hleft := List.mem_of_getLast? hleft
    obtain ⟨later, hlater, hright⟩ := List.mem_flatMap.mp (List.mem_of_head? hright)
    obtain ⟨a, ha⟩ := List.exists_mem_of_ne_nil _ (hne group List.mem_cons_self left hleft)
    obtain ⟨b, hb⟩ := List.exists_mem_of_ne_nil _
      (hne later (List.mem_cons_of_mem _ hlater) right hright)
    have hgroup := hin group List.mem_cons_self left hleft a ha
    have hlast := hin later (List.mem_cons_of_mem _ hlater) right hright b hb
    rw [hall a (List.mem_append_left _ ha)] at hgroup
    rw [hall b (List.mem_append_right _ hb)] at hlast
    obtain rfl := Option.mem_unique hgroup hlast
    exact absurd hlater hnot

section World

variable {files shard : List WorkspaceFile}

theorem exists_group (h : shard ∈ (classify files).world) : ∃ group ∈ worldGroups files,
    shard ∈ shards (sortFiles (files.filter fun file => worldGroup file = some group)) [] 0 :=
  List.mem_flatMap.mp h

theorem mem_of_mem_shards {group : Bytes}
    (h : shard ∈ shards (sortFiles (files.filter fun file => worldGroup file = some group)) [] 0) :
    ∀ file ∈ shard, file ∈ files ∧ worldGroup file = some group := by
  intro file hfile
  have hmem := List.mem_flatten.mpr ⟨shard, h, hfile⟩
  rw [shards_flatten, List.nil_append, mem_sortFiles, List.mem_filter] at hmem
  exact ⟨hmem.1, of_decide_eq_true hmem.2⟩

theorem pairwise_of_mem_shards {group : Bytes} (hdistinct : (files.map (·.path)).Nodup)
    (h : shard ∈ shards (sortFiles (files.filter fun file => worldGroup file = some group)) [] 0) :
    shard.Pairwise fun left right => left.path < right.path := by
  have hsorted := pairwise_sortFiles
    (nodup_filter hdistinct fun file => worldGroup file = some group)
  have hflat := shards_flatten
    (sortFiles (files.filter fun file => worldGroup file = some group)) [] 0
  rw [List.nil_append] at hflat
  rw [← hflat] at hsorted
  exact (List.pairwise_flatten.mp hsorted).1 shard h

/-- **What the layers of a workspace are**, and that they do not depend on the order in which the
files were found. -/
theorem classify_classified (hdistinct : (files.map (·.path)).Nodup)
    (hsizes : ∀ file ∈ files, 0 ≤ file.size ∧ file.size < 2 ^ 62) :
    Classified files (classify files) ∧
      ∀ files', files'.Perm files → classify files' = classify files := by
  have hgroup : ∀ group : Bytes,
      Moderate (sortFiles (files.filter fun file => worldGroup file = some group)) :=
    fun group file hfile => hsizes file (List.mem_filter.mp (mem_sortFiles.mp hfile)).1
  have hnone : Moderate [] := fun _ h => absurd h List.not_mem_nil
  have hnodup : (worldGroups files).Nodup :=
    (List.perm_insertionSort _ _).nodup_iff.mpr (List.nodup_dedup _)
  refine ⟨⟨classify_perm files, fun _ => isContentPath_of_mem, fun _ => isConfigPath_of_mem,
    fun _ hs _ => isWorldPath_of_mem hs, fun shard hs => ?_, fun shard hs => ?_, fun shard hs => ?_,
    fun shard hs => ?_, ?_⟩, fun files' => classify_congr hdistinct⟩
  · obtain ⟨group, -, hshard⟩ := exists_group hs
    exact pairwise_of_mem_shards hdistinct hshard
  · obtain ⟨group, -, hshard⟩ := exists_group hs
    exact ne_nil_of_mem_shards hshard
  · obtain ⟨group, -, hshard⟩ := exists_group hs
    exact ⟨group, fun file hfile => (mem_of_mem_shards hshard file hfile).2⟩
  · obtain ⟨group, -, hshard⟩ := exists_group hs
    exact fits_of_mem_shards (hgroup group) hnone (Or.inl rfl) shard hshard
  · refine isChain_flatMap hnodup (fun group _ shard => ne_nil_of_mem_shards)
      (fun group _ shard hshard file hfile => (mem_of_mem_shards hshard file hfile).2)
      fun group _ => isChain_shards (hgroup group) hnone (Or.inl rfl)

end World

def regionFiles : List WorkspaceFile :=
  [⟨lit "world/region/b", [], worldTargetBytes⟩, ⟨lit "world/region/a", [], 1⟩,
    ⟨lit "config/c", [], 1⟩]

theorem classify_classified_region : Classified regionFiles (classify regionFiles) ∧
    ∀ files', files'.Perm regionFiles → classify files' = classify regionFiles := by
  have hdistinct : (regionFiles.map (·.path)).Nodup := by decide
  exact classify_classified hdistinct (by decide)

def hugeFiles : List WorkspaceFile :=
  [⟨lit "world/region/a", [], 2 ^ 63 - 1⟩, ⟨lit "world/region/b", [], 1⟩]

/-- Two files whose sizes overflow are left in one shard. -/
theorem overflowing_shard : (hugeFiles.map (·.path)).Nodup ∧
    (classify hugeFiles).world = [hugeFiles] ∧ worldTargetBytes < shardSize hugeFiles ∧
    hugeFiles.length ≠ 1 := by
  decide

end SharedNode.Workspace
