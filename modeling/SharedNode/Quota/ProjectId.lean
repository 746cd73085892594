import Mathlib.Data.Fintype.BigOperators
import Mathlib.Data.Fintype.Pigeonhole
import SharedNode.Quota.Helper
import SharedNode.Text.Json

/-!
# Project IDs of workspaces

The helper (`cmd/xmcl-quota-helper/main.go`) gives a directory the project ID `base + h`, where `h`
is the FNV-1a hash of its path cut to 30 bits, in 32-bit arithmetic. Two directories have limits of
their own only if their IDs differ.

* No accepted configuration gives all the workspaces it accepts IDs of their own: there are more
  names of 33 letters than hashes (`not_keepsApart`).
* A pair for a small configuration, and a base for which the sum wraps around (`project_shared`).

What `xfs_quota` does with an ID is outside of the model.
-/

namespace SharedNode.Quota

open Text

/-- The IDs of two directories differ, and each is a number that is not zero and not below the
base. -/
def Separate (base : UInt32) (d d' : Bytes) : Prop :=
  projectID base d ≠ projectID base d' ∧ ∀ s ∈ [d, d'],
    ∃ id, parseDigits (projectID base s) = some id ∧ id ≠ 0 ∧ base.toNat ≤ id

/-- Any two directories the helper accepts, in any file system, have separate IDs. -/
def KeepsApart (config : Config) : Prop :=
  ∀ (Inode : Type) (fs : FileSystem Inode) (d d' : Bytes), validateDirectory config fs d = none →
    validateDirectory config fs d' = none → d ≠ d' → Separate config.projectBase d d'

/-! ## Paths below the workspace root -/

section Below

variable {root name : Bytes}

theorem mem_foldl_push {rooted : Bool} {cs stack : List Bytes} {c : Bytes}
    (hc : c ∈ cs.foldl (push rooted) stack) : c ∈ cs ∨ c ∈ stack ∨ c = dotdot := by
  induction cs generalizing stack with
  | nil => exact Or.inr (Or.inl hc)
  | cons b cs ih =>
    rcases ih hc with hcs | hpush | hdots
    · exact Or.inl (List.mem_cons_of_mem b hcs)
    · unfold push at hpush
      grind
    · exact Or.inr (Or.inr hdots)

theorem slash_not_mem_cleanSteps {c : Bytes} (hc : c ∈ cleanSteps root) : slash ∉ c := by
  rcases mem_foldl_push (List.mem_reverse.mp hc) with hsteps | hnil | rfl
  · exact slash_not_mem_of_mem_components (List.mem_of_mem_filter hsteps)
  · cases hnil
  · decide

theorem isAbs_append (hroot : isAbs root = true) (rest : Bytes) : isAbs (root ++ rest) = true := by
  cases root with
  | nil => simp [isAbs] at hroot
  | cons b root => exact hroot

theorem cleanSteps_below (hroot : isAbs root = true) (hslash : slash ∉ name)
    (hname : isName name = true) :
    cleanSteps (root ++ slash :: name) = cleanSteps root ++ [name] := by
  have hsteps : steps (root ++ slash :: name) = steps root ++ [name] := by
    rw [steps, components_append, List.filter_append, components_of_not_mem hslash]
    simp [steps, stays_of_isName hname]
  rw [cleanSteps, cleanSteps, hsteps, isAbs_append hroot, hroot, List.foldl_append]
  simp [push, ne_dotdot_of_isName hname]

theorem stripCommon_append (cs ds : List Bytes) : stripCommon cs (cs ++ ds) = ([], ds) := by
  induction cs with
  | nil => cases ds <;> rfl
  | cons c cs ih => simpa [stripCommon] using ih

theorem clean_below_ne (hroot : isAbs root = true) (hslash : slash ∉ name)
    (hname : isName name = true) : Clean (root ++ slash :: name) ≠ Clean root := by
  have hnil : name ≠ [] := by
    rintro rfl
    exact absurd hname (by decide)
  intro h
  rw [Clean, Clean, if_pos (isAbs_append hroot _), if_pos hroot,
    cleanSteps_below hroot hslash hname] at h
  have hjoin := List.tail_eq_of_cons_eq h
  by_cases hcs : cleanSteps root = []
  · rw [hcs] at hjoin
    exact hnil (by simpa [List.intercalate] using hjoin)
  · have hfree : ∀ c ∈ cleanSteps root ++ [name], slash ∉ c := by
      intro c hc
      rcases List.mem_append.mp hc with hc | hc
      · exact slash_not_mem_cleanSteps hc
      · rwa [List.mem_singleton.mp hc]
    -- both joins are cut at the slashes again
    have hsplit := congrArg components hjoin
    rw [components, components, List.splitOn_intercalate slash hfree (by simp),
      List.splitOn_intercalate slash (List.forall_mem_append.mp hfree).1
        hcs] at hsplit
    simpa using congrArg List.length hsplit

theorem rel_below (hroot : isAbs root = true) (hslash : slash ∉ name) (hname : isName name = true) :
    Rel root (root ++ slash :: name) = some name := by
  rw [Text.Rel, if_neg (clean_below_ne hroot hslash hname),
    if_neg (by simp [isAbs_append hroot, hroot]), cleanSteps_below hroot hslash hname,
    stripCommon_append]
  simp [List.intercalate]

end Below

/-! ## More names than hashes -/

/-- A name of 33 letters. -/
def letters (word : Fin 33 → Bool) : Bytes := (List.ofFn word).map fun b => if b then 0x61 else 0x62

theorem letters_injective : Function.Injective letters := by
  have hletter : Function.Injective fun b : Bool => if b then (0x61 : UInt8) else 0x62 := by decide
  exact fun v w h => List.ofFn_injective (List.map_injective_iff.mpr hletter h)

theorem mem_letters {word : Fin 33 → Bool} {b : UInt8} (hb : b ∈ letters word) :
    b = 0x61 ∨ b = 0x62 := by
  obtain ⟨bit, -, rfl⟩ := List.mem_map.mp hb
  cases bit <;> simp

theorem isName_letters (word : Fin 33 → Bool) : isName (letters word) = true := by
  have hlength : (letters word).length = 33 := by simp [letters]
  have hne : ∀ c : Bytes, c.length ≠ 33 → letters word ≠ c := fun c hc h => hc (h ▸ hlength)
  simp [isName, stays, hne [] (by decide), hne dot (by decide), hne dotdot (by decide)]

theorem slash_not_mem_letters (word : Fin 33 → Bool) : slash ∉ letters word := by
  intro h
  rcases mem_letters h with h | h <;> exact absurd h (by decide)

/-- Two of the names below a directory have one ID. -/
theorem exists_shared (base : UInt32) (root : Bytes) : ∃ v w, v ≠ w ∧
    projectID base (root ++ slash :: letters v) = projectID base (root ++ slash :: letters w) := by
  let hash (word : Fin 33 → Bool) : Fin UInt32.size :=
    ((root ++ slash :: letters word).foldl (fun h b => (h ^^^ b.toUInt32) * 16777619)
      (2166136261 : UInt32)).toFin
  have hcard : Fintype.card (Fin UInt32.size) < Fintype.card (Fin 33 → Bool) := by
    simp [UInt32.size]
  obtain ⟨v, w, hvw, heq⟩ := Fintype.exists_ne_map_eq_of_card_lt hash hcard
  refine ⟨v, w, hvw, ?_⟩
  rw [projectID, projectID, UInt32.toFin_inj.mp heq]

theorem lexicalChild_letters {config : Config} (hc : config.accepted = true)
    (word : Fin 33 → Bool) :
    lexicalChild config (config.workspaceRoot ++ slash :: letters word) = true := by
  have hslash := slash_not_mem_letters word
  have hname := isName_letters word
  have hchars : containsAny (config.workspaceRoot ++ slash :: letters word) unsafeChars =
      false := by
    simp only [Config.accepted, Bool.and_eq_true, Bool.not_eq_true'] at hc
    rw [containsAny, List.any_eq_false] at hc ⊢
    intro b hb
    simp only [List.mem_append, List.mem_cons] at hb
    rcases hb with hb | rfl | hb
    · exact hc.1.1.2 b (List.mem_append_left _ hb)
    · decide
    · rcases mem_letters hb with rfl | rfl <;> decide
  have hdots : (dotdot ++ [slash]).isPrefixOf (letters word) = false := by
    rw [← Bool.not_eq_true, List.isPrefixOf_iff_prefix]
    exact fun h => hslash (h.subset (by decide))
  rw [lexicalChild, rel_below (accepted_root hc).1 hslash hname]
  have hdot : letters word ≠ dot := by
    intro h
    rw [h] at hname
    exact absurd hname (by decide)
  simp [hdot, ne_dotdot_of_isName hname, hslash, hdots, hchars]

/-! ## A file system -/

/-- A file system in which every name is a directory; a file is given by its path from below. -/
def everywhere : FileSystem (List Bytes) where
  node path := .dir path.tail fun name => some (name :: path)
  root := []
  cwd := []
  root_parent := rfl
  entry_parent {d name c q} hc hq := by
    cases hc
    cases hq
    rfl
  listed {d p} hp hd := by
    cases hp
    cases d with
    | nil => exact absurd rfl hd
    | cons name path => exact ⟨name, rfl⟩
  grounded d _ := by
    refine ⟨d.length, ?_⟩
    induction d with
    | nil => rfl
    | cons name path ih => exact ih rfl

theorem everywhere_walk (d cs : List Bytes) : ∃ i, everywhere.walk d cs = some i := by
  induction cs generalizing d with
  | nil => exact ⟨d, rfl⟩
  | cons c cs ih =>
    have henter : ∃ i, everywhere.enter d c = some i := by
      simp only [FileSystem.enter, FileSystem.step, everywhere]
      split_ifs <;> exact ⟨_, rfl⟩
    obtain ⟨i, hi⟩ := henter
    obtain ⟨j, hj⟩ := ih i
    exact ⟨j, by rw [FileSystem.walk, hi, Option.bind_some, hj]⟩

theorem validateDirectory_everywhere {config : Config} (hc : config.accepted = true)
    (word : Fin 33 → Bool) :
    validateDirectory config everywhere (config.workspaceRoot ++ slash :: letters word) = none := by
  obtain ⟨i, hi⟩ := everywhere_walk [] (components config.workspaceRoot)
  refine validateDirectory_none.mpr ⟨lexicalChild_letters hc word, letters word :: i, ?_, rfl⟩
  have hstart : ∀ p, everywhere.start p = [] := fun p => ite_self _
  rw [FileSystem.lstat, hstart, components_append, components_of_not_mem
    (slash_not_mem_letters word),
    FileSystem.lookup_concat, hi]
  show everywhere.step i (letters word) = some (letters word :: i)
  rw [FileSystem.step_name (isName_letters word)]
  rfl

/-- **No accepted configuration keeps workspaces apart.** -/
theorem not_keepsApart {config : Config} (hc : config.accepted = true) : ¬ KeepsApart config := by
  intro h
  obtain ⟨v, w, hvw, heq⟩ := exists_shared config.projectBase config.workspaceRoot
  refine (h _ everywhere _ _ (validateDirectory_everywhere hc v) (validateDirectory_everywhere hc w)
    fun hpath => hvw (letters_injective ?_)).1 heq
  simpa using hpath

/-! ## Two workspaces with one ID -/

/-- The files of a node with two workspaces under `/w`. -/
inductive Twins where
  | top
  | w
  | ucw6x
  | a6yuh
  deriving DecidableEq

def twins : FileSystem Twins where
  node
    | .top => .dir .top fun name => if name = lit "w" then some .w else none
    | .w => .dir .top fun name =>
      if name = lit "ucw6x" then some .ucw6x else if name = lit "a6yuh" then some .a6yuh else none
    | .ucw6x | .a6yuh => .dir .w fun _ => none
  root := .top
  cwd := .top
  root_parent := rfl
  entry_parent {d name c q} hc hq := by
    cases d with
    | top | w =>
      simp only [Node.entryAt, ite_eq_iff] at hc
      grind [Node.parent?]
    | ucw6x | a6yuh => cases hc
  listed {d p} hp hd := by
    cases d with
    | top => exact absurd rfl hd
    | w => cases hp; exact ⟨lit "w", rfl⟩
    | ucw6x => cases hp; exact ⟨lit "ucw6x", rfl⟩
    | a6yuh => cases hp; exact ⟨lit "a6yuh", rfl⟩
  grounded d _ := by
    cases d with
    | top => exact ⟨0, rfl⟩
    | w => exact ⟨1, rfl⟩
    | ucw6x | a6yuh => exact ⟨2, rfl⟩

theorem not_keepsApart_demo : demoConfig.accepted = true ∧ ¬ KeepsApart demoConfig :=
  ⟨by decide, not_keepsApart (by decide)⟩

/-- The paths `/w/ucw6x` and `/w/a6yuh` pass the checks and have one ID, so the limit of one
replaces that of the other. With the base `2 ^ 32 - 1` the ID of both is below the base. -/
theorem project_shared : demoConfig.accepted = true ∧ lit "/w/ucw6x" ≠ lit "/w/a6yuh" ∧
      validateDirectory demoConfig twins (lit "/w/ucw6x") = none ∧
      validateDirectory demoConfig twins (lit "/w/a6yuh") = none ∧
      projectID demoConfig.projectBase (lit "/w/ucw6x") =
        projectID demoConfig.projectBase (lit "/w/a6yuh") ∧
      Config.accepted { demoConfig with projectBase := 0xffffffff } = true ∧
      projectID 0xffffffff (lit "/w/ucw6x") = lit "298902938" := by
  decide +kernel

end SharedNode.Quota
