import Mathlib.Logic.Function.Basic
import SharedNode.Storage.Disk

/-!
# The files below a directory

A directory that was filled by writing files is determined by them: `Holds d root f` says that the
files of `f` are below `root`, that the directories there are those the files lie in, and that
nothing else is there. A file can be added exactly if no other file is on its way and nothing is
below it (`Holds.exists_mkdirAll`, `Holds.clear_of_mkdirAll`, `Holds.get_eq_none_iff`), and adding
it is an update of `f` (`Holds.put`). The files of the directory are those it holds (`Holds.files`).
-/

namespace SharedNode.Storage

open Text

abbrev FileMap := Path → Option Bytes

def Clear (f : FileMap) (r : Path) : Prop := ∀ r', r' <+: r → r' ≠ r → f r' = none

def Childless (f : FileMap) (r : Path) : Prop := ∀ r', r <+: r' → r' ≠ r → f r' = none

theorem not_prefix_dropLast (root : Path) {r : Path} (hr : r ≠ []) :
    ¬ root ++ r <+: root ++ r.dropLast := by
  intro hp
  have hlen := ((List.prefix_append_right_inj root).mp hp).length_le
  rw [List.length_dropLast] at hlen
  have := List.length_pos_iff.mpr hr
  omega

/-- The directory holds exactly these files, in the directories they need. -/
structure Holds (d : Disk) (root : Path) (f : FileMap) : Prop where
  base : d.get root = none ∨ d.get root = some .dir
  file : ∀ r bytes, f r = some bytes → ∃ t, d.get (root ++ r) = some (.file bytes t)
  dir : ∀ r r', r ≠ [] → f r = none → f r' ≠ none → r <+: r' → d.get (root ++ r) = some .dir
  nothing : ∀ r, r ≠ [] → (∀ r', r <+: r' → f r' = none) → d.get (root ++ r) = none

namespace Holds

variable {d d' : Disk} {root r : Path} {f : FileMap} {bytes : Bytes} {t : Int}

theorem files (h : Holds d root f) : d.files root = f := by
  funext r
  cases hf : f r with
  | some bytes =>
    obtain ⟨t, hget⟩ := h.file r bytes hf
    exact Disk.files_eq_some.mpr ⟨t, hget⟩
  | none =>
    have hno : ∀ bytes t, d.get (root ++ r) ≠ some (.file bytes t) := by
      intro bytes t hget
      by_cases hr : r = []
      · rw [hr, List.append_nil] at hget
        rcases h.base with hb | hb <;> simp [hb] at hget
      · by_cases hbelow : ∃ r', r <+: r' ∧ f r' ≠ none
        · obtain ⟨r', hp, hf'⟩ := hbelow
          simp [h.dir r r' hr hf hf' hp] at hget
        · push Not at hbelow
          simp [h.nothing r hr hbelow] at hget
    unfold Disk.files
    split
    next bytes t hget => exact absurd hget (hno bytes t)
    · rfl

theorem clear (h : Holds d root f) (hf : f r ≠ none) : Clear f r := by
  intro r' hp hne
  by_contra hf'
  obtain ⟨bytes, hb⟩ := Option.ne_none_iff_exists'.mp hf
  obtain ⟨bytes', hb'⟩ := Option.ne_none_iff_exists'.mp hf'
  obtain ⟨t, hget⟩ := h.file r bytes hb
  obtain ⟨t', hget'⟩ := h.file r' bytes' hb'
  have hdir := Disk.dir_of_below (d := d) ((List.prefix_append_right_inj root).mpr hp)
    (by simpa using hne) (by simp [hget])
  simp [hdir] at hget'

theorem childless (h : Holds d root f) (hf : f r ≠ none) : Childless f r := by
  intro r' hp hne
  by_contra hf'
  exact hf (h.clear hf' r hp (Ne.symm hne))

theorem put (h : Holds d root f) (hr : r ≠ []) (hclear : Clear f r)
    (hget : ∀ q, d'.get q = if q = root ++ r then some (.file bytes t)
      else if q <+: root ++ r.dropLast then some .dir else d.get q) :
    Holds d' root (Function.update f r (some bytes)) := by
  have hinj : ∀ {s : Path}, root ++ s = root ++ r ↔ s = r := List.append_right_inj root
  have hpre : ∀ {s : Path}, root ++ s <+: root ++ r.dropLast ↔ s <+: r.dropLast :=
    List.prefix_append_right_inj root
  have hdrop : ∀ {s : Path}, s <+: r.dropLast → s <+: r ∧ s ≠ r := by
    intro s hs
    refine ⟨hs.trans (List.dropLast_prefix r), ?_⟩
    rintro rfl
    exact not_prefix_dropLast [] hr hs
  constructor
  · rw [hget]
    have hne : root ≠ root ++ r := fun heq => hr (by simpa using heq.symm)
    rw [if_neg hne, if_pos (List.prefix_append _ _)]
    exact Or.inr rfl
  · intro s b hs
    by_cases hsr : s = r
    · subst hsr
      rw [Function.update_self] at hs
      exact ⟨t, by rw [hget, if_pos rfl, Option.some.inj hs]⟩
    · rw [Function.update_of_ne hsr] at hs
      obtain ⟨t', hget'⟩ := h.file s b hs
      refine ⟨t', ?_⟩
      rw [hget, if_neg (hinj.not.mpr hsr), if_neg ?_, hget']
      intro hp
      exact absurd (hclear s (hdrop (hpre.mp hp)).1 (hdrop (hpre.mp hp)).2) (by simp [hs])
  · intro s s' hs hfs hfs' hp
    have hsr : s ≠ r := by
      rintro rfl
      simp at hfs
    rw [Function.update_of_ne hsr] at hfs
    rw [hget, if_neg (hinj.not.mpr hsr)]
    split
    · rfl
    next hnot =>
      by_cases hs'r : s' = r
      · subst hs'r
        exact absurd (hpre.mpr (prefix_dropLast hp hsr)) hnot
      · rw [Function.update_of_ne hs'r] at hfs'
        exact h.dir s s' hs hfs hfs' hp
  · intro s hs hnone
    have hsr : ¬ s <+: r := fun hp => absurd (hnone r hp) (by simp)
    have hne : s ≠ r := fun heq => hsr (heq ▸ List.prefix_rfl)
    rw [hget, if_neg (hinj.not.mpr hne),
      if_neg fun hp => hsr ((hpre.mp hp).trans (List.dropLast_prefix r))]
    refine h.nothing s hs fun s' hp => ?_
    have hs' := hnone s' hp
    by_cases hs'r : s' = r
    · exact absurd (hs'r ▸ hp) hsr
    · rwa [Function.update_of_ne hs'r] at hs'

theorem exists_mkdirAll (h : Holds d root f)
    (habove : ∀ q, q <+: root → d.get q = none ∨ d.get q = some .dir)
    (hlegal : (root ++ r).all isLegalName) (hclear : Clear f r) (hr : r ≠ []) :
    ∃ d', d.mkdirAll (root ++ r.dropLast) = some d' := by
  refine Disk.exists_mkdirAll (fun q hq => ?_) ?_
  · rcases List.prefix_or_prefix_of_prefix hq (List.prefix_append root r.dropLast) with hq' | hq'
    · exact habove q hq'
    obtain ⟨s, rfl⟩ := hq'
    have hs : s <+: r.dropLast := (List.prefix_append_right_inj root).mp hq
    have hsr : s ≠ r := by
      rintro rfl
      exact not_prefix_dropLast [] hr hs
    by_cases hnil : s = []
    · rw [hnil, List.append_nil]
      exact h.base
    have hfs := hclear s (hs.trans (List.dropLast_prefix r)) hsr
    by_cases hbelow : ∃ s', s <+: s' ∧ f s' ≠ none
    · obtain ⟨s', hp, hs'⟩ := hbelow
      exact Or.inr (h.dir s s' hnil hfs hs' hp)
    · push Not at hbelow
      exact Or.inl (h.nothing s hnil hbelow)
  · rw [List.all_append, Bool.and_eq_true] at hlegal ⊢
    refine ⟨hlegal.1, List.all_eq_true.mpr fun name hname => ?_⟩
    exact List.all_eq_true.mp hlegal.2 name (List.mem_of_mem_dropLast hname)

theorem clear_of_mkdirAll (h : Holds d root f) (hd : d.mkdirAll (root ++ r.dropLast) = some d') :
    Clear f r := by
  intro s hp hne
  by_contra hf
  obtain ⟨bytes, hb⟩ := Option.ne_none_iff_exists'.mp hf
  obtain ⟨t, hget⟩ := h.file s bytes hb
  have hpre := (List.prefix_append_right_inj root).mpr (prefix_dropLast hp hne)
  rcases Disk.mkdirAll_eq_some hd hpre with hno | hno <;> simp [hno] at hget

/-- Nothing is at a path exactly if no file is at it or below it. -/
theorem get_eq_none_iff (h : Holds d root f) (hr : r ≠ []) :
    d.get (root ++ r) = none ↔ f r = none ∧ Childless f r := by
  constructor
  · intro hnone
    have hall : ∀ s, r <+: s → f s = none := by
      intro s hp
      by_contra hf
      obtain ⟨bytes, hb⟩ := Option.ne_none_iff_exists'.mp hf
      obtain ⟨t, hget⟩ := h.file s bytes hb
      by_cases hrs : r = s
      · simp [hrs, hget] at hnone
      · have hdir := Disk.dir_of_below (d := d) ((List.prefix_append_right_inj root).mpr hp)
          (by simpa using hrs) (by simp [hget])
        simp [hdir] at hnone
    exact ⟨hall r List.prefix_rfl, fun s hp _ => hall s hp⟩
  · rintro ⟨hf, hchildless⟩
    refine h.nothing r hr fun s hp => ?_
    by_cases hsr : s = r
    · rw [hsr, hf]
    · exact hchildless s hp hsr

end Holds

end SharedNode.Storage
