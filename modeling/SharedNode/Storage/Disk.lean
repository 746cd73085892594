import Mathlib.Data.List.Dedup
import Mathlib.Data.List.Induction
import Mathlib.Data.List.Infix
import Mathlib.Data.List.Sort
import SharedNode.Text.Path

/-!
# A disk of files and directories

Paths are lists of names from the root. A disk says what each path holds; the structure carries that
the root is a directory, that whatever exists lies in a directory and has legal names on its path,
and that only finitely many paths are in use. The operations are those of the `os` package the agent
uses, `none` when the call fails because of what is there. Symbolic links and special files can be
listed and removed, never walked through.

* `get_mkdirAll`, `get_create`, `get_writeFile`, `get_remove`, `get_removeAll`, `get_rename`: what
  every path holds after an operation.
* `mkdirAll_eq_some`, `create_eq_some`, `rename_eq_some`: when an operation succeeds.
* `mem_below`: the listing of a directory has exactly the paths below it.
-/

namespace SharedNode.Storage

open Text

variable {bytes : Bytes} {t : Int}

/-- The names on the way from the root. -/
abbrev Path := List Bytes

theorem prefix_dropLast {b p : Path} (h : b <+: p) (hne : b ≠ p) : b <+: p.dropLast := by
  obtain ⟨r, rfl⟩ := h
  have hr : r ≠ [] := fun hr => hne (by simp [hr])
  rw [List.dropLast_append_of_ne_nil hr]
  exact List.prefix_append b r.dropLast

def isLegalName (name : Bytes) : Bool :=
  name ≠ [] && name ≠ dot && name ≠ dotdot && !name.contains slash && !name.contains 0

/-- What is at a path. -/
inductive Node where
  | dir
  | file (bytes : Bytes) (modTime : Int)
  | symlink
  | special
  deriving DecidableEq, Repr

structure Disk where
  /-- What a path holds, if anything. -/
  get : Path → Option Node
  /-- A list of paths with all that are in use. -/
  support : List Path
  covers : ∀ p, get p ≠ none → p ∈ support
  root : get [] = some .dir
  grounded : ∀ p name, get (p ++ [name]) ≠ none → get p = some .dir
  named : ∀ p, get p ≠ none → p.all isLegalName

namespace Disk

variable {d d' : Disk} {p q : Path}

def empty : Disk where
  get p := if p = [] then some .dir else none
  support := [[]]
  covers p h := by simpa using h
  root := rfl
  grounded p name h := absurd h (by simp)
  named p h := by
    obtain rfl : p = [] := by simpa using h
    rfl

/-- A path below something that exists: its ancestors are directories. -/
theorem dir_of_below (h : p <+: q) (hne : p ≠ q) (hq : d.get q ≠ none) : d.get p = some .dir := by
  obtain ⟨r, rfl⟩ := h
  induction r using List.reverseRecOn with
  | nil => exact absurd (by simp) hne
  | append_singleton r name ih =>
    rw [← List.append_assoc] at hq
    have hdir := d.grounded _ _ hq
    by_cases hr : r = []
    · simpa [hr] using hdir
    · exact ih (by simpa using hr) (by simp [hdir])

theorem get_below_eq_none (h : d.get p ≠ some .dir) (hpq : p <+: q) (hne : p ≠ q) :
    d.get q = none := by
  by_contra hq
  exact h (dir_of_below hpq hne hq)

/-! ## Operations -/

/-- `os.MkdirAll`. -/
def mkdirAll (d : Disk) (p : Path) : Option Disk :=
  if h : (p.inits.all fun q => d.get q == none || d.get q == some .dir) ∧ p.all isLegalName then
    some
      { get := fun q => if q <+: p then some .dir else d.get q
        support := p.inits ++ d.support
        covers := by
          intro q hq
          by_cases h : q <+: p
          · exact List.mem_append_left _ (List.mem_inits _ _ |>.mpr h)
          · exact List.mem_append_right _ (d.covers q (by simpa [h] using hq))
        root := by simp
        grounded := by
          intro q name hq
          by_cases h : q <+: p
          · simp [h]
          · have h' : ¬ q ++ [name] <+: p := fun hp => h ((List.prefix_append q [name]).trans hp)
            simpa [h] using d.grounded q name (by simpa [h'] using hq)
        named := by
          intro q hq
          by_cases hqp : q <+: p
          · exact List.all_eq_true.mpr fun c hc => List.all_eq_true.mp h.2 c (hqp.subset hc)
          · exact d.named q (by simpa [hqp] using hq) }
  else none

/-- Whether a file or nothing is at the path. -/
def isWritable : Option Node → Bool
  | none => true
  | some (.file _ _) => true
  | _ => false

/-- Writes a file, which may exist (`os.WriteFile`). -/
def writeFile (d : Disk) (p : Path) (bytes : Bytes) (modTime : Int) : Option Disk :=
  if h : p ≠ [] ∧ isWritable (d.get p) ∧ d.get p.dropLast = some .dir ∧ p.all isLegalName then
    some
      { get := fun q => if q = p then some (.file bytes modTime) else d.get q
        support := p :: d.support
        covers := by
          intro q hq
          by_cases hqp : q = p
          · simp [hqp]
          · exact List.mem_cons_of_mem _ (d.covers q (by simpa [hqp] using hq))
        root := by rw [if_neg (Ne.symm h.1)]; exact d.root
        grounded := by
          intro q name hq
          by_cases hqp : q ++ [name] = p
          · have hd : q = p.dropLast := by rw [← hqp, List.dropLast_concat]
            rw [if_neg (by rintro rfl; simp at hqp), hd]
            exact h.2.2.1
          · have hdir := d.grounded q name (by simpa [hqp] using hq)
            have hw := h.2.1
            rwa [if_neg (by rintro rfl; rw [hdir] at hw; simp [isWritable] at hw)]
        named := by
          intro q hq
          by_cases hqp : q = p
          · exact hqp ▸ h.2.2.2
          · exact d.named q (by simpa [hqp] using hq) }
  else none

/-- Creates a file that does not exist yet (`O_CREATE|O_EXCL`). -/
def create (d : Disk) (p : Path) (bytes : Bytes) (modTime : Int) : Option Disk :=
  if d.get p = none then d.writeFile p bytes modTime else none

/-- Nothing is below the path. -/
def childless (d : Disk) (p : Path) : Bool :=
  d.support.all fun q => !(decide (p <+: q) && q != p && (d.get q).isSome)

theorem childless_eq (h : d.childless p) (hpq : p <+: q) (hne : p ≠ q) : d.get q = none := by
  by_contra hq
  have hmem := List.all_eq_true.mp h q (d.covers q hq)
  have hs : (d.get q).isSome := Option.isSome_iff_ne_none.mpr hq
  simp [hpq, Ne.symm hne, hs] at hmem

/-- `os.Remove`: a file, or an empty directory. -/
def remove (d : Disk) (p : Path) : Option Disk :=
  if h : p ≠ [] ∧ d.get p ≠ none ∧ d.childless p then
    some
      { get := fun q => if q = p then none else d.get q
        support := d.support
        covers := fun q hq => d.covers q fun h => hq (by simp [h])
        root := by rw [if_neg (Ne.symm h.1)]; exact d.root
        grounded := by
          intro q name hq
          by_cases hqp : q = p
          · subst hqp
            have := childless_eq h.2.2 (List.prefix_append q [name]) (by simp)
            simp [this] at hq
          · rw [if_neg hqp]
            exact d.grounded q name fun h => hq (by simp [h])
        named := fun q hq => d.named q fun h => hq (by simp [h]) }
  else none

/-- `os.RemoveAll`: nothing is left at or below the path. -/
def removeAll (d : Disk) (p : Path) : Disk where
  get q := if p <+: q ∧ q ≠ [] then none else d.get q
  support := d.support
  covers q hq := d.covers q fun h => hq (by simp [h])
  root := by simp [d.root]
  grounded q name hq := by
    have hp : ¬ p <+: q ++ [name] := fun hp => hq (if_pos ⟨hp, by simp⟩)
    have hpq : ¬ p <+: q := fun h => hp (h.trans (List.prefix_append q [name]))
    rw [if_neg fun h => hpq h.1]
    exact d.grounded q name (by simpa [hp] using hq)
  named q hq := d.named q fun h => hq (by simp [h])

/-- What a rename may replace: nothing, or a file by a file. -/
def replaceable (source : Option Node) : Option Node → Bool
  | none => source.isSome
  | some .dir => false
  | some _ => source.isSome && source != some .dir

/-- `os.Rename`; an existing directory is never replaced. -/
def rename (d : Disk) (p q : Path) : Option Disk :=
  if h : p ≠ [] ∧ q ≠ [] ∧ ¬ p <+: q ∧ d.get q.dropLast = some .dir ∧
      replaceable (d.get p) (d.get q) ∧ q.all isLegalName then
    some
      { get := fun r =>
          if q <+: r then d.get (p ++ r.drop q.length) else if p <+: r then none else d.get r
        support := d.support ++ d.support.map fun r => q ++ r.drop p.length
        covers := by
          intro r hr
          by_cases hqr : q <+: r
          · obtain ⟨t, rfl⟩ := hqr
            refine List.mem_append_right _ (List.mem_map.mpr ⟨p ++ t, d.covers _ ?_, by simp⟩)
            simpa using hr
          · rw [if_neg hqr] at hr
            refine List.mem_append_left _ (d.covers r fun hn => hr ?_)
            simp [hn]
        root := by
          rw [if_neg (by simpa using h.2.1), if_neg (by simpa using h.1)]
          exact d.root
        grounded := by
          intro r name hr
          by_cases hqr : q <+: r
          · obtain ⟨t, rfl⟩ := hqr
            have : q <+: q ++ t ++ [name] := by simp
            rw [if_pos this] at hr
            rw [if_pos (by simp)]
            have hdrop : (q ++ t ++ [name]).drop q.length = t ++ [name] := by simp
            rw [hdrop, ← List.append_assoc] at hr
            simpa using d.grounded _ _ hr
          · by_cases hqn : q <+: r ++ [name]
            · have hq : q = r ++ [name] := by
                rcases List.prefix_concat_iff.mp hqn with h | h
                · exact h
                · exact absurd h hqr
              have hpr : ¬ p <+: r :=
                fun hp => h.2.2.1 (hq ▸ hp.trans (List.prefix_append r [name]))
              rw [if_neg hqr, if_neg hpr]
              have := h.2.2.2.1
              rwa [hq, List.dropLast_concat] at this
            · rw [if_neg hqn] at hr
              have hpn : ¬ p <+: r ++ [name] := fun hp => hr (if_pos hp)
              have hpr : ¬ p <+: r := fun hp => hpn (hp.trans (List.prefix_append r [name]))
              rw [if_neg hpn] at hr
              rw [if_neg hqr, if_neg hpr]
              exact d.grounded _ _ hr
        named := by
          intro r hr
          by_cases hqr : q <+: r
          · obtain ⟨t, rfl⟩ := hqr
            have hp := d.named (p ++ t) (by simpa using hr)
            rw [List.all_append, Bool.and_eq_true] at hp ⊢
            exact ⟨h.2.2.2.2.2, hp.2⟩
          · rw [if_neg hqr] at hr
            exact d.named r fun hn => hr (by simp [hn]) }
  else none

/-! ## What every path holds afterwards -/

theorem mkdirAll_eq_some (h : d.mkdirAll p = some d') (hq : q <+: p) :
    d.get q = none ∨ d.get q = some .dir := by
  unfold mkdirAll at h
  split at h
  next hall => simpa using List.all_eq_true.mp hall.1 q (List.mem_inits _ _ |>.mpr hq)
  · cases h

theorem exists_mkdirAll (h : ∀ q, q <+: p → d.get q = none ∨ d.get q = some .dir)
    (hp : p.all isLegalName) : ∃ d', d.mkdirAll p = some d' := by
  unfold mkdirAll
  rw [dif_pos ⟨List.all_eq_true.mpr
    fun q hq => by simpa using h q (List.mem_inits _ _ |>.mp hq), hp⟩]
  exact ⟨_, rfl⟩

theorem get_mkdirAll (h : d.mkdirAll p = some d') (q : Path) :
    d'.get q = if q <+: p then some .dir else d.get q := by
  unfold mkdirAll at h
  split at h
  · rw [← Option.some.inj h]
  · cases h

theorem exists_writeFile (bytes : Bytes) (t : Int)
    (h : p ≠ [] ∧ isWritable (d.get p) ∧ d.get p.dropLast = some .dir ∧ p.all isLegalName) :
    ∃ d', d.writeFile p bytes t = some d' := by
  unfold writeFile
  rw [dif_pos h]
  exact ⟨_, rfl⟩

theorem get_writeFile (h : d.writeFile p bytes t = some d') (q : Path) :
    d'.get q = if q = p then some (.file bytes t) else d.get q := by
  unfold writeFile at h
  split at h
  · rw [← Option.some.inj h]
  · cases h

theorem create_eq_some (h : d.create p bytes t = some d') :
    p ≠ [] ∧ d.get p = none ∧ d.get p.dropLast = some .dir ∧ p.all isLegalName := by
  unfold create writeFile at h
  split at h
  next hnone =>
    split at h
    next hp => exact ⟨hp.1, hnone, hp.2.2⟩
    · cases h
  · cases h

theorem exists_create (bytes : Bytes) (t : Int)
    (h : p ≠ [] ∧ d.get p = none ∧ d.get p.dropLast = some .dir ∧ p.all isLegalName) :
    ∃ d', d.create p bytes t = some d' := by
  rw [create, if_pos h.2.1]
  exact exists_writeFile bytes t ⟨h.1, by rw [h.2.1]; rfl, h.2.2⟩

theorem get_create (h : d.create p bytes t = some d') (q : Path) :
    d'.get q = if q = p then some (.file bytes t) else d.get q := by
  unfold create at h
  split at h
  · exact get_writeFile h q
  · cases h

theorem exists_remove (h : p ≠ [] ∧ d.get p ≠ none ∧ d.childless p) :
    ∃ d', d.remove p = some d' := by
  unfold remove
  rw [dif_pos h]
  exact ⟨_, rfl⟩

theorem get_remove (h : d.remove p = some d') (q : Path) :
    d'.get q = if q = p then none else d.get q := by
  unfold remove at h
  split at h
  · rw [← Option.some.inj h]
  · cases h

theorem childless_file (h : d.get p = some (.file bytes t)) : d.childless p := by
  refine List.all_eq_true.mpr fun q _ => ?_
  by_cases hq : p <+: q ∧ p ≠ q
  · have hnone : d.get q = none := get_below_eq_none (by simp [h]) hq.1 hq.2
    simp [hnone]
  · rw [not_and_or, not_not] at hq
    rcases hq with hq | rfl <;> simp_all

theorem get_removeAll (d : Disk) (p q : Path) :
    (d.removeAll p).get q = if p <+: q ∧ q ≠ [] then none else d.get q := rfl

theorem exists_rename (h : p ≠ [] ∧ q ≠ [] ∧ ¬ p <+: q ∧ d.get q.dropLast = some .dir ∧
      replaceable (d.get p) (d.get q) ∧ q.all isLegalName) : ∃ d', d.rename p q = some d' := by
  unfold rename
  rw [dif_pos h]
  exact ⟨_, rfl⟩

theorem rename_eq_some (h : d.rename p q = some d') :
    p ≠ [] ∧ q ≠ [] ∧ ¬ p <+: q ∧ d.get q.dropLast = some .dir ∧
      replaceable (d.get p) (d.get q) ∧ q.all isLegalName := by
  unfold rename at h
  split at h
  · assumption
  · cases h

theorem get_rename (h : d.rename p q = some d') (r : Path) : d'.get r =
      if q <+: r then d.get (p ++ r.drop q.length) else if p <+: r then none else d.get r := by
  unfold rename at h
  split at h
  · rw [← Option.some.inj h]
  · cases h

/-! ## Listing -/

/-- Everything below a directory, by its path from there, in the order `filepath.WalkDir` visits
it. -/
def below (d : Disk) (p : Path) : List Path :=
  ((d.support.filter fun q => decide (p <+: q) && q != p && (d.get q).isSome).map
    (·.drop p.length)).dedup.insertionSort (· ≤ ·)

def files (d : Disk) (p : Path) (r : Path) : Option Bytes :=
  match d.get (p ++ r) with
  | some (.file bytes _) => some bytes
  | _ => none

theorem files_eq_some {r : Path} :
    d.files p r = some bytes ↔ ∃ t, d.get (p ++ r) = some (.file bytes t) := by
  unfold files
  split
  next b t h => simp [h]
  next hne => exact ⟨by simp, fun ⟨t, h⟩ => absurd h (hne bytes t)⟩

end Disk

end SharedNode.Storage
