import SharedNode.Text.Bytes

/-!
# Slash-separated paths

`filepath.Clean` and `filepath.Rel` on a Unix system, over the components of a path: what stands
between its slashes. Both are lexical, they know nothing of a file system.

* `steps`: the components that lead somewhere, without the empty ones and `.`.
* `cleanSteps`: the components of `Clean`, where `..` cancels the name before it.
-/

namespace SharedNode.Text

def slash : UInt8 := 0x2f

def dot : Bytes := lit "."

def dotdot : Bytes := lit ".."

/-- The texts between the slashes of a path. -/
def components (p : Bytes) : List Bytes := p.splitOn slash

theorem components_append_slash {dir : Bytes} (hdir : slash ∉ dir) (rest : Bytes) :
    components (dir ++ slash :: rest) = dir :: components rest :=
  List.splitOn_append_cons_self_of_not_mem hdir rest

theorem components_of_not_mem {name : Bytes} (h : slash ∉ name) : components name = [name] :=
  List.splitOn_eq_singleton h

theorem components_ne_nil (p : Bytes) : components p ≠ [] := List.splitOn_ne_nil slash p

theorem intercalate_components (p : Bytes) : [slash].intercalate (components p) = p :=
  List.intercalate_splitOn slash

theorem mem_of_mem_components {p c : Bytes} {b : UInt8} (hc : c ∈ components p) (hb : b ∈ c) :
    b ∈ p := by
  have hjoin := intercalate_components p
  obtain ⟨i, hi⟩ := List.mem_iff_getElem?.mp hc
  have hmem : c ∈ (components p).intersperse [slash] :=
    List.mem_of_getElem? (List.getElem?_intersperse_two_mul.trans hi)
  rw [← hjoin]
  exact List.mem_flatten.mpr ⟨c, hmem, hb⟩

theorem components_injective {p q : Bytes} (h : components p = components q) : p = q := by
  rw [← intercalate_components p, h, intercalate_components]

/-- **Induction over the components of a path.** -/
theorem componentInduction {P : Bytes → Prop} (last : ∀ name, slash ∉ name → P name)
    (cons : ∀ dir rest, slash ∉ dir → P rest → P (dir ++ slash :: rest)) (p : Bytes) : P p := by
  induction hn : p.length using Nat.strongRecOn generalizing p with
  | ind n ih =>
    by_cases hs : slash ∈ p
    · obtain ⟨dir, rest, rfl, hdir⟩ := List.eq_append_cons_of_mem hs
      refine cons dir rest hdir (ih rest.length ?_ rest rfl)
      rw [← hn, List.length_append, List.length_cons]
      omega
    · exact last p hs

theorem exists_mem_components {p : Bytes} {b : UInt8} (hb : b ∈ p) (hne : b ≠ slash) :
    ∃ c ∈ components p, b ∈ c := by
  induction p using componentInduction with
  | last name hname =>
    rw [components_of_not_mem hname]
    exact ⟨name, List.mem_cons_self, hb⟩
  | cons dir rest hdir ih =>
    rw [components_append_slash hdir]
    simp only [List.mem_append, List.mem_cons, hne, false_or] at hb
    rcases hb with hb | hb
    · exact ⟨dir, List.mem_cons_self, hb⟩
    · obtain ⟨c, hc, hbc⟩ := ih hb
      exact ⟨c, List.mem_cons_of_mem _ hc, hbc⟩

theorem slash_not_mem_of_mem_components {p c : Bytes} (hc : c ∈ components p) : slash ∉ c := by
  induction p using componentInduction with
  | last name hname =>
    rw [components_of_not_mem hname] at hc
    rwa [List.mem_singleton.mp hc]
  | cons dir rest hdir ih =>
    rw [components_append_slash hdir] at hc
    rcases List.mem_cons.mp hc with rfl | hc
    · exact hdir
    · exact ih hc

theorem components_append (p q : Bytes) :
    components (p ++ slash :: q) = components p ++ components q := by
  induction p using componentInduction with
  | last name hname => rw [components_append_slash hname, components_of_not_mem hname]; rfl
  | cons dir rest hdir ih =>
    rw [List.append_assoc, List.cons_append, components_append_slash hdir, ih,
      components_append_slash hdir]
    rfl

/-- The components of a path start with those of another one exactly if it is that path, or lies
below it. -/
theorem components_isPrefix {p q : Bytes} :
    components p <+: components q ↔ q = p ∨ p ++ [slash] <+: q := by
  constructor
  · rintro ⟨rest, hrest⟩
    by_cases hnil : rest = []
    · rw [hnil, List.append_nil] at hrest
      exact Or.inl (components_injective hrest).symm
    · -- What is left of the components is a path of its own.
      have hsplit : components ([slash].intercalate rest) = rest :=
        List.splitOn_intercalate slash
          (fun c hc => slash_not_mem_of_mem_components (p := q)
            (hrest ▸ List.mem_append_right _ hc))
          hnil
      have heq : p ++ slash :: [slash].intercalate rest = q :=
        components_injective (by rw [components_append, hsplit, hrest])
      exact Or.inr ⟨[slash].intercalate rest, by rw [← heq, List.append_assoc]; rfl⟩
  · rintro (rfl | ⟨t, rfl⟩)
    · exact List.prefix_rfl
    · rw [List.append_assoc, List.singleton_append, components_append]
      exact List.prefix_append _ _

/-- `filepath.IsAbs`. -/
def isAbs (p : Bytes) : Bool := p.head? = some slash

def stays (c : Bytes) : Bool := c = [] || c = dot

/-- The components that lead somewhere. -/
def steps (p : Bytes) : List Bytes := (components p).filter fun c => !stays c

/-- One more step of a cleaned path, whose last step comes first in `stack`. -/
def push (rooted : Bool) (stack : List Bytes) (c : Bytes) : List Bytes :=
  if c = dotdot then
    match stack with
    | top :: rest => if top = dotdot then dotdot :: stack else rest
    | [] => if rooted then [] else [dotdot]
  else c :: stack

def cleanSteps (p : Bytes) : List Bytes := ((steps p).foldl (push (isAbs p)) []).reverse

/-- `filepath.Clean`. -/
def Clean (p : Bytes) : Bytes :=
  if isAbs p then slash :: [slash].intercalate (cleanSteps p)
  else if cleanSteps p = [] then dot
  else [slash].intercalate (cleanSteps p)

/-- Two lists without their longest common beginning. -/
def stripCommon : List Bytes → List Bytes → List Bytes × List Bytes
  | b :: bs, t :: ts => if b = t then stripCommon bs ts else (b :: bs, t :: ts)
  | bs, ts => (bs, ts)

/-- `filepath.Rel` for an absolute base, `none` for its error. -/
def Rel (base target : Bytes) : Option Bytes :=
  if Clean target = Clean base then some dot
  else if isAbs target ≠ isAbs base then none
  else
    let (up, down) := stripCommon (cleanSteps base) (cleanSteps target)
    if up.head? = some dotdot then none
    else some ([slash].intercalate (List.replicate up.length dotdot ++ down))

theorem isAbs_of_rel {base target r : Bytes} (hrel : Rel base target = some r) (hdot : r ≠ dot) :
    isAbs target = isAbs base := by
  unfold Rel at hrel
  split at hrel
  · exact absurd (Option.some.inj hrel).symm hdot
  split at hrel
  · cases hrel
  next habs => exact not_not.mp habs

end SharedNode.Text
