import SharedNode.Storage.Tree
import SharedNode.Workspace.Calls
import SharedNode.Workspace.Restore

/-!
# Extracting archives

What `extractArchive` (`internal/workspace/workspace.go`) does to the directory it extracts to,
exactly: a member of an archive is written if and only if it is `Admissible`, and then the directory
holds one more file (`yields_extractMember`); an archive is extracted if and only if it is
`Unpackable`, and then the directory holds its files (`yields_extractArchive`).
-/

namespace SharedNode.Workspace

open Text ControlPlane Storage Effect

variable {overlay : Bool} {bytes name : Bytes} {f : FileMap} {limit t : Int}
  {files : List (Bytes × Bytes)} {expected : List Bytes} {header : Member} {r root : Path}

/-- A directory that holds files, with nothing in the way above it. -/
structure Tree (root : Path) (f : FileMap) (d : Disk) : Prop where
  holds : Holds d root f
  above : ∀ q, q <+: root → d.get q = none ∨ d.get q = some .dir
  legal : root.all isLegalName

/-- Nothing has changed but at, above and below the directory. -/
def Grown (root : Path) (d d' : Disk) : Prop := ∀ q, ¬ root <+: q → ¬ q <+: root →
    d'.get q = d.get q

def Mirrors (seen : List Bytes) (f : FileMap) : Prop :=
  ∀ name, name ∈ seen ↔ f (components name) ≠ none

def Member.put (f : FileMap) (header : Member) : FileMap :=
  Function.update f (components header.name) (some header.body)

/-- The variables of `extractArchive` after a member. -/
def Extraction.next (x : Extraction) (header : Member) : Extraction :=
  { seen := x.seen.insert header.name, expected := x.expected.erase header.name,
    total := int64 (x.total + header.body.length), entries := x.entries + 1 }

/-- The member is within the limits and named by the descriptor, its path is new or may be replaced,
and no other file is in its way. -/
structure Admissible (limit : Int) (overlay : Bool) (expected : List Bytes) (total : Int)
    (entries : Nat) (f : FileMap) (header : Member) : Prop where
  count : entries + 1 ≤ maxArchiveEntries
  regular : header.regular
  valid : validWorkspacePath header.name
  size : 0 ≤ header.size
  small : header.size ≤ limit
  fits : int64 (total + header.size) ≤ limit
  listed : header.name ∈ expected
  fresh : f (components header.name) ≠ none → overlay ∧ isConfigPath header.name
  legal : 0 ∉ header.name
  clear : Clear f (components header.name)
  childless : Childless f (components header.name)
  complete : (header.body.length : Int) = header.size

theorem Mirrors.next {seen : List Bytes} (h : Mirrors seen f) (header : Member) :
    Mirrors (seen.insert header.name) (header.put f) := by
  intro name
  rw [List.mem_insert_iff, Member.put]
  by_cases hname : name = header.name
  · simp [hname]
  · have hne : components name ≠ components header.name :=
      fun heq => hname (components_injective heq)
    rw [Function.update_of_ne hne, ← h name]
    simp [hname]

theorem validWorkspacePath_components (h : validWorkspacePath name) :
    ∀ c ∈ components name, c ≠ [] ∧ c ≠ dot ∧ c ≠ dotdot := by
  simp only [validWorkspacePath, Bool.and_eq_true] at h
  intro c hc
  simpa [and_assoc] using List.all_eq_true.mp h.2 c hc

/-- The components of a valid path without a zero byte are legal names. -/
theorem legal_components (h : validWorkspacePath name) (h0 : 0 ∉ name) :
    (components name).all isLegalName := by
  refine List.all_eq_true.mpr fun c hc => ?_
  obtain ⟨h1, h2, h3⟩ := validWorkspacePath_components h c hc
  have hslash := slash_not_mem_of_mem_components hc
  have hzero : 0 ∉ c := fun hmem => h0 (mem_of_mem_components hc hmem)
  simp [isLegalName, h1, h2, h3, hslash, hzero]

theorem zero_not_mem_of_legal (h : (components name).all isLegalName) : 0 ∉ name := by
  intro hmem
  obtain ⟨c, hc, h0⟩ := exists_mem_components hmem (by decide)
  have hlegal := List.all_eq_true.mp h c hc
  simp [isLegalName, h0] at hlegal

theorem safeChild_of_valid (h : validWorkspacePath name) :
    safeChild root name = .ok (root ++ components name) := by
  simp [safeChild, h]

theorem Tree.place {d d₁ d' : Disk} (ht : Tree root f d) (hr : r ≠ [])
    (h₁ : d.mkdirAll (root ++ r.dropLast) = some d₁)
    (hget : ∀ q, d'.get q = if q = root ++ r then some (.file bytes t) else d₁.get q) :
    Tree root (Function.update f r (some bytes)) d' ∧ Grown root d d' := by
  have hget' : ∀ q, d'.get q = if q = root ++ r then some (.file bytes t)
      else if q <+: root ++ r.dropLast then some .dir else d.get q := by
    intro q
    rw [hget, Disk.get_mkdirAll h₁]
  refine ⟨⟨ht.holds.put hr (ht.holds.clear_of_mkdirAll h₁) hget', fun q hq => ?_, ht.legal⟩,
    fun q hbelow habove => ?_⟩
  · have hne : q ≠ root ++ r := by
      rintro rfl
      have hlen := hq.length_le
      rw [List.length_append] at hlen
      have := List.length_pos_iff.mpr hr
      omega
    rw [hget', if_neg hne, if_pos (hq.trans (List.prefix_append _ _))]
    exact Or.inr rfl
  · have hne : q ≠ root ++ r := by
      rintro rfl
      exact hbelow (List.prefix_append _ _)
    rw [hget', if_neg hne, if_neg fun hp => ?_]
    rcases List.prefix_or_prefix_of_prefix hp (List.prefix_append root r.dropLast) with h | h
    · exact habove h
    · exact hbelow h

section Member

variable {may : Op → Bool} {E : Env → Prop} {F : World → Prop} {w : World}

theorem yields_writeNew (hcalm : Calm may F) {target : Path} {complete : Bool}
    {text : String} {Q : Unit → World → Prop}
    (hopen : ∀ now, w.disk.create target [] now = none → F w)
    (hcomplete : complete = false → w.disk.get target = none → ∀ w, F w)
    (hQ : ∀ d t, complete = true → w.disk.get target = none → target.all isLegalName →
      (∀ q, d.get q = if q = target then some (.file bytes t) else w.disk.get q) →
        Q () { w with disk := d }) :
    Yields (handleSettled may) E F (writeNew target bytes complete text) Q w := by
  refine yields_bind (yields_openExclusive hcalm (fun now d₁ h₁ => ?_) hopen)
  obtain ⟨hne, hnone, hparent, hlegal⟩ := Disk.create_eq_some h₁
  refine yields_bind (yields_attempt (yields_write
    (hcalm.imp_right fun hF w err => yields_giveUp hF) (fun now' d₂ h₂ => ?_) fun now' h₂ => ?_))
  · dsimp only
    split
    next hc => exact yields_giveUp (hcomplete (by simpa using hc) hnone)
    next hc =>
      refine yields_pure (hQ d₂ now' (by simpa using hc) hnone hlegal fun q => ?_)
      rw [Disk.get_writeFile h₂]
      split
      · rfl
      next hq => rw [Disk.get_create h₁, if_neg hq]
  · -- the file that was just created can be written
    have hdir : target.dropLast ≠ target :=
      fun heq => not_prefix_dropLast [] hne (by rw [heq])
    obtain ⟨d', hd'⟩ := Disk.exists_writeFile (d := d₁) (p := target) bytes now'
      ⟨hne, by rw [Disk.get_create h₁, if_pos rfl]; rfl,
        by rw [Disk.get_create h₁, if_neg hdir]; exact hparent, hlegal⟩
    simp [hd'] at h₂

/-- The write of a file below the root, once its directory is there: it succeeds if nothing is at
its path, and the directory then holds one more file. -/
theorem yields_place (hcalm : Calm may F) {d₁ d₂ : Disk} {complete : Bool} {text : String}
    {Q : Unit → World → Prop} (ht : Tree root f w.disk) (hr : r ≠ [])
    (h₁ : w.disk.mkdirAll (root ++ r.dropLast) = some d₁)
    (h₂ : ∀ q, q ≠ root ++ r → d₂.get q = d₁.get q)
    (hopen : ¬ ((root ++ r).all isLegalName ∧ d₂.get (root ++ r) = none) → ∀ w, F w)
    (hcomplete : complete = false → ∀ w, F w)
    (hQ : ∀ d, complete = true → d₂.get (root ++ r) = none → (root ++ r).all isLegalName →
      Tree root (Function.update f r (some bytes)) d → Grown root w.disk d →
        Q () { w with disk := d }) :
    Yields (handleSettled may) E F (writeNew (root ++ r) bytes complete text) Q
      { w with disk := d₂ } := by
  refine yields_writeNew hcalm (fun now h => hopen (fun hfree => ?_) _) (fun hc _ => hcomplete hc)
    fun d₃ t hc hnone hlegal hget => ?_
  · have hparent : root ++ r.dropLast ≠ root ++ r :=
      fun heq => not_prefix_dropLast root hr (by rw [heq])
    obtain ⟨d', hd'⟩ := Disk.exists_create (d := d₂) (p := root ++ r) [] now
      ⟨by simp [hr], hfree.2, by rw [List.dropLast_append_of_ne_nil hr, h₂ _ hparent,
        Disk.get_mkdirAll h₁, if_pos List.prefix_rfl], hfree.1⟩
    simp [hd'] at h
  · have hplaced : ∀ q, d₃.get q = if q = root ++ r then some (.file bytes t) else d₁.get q := by
      intro q
      rw [hget]
      split
      · rfl
      next hq => exact h₂ q hq
    obtain ⟨htree, hgrown⟩ := ht.place hr h₁ hplaced
    exact hQ d₃ hc hnone hlegal htree hgrown

/-- **One member**: it is written exactly if it is admissible. -/
theorem yields_extractMember (hcalm : Calm may F) {x : Extraction} {Q : Extraction → World → Prop}
    (ht : Tree root f w.disk) (hseen : Mirrors x.seen f)
    (hF : ¬ Admissible limit overlay x.expected x.total x.entries f header → ∀ w, F w)
    (hQ : ∀ d, Admissible limit overlay x.expected x.total x.entries f header →
      Tree root (header.put f) d →
      Grown root w.disk d → Q (x.next header) { w with disk := d }) :
    Yields (handleSettled may) E F (extractMember root limit overlay x header) Q w := by
  unfold extractMember
  refine yields_guard (fun hc => hF (fun ha => ?_) w) fun hlimits => ?_
  · have := ha.count
    have := ha.size
    have := ha.small
    have := ha.fits
    simp [ha.regular, ha.valid] at hc
    omega
  refine yields_guard (fun hc => hF (fun ha => ?_) w) fun hexpected => ?_
  · simp [ha.listed] at hc
  refine yields_guard (fun hc => hF (fun ha => ?_) w) fun hfresh => ?_
  · simp only [Bool.and_eq_true, Bool.not_eq_true', List.contains_iff_mem,
      Bool.and_eq_false_iff] at hc
    obtain ⟨hold, hno⟩ := hc
    obtain ⟨ho, hconfig⟩ := ha.fresh ((hseen _).mp hold)
    simp [hold, ho, hconfig] at hno
  simp only [Bool.or_eq_true, decide_eq_true_eq, Bool.not_eq_true', not_or, not_lt] at hlimits
  obtain ⟨⟨⟨⟨⟨hentries, hregular⟩, hvalid⟩, hsize⟩, hsmall⟩, hfits⟩ := hlimits
  rw [Bool.not_eq_false] at hregular hvalid
  rw [safeChild_of_valid hvalid]
  refine yields_bind (yields_check (fun target htarget => ?_) (by simp))
  cases htarget
  have hr := components_ne_nil header.name
  rw [List.dropLast_append_of_ne_nil hr]
  have hlegalPath : Admissible limit overlay x.expected x.total x.entries f header →
      (root ++ components header.name).all isLegalName := by
    intro ha
    rw [List.all_append, Bool.and_eq_true]
    exact ⟨ht.legal, legal_components ha.valid ha.legal⟩
  refine yields_bind (yields_mkdirAll hcalm (fun d₁ h₁ => ?_) fun h₁ => hF (fun ha => ?_) w)
  on_goal 2 =>
    obtain ⟨d', hd'⟩ := ht.holds.exists_mkdirAll ht.above (hlegalPath ha) ha.clear hr
    simp [hd'] at h₁
  have hclear := ht.holds.clear_of_mkdirAll h₁
  -- what is left to do, once nothing is at the path
  have hwrite : ∀ d₂ : Disk,
      (∀ q, q ≠ root ++ components header.name → d₂.get q = d₁.get q) →
      (Admissible limit overlay x.expected x.total x.entries f header →
        d₂.get (root ++ components header.name) = none) →
      (d₂.get (root ++ components header.name) = none → Childless f (components header.name)) →
      Yields (handleSettled may) E F (do
        writeNew (root ++ components header.name) header.body (header.body.length = header.size)
          "workspace archive member has invalid size"
        return x.next header) Q { w with disk := d₂ } := by
    intro d₂ h₂ hfree hchild
    refine yields_bind (yields_place hcalm ht hr h₁ h₂
      (fun hno => hF fun ha => hno ⟨hlegalPath ha, hfree ha⟩) (fun hc => hF fun ha => ?_)
      fun d₃ hc hnone hlegal htree hgrown => ?_)
    · simp [ha.complete] at hc
    · rw [List.all_append, Bool.and_eq_true] at hlegal
      exact yields_pure (hQ d₃ ⟨by omega, hregular, hvalid, hsize, hsmall, hfits,
        by simpa using hexpected, fun hold => by simpa [(hseen _).mpr hold] using hfresh,
        zero_not_mem_of_legal hlegal.2, hclear, hchild hnone, by simpa using hc⟩ htree hgrown)
  have hget : d₁.get (root ++ components header.name) =
      w.disk.get (root ++ components header.name) := by
    rw [Disk.get_mkdirAll h₁, if_neg (not_prefix_dropLast root hr)]
  split
  next hoverlay =>
    simp only [Bool.and_eq_true, List.contains_iff_mem] at hoverlay
    have hfile : f (components header.name) ≠ none := (hseen _).mp hoverlay.1.1
    refine yields_bind (yields_remove hcalm (fun d₂ h₂ => ?_) fun h₂ => ?_)
    · refine hwrite d₂ (fun q hq => ?_) (fun _ => ?_) fun _ => ht.holds.childless hfile
      · rw [Disk.get_remove h₂, if_neg hq]
      · rw [Disk.get_remove h₂, if_pos rfl]
    · obtain ⟨bytes, hbytes⟩ := Option.ne_none_iff_exists'.mp hfile
      obtain ⟨t, hold⟩ := ht.holds.file _ bytes hbytes
      rw [← hget] at hold
      obtain ⟨d', hd'⟩ := Disk.exists_remove (d := d₁) (p := root ++ components header.name)
        ⟨by simp [hr], by simp [hold], Disk.childless_file hold⟩
      simp [hd'] at h₂
  next hoverlay =>
    refine hwrite d₁ (fun _ _ => rfl) (fun ha => ?_) fun hnone => ?_
    · rw [hget, ht.holds.get_eq_none_iff hr]
      refine ⟨not_not.mp fun hold => ?_, ha.childless⟩
      obtain ⟨ho, hconfig⟩ := ha.fresh hold
      simp [(hseen _).mpr hold, ho, hconfig] at hoverlay
    · rw [hget, ht.holds.get_eq_none_iff hr] at hnone
      exact hnone.2

/-! ## All members -/

def Admits (limit : Int) (overlay : Bool) : List Member → List Bytes → Int → Nat → FileMap → Prop
  | [], _, _, _, _ => True
  | header :: rest, expected, total, entries, f =>
    Admissible limit overlay expected total entries f header ∧
      Admits limit overlay rest (expected.erase header.name)
        (int64 (total + header.body.length)) (entries + 1) (header.put f)

def putAll (members : List Member) (f : FileMap) : FileMap := members.foldl Member.put f

def remaining (members : List Member) (expected : List Bytes) : List Bytes :=
  members.foldl (fun expected header => expected.erase header.name) expected

def bodySize (members : List Member) : Int :=
  (members.map fun header => (header.body.length : Int)).sum

theorem yields_extractMembers (hcalm : Calm may F)
    {members : List Member} {x : Extraction} {Q : Extraction → World → Prop}
    (ht : Tree root f w.disk) (hseen : Mirrors x.seen f) (hx : int64 x.total = x.total)
    (hF : ¬ Admits limit overlay members x.expected x.total x.entries f → ∀ w, F w)
    (hQ : ∀ d x', Admits limit overlay members x.expected x.total x.entries f →
      Tree root (putAll members f) d → Grown root w.disk d → Mirrors x'.seen (putAll members f) →
      x'.expected = remaining members x.expected →
      x'.total = int64 (x.total + bodySize members) → Q x' { w with disk := d }) :
    Yields (handleSettled may) E F (extractMembers root limit overlay members x) Q w := by
  induction members generalizing x f w with
  | nil =>
    exact yields_pure (hQ w.disk x trivial ht (fun _ _ _ => rfl) hseen rfl (by simp [bodySize, hx]))
  | cons header rest ih =>
    refine yields_bind (yields_extractMember hcalm ht hseen (fun hno => hF fun h => hno h.1)
      fun d hheader htree hgrown => ?_)
    refine ih (w := { w with disk := d }) htree (hseen.next header) Int.bmod_bmod
      (fun hno => hF fun h => hno h.2) fun d' x' hrest htree' hgrown' hseen' hexpected htotal => ?_
    refine hQ d' x' ⟨hheader, hrest⟩ htree'
      (fun q hb ha => (hgrown' q hb ha).trans (hgrown q hb ha)) hseen' hexpected ?_
    rw [htotal]
    simp [Extraction.next, int64, bodySize, Int.add_assoc]

/-! ## Archives -/

/-- The archive is extracted: it can be read to its end, its members are admissible, and they are
those its descriptor names, with the size it says. -/
structure Unpackable (limit : Int) (overlay : Bool) (descriptor : WorkspaceBlob)
    (archive : List Member × Bool) (f : FileMap) : Prop where
  members : ∃ expected, expectedPaths descriptor.paths [] = .ok expected ∧
    Admits limit overlay archive.1 expected 0 0 f ∧ remaining archive.1 expected = []
  ended : archive.2
  size : int64 (bodySize archive.1) = descriptor.logicalSize

theorem yields_readFile (hcalm : Calm may F) {p : Path} (hget : w.disk.get p = some (.file bytes t))
    {Q : Bytes → World → Prop} (hQ : Q bytes w) :
    Yields (handleSettled may) E F (readFile p) Q w := by
  refine yields_bind (yields_read hcalm ?_)
  rw [hget]
  exact yields_pure hQ

/-- **One archive**: it is extracted exactly if it is unpackable. -/
theorem yields_extractArchive (hcalm : Calm may F) {m : Manager} {archivePath : Path}
    {descriptor : WorkspaceBlob} {seen : List Bytes}
    {data : Bytes} {Q : Int × List Bytes → World → Prop}
    (hget : w.disk.get archivePath = some (.file data t))
    (ht : Tree root f w.disk) (hseen : Mirrors seen f)
    (hF : ¬ Unpackable limit overlay descriptor (m.codec.decode data) f → ∀ w, F w)
    (hQ : ∀ d seen', Unpackable limit overlay descriptor (m.codec.decode data) f →
      Tree root (putAll (m.codec.decode data).1 f) d → Grown root w.disk d →
      Mirrors seen' (putAll (m.codec.decode data).1 f) →
        Q (descriptor.logicalSize, seen') { w with disk := d }) :
    Yields (handleSettled may) E F
      (m.extractArchive archivePath root descriptor seen limit overlay) Q w := by
  refine yields_bind (yields_readFile hcalm hget ?_)
  refine yields_bind (yields_check (fun expected hexpected => ?_) fun err herr => ?_)
  on_goal 2 =>
    refine hF (fun h => ?_) w
    obtain ⟨expected, hexpected, -⟩ := h.members
    simp [hexpected] at herr
  have hmembers : Unpackable limit overlay descriptor (m.codec.decode data) f →
      Admits limit overlay (m.codec.decode data).1 expected 0 0 f ∧
        remaining (m.codec.decode data).1 expected = [] := by
    intro h
    obtain ⟨expected', hexpected', h⟩ := h.members
    obtain rfl := Except.ok.inj (hexpected'.symm.trans hexpected)
    exact h
  refine yields_bind (yields_extractMembers hcalm ht hseen rfl
    (fun hno => hF fun h => hno (hmembers h).1)
      fun d x hadmits htree hgrown hseen' hrest htotal => ?_)
  refine yields_guard (fun hc => hF (fun h => ?_) _) fun hended => ?_
  · simp [h.ended] at hc
  refine yields_guard (fun hc => hF (fun h => ?_) _) fun hfinal => ?_
  · simp [hrest, (hmembers h).2, htotal, h.size] at hc
  have hzero : x.total = int64 (bodySize (m.codec.decode data).1) := by rw [htotal, Int.zero_add]
  simp only [Bool.or_eq_true, decide_eq_true_eq, not_or, not_not] at hfinal
  rw [hzero, hrest] at hfinal
  rw [hzero, hfinal.2]
  exact yields_pure (hQ d x.seen ⟨⟨expected, hexpected, hadmits, hfinal.1⟩, by simpa using hended,
    hfinal.2⟩ htree hgrown hseen')

end Member

/-! ## Archives of files -/

/-- The paths of a descriptor as a set: they are valid and different from each other. -/
theorem expectedPaths_eq_ok {paths acc : List Bytes} :
    expectedPaths paths acc = .ok expected ↔ (∀ path ∈ paths, validWorkspacePath path) ∧
      paths.Nodup ∧ (∀ path ∈ paths, path ∉ acc) ∧ expected = paths.reverse ++ acc := by
  induction paths generalizing acc with
  | nil =>
    unfold expectedPaths
    simp only [Except.ok.injEq, List.not_mem_nil, false_imp_iff, implies_true, List.nodup_nil,
      List.reverse_nil, List.nil_append, true_and]
    exact eq_comm
  | cons path rest ih =>
    unfold expectedPaths
    by_cases hvalid : validWorkspacePath path
    · by_cases hmem : path ∈ acc
      · simp [hvalid, hmem]
      · simp only [hvalid, Bool.not_true, Bool.false_eq_true, if_false,
          List.contains_iff_mem, hmem, ih,
          List.mem_cons, not_or, List.nodup_cons, List.reverse_cons, List.append_assoc]
        constructor
        · rintro ⟨hall, hnodup, hfresh, rfl⟩
          refine ⟨?_, ⟨fun hp => (hfresh path hp).1 rfl, hnodup⟩, ?_, by simp⟩
          · rintro p (rfl | hp)
            · exact hvalid
            · exact hall p hp
          · rintro p (rfl | hp)
            · exact hmem
            · exact (hfresh p hp).2
        · rintro ⟨hall, ⟨hnot, hnodup⟩, hfresh, rfl⟩
          refine ⟨fun p hp => hall p (Or.inr hp), hnodup,
            fun p hp => ⟨?_, hfresh p (Or.inr hp)⟩, by simp⟩
          rintro rfl
          exact hnot hp
    · simp [hvalid]

/-- The files are new, or may replace, and none is in the way of another. -/
structure Settles (overlay : Bool) (files : List (Bytes × Bytes)) (f : FileMap) : Prop where
  fresh : ∀ file ∈ files, f (components file.1) ≠ none → overlay ∧ isConfigPath file.1
  clear : ∀ file ∈ files, Clear f (components file.1)
  childless : ∀ file ∈ files, Childless f (components file.1)
  apart : ∀ file ∈ files, ∀ other ∈ files, components file.1 <+: components other.1 →
    file.1 = other.1

theorem forall_put_eq_none (header : Member) {P : Path → Prop} :
    (∀ r, P r → header.put f r = none) ↔
      (∀ r, P r → f r = none) ∧ ¬ P (components header.name) := by
  have hother : ∀ r, r ≠ components header.name → header.put f r = f r := fun r hr =>
    Function.update_of_ne hr _ _
  constructor
  · intro h
    have hheader : ¬ P (components header.name) := fun hp => by simpa [Member.put] using h _ hp
    refine ⟨fun r hr => ?_, hheader⟩
    rw [← hother r fun heq => hheader (heq ▸ hr)]
    exact h r hr
  · rintro ⟨h, hheader⟩ r hr
    rw [hother r fun heq => hheader (heq ▸ hr)]
    exact h r hr

theorem clear_put : Clear (header.put f) r ↔ Clear f r ∧
      ¬ (components header.name <+: r ∧ components header.name ≠ r) := by
  simpa only [Clear, and_imp] using
    forall_put_eq_none header (f := f) (P := fun r' => r' <+: r ∧ r' ≠ r)

theorem childless_put : Childless (header.put f) r ↔ Childless f r ∧
      ¬ (r <+: components header.name ∧ components header.name ≠ r) := by
  simpa only [Childless, and_imp] using
    forall_put_eq_none header (f := f) (P := fun r' => r <+: r' ∧ r' ≠ r)

theorem settles_cons {file : Bytes × Bytes} {rest : List (Bytes × Bytes)}
    (hnew : ∀ other ∈ rest, other.1 ≠ file.1) :
    Settles overlay (file :: rest) f ↔
      ((f (components file.1) ≠ none → overlay ∧ isConfigPath file.1) ∧
        Clear f (components file.1) ∧ Childless f (components file.1)) ∧
      Settles overlay rest ((fileMember file).put f) := by
  have hput : ∀ other ∈ rest, (fileMember file).put f (components other.1) =
      f (components other.1) := fun other ho =>
    Function.update_of_ne (fun heq => hnew other ho (components_injective heq)) _ _
  constructor
  · intro h
    refine ⟨⟨h.fresh file List.mem_cons_self, h.clear file List.mem_cons_self,
      h.childless file List.mem_cons_self⟩, ?_, ?_, ?_, ?_⟩
    · intro other ho
      rw [hput other ho]
      exact h.fresh other (List.mem_cons_of_mem _ ho)
    · intro other ho
      refine clear_put.mpr ⟨h.clear other (List.mem_cons_of_mem _ ho), fun hp => ?_⟩
      exact hnew other ho
        (h.apart file List.mem_cons_self other (List.mem_cons_of_mem _ ho) hp.1).symm
    · intro other ho
      refine childless_put.mpr ⟨h.childless other (List.mem_cons_of_mem _ ho), fun hp => ?_⟩
      exact hnew other ho (h.apart other (List.mem_cons_of_mem _ ho) file List.mem_cons_self hp.1)
    · exact fun a ha b hb => h.apart a (List.mem_cons_of_mem _ ha) b (List.mem_cons_of_mem _ hb)
  · rintro ⟨⟨hfresh, hclear, hchildless⟩, h⟩
    have hne : ∀ other ∈ rest, components file.1 ≠ components other.1 := fun other ho heq =>
      hnew other ho (components_injective heq).symm
    refine ⟨?_, ?_, ?_, ?_⟩
    · intro other ho
      rcases List.mem_cons.mp ho with rfl | ho
      · exact hfresh
      · rw [← hput other ho]
        exact h.fresh other ho
    · intro other ho
      rcases List.mem_cons.mp ho with rfl | ho
      · exact hclear
      · exact (clear_put.mp (h.clear other ho)).1
    · intro other ho
      rcases List.mem_cons.mp ho with rfl | ho
      · exact hchildless
      · exact (childless_put.mp (h.childless other ho)).1
    · intro a ha b hb hp
      rcases List.mem_cons.mp ha with rfl | ha'
      · rcases List.mem_cons.mp hb with rfl | hb'
        · rfl
        · exact absurd ⟨hp, hne b hb'⟩ (clear_put.mp (h.clear b hb')).2
      · rcases List.mem_cons.mp hb with rfl | hb'
        · exact absurd ⟨hp, hne a ha'⟩ (childless_put.mp (h.childless a ha')).2
        · exact h.apart a ha' b hb' hp

def totalSize (files : List (Bytes × Bytes)) : Int :=
  (files.map fun file => (file.2.length : Int)).sum

theorem totalSize_nonneg (files : List (Bytes × Bytes)) : 0 ≤ totalSize files := by
  induction files with
  | nil => exact le_rfl
  | cons file rest ih =>
    have hsum : totalSize (file :: rest) = file.2.length + totalSize rest := by simp [totalSize]
    omega

/-- Files are admissible one after the other exactly if they fit and none is in the way. -/
theorem admits_files {total : Int} {entries : Nat} (hnodup : (files.map Prod.fst).Nodup)
    (hvalid : ∀ file ∈ files, validWorkspacePath file.1 ∧ 0 ∉ file.1)
    (hlisted : ∀ file ∈ files, file.1 ∈ expected) (htotal : 0 ≤ total)
    (hbound : total + totalSize files < 2 ^ 63) :
    Admits limit overlay (files.map fileMember) expected total entries f ↔
      (files ≠ [] → entries + files.length ≤ maxArchiveEntries ∧ total + totalSize files ≤ limit) ∧
        Settles overlay files f := by
  induction files generalizing expected total entries f with
  | nil =>
    simp only [List.map_nil, Admits, ne_eq, not_true_eq_false, false_imp_iff, true_and, true_iff]
    exact ⟨by simp, by simp, by simp, by simp⟩
  | cons file rest ih =>
    rw [List.map_cons, List.nodup_cons] at hnodup
    have hnew : ∀ other ∈ rest, other.1 ≠ file.1 := fun other ho heq =>
      hnodup.1 (heq ▸ List.mem_map_of_mem ho)
    have hsum : totalSize (file :: rest) = file.2.length + totalSize rest := by
      simp [totalSize]
    have hrest := totalSize_nonneg rest
    have hint : int64 (total + (file.2.length : Int)) = total + file.2.length :=
      int64_eq (by omega) (by omega)
    have hih := @ih ((fileMember file).put f) (expected.erase file.1) (total + file.2.length)
      (entries + 1) hnodup.2 (List.forall_mem_cons.mp hvalid).2
      (fun o ho => (List.mem_erase_of_ne (hnew o ho)).mpr (hlisted o (List.mem_cons_of_mem _ ho)))
      (by omega) (by omega)
    have hfile := hvalid file List.mem_cons_self
    change Admissible limit overlay expected total entries f (fileMember file) ∧
      Admits limit overlay (rest.map fileMember) (expected.erase file.1)
        (int64 (total + file.2.length)) (entries + 1) ((fileMember file).put f) ↔ _
    rw [hint, hih, settles_cons hnew, hsum, List.length_cons]
    constructor
    · rintro ⟨ha, hlimits, hsettles⟩
      refine ⟨fun _ => ?_, ⟨ha.fresh, ha.clear, ha.childless⟩, hsettles⟩
      have hcount := ha.count
      have hfits : total + file.2.length ≤ limit := hint ▸ ha.fits
      by_cases hnil : rest = []
      · subst hnil
        simp only [List.length_nil, totalSize, List.map_nil, List.sum_nil]
        omega
      · have := hlimits hnil
        omega
    · rintro ⟨hlimits, ⟨hfresh, hclear, hchildless⟩, hsettles⟩
      have hboth := hlimits (by simp)
      refine ⟨⟨by omega, rfl, hfile.1, Int.natCast_nonneg _, ?_, ?_,
        hlisted file List.mem_cons_self, hfresh, hfile.2, hclear, hchildless, rfl⟩,
          fun _ => by omega, hsettles⟩
      · change (file.2.length : Int) ≤ limit
        omega
      · change int64 (total + (file.2.length : Int)) ≤ limit
        omega

theorem remaining_files (h : expected.Nodup) (hsub : ∀ path ∈ expected, path ∈ files.map Prod.fst) :
    remaining (files.map fileMember) expected = [] := by
  have hdiff : remaining (files.map fileMember) expected = expected.diff (files.map Prod.fst) := by
    rw [List.diff_eq_foldl, remaining, List.foldl_map, List.foldl_map]
    rfl
  rw [hdiff]
  refine List.eq_nil_iff_forall_not_mem.mpr fun path hpath => ?_
  have hmem := h.mem_sdiff_iff.mp hpath
  exact hmem.2 (hsub path hmem.1)

theorem bodySize_files (files : List (Bytes × Bytes)) :
    bodySize (files.map fileMember) = totalSize files := by
  rw [bodySize, totalSize, List.map_map]
  rfl

/-- **An archive of files** with the descriptor that names them is unpackable exactly if the paths
are valid and different, the files are within the limits, and none is in the way of another. -/
theorem unpackable_files {descriptor : WorkspaceBlob}
    (hpaths : descriptor.paths = files.map Prod.fst)
    (hsize : descriptor.logicalSize = totalSize files) (hbound : totalSize files < 2 ^ 63)
    (hzero : ∀ file ∈ files, 0 ∉ file.1) :
    Unpackable limit overlay descriptor (files.map fileMember, true) f ↔
      (files.map Prod.fst).Nodup ∧ (∀ file ∈ files, validWorkspacePath file.1) ∧
        (files ≠ [] → files.length ≤ maxArchiveEntries ∧ totalSize files ≤ limit) ∧
          Settles overlay files f := by
  have hlisted : ∀ file ∈ files, file.1 ∈ (files.map Prod.fst).reverse := fun file hf =>
    List.mem_reverse.mpr (List.mem_map_of_mem hf)
  constructor
  · rintro ⟨⟨expected, hexpected, hadmits, -⟩, -, -⟩
    rw [hpaths] at hexpected
    obtain ⟨hall, hnodup, -, rfl⟩ := expectedPaths_eq_ok.mp hexpected
    have hvalid : ∀ file ∈ files, validWorkspacePath file.1 := fun file hf =>
      hall _ (List.mem_map_of_mem hf)
    rw [List.append_nil, admits_files hnodup
      (fun file hf => ⟨hvalid file hf, hzero file hf⟩) hlisted
      le_rfl (by omega), Nat.zero_add, Int.zero_add] at hadmits
    exact ⟨hnodup, hvalid, hadmits⟩
  · rintro ⟨hnodup, hvalid, hlimits, hsettles⟩
    have hint := int64_eq (totalSize_nonneg files) hbound
    refine ⟨⟨(files.map Prod.fst).reverse, ?_, ?_, ?_⟩, rfl, by rw [bodySize_files, hint, hsize]⟩
    · rw [hpaths]
      refine expectedPaths_eq_ok.mpr
        ⟨fun path hp => ?_, hnodup, fun _ _ => List.not_mem_nil, by simp⟩
      obtain ⟨file, hf, rfl⟩ := List.mem_map.mp hp
      exact hvalid file hf
    · rw [admits_files hnodup (fun file hf => ⟨hvalid file hf, hzero file hf⟩) hlisted le_rfl
        (by omega), Nat.zero_add, Int.zero_add]
      exact ⟨hlimits, hsettles⟩
    · exact remaining_files (List.nodup_reverse.mpr hnodup) fun path hp => List.mem_reverse.mp hp

theorem putAll_files (hnodup : (files.map Prod.fst).Nodup) (r : Path) (data : Bytes) (f : FileMap) :
    putAll (files.map fileMember) f r = some data ↔
      (∃ file ∈ files, components file.1 = r ∧ file.2 = data) ∨
        (∀ file ∈ files, components file.1 ≠ r) ∧ f r = some data := by
  induction files generalizing f with
  | nil => simp [putAll]
  | cons file rest ih =>
    rw [List.map_cons, List.nodup_cons] at hnodup
    change putAll (rest.map fileMember) ((fileMember file).put f) r = some data ↔ _
    rw [ih hnodup.2, Member.put]
    by_cases hr : components file.1 = r
    · subst hr
      have hnone : ∀ other ∈ rest, components other.1 ≠ components file.1 := fun other ho heq =>
        hnodup.1 (components_injective heq ▸ List.mem_map_of_mem ho)
      have hself : Function.update f (components (fileMember file).name)
        (some (fileMember file).body)
          (components file.1) = some file.2 := Function.update_self _ _ _
      rw [hself]
      constructor
      · rintro (⟨other, ho, heq, -⟩ | ⟨-, heq⟩)
        · exact absurd heq (hnone other ho)
        · exact Or.inl ⟨file, List.mem_cons_self, rfl, Option.some.inj heq⟩
      · rintro (⟨other, ho, heq, rfl⟩ | ⟨hne, -⟩)
        · rcases List.mem_cons.mp ho with rfl | ho
          · exact Or.inr ⟨hnone, rfl⟩
          · exact absurd heq (hnone other ho)
        · exact absurd rfl (hne file List.mem_cons_self)
    · have hother : Function.update f (components (fileMember file).name)
        (some (fileMember file).body)
          r = f r := Function.update_of_ne (Ne.symm hr) _ _
      rw [hother]
      simp [hr]

end SharedNode.Workspace
