import SharedNode.Workspace.Extraction
import SharedNode.Workspace.Reach

/-!
# Archives of any origin

An archive is made by a compiler, another node or whoever prepared an initial world. Whatever is in
it, `extractArchive` and `extractInitialWorld` (`internal/workspace/workspace.go`) stay below the
directory they are given, at every moment of the run and whichever file operations fail.
-/

namespace SharedNode.Workspace

open Text ControlPlane Storage Effect

variable {d d' : Disk} {header : Member} {base root : Path}

/-! ## Staying in a directory -/

/-- Nothing outside the base differs. -/
def Contained (base : Path) (d d' : Disk) : Prop := ∀ q, ¬ base <+: q → d'.get q = d.get q

/-- What is above the base are directories. -/
def Grounded (base : Path) (d : Disk) : Prop := ∀ q, q <+: base → q ≠ base → d.get q = some .dir

/-- A directory to extract to, which may still have to be made: it has regular files and directories
only. (`Disk` does not follow links; where there are none its calls are those of the system.) -/
structure IsExtractionRoot (root : Path) (d : Disk) : Prop where
  above : Grounded root d
  plain : ∀ r node, d.get (root ++ r) = some node → node = .dir ∨ ∃ bytes t, node = .file bytes t

/-- The call reads, or stays at or below the base. -/
def Op.StaysIn (base : Path) (op : Op) : Prop :=
  (∃ p, op = .read p) ∨ op.Local [base] fun _ => True

theorem Contained.grounded (h : Contained base d d') (hd : Grounded base d) : Grounded base d' := by
  intro q hq hne
  rw [h q fun hbase => hne (hq.eq_of_length_le hbase.length_le)]
  exact hd q hq hne

theorem grounded_of_dir (h : d.get root = some .dir) (name : Bytes) :
    Grounded root d ∧ Grounded (root ++ [name]) d := by
  have habove : ∀ q, q <+: root → d.get q = some .dir := by
    intro q hq
    by_cases hne : q = root
    · rw [hne, h]
    · exact Disk.dir_of_below hq hne (by simp [h])
  refine ⟨fun q hq _ => habove q hq, fun q hq hne => habove q ?_⟩
  have hdrop := prefix_dropLast hq hne
  rwa [List.dropLast_concat] at hdrop

/-- One call that stays in the base changes nothing outside of it. -/
theorem contained_call {op : Op} {w : World} (hop : op.StaysIn base) (hbase : Grounded base w.disk)
    (e : Env) : Contained base w.disk (handle op e w).2.disk := by
  intro q hq
  rcases hop with ⟨p, rfl⟩ | hop
  · rfl
  by_cases htouch : op.touches q
  swap
  · exact get_call (by simpa using htouch) e w
  have hinside : ∀ p ∈ op.names, Inside [base] p ∨ op = .mkdirAll p ∧ p <+: base := by
    intro p hp
    refine (hop.names p hp).imp_right ?_
    rintro ⟨heq, b, hb, hpb⟩
    exact ⟨heq, List.mem_singleton.mp hb ▸ hpb⟩
  -- Only a directory that is made can be touched from below.
  obtain ⟨p, rfl, hqp⟩ : ∃ p, op = .mkdirAll p ∧ q <+: p := by
    rcases Op.touches_cases htouch with ⟨p, hp, hpq⟩ | h
    · rcases hinside p hp with ⟨b, hb, hbp⟩ | ⟨rfl, -⟩
      · exact absurd ((List.mem_singleton.mp hb ▸ hbp).trans hpq) hq
      · exact ⟨p, rfl, by simpa [Op.touches] using htouch⟩
    · exact h
  have habove : q <+: base := by
    rcases hinside p (List.mem_singleton_self p) with ⟨b, hb, hbp⟩ | ⟨-, hpb⟩
    · exact (List.prefix_or_prefix_of_prefix hqp (List.mem_singleton.mp hb ▸ hbp)).resolve_right hq
    · exact hqp.trans hpb
  have hdir := hbase q habove fun heq => hq (heq ▸ List.prefix_rfl)
  change (w.change e (·.mkdirAll p)).2.disk.get q = _
  rcases change_cases w e (·.mkdirAll p) with hd | hd
  · rw [hd]
  · rw [Disk.get_mkdirAll hd, if_pos hqp, hdir]

/-- **A program whose calls stay in a directory** changes nothing outside of it, wherever it is
cut. -/
theorem contained_run {α : Type} {ψ : α → Prop} {p : M α} {w : World}
    (hp : Confined (Op.StaysIn base) p ψ) (hbase : Grounded base w.disk) (choices : List Env) :
    Contained base w.disk (run handle.toHandler p.run choices w []).2.1.disk := by
  have hends := Confined.ends (h := handle.toHandler) (E := fun _ => True)
    (I := fun w' : World => Contained base w.disk w'.disk) (fun op e s x s' hop hs _ heq => by
      obtain rfl : (handle op e s).2 = s' := congrArg Prod.snd (Option.some.inj heq)
      exact fun q hq => (contained_call hop (hs.grounded hbase) e q hq).trans (hs q hq)) hp
    fun _ _ => rfl
  obtain ⟨hreturn, hcut⟩ := ends_run choices (fun _ _ => trivial) (t := []) hends
  cases hr : (run handle.toHandler p.run choices w []).1 with
  | none => exact hcut hr
  | some r => exact (hreturn r hr).1

theorem readFile_staysIn (base p : Path) :
    Confined (Op.StaysIn base) (readFile p) fun _ => True := by
  refine (confined_ask (Or.inl ⟨p, rfl⟩)).bind fun r _ => ?_
  cases r with
  | none => exact confined_throw
  | some bytes => exact confined_pure trivial

theorem extractArchive_staysIn (m : Manager) (archivePath root : Path) (descriptor : WorkspaceBlob)
    (seen : List Bytes) (limit : Int) (overlay : Bool) :
    Confined (Op.StaysIn root) (m.extractArchive archivePath root descriptor seen limit overlay)
      fun _ => True := by
  refine (readFile_staysIn root archivePath).bind fun data _ => ?_
  refine (confined_check fun _ _ => trivial).bind fun expected (_ : True) => ?_
  have hlocal : Confined (Op.Local [root] fun _ => True) (extractMembers root limit overlay
      (m.codec.decode data).1 ⟨seen, expected, 0, 0⟩) fun _ => True :=
    extractMembers_local _ _ _ _ (inside_of_mem (List.mem_singleton_self root)) fun _ => trivial
  refine (hlocal.mono (fun _ => Or.inr) fun _ h => h).bind fun x _ => ?_
  refine confined_guard fun _ => ?_
  exact confined_guard fun _ => confined_pure trivial

theorem extractInitialWorld_staysIn (m : Manager) (archivePath root : Path) (limit : Int) :
    Confined (Op.StaysIn (root ++ [lit "world"])) (m.extractInitialWorld archivePath root limit)
      fun _ => True := by
  refine (readFile_staysIn _ archivePath).bind fun data _ => ?_
  split
  · exact confined_throw
  next entries _ =>
    have hlocal : Confined (Op.Local [root ++ [lit "world"]] fun _ => True)
        (extractWorldEntries root limit entries [] 0) fun _ => True :=
      extractWorldEntries_local _ _ _ _ (inside_of_mem (List.mem_singleton_self _)) fun _ => trivial
    refine (hlocal.mono (fun _ => Or.inr) fun _ h => h).bind fun seen _ => ?_
    split
    · exact confined_throw
    · exact confined_pure trivial

/-! ## What a successful extraction has written -/

/-- The disk after the members: each has its bytes, a file that is gone was replaced as a config
file, and nothing else was made. -/
structure Written (overlay : Bool) (seen : List Bytes) (root : Path) (d : Disk)
    (members : List Member) (d' : Disk) : Prop where
  bodies : ∀ header ∈ members, d'.files root (components header.name) = some header.body
  kept : ∀ r data, d.files root r = some data → d'.files root r = some data ∨
    overlay ∧ ∃ header ∈ members, header.name ∈ seen ∧ isConfigPath header.name ∧
      components header.name = r
  only : ∀ r data, d'.files root r = some data → d.files root r = some data ∨
    ∃ header ∈ members, components header.name = r

/-- The loop after the members `done`. -/
structure Ongoing (limit : Int) (overlay : Bool) (seen paths : List Bytes) (root : Path) (d : Disk)
    (done : List Member) (x : Extraction) (d' : Disk) : Prop where
  written : Written overlay seen root d done d'
  split : (done.map (·.name) ++ x.expected).Perm paths
  seen : ∀ name ∈ x.seen, name ∈ seen ∨ name ∈ done.map (·.name)
  total : x.total = bodySize done
  within : x.total ≤ limit

/-- A member is placed: its path has its bytes, and all other files are as before. -/
def Gains (root : Path) (header : Member) (d d' : Disk) : Prop :=
  ∀ r, d'.files root r = if r = components header.name then some header.body else d.files root r

/-- Making the directory of a file and writing it leaves the other files. -/
theorem gains_of_get {d₁ : Disk} {t : Int}
    (h₁ : d.mkdirAll (root ++ (components header.name).dropLast) = some d₁)
    (hget : ∀ q, d'.get q = if q = root ++ components header.name then some (.file header.body t)
      else d₁.get q) : Gains root header d d' := by
  intro r
  unfold Disk.files
  rw [hget]
  by_cases hr : r = components header.name
  · simp [hr]
  rw [if_neg hr, if_neg fun heq => hr (List.append_cancel_left heq), Disk.get_mkdirAll h₁]
  by_cases hp : root ++ r <+: root ++ (components header.name).dropLast
  · -- A directory that is made was not a file.
    rcases Disk.mkdirAll_eq_some h₁ hp with hnone | hdir
    · simp [hp, hnone]
    · simp [hp, hdir]
  · rw [if_neg hp]

theorem bodySize_nonneg (members : List Member) : 0 ≤ bodySize members :=
  List.sum_nonneg fun n hn => by
    obtain ⟨header, -, rfl⟩ := List.mem_map.mp hn
    exact Int.natCast_nonneg _

/-- Below the limit a sum does not wrap around. -/
theorem Ongoing.int64_total {limit : Int} {overlay : Bool} {seen paths : List Bytes}
    {done : List Member} {x : Extraction} {size : Int}
    (h : Ongoing limit overlay seen paths root d done x d') (hmost : limit < 2 ^ 62) (h₀ : 0 ≤ size)
    (hsize : size ≤ limit) : int64 (x.total + size) = x.total + size := by
  have hnonneg := bodySize_nonneg done
  have htotal := h.total
  have hwithin := h.within
  exact int64_eq (by omega) (by omega)

theorem Ongoing.next {limit : Int} {overlay : Bool} {seen paths : List Bytes} {d'' : Disk}
    {done : List Member} {x : Extraction} (h : Ongoing limit overlay seen paths root d done x d')
    (hnodup : paths.Nodup) (hexpected : header.name ∈ x.expected)
    (hsize : header.body.length = header.size)
    (hint : int64 (x.total + header.size) = x.total + header.size)
    (hlimit : int64 (x.total + header.size) ≤ limit) (hgains : Gains root header d' d'')
    (hfresh : ∀ data, d'.files root (components header.name) = some data →
      overlay ∧ header.name ∈ x.seen ∧ isConfigPath header.name) :
    Ongoing limit overlay seen paths root d (done ++ [header]) (x.next header) d'' := by
  have hdone : header.name ∉ done.map (·.name) := fun hmem =>
    List.disjoint_of_nodup_append (h.split.nodup_iff.mpr hnodup) hmem hexpected
  have hother : ∀ old ∈ done, components old.name ≠ components header.name := fun old hold heq =>
    hdone (components_injective heq ▸ List.mem_map_of_mem hold)
  refine ⟨⟨fun old hold => ?_, fun r data hr => ?_, fun r data hr => ?_⟩, ?_, fun name hname => ?_,
    ?_, ?_⟩
  · rw [hgains]
    rcases List.mem_append.mp hold with hold | hold
    · rw [if_neg (hother old hold), h.written.bodies old hold]
    · rw [List.mem_singleton.mp hold, if_pos rfl]
  · rcases h.written.kept r data hr with hkept | ⟨ho, old, hold, hreplaced⟩
    · rw [hgains]
      by_cases heq : r = components header.name
      · subst heq
        obtain ⟨ho, hseen, hconfig⟩ := hfresh data hkept
        exact Or.inr ⟨ho, header, by simp, (h.seen _ hseen).resolve_right hdone, hconfig, rfl⟩
      · exact Or.inl (by rw [if_neg heq, hkept])
    · exact Or.inr ⟨ho, old, List.mem_append_left _ hold, hreplaced⟩
  · rw [hgains] at hr
    split at hr
    next heq => exact Or.inr ⟨header, by simp, heq.symm⟩
    next =>
      refine (h.written.only r data hr).imp_right ?_
      rintro ⟨old, hold, heq⟩
      exact ⟨old, List.mem_append_left _ hold, heq⟩
  · have hsplit := h.split
    refine List.Perm.trans ?_ hsplit
    rw [List.map_append, List.append_assoc]
    exact (List.perm_cons_erase hexpected).symm.append_left _
  · simp only [Extraction.next, List.mem_insert_iff] at hname
    rw [List.map_append, List.mem_append]
    rcases hname with rfl | hname
    · exact Or.inr (Or.inr (by simp))
    · exact (h.seen name hname).imp_right Or.inl
  · have htotal := h.total
    simp only [Extraction.next, hsize, hint, bodySize, List.map_append, List.sum_append] at htotal ⊢
    simp [htotal, hsize]
  · simpa [Extraction.next, hsize] using hlimit

section Loop

variable {may : Op → Bool} {E : Env → Prop} {limit : Int} {overlay : Bool} {seen paths : List Bytes}
  {root : Path} {d : Disk} {done : List Member} {x : Extraction} {w : World}

/-- **One member**, whatever is on the disk and whatever fails. -/
theorem yields_ongoing (hnodup : paths.Nodup) (hmost : limit < 2 ^ 62)
    (h : Ongoing limit overlay seen paths root d done x w.disk) :
    Yields (handleSettled may) E (fun _ => True) (extractMember root limit overlay x header)
      (fun x' w' => Ongoing limit overlay seen paths root d (done ++ [header]) x' w'.disk) w := by
  have hcalm : Calm may fun _ => True := Or.inr fun _ => trivial
  unfold extractMember
  refine yields_guard (fun _ => trivial) fun hlimits => ?_
  refine yields_guard (fun _ => trivial) fun hexpected => ?_
  refine yields_guard (fun _ => trivial) fun hfresh => ?_
  simp only [Bool.or_eq_true, decide_eq_true_eq, Bool.not_eq_true', not_or, not_lt] at hlimits
  obtain ⟨⟨⟨⟨⟨-, -⟩, hvalid⟩, hsize⟩, hsmall⟩, hfits⟩ := hlimits
  have hint := h.int64_total hmost hsize hsmall
  rw [Bool.not_eq_false] at hvalid
  have hlisted : header.name ∈ x.expected := by simpa using hexpected
  rw [safeChild_of_valid hvalid]
  refine yields_bind (yields_check (fun target htarget => ?_) fun _ _ => trivial)
  cases htarget
  rw [List.dropLast_append_of_ne_nil (components_ne_nil header.name)]
  refine yields_bind (yields_mkdirAll hcalm (fun d₁ h₁ => ?_) fun _ => trivial)
  have hparent := not_prefix_dropLast root (components_ne_nil header.name)
  have hget₁ : d₁.get (root ++ components header.name) =
      w.disk.get (root ++ components header.name) := by
    rw [Disk.get_mkdirAll h₁, if_neg hparent]
  -- The file is written where nothing is left, or where a config file was removed.
  have hwrite : ∀ d₂ : Disk, (∀ q, q ≠ root ++ components header.name → d₂.get q = d₁.get q) →
      (d₂.get (root ++ components header.name) = none →
        ∀ data, w.disk.files root (components header.name) = some data →
          overlay ∧ header.name ∈ x.seen ∧ isConfigPath header.name) →
      Yields (handleSettled may) E (fun _ => True) (do
        writeNew (root ++ components header.name) header.body (header.body.length = header.size)
          "workspace archive member has invalid size"
        return x.next header)
        (fun x' w' => Ongoing limit overlay seen paths root d (done ++ [header]) x' w'.disk)
        { w with disk := d₂ } := by
    intro d₂ h₂ hreplaced
    refine yields_bind (yields_writeNew hcalm (fun _ _ => trivial) (fun _ _ _ => trivial)
      fun d₃ t hcomplete hnone _ hget => ?_)
    refine yields_pure (h.next hnodup hlisted (by simpa using hcomplete) hint hfits ?_
      (hreplaced hnone))
    refine gains_of_get h₁ (t := t) fun q => ?_
    rw [hget]
    split
    · rfl
    next hq => exact h₂ q hq
  split
  next hoverlay =>
    simp only [Bool.and_eq_true, List.contains_iff_mem] at hoverlay
    refine yields_bind (yields_remove hcalm (fun d₂ h₂ => ?_) fun _ => trivial)
    refine hwrite d₂ (fun q hq => ?_) fun _ _ _ => ⟨hoverlay.1.2, hoverlay.1.1, hoverlay.2⟩
    rw [Disk.get_remove h₂, if_neg hq]
  next =>
    refine hwrite d₁ (fun _ _ => rfl) fun hnone data hdata => ?_
    obtain ⟨t, hfile⟩ := Disk.files_eq_some.mp hdata
    rw [hget₁, hfile] at hnone
    cases hnone

/-- **All members.** -/
theorem yields_written {members : List Member} (hnodup : paths.Nodup) (hmost : limit < 2 ^ 62)
    (h : Ongoing limit overlay seen paths root d done x w.disk) :
    Yields (handleSettled may) E (fun _ => True) (extractMembers root limit overlay members x)
      (fun x' w' => Ongoing limit overlay seen paths root d (done ++ members) x' w'.disk) w := by
  induction members generalizing done x w with
  | nil => exact yields_pure (by rwa [List.append_nil])
  | cons header rest ih =>
    refine yields_bind (yields_mono (fun x' w' hnext => ?_) (yields_ongoing hnodup hmost h))
    have hrest := ih hnext
    rwa [List.append_assoc] at hrest

end Loop

/-- What a successful `extractArchive` has done. -/
structure Extracted (limit : Int) (overlay : Bool) (descriptor : WorkspaceBlob) (seen : List Bytes)
    (root : Path) (d : Disk) (members : List Member) (d' : Disk) : Prop where
  once : (members.map (·.name)).Perm descriptor.paths
  distinct : descriptor.paths.Nodup
  written : Written overlay seen root d members d'
  total : bodySize members = descriptor.logicalSize
  within : descriptor.logicalSize ≤ limit

section Archive

variable {m : Manager} {archivePath root : Path} {descriptor : WorkspaceBlob} {seen : List Bytes}
  {limit : Int} {overlay : Bool} {w : World}

theorem ongoing_start {expected : List Bytes}
    (hexpected : expectedPaths descriptor.paths [] = .ok expected) (hlimit : 0 ≤ limit) (d : Disk) :
    Ongoing limit overlay seen descriptor.paths root d [] ⟨seen, expected, 0, 0⟩ d := by
  obtain ⟨-, -, -, rfl⟩ := expectedPaths_eq_ok.mp hexpected
  refine ⟨⟨fun _ h => absurd h List.not_mem_nil, fun _ _ h => Or.inl h, fun _ _ h => Or.inl h⟩, ?_,
    fun _ h => Or.inl h, rfl, hlimit⟩
  simp [List.reverse_perm]

theorem yields_extracted (hlimit : 0 ≤ limit ∧ limit < 2 ^ 62) :
    Yields (handleSettled fun _ => true) (fun _ => True) (fun _ => True)
      (m.extractArchive archivePath root descriptor seen limit overlay)
      (fun _ w' => ∃ data t, w.disk.get archivePath = some (.file data t) ∧
        (m.codec.decode data).2 ∧ Extracted limit overlay descriptor seen root w.disk
          (m.codec.decode data).1 w'.disk) w := by
  have hcalm : Calm (fun _ => true) fun _ : World => True := Or.inr fun _ => trivial
  cases hget : w.disk.get archivePath with
  | none =>
    refine yields_bind (yields_bind (yields_read hcalm ?_))
    rw [hget]
    exact yields_throw trivial
  | some node =>
    cases node with
    | file data t =>
      refine yields_bind (yields_readFile hcalm hget ?_)
      refine yields_bind (yields_check (fun expected hexpected => ?_) fun _ _ => trivial)
      have hnodup := (expectedPaths_eq_ok.mp hexpected).2.1
      refine yields_bind (yields_mono (fun x w' h => ?_)
        (yields_written hnodup hlimit.2 (ongoing_start hexpected hlimit.1 w.disk)))
      refine yields_guard (fun _ => trivial) fun hended => ?_
      refine yields_guard (fun _ => trivial) fun hfinal => ?_
      simp only [Bool.or_eq_true, decide_eq_true_eq, not_or, not_not] at hfinal
      rw [List.nil_append] at h
      have hsplit := h.split
      rw [hfinal.1, List.append_nil] at hsplit
      refine yields_pure ⟨data, t, rfl, by simpa using hended, hsplit, hnodup, h.written, ?_, ?_⟩
      · rw [← h.total, hfinal.2]
      · rw [← hfinal.2]
        exact h.within
    | dir | symlink | special =>
      refine yields_bind (yields_bind (yields_read hcalm ?_))
      rw [hget]
      trivial

/-- **Extraction stays inside.** Nothing outside the directory changes, for an initial world nothing
outside its world directory, wherever the run is cut and whatever fails; and an archive that is
extracted has put exactly the paths of its descriptor there. -/
theorem extraction_contained (hroot : IsExtractionRoot root w.disk) (choices : List Env) :
    Contained root w.disk (run handle.toHandler
      (m.extractArchive archivePath root descriptor seen limit overlay).run choices w []).2.1.disk ∧
    (w.disk.get root = some .dir → Contained (root ++ [lit "world"]) w.disk (run handle.toHandler
      (m.extractInitialWorld archivePath root limit).run choices w []).2.1.disk) ∧
    ∀ x, 0 ≤ limit → limit < 2 ^ 62 → (run handle.toHandler
      (m.extractArchive archivePath root descriptor seen limit overlay).run choices w []).1 =
        some (.ok x) →
      ∃ data t, w.disk.get archivePath = some (.file data t) ∧ (m.codec.decode data).2 ∧
        Extracted limit overlay descriptor seen root w.disk (m.codec.decode data).1
          (run handle.toHandler
            (m.extractArchive archivePath root descriptor seen limit overlay).run
            choices w []).2.1.disk := by
  refine ⟨contained_run (extractArchive_staysIn m archivePath root descriptor seen limit overlay)
      hroot.above choices, fun hdir => ?_, fun x hlimit hmost hx => ?_⟩
  · exact contained_run (extractInitialWorld_staysIn m archivePath root limit)
      (grounded_of_dir hdir (lit "world")).2 choices
  · exact twp_run (fun _ _ => trivial) (yields_extracted ⟨hlimit, hmost⟩) hx

end Archive

/-! ## An archive beside an empty directory -/

def archiveWorld (archive : Bytes) : World where
  disk := ((Disk.empty.mkdirAll [lit "root"]).bind (·.create [lit "archive"] archive 0)).getD .empty
  objects := fun _ => none
  restored := fun _ => none

theorem archiveWorld_get (archive : Bytes) (q : Path) : (archiveWorld archive).disk.get q =
    if q = [lit "archive"] then some (.file archive 0)
    else if q <+: [lit "root"] then some .dir else Disk.empty.get q := by
  rfl

theorem archiveWorld_archive (archive : Bytes) :
    (archiveWorld archive).disk.get [lit "archive"] = some (.file archive 0) := by
  rfl

theorem archiveWorld_dir (archive : Bytes) :
    (archiveWorld archive).disk.get [lit "root"] = some .dir := by
  rfl

theorem archiveWorld_root (archive : Bytes) :
    IsExtractionRoot [lit "root"] (archiveWorld archive).disk where
  above := (grounded_of_dir (archiveWorld_dir archive) []).1
  plain r node h := by
    rw [archiveWorld_get] at h
    split at h
    · exact Or.inr ⟨archive, 0, (Option.some.inj h).symm⟩
    split at h
    · exact Or.inl (Option.some.inj h).symm
    · simp [Disk.empty] at h

theorem archiveWorld_childless (archive : Bytes) :
    (archiveWorld archive).disk.childless [lit "root"] := by
  rfl

/-- A node that finds the same members in every archive. -/
def readerOf (members : List Member) : Manager where
  root := [lit "srv"]
  codec := { encode := fun _ => [], decode := fun _ => (members, true), unzip := fun _ => none }

def oneByte : WorkspaceBlob := { logicalSize := 1, paths := [lit "config/a"] }

def oneMember : List Member := [⟨true, lit "config/a", 1, [7]⟩]

def quietChoices : List Env := List.replicate 4 { broker := fun _ _ => .ok [] }

theorem extraction_contained_file :
    ∃ data t, (archiveWorld []).disk.get [lit "archive"] = some (.file data t) ∧
      Extracted 1 false oneByte [] [lit "root"] (archiveWorld []).disk oneMember
        (run handle.toHandler ((readerOf oneMember).extractArchive [lit "archive"] [lit "root"]
          oneByte [] 1 false).run quietChoices (archiveWorld []) []).2.1.disk := by
  obtain ⟨-, -, hsuccess⟩ := @extraction_contained (readerOf oneMember) [lit "archive"] [lit "root"]
    oneByte [] 1 false (archiveWorld []) (archiveWorld_root []) quietChoices
  obtain ⟨data, t, hget, -, h⟩ := hsuccess (1, [lit "config/a"]) (by decide) (by decide) rfl
  exact ⟨data, t, hget, h⟩

/-- With a negative limit an empty archive is still extracted. -/
theorem negative_limit : (run handle.toHandler ((readerOf []).extractArchive [lit "archive"]
      [lit "root"] {} [] (-1) false).run quietChoices (archiveWorld []) []).1 = some (.ok (0, [])) ∧
    ¬ (0 : Int) ≤ -1 := by
  exact ⟨rfl, by decide⟩

end SharedNode.Workspace
