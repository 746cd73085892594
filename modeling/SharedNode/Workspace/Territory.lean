import SharedNode.Workspace.Places
import SharedNode.Workspace.Reach

/-!
# Services do not touch each other's files

`Restore`, `Sync` and `Release` (`internal/workspace/workspace.go`) of a command stay below the
homes of that command (`strangers_untouched`), where the homes of two services are apart: the names
of their staging directories, `<service>-<command>` with an ending, are not the same. Nothing else
keeps these names apart: service `a` with command `b-c` and service `a-b` with command `c` share a
staging directory (`shared_staging`).

A sync reads the archives wherever its draft says they are, so the statement is about the states
that calls and crashes can leave (`Reachable`): the draft in a staging directory names archives in
that directory only (`TameDrafts`).
-/

namespace SharedNode.Workspace

open Text ControlPlane Storage Effect

/-- The path is below a home of the command. -/
def Belongs (m : Manager) (command : Command) (p : Path) : Prop := Inside (homes m command) p

/-! ## Homes apart -/

/-- The staging directories of the two commands have different names. -/
def Apart (command other : Command) : Prop :=
  ∀ ending ∈ stagingEndings, ∀ ending' ∈ stagingEndings,
    stagingName command ending ≠ stagingName other ending'

instance (command other : Command) : Decidable (Apart command other) :=
  inferInstanceAs (Decidable (∀ ending ∈ stagingEndings, ∀ ending' ∈ stagingEndings,
    stagingName command ending ≠ stagingName other ending'))

/-- The kinds of homes, by what comes after the root. -/
inductive IsHome (m : Manager) (command : Command) : Path → Prop where
  | active (name : Bytes) (h : name = lit command.serviceID ∨
      name = lit command.serviceID ++ lit ".previous") : IsHome m command (m.root ++ [name])
  | state (name : Bytes) (h : name = lit command.serviceID ++ lit ".manifest.json" ∨
      name = lit command.serviceID ++ lit ".manifest.json" ++ lit ".tmp") :
      IsHome m command (m.stateDir ++ [name])
  | staging (ending : String) (h : ending ∈ stagingEndings) :
      IsHome m command (m.stagingDir ++ [lit (stagingName command ending)])

variable {p q : Path} {name a b : Bytes} {w : World}

theorem Plain.isHome {m : Manager} {command : Command} (h : Plain command)
    (hp : p ∈ homes m command) : IsHome m command p := by
  rw [h.homes_eq m, List.mem_append] at hp
  rcases hp with hp | hp
  · simp only [List.mem_cons, List.not_mem_nil, or_false] at hp
    rcases hp with rfl | rfl | rfl | rfl
    · exact .active _ (Or.inl rfl)
    · exact .active _ (Or.inr rfl)
    · exact .state _ (Or.inl rfl)
    · exact .state _ (Or.inr rfl)
  · obtain ⟨ending, he, rfl⟩ := List.mem_map.mp hp
    exact .staging ending he

theorem ne_dotted {command : Command} (h : validIdentifier (lit command.serviceID))
    (hname : name = lit command.serviceID ∨ name = lit command.serviceID ++ lit ".previous")
    (rest : Bytes) : name ≠ 0x2e :: rest := by
  obtain ⟨b, tail, hb⟩ := List.exists_cons_of_ne_nil (validIdentifier_iff.mp h).1
  have hdot : b ≠ 0x2e := (ne_of_mem_identifier h (hb ▸ List.mem_cons_self)).1
  rcases hname with rfl | rfl
  · rw [hb]
    exact fun heq => hdot (List.cons.inj heq).1
  · rw [hb]
    exact fun heq => hdot (List.cons.inj heq).1

theorem append_ne_identifier {value start rest : Bytes} (h : validIdentifier value) :
    value ≠ start ++ 0x2e :: rest := by
  rintro rfl
  exact (ne_of_mem_identifier h (List.mem_append_right _ List.mem_cons_self)).1 rfl

variable {m : Manager} {command other : Command}

theorem active_ne (h : Plain command) (ho : Plain other) (hne : command.serviceID ≠ other.serviceID)
    (ha : a = lit command.serviceID ∨ a = lit command.serviceID ++ lit ".previous")
    (hb : b = lit other.serviceID ∨ b = lit other.serviceID ++ lit ".previous") : a ≠ b := by
  have hid : lit command.serviceID ≠ lit other.serviceID := fun heq => hne (lit_injective heq)
  rcases ha with rfl | rfl <;> rcases hb with rfl | rfl
  · exact hid
  · exact append_ne_identifier h.service
  · exact (append_ne_identifier ho.service).symm
  · exact fun heq => hid (List.append_cancel_right heq)

theorem state_ne (hne : command.serviceID ≠ other.serviceID)
    (ha : a = lit command.serviceID ++ lit ".manifest.json" ∨
      a = lit command.serviceID ++ lit ".manifest.json" ++ lit ".tmp")
    (hb : b = lit other.serviceID ++ lit ".manifest.json" ∨
      b = lit other.serviceID ++ lit ".manifest.json" ++ lit ".tmp") : a ≠ b := by
  have hid : lit command.serviceID ≠ lit other.serviceID := fun heq => hne (lit_injective heq)
  have hlast : ∀ s t : Bytes,
      s ++ lit ".manifest.json" ≠ t ++ lit ".manifest.json" ++ lit ".tmp" := by
    intro s t heq
    have hn : (lit ".manifest.json").getLast? = some 0x6e := by decide
    have hp : (lit ".tmp").getLast? = some 0x70 := by decide
    have hlast := congrArg List.getLast? heq
    rw [List.getLast?_append, List.getLast?_append, hn, hp] at hlast
    cases hlast
  rcases ha with rfl | rfl <;> rcases hb with rfl | rfl
  · exact fun heq => hid (List.append_cancel_right heq)
  · exact hlast _ _
  · exact (hlast _ _).symm
  · exact fun heq => hid (List.append_cancel_right (List.append_cancel_right heq))

theorem unrelated_homes (h : Plain command) (ho : Plain other)
    (hne : command.serviceID ≠ other.serviceID) (hap : Apart command other)
    (hp : p ∈ homes m command) (hq : q ∈ homes m other) : Unrelated p q := by
  have hstate : lit ".state" ≠ lit ".staging" := by decide
  cases h.isHome hp with
  | active a ha =>
    cases ho.isHome hq with
    | active b hb => exact unrelated_append (unrelated_of_head (active_ne h ho hne ha hb))
    | state b hb =>
      rw [Manager.stateDir, List.append_assoc]
      exact unrelated_append (unrelated_of_head (ne_dotted h.service ha _))
    | staging e he =>
      rw [Manager.stagingDir, List.append_assoc]
      exact unrelated_append (unrelated_of_head (ne_dotted h.service ha _))
  | state a ha =>
    cases ho.isHome hq with
    | active b hb =>
      rw [Manager.stateDir, List.append_assoc]
      exact unrelated_append (unrelated_of_head (ne_dotted ho.service hb _).symm)
    | state b hb => exact unrelated_append (unrelated_of_head (state_ne hne ha hb))
    | staging e he =>
      rw [Manager.stateDir, Manager.stagingDir, List.append_assoc, List.append_assoc]
      exact unrelated_append (unrelated_of_head hstate)
  | staging e he =>
    cases ho.isHome hq with
    | active b hb =>
      rw [Manager.stagingDir, List.append_assoc]
      exact unrelated_append (unrelated_of_head (ne_dotted ho.service hb _).symm)
    | state b hb =>
      rw [Manager.stateDir, Manager.stagingDir, List.append_assoc, List.append_assoc]
      exact unrelated_append (unrelated_of_head hstate.symm)
    | staging e' he' =>
      refine unrelated_append (unrelated_of_head fun heq => ?_)
      exact hap e he e' he' (lit_injective heq)

/-- No call near the homes of the command touches the path. -/
def Far (m : Manager) (command : Command) (q : Path) : Prop :=
  ∀ (op : Op) (filled : Path → Prop), op.Local (homes m command) filled → op.touches q = false

/-- What lies below a path that is unrelated to the homes is far. -/
theorem far_of_unrelated {home : Path} (h : ∀ b ∈ homes m command, Unrelated b home)
    (hq : home <+: q) : Far m command q := by
  intro op filled hop
  rw [← Bool.not_eq_true]
  intro htouch
  obtain ⟨p, hp, hpq⟩ := Op.names_of_touches htouch
  rcases hop.names p hp with ⟨b, hb, hbp⟩ | ⟨rfl, b, hb, hpb⟩
  · rcases hpq with hpq | hqp
    · exact (h b hb).below (hbp.trans hpq) hq
    · exact (h b hb).below hbp (hq.trans hqp)
  · have hqp : q <+: p := by simpa [Op.touches] using htouch
    exact (h b hb).2 (hq.trans (hqp.trans hpb))

theorem far_of_belongs (h : Plain command) (ho : Plain other)
    (hne : command.serviceID ≠ other.serviceID) (hap : Apart command other)
    (hq : Belongs m other q) : Far m command q := by
  obtain ⟨home, hhome, hq⟩ := hq
  exact far_of_unrelated (fun b hb => unrelated_homes h ho hne hap hb hhome) hq

/-- The path with no name below the root is far from every command. -/
theorem far_nameless (h : Plain command) : Far m command (m.root ++ [[]]) := by
  refine far_of_unrelated (fun b hb => ?_) List.prefix_rfl
  cases h.isHome hb with
  | active name hname =>
    refine unrelated_append (unrelated_of_head ?_)
    have hne := (validIdentifier_iff.mp h.service).1
    rcases hname with rfl | rfl
    · exact hne
    · exact fun heq => hne (List.append_eq_nil_iff.mp heq).1
  | state name hname =>
    rw [Manager.stateDir, List.append_assoc]
    exact unrelated_append (unrelated_of_head (by decide))
  | staging ending he =>
    rw [Manager.stagingDir, List.append_assoc]
    exact unrelated_append (unrelated_of_head (by decide))

/-! ## Drafts -/

def draftFile (m : Manager) (name : Bytes) : Path := m.stagingDir ++ [name, lit "sync.json"]

/-- The drafts on the disk name archives in their own directory only. -/
def TameDrafts (m : Manager) (disk : Disk) : Prop :=
  ∀ name bytes t draft, disk.get (draftFile m name) = some (.file bytes t) →
    unmarshalDraft bytes = some draft →
      ∀ archive ∈ draft.archives, Housed [m.stagingDir ++ [name]] archive

/-- Neither a draft nor above one. -/
def OffDrafts (m : Manager) (p : Path) : Prop := ∀ name, ¬ p <+: draftFile m name

theorem TameDrafts.call (h : TameDrafts m w.disk) {op : Op} (e : Env)
    (hop : ∀ p ∈ op.fills, OffDrafts m p) : TameDrafts m (handle op e w).2.disk := by
  intro name bytes t draft hget hdraft
  rcases file_of_call hget with hget | ⟨p, hp, hpq⟩ | rfl
  · exact h name bytes t draft hget hdraft
  · exact absurd hpq (hop p hp name)
  · have hempty : unmarshalDraft [] = none := rfl
    simp [hempty] at hdraft

/-! ## The bases of a command -/

theorem offDrafts_of_ne_staging {r : Path} (h : a ≠ lit ".staging") :
    OffDrafts m (m.root ++ a :: r) := by
  intro name
  rw [draftFile, Manager.stagingDir, List.append_assoc]
  exact (unrelated_append (unrelated_of_head h)).1

theorem offDrafts_of_ne_draft {r : Path} (h : b ≠ lit "sync.json") :
    OffDrafts m (m.stagingDir ++ name :: b :: r) := by
  intro other hp
  rw [draftFile, List.prefix_append_right_inj, List.cons_prefix_cons, List.cons_prefix_cons] at hp
  exact h hp.2.1

theorem path_eq {serviceID : String} (h : m.path serviceID = .ok p) :
    validIdentifier (lit serviceID) ∧ p = joinPath m.root (lit serviceID) := by
  unfold Manager.path at h
  split at h
  · cases h
  next hvalid =>
    split at h
    · exact ⟨by simpa using hvalid, (Except.ok.inj h).symm⟩
    · cases h

theorem Plain.activeBases (h : Plain command) {workspacePath : Path}
    (hp : m.path command.serviceID = .ok workspacePath) :
    ActiveBases workspacePath (homes m command) (OffDrafts m) := by
  have hname := (path_eq hp).2
  have hpath := workspace_eq m h.service
  constructor
  · exact inside_of_mem (by simp [homes, hname])
  · intro r
    rw [hname, hpath, List.append_assoc]
    exact offDrafts_of_ne_staging (ne_dotted h.service (Or.inl rfl) _)
  · exact inside_of_mem (by simp [homes, hname])
  · rw [hname, hpath, withEnding_append]
    exact offDrafts_of_ne_staging (ne_dotted h.service (Or.inr rfl) _)

theorem Plain.stateBases (h : Plain command) :
    StateBases m command.serviceID (homes m command) (OffDrafts m) := by
  have hpath := restoredPath_eq m h.service
  have hstate : lit ".state" ≠ lit ".staging" := by decide
  constructor
  · exact inside_of_mem (by simp [homes])
  · rw [hpath, Manager.stateDir, List.append_assoc]
    exact offDrafts_of_ne_staging hstate
  · exact inside_of_mem (by simp [homes])
  · rw [hpath, withEnding_append, Manager.stateDir, List.append_assoc]
    exact offDrafts_of_ne_staging hstate

theorem Plain.restoreStaging_eq (h : Plain command) : m.restoreStaging command =
      m.stagingDir ++ [lit (stagingName command "")] := by
  rw [← h.staging_eq m "" (by decide), stagingName, String.append_empty]

/-- The homes of a command hold the staging directories of its restores. -/
theorem Plain.stagingBases (h : Plain command) :
    StagingBases m command (homes m command) (OffDrafts m) := by
  have hbase := h.restoreStaging_eq (m := m)
  have hworld := h.staging_eq m "-world" (by decide)
  have hoff : ∀ {name b : Bytes} (r : Path), b ≠ lit "sync.json" →
      OffDrafts m (m.stagingDir ++ [name] ++ (b :: r)) := by
    intro name b r hb
    rw [List.append_assoc]
    exact offDrafts_of_ne_draft hb
  constructor
  · exact inside_of_mem (by simp [homes])
  · intro name
    rw [hbase]
    exact hoff _ (by decide)
  · intro r
    rw [hbase, List.append_assoc _ _ r]
    exact hoff _ (by decide)
  · rw [hbase]
    exact hoff _ (by decide)
  · exact inside_of_mem (by simp [homes])
  · rw [stagingName] at hworld
    rw [hworld]
    exact hoff _ (by decide)

/-! ## A draft that was saved -/

/-- The root of a manager is a clean path of valid UTF-8. -/
structure Manager.Sound (m : Manager) : Prop where
  steps : ∀ name ∈ m.root, isStep name
  valid : ∀ name ∈ m.root, ValidUtf8 name

theorem valid_pathText (h : ∀ name ∈ p, ValidUtf8 name) : ValidUtf8 (pathText p) := by
  have hslash : ValidUtf8 [slash] := valid_ascii (by decide)
  refine valid_append (s := [slash]) hslash ?_
  induction p with
  | nil => exact valid_nil
  | cons name rest ih =>
    have hname := h name List.mem_cons_self
    cases rest with
    | nil => simpa using hname
    | cons other rest =>
      have hrest := ih (List.forall_mem_cons.mp h).2
      simpa using valid_append hname (valid_append hslash hrest)

theorem isArchiveName.fine (h : isArchiveName name) :
    isStep name ∧ ValidUtf8 name ∧ name ≠ lit "sync.json" := by
  rcases h with rfl | rfl | ⟨index, rfl⟩
  · exact ⟨by decide, valid_lit _, by decide⟩
  · exact ⟨by decide, valid_lit _, by decide⟩
  · have hdigits : slash ∉ padded 3 index := fun hmem =>
      absurd (isDigit_of_mem_padded hmem) (by decide)
    have hending : slash ∉ lit ".tar.zst" := by decide
    refine ⟨?_, valid_append (valid_append (valid_lit _) (valid_padded 3 index)) (valid_lit _), ?_⟩
    · rw [List.append_assoc]
      refine isStep_of_identifier (by decide) ?_
      simp only [List.mem_append, not_or]
      exact ⟨hdigits, hending⟩
    · exact fun heq => absurd (List.cons.inj heq).1 (by decide)

/-- An archive in a staging directory is where a saved draft says it is. -/
theorem housed_of_builtIn (hm : m.Sound) {name : String} (hname : isStep (lit name))
    {archive : Archive} (h : BuiltIn (m.stagingDir ++ [lit name]) archive) :
    Housed [m.stagingDir ++ [lit name]] archive ∧
      ∀ saved : Archive, saved.path = sanitize archive.path →
        Housed [m.stagingDir ++ [lit name]] saved := by
  have hstaging : isStep (lit ".staging") := by decide
  rcases h with hpath | ⟨file, hfile, hpath⟩
  · exact ⟨Or.inl hpath, fun saved hsaved => Or.inl (by rw [hsaved, hpath]; rfl)⟩
  · obtain ⟨hstep, hvalid, -⟩ := hfile.fine
    have hsteps : ∀ n ∈ m.stagingDir ++ [lit name] ++ [file], isStep n := by
      intro n hn
      simp only [Manager.stagingDir, List.mem_append, List.mem_singleton] at hn
      rcases hn with ((hn | rfl) | rfl) | rfl
      · exact hm.steps n hn
      · exact hstaging
      · exact hname
      · exact hstep
    have hvalids : ∀ n ∈ m.stagingDir ++ [lit name] ++ [file], ValidUtf8 n := by
      intro n hn
      simp only [Manager.stagingDir, List.mem_append, List.mem_singleton] at hn
      rcases hn with ((hn | rfl) | rfl) | rfl
      · exact hm.valid n hn
      · exact valid_lit _
      · exact valid_lit _
      · exact hvalid
    have hinside : Inside [m.stagingDir ++ [lit name]] (pathOf archive.path) := by
      rw [hpath, pathOf_pathText hsteps]
      exact (inside_of_mem List.mem_cons_self).append _
    have hsame : sanitize archive.path = archive.path := by
      rw [hpath]
      exact sanitize_of_valid (valid_pathText hvalids)
    exact ⟨Or.inr hinside, fun saved hsaved => Or.inr (by rwa [hsaved, hsame])⟩

/-! ## Calls that keep the drafts tame -/

/-- The handler with a note whether a path was touched. -/
abbrev watch (q : Path) : Handler Op Answer Env (World × Bool) :=
  marked handle.toHandler fun c => c.1.touches q

/-- The drafts are tame and the path was not touched. -/
structure Quiet (m : Manager) (s : World × Bool) : Prop where
  drafts : TameDrafts m s.1.disk
  untouched : s.2 = false

/-- What a program leaves that stays quiet: its value as `ψ` says. -/
def Stays (m : Manager) {α : Type} (ψ : α → Prop) (r : Except String α) (s : World × Bool) : Prop :=
  Quiet m s ∧ ∀ a, r = .ok a → ψ a

/-- The program stays quiet wherever it is cut. -/
abbrev Keeps (m : Manager) (q : Path) {α : Type} (p : M α) (ψ : α → Prop) (s : World × Bool) :
    Prop :=
  Ends (watch q) (fun _ => True) (Quiet m) p (Stays m ψ) s

section Keeps

variable {q : Path} {α β : Type} {ψ : α → Prop} {χ : β → Prop} {s : World × Bool}

theorem watch_eq {op : Op} {e : Env} {r : Answer op} {s' : World × Bool}
    (h : watch q op e s = some (r, s')) :
    handle op e s.1 = (r, s'.1) ∧ s'.2 = (op.touches q || s.2) := by
  simp only [watch, marked, observed, Option.map_some, Option.some.injEq, Prod.mk.injEq] at h
  obtain ⟨hr, rfl⟩ := h
  exact ⟨Prod.ext hr rfl, rfl⟩

theorem Quiet.call (hfar : Far m command q) (hs : Quiet m s) {op : Op}
    (hop : op.Local (homes m command) (OffDrafts m)) {e : Env} {r : Answer op} {s' : World × Bool}
    (h : watch q op e s = some (r, s')) : Quiet m s' := by
  obtain ⟨hh, hmark⟩ := watch_eq h
  constructor
  · have hstate : s'.1 = (handle op e s.1).2 := by rw [hh]
    rw [hstate]
    exact hs.drafts.call e hop.fills
  · rw [hmark, hfar op _ hop, hs.untouched]
    rfl

theorem keeps_of_confined (hfar : Far m command q) {p : M α}
    (hp : Confined (Op.Local (homes m command) (OffDrafts m)) p ψ) (hs : Quiet m s) :
    Keeps m q p ψ s :=
  Confined.ends (fun _ _ _ _ _ hop hs _ h => hs.call hfar hop h) hp hs

theorem keeps_bind {p : M α} {f : α → M β} (hp : Keeps m q p ψ s)
    (hf : ∀ a s, Quiet m s → ψ a → Keeps m q (f a) χ s) : Keeps m q (p >>= f) χ s := by
  refine ends_bind (ends_mono (fun r s hr => ?_) hp)
  cases r with
  | ok a => exact hf a s hr.1 (hr.2 a rfl)
  | error err => exact ⟨hr.1, fun _ heq => nomatch heq⟩

theorem keeps_step (hfar : Far m command q) {p : M α} {f : α → M β}
    (hp : Confined (Op.Local (homes m command) (OffDrafts m)) p ψ) (hs : Quiet m s)
    (hf : ∀ a s, Quiet m s → ψ a → Keeps m q (f a) χ s) : Keeps m q (p >>= f) χ s :=
  keeps_bind (keeps_of_confined hfar hp hs) hf

theorem keeps_guard {c : Prop} {_ : Decidable c} {err : String} {f : Unit → M α} (hs : Quiet m s)
    (h : Keeps m q (f ()) ψ s) : Keeps m q (if c then throw err >>= f else f ()) ψ s := by
  by_cases hc : c
  · rw [if_pos hc]
    exact ends_throw ⟨hs, fun _ heq => nomatch heq⟩
  · rw [if_neg hc]
    exact h

theorem keeps_describing {text : String} {p : M α} (hp : Keeps m q p ψ s) :
    Keeps m q (describing text p) ψ s := by
  intro t
  refine wp_bind.mpr (wp_mono (fun r s t hr => ?_) (hp t))
  cases r with
  | ok a => exact hr
  | error err => exact ⟨hr.1, fun _ heq => nomatch heq⟩

/-- The drafts stay tame when one with archives of its own directory is moved into place. -/
theorem TameDrafts.saved (hm : m.Sound) {d d' : Disk} (hd : TameDrafts m d) {name : String}
    (hname : isStep (lit name)) {draft : SyncDescriptor} {t : Int}
    (hbuilt : ∀ archive ∈ draft.archives, BuiltIn (m.stagingDir ++ [lit name]) archive)
    (htmp : d.get (m.stagingDir ++ [lit name, lit "sync.json.tmp"]) =
      some (.file (marshalDraft draft) t))
    (hr : d.rename (m.stagingDir ++ [lit name, lit "sync.json.tmp"]) (draftFile m (lit name)) =
      some d') : TameDrafts m d' := by
  intro other bytes t' saved hget hsaved archive harchive
  rw [Disk.get_rename hr] at hget
  by_cases hmoved : draftFile m (lit name) <+: draftFile m other
  · -- the draft that was moved
    have hsame : lit name = other := by
      rw [draftFile, draftFile, List.prefix_append_right_inj, List.cons_prefix_cons] at hmoved
      exact hmoved.1
    subst hsame
    rw [if_pos List.prefix_rfl, List.drop_length, List.append_nil, htmp] at hget
    obtain rfl : marshalDraft draft = bytes := by
      injection hget with hget
      injection hget
    have hpath : archive.path ∈ saved.archives.map (·.path) := List.mem_map_of_mem harchive
    rw [paths_of_unmarshalDraft hsaved] at hpath
    obtain ⟨built, hmem, hpath⟩ := List.mem_map.mp hpath
    exact (housed_of_builtIn hm hname (hbuilt built hmem)).2 archive hpath.symm
  · rw [if_neg hmoved] at hget
    split at hget
    · cases hget
    · exact hd other bytes t' saved hget hsaved archive harchive

def syncDir (m : Manager) (command : Command) : Path :=
  m.stagingDir ++ [lit (stagingName command "-sync")]

theorem Plain.syncDir_eq (h : Plain command) :
    m.staging (command.serviceID ++ "-" ++ command.commandID ++ "-sync") = syncDir m command :=
  h.staging_eq m "-sync" (by decide)

theorem Plain.inside_syncDir (h : Plain command) :
    Inside (homes m command) (syncDir m command) := by
  rw [← h.syncDir_eq]
  exact inside_of_mem (by simp [homes])

theorem keeps_saveDraft (hm : m.Sound) (hfar : Far m command q) (h : Plain command)
    {draft : SyncDescriptor}
    (hbuilt : ∀ archive ∈ draft.archives, BuiltIn (syncDir m command) archive) (hs : Quiet m s) :
    Keeps m q (saveJSON (syncDir m command ++ [lit "sync.json"]) (marshalDraft draft))
      (fun _ => True) s := by
  have hin := h.inside_syncDir (m := m)
  have htmp : withEnding (syncDir m command ++ [lit "sync.json"]) ".tmp" =
      m.stagingDir ++ [lit (stagingName command "-sync"), lit "sync.json.tmp"] := by
    rw [withEnding_append, syncDir, List.append_assoc]
    rfl
  have hfile : syncDir m command ++ [lit "sync.json"] =
      draftFile m (lit (stagingName command "-sync")) := List.append_assoc _ _ _
  have hintmp : Inside (homes m command)
      (m.stagingDir ++ [lit (stagingName command "-sync"), lit "sync.json.tmp"]) := by
    simpa [syncDir] using hin.append [lit "sync.json.tmp"]
  refine keeps_step hfar (confined_ask (local_mkdirAll (hin.append _))) hs fun _ s hs _ => ?_
  rw [htmp, hfile]
  have hwrite : (Op.write (m.stagingDir ++ [lit (stagingName command "-sync"),
      lit "sync.json.tmp"]) (marshalDraft draft)).Local (homes m command) (OffDrafts m) :=
    local_write hintmp (offDrafts_of_ne_draft (by decide))
  refine ends_bind (ends_request hs fun e r s' _ hw => ?_)
  have hs' := hs.call hfar hwrite hw
  cases r with
  | error err => exact ⟨hs', fun _ heq => nomatch heq⟩
  | ok _ =>
    obtain ⟨t, hget⟩ := get_of_write (watch_eq hw).1
    refine ends_bind (ends_attempt (ends_request hs' fun e r s'' _ hr => ?_))
    obtain ⟨hh, hmark⟩ := watch_eq hr
    have hs'' : Quiet m s'' := by
      constructor
      · have hstate : s''.1.disk = (s'.1.change e (·.rename _ _)).2.disk :=
          congrArg (fun x => x.2.disk) hh.symm
        rw [hstate]
        rcases change_cases s'.1 e (·.rename _ _) with hd | hd
        · rw [hd]
          exact hs'.drafts
        · exact hs'.drafts.saved hm (h.isStep_staging (by decide)) hbuilt hget hd
      · have hlocal : (Op.rename _ _).Local (homes m command) fun _ => True :=
          local_rename hintmp (hfile ▸ hin.append [lit "sync.json"]) trivial
        rw [hmark, hfar _ _ hlocal, hs'.untouched]
        rfl
    cases r with
    | ok _ => exact ends_pure ⟨hs'', fun _ _ => trivial⟩
    | error err =>
      exact keeps_of_confined hfar
        (confined_dropped (local_near hintmp rfl rfl) fun _ => confined_throw) hs''

theorem keeps_newDraft (hm : m.Sound) (hfar : Far m command q) (h : Plain command)
    {workspacePath : Path} (hp : m.path command.serviceID = .ok workspacePath) (start : Bytes)
    (revision : Int) (hs : Quiet m s) :
    Keeps m q (m.newDraft (syncDir m command) workspacePath start command revision)
      (fun draft => ∀ archive ∈ draft.archives, BuiltIn (syncDir m command) archive) s := by
  have hin := h.inside_syncDir (m := m)
  have hoff : ∀ name, isArchiveName name → OffDrafts m (syncDir m command ++ [name]) := by
    intro name hname
    rw [syncDir, List.append_assoc]
    exact offDrafts_of_ne_draft hname.fine.2.2
  refine keeps_step hfar (confined_describing (confined_ask (local_near hin rfl rfl))) hs
    fun _ s hs (_ : True) => ?_
  refine keeps_step hfar (confined_describing (confined_ask (local_near hin rfl rfl))) hs
    fun _ s hs (_ : True) => ?_
  refine keeps_step hfar (locally (collectFiles_offline (h.activeBases hp).path)) hs
    fun files s hs hfiles => ?_
  refine keeps_step hfar (locally (previousManifest_offline h.stateBases.path)) hs
    fun previous s hs _ => ?_
  refine keeps_step hfar
    (locally (buildManifest_offline start revision previous files.1 hin hoff files.2 hfiles))
    hs fun built s hs hbuilt => ?_
  refine keeps_bind (keeps_describing (keeps_saveDraft hm hfar h hbuilt hs)) fun _ s hs _ => ?_
  exact ends_pure ⟨hs, fun draft heq => Except.ok.inj heq ▸ hbuilt⟩

theorem keeps_loadSyncDescriptor (hfar : Far m command q) (h : Plain command) (revision : Int)
    (hs : Quiet m s) :
    Keeps m q (loadSyncDescriptor (syncDir m command) command revision)
      (fun r => ∀ draft ∈ r, ∀ archive ∈ draft.archives, Housed [syncDir m command] archive) s := by
  have hin := h.inside_syncDir (m := m)
  have hlocal : (Op.read (syncDir m command ++ [lit "sync.json"])).Local (homes m command)
      (OffDrafts m) := local_near (hin.append _) rfl rfl
  have htame : Keeps m q (ask (.read (syncDir m command ++ [lit "sync.json"])))
      (fun r => ∀ data ∈ r, ∀ draft, unmarshalDraft data = some draft →
        ∀ archive ∈ draft.archives, Housed [syncDir m command] archive) s := by
    refine ends_request hs fun e r s' _ hr => ⟨hs.call hfar hlocal hr, ?_⟩
    intro found hfound data hdata draft hdraft
    obtain rfl := hfound
    obtain rfl : found = some data := hdata
    obtain ⟨t, hget⟩ := get_of_read (watch_eq hr).1
    rw [syncDir, List.append_assoc] at hget
    exact hs.drafts _ data t draft hget hdraft
  refine keeps_bind (keeps_describing htame) fun r s hs hr => ?_
  split
  · exact ends_pure ⟨hs, fun r heq => by
      cases heq
      exact fun _ h => nomatch h⟩
  next data =>
    split
    · exact ends_throw ⟨hs, fun _ heq => nomatch heq⟩
    next draft hdraft =>
      have hhoused := hr data rfl draft hdraft
      have hnear : ∀ archive ∈ draft.archives, Housed (homes m command) archive := fun a ha =>
        (hhoused a ha).imp_right fun hi => hi.mono fun b hb => by
          rw [List.mem_singleton.mp hb]
          exact hin
      refine keeps_step hfar (confined_check fun _ _ => trivial) hs fun _ s hs (_ : True) => ?_
      refine keeps_step hfar (locally (verifyArchives_offline _ _ hnear)) hs fun _ s hs _ => ?_
      refine ends_pure ⟨hs, fun r heq => ?_⟩
      cases heq
      intro d hd
      obtain rfl := Option.mem_some_iff.mp hd
      exact hhoused

theorem keeps_syncDraft (hm : m.Sound) (hfar : Far m command q) (h : Plain command)
    (hs : Quiet m s) :
    Keeps m q (m.syncDraft command)
      (fun draft => ∀ archive ∈ draft.archives, Housed [syncDir m command] archive) s := by
  unfold Manager.syncDraft
  refine keeps_guard hs ?_
  refine keeps_guard hs ?_
  refine keeps_step hfar (confined_check fun _ _ => trivial) hs fun start s hs (_ : True) => ?_
  refine keeps_step hfar (confined_check fun p hp => hp) hs fun workspacePath s hs hp => ?_
  have hpath := (h.activeBases hp).path
  have hask : ∀ (text : String) {op : Op}, op.names = [workspacePath] → op.fills = [] →
      Confined (Op.Local (homes m command) (OffDrafts m)) (describing text (ask op))
        fun _ => True :=
    fun text _ hn hf => confined_describing (confined_ask (local_near hpath hn hf))
  refine keeps_step hfar (hask _ rfl rfl) hs fun found s hs _ => ?_
  rw [h.syncDir_eq]
  split
  on_goal 1 =>
    refine keeps_step hfar (hask _ rfl rfl) hs fun _ s hs _ => ?_
    refine keeps_step hfar (hask _ rfl rfl) hs fun _ s hs _ => ?_
  -- with or without a workspace that had to be made, the sync goes on
  all_goals
    refine keeps_step hfar (hask _ rfl rfl) hs fun _ s hs _ => ?_
    refine keeps_bind (keeps_loadSyncDescriptor hfar h _ hs) fun r s hs hr => ?_
    cases r with
    | some draft => exact ends_pure ⟨hs, fun r heq => Except.ok.inj heq ▸ hr draft rfl⟩
    | none =>
      refine ends_mono (fun r s hr => ⟨hr.1, fun draft heq a ha => ?_⟩)
        (keeps_newDraft hm hfar h hp start _ hs)
      exact (housed_of_builtIn hm (h.isStep_staging (by decide)) (hr.2 draft heq a ha)).1

theorem keeps_sync (hm : m.Sound) (hfar : Far m command q) (h : Plain command) (hs : Quiet m s) :
    Keeps m q (m.sync command) (fun _ => True) s := by
  have hin := h.inside_syncDir (m := m)
  refine keeps_bind (keeps_syncDraft hm hfar h hs) fun draft s hs hdraft => ?_
  unfold Manager.syncFrom
  rw [h.syncDir_eq]
  refine keeps_step hfar (publish_local _ draft hin h.stateBases fun a ha =>
    (hdraft a ha).imp_right fun hi => hi.mono fun b hb => List.mem_singleton.mp hb ▸ hin) hs
    fun _ s hs _ => ?_
  exact ends_pure ⟨hs, fun _ _ => trivial⟩

end Keeps

/-! ## Any sequence of tasks -/

/-- What a manager is asked to do. -/
inductive Task where
  | restore
  | sync
  | release
  deriving DecidableEq, Repr

def Manager.task (m : Manager) (command : Command) : Task → M Unit
  | .restore => do let _ ← m.restore command
  | .sync => do let _ ← m.sync command
  | .release => m.release command

/-- A run of a task under the choices of the outside, cut where they end. -/
abbrev Manager.perform (m : Manager) (command : Command) (task : Task) (choices : List Env)
    (w : World) : Option (Except String Unit) × World × Trace Op Answer :=
  run handle.toHandler (m.task command task).run choices w []

theorem keeps_task (hm : m.Sound) (hfar : Far m command q) (h : Plain command)
    (task : Task) {s : World × Bool} (hs : Quiet m s) :
    Keeps m q (m.task command task) (fun _ => True) s := by
  have hdone : ∀ s, Quiet m s → Keeps m q (pure () : M Unit) (fun _ => True) s := fun s hs =>
    ends_pure ⟨hs, fun _ _ => trivial⟩
  cases task with
  | restore =>
    exact keeps_step hfar (restore_local h.stagingBases (fun _ hp => h.activeBases hp) h.stateBases)
      hs fun _ s hs _ => hdone s hs
  | sync => exact keeps_bind (keeps_sync hm hfar h hs) fun _ s hs _ => hdone s hs
  | release =>
    exact keeps_of_confined hfar
      (release_local (fun _ hp => (h.activeBases hp).path) h.stateBases) hs

theorem quiet_perform (hm : m.Sound) (hfar : Far m command q) (h : Plain command)
    (task : Task) (choices : List Env) (hw : TameDrafts m w.disk) :
    TameDrafts m (m.perform command task choices w).2.1.disk ∧
      ∀ c ∈ (m.perform command task choices w).2.2, c.1.touches q = false := by
  have hends := ends_run choices (fun _ _ => trivial) (t := [])
    (keeps_task hm hfar h task (s := (w, false)) ⟨hw, rfl⟩)
  rw [show (w, false) = (w, ([] : Trace Op Answer).any fun c => c.1.touches q) from rfl,
    run_marked] at hends
  have hquiet : Quiet m ((m.perform command task choices w).2.1,
      (m.perform command task choices w).2.2.any fun c => c.1.touches q) := by
    cases hr : (m.perform command task choices w).1 with
    | some r => exact (hends.1 r hr).1
    | none => exact hends.2 hr
  refine ⟨hquiet.drafts, fun c hc => ?_⟩
  have hnone := List.any_eq_false.mp hquiet.untouched c hc
  simpa using hnone

/-- The states that tasks of plain commands can leave, cut anywhere, when nothing else writes below
the staging directory. -/
inductive Reachable (m : Manager) : World → Prop where
  | start (w : World) (h : ∀ name, w.disk.get (draftFile m name) = none) : Reachable m w
  | task (w : World) (command : Command) (task : Task) (choices : List Env) (h : Reachable m w)
      (hc : Plain command) : Reachable m (m.perform command task choices w).2.1
  | other (w w' : World) (h : Reachable m w)
      (hw : ∀ p, m.stagingDir <+: p → w'.disk.get p = w.disk.get p) : Reachable m w'

theorem Reachable.tameDrafts (hm : m.Sound) (h : Reachable m w) : TameDrafts m w.disk := by
  induction h with
  | start w h => exact fun name bytes t draft hget => absurd hget (by simp [h name])
  | task w command task choices h hc ih =>
    exact (quiet_perform hm (far_nameless hc) hc task choices ih).1
  | other w w' h hw ih =>
    intro name bytes t draft hget
    rw [hw (draftFile m name) (List.prefix_append _ _)] at hget
    exact ih name bytes t draft hget

/-- **Services do not touch each other's files**: no call of a restore, a sync or a release of a
command creates, changes, reads or deletes what belongs to a command of another service, whatever
the outside answers and wherever the task is cut, if the IDs of the commands are single names and
the names of the staging directories differ. -/
theorem strangers_untouched (hm : m.Sound) {w : World} (hw : Reachable m w) (hc : Plain command)
    (ho : Plain other) (hne : command.serviceID ≠ other.serviceID) (hap : Apart command other)
    (task : Task) (choices : List Env) {q : Path} (hq : Belongs m other q) :
    ∀ c ∈ (m.perform command task choices w).2.2, c.1.touches q = false :=
  (quiet_perform hm (far_of_belongs hc ho hne hap hq) hc task choices (hw.tameDrafts hm)).2

/-- A manager of the directory `/srv`. -/
def srvManager : Manager := ⟨[lit "srv"], ⟨fun _ => [], fun _ => ([], true), fun _ => none⟩⟩

def syncOf (serviceID commandID : String) : Command :=
  { kind := .stopAndSync, serviceID, commandID, assignmentID := "1", accountID := "acc",
    workspace := { objectPrefix := "shared-hosting/acc/" ++ serviceID }, workspaceGiB := 1 }

/-- An archive that a sync of service `a-b` with command `c` had built when it was cut. -/
def builtArchive : Path := syncDir srvManager (syncOf "a-b" "c") ++ [lit "content.tar.zst"]

def halfSynced : World where
  disk := ((Disk.empty.mkdirAll builtArchive.dropLast).bind (·.create builtArchive [1] 0)).getD
    .empty
  objects _ := none
  restored _ := none

theorem reachable_halfSynced : Reachable srvManager halfSynced := by
  have hall : ∀ p ∈ halfSynced.disk.support, p.getLast? ≠ some (lit "sync.json") := by decide
  refine .start _ fun name => ?_
  by_contra hget
  exact hall _ (halfSynced.disk.covers _ hget) (by simp [draftFile])

/-- Nothing is wrong with the outside. -/
def calmEnv : Env := { broker := fun _ _ => .ok [] }

theorem strangers_untouched_world :
    ((srvManager.perform (syncOf "a" "c") .sync (List.replicate 6 calmEnv) halfSynced).2.2.any
      fun c => c.1.touches builtArchive) = false := by
  have hm : srvManager.Sound := by
    constructor
    · decide
    · intro name hname
      rw [List.mem_singleton.mp hname]
      exact valid_lit "srv"
  have hbelongs : Belongs srvManager (syncOf "a-b" "c") builtArchive :=
    ⟨syncDir srvManager (syncOf "a-b" "c"), by decide, by decide⟩
  have hplain : Plain (syncOf "a" "c") := ⟨by decide, by decide⟩
  have hcalls := strangers_untouched hm reachable_halfSynced hplain ⟨by decide, by decide⟩
    (by decide) (by decide) .sync (List.replicate 6 calmEnv) hbelongs
  exact List.any_eq_false.mpr fun c hc => by simp [hcalls c hc]

/-- Services `a` with command `b-c` and `a-b` with command `c` share their staging directories: a
sync of the first deletes the archives of the second. -/
theorem shared_staging :
    Plain (syncOf "a" "b-c") ∧ Plain (syncOf "a-b" "c") ∧ Reachable srvManager halfSynced ∧
      Belongs srvManager (syncOf "a-b" "c") builtArchive ∧
      halfSynced.disk.get builtArchive = some (.file [1] 0) ∧
      (srvManager.perform (syncOf "a" "b-c") .sync (List.replicate 6 calmEnv)
        halfSynced).2.1.disk.get builtArchive = none :=
  ⟨⟨by decide, by decide⟩, ⟨by decide, by decide⟩, reachable_halfSynced,
    ⟨syncDir srvManager (syncOf "a-b" "c"), by decide, by decide⟩, by decide, by decide⟩

end SharedNode.Workspace
