import SharedNode.Workspace.Territory

/-!
# A restore that fails

What is in the active workspace after `Restore` (`internal/workspace/workspace.go`) has returned an
error, on a disk that does not fail: whatever the broker, the store and the quota helper do, it is
what was there before (`failed_restore_keeps_workspace`), as long as nothing can fail once the
restored directory is in place (`Unhindered`), or the broker never grants the first object. What
comes after the exchange is the rest of revision zero, the saved manifest and the ownership of the
new directory; there is no way back from there (`failed_quota_loses_workspace`).

The exchange of the directories is followed by its states: `Still` before it, `Aside` while the old
workspace is put aside, `Exchanged` after it.
-/

namespace SharedNode.Workspace

open Text ControlPlane Storage Effect

variable {staging : Path} {F : World → Prop}

/-- The workspace of a service. -/
def Manager.activeDir (m : Manager) (command : Command) : Path := m.root ++ [lit command.serviceID]

/-- Where the replaced workspace of a service is put. -/
def Manager.backupDir (m : Manager) (command : Command) : Path :=
  m.root ++ [lit command.serviceID ++ lit ".previous"]

variable {m : Manager} {command : Command} {d₀ d d' : Disk}

/-- The staging directories of a restore. -/
def stagings (m : Manager) (command : Command) : List Path :=
  [m.restoreStaging command, m.staging (command.serviceID ++ "-" ++ command.commandID ++ "-world")]

/-- A command of a valid service whose ID leads to directories below `.staging`. -/
structure Staged (m : Manager) (command : Command) : Prop where
  service : validIdentifier (lit command.serviceID)
  below : ∀ b ∈ stagings m command, m.stagingDir <+: b

theorem Staged.prefix_base (h : Staged m command) (r : Path) :
    m.stagingDir <+: m.restoreStaging command ++ r :=
  (h.below _ List.mem_cons_self).trans (List.prefix_append _ r)

theorem unrelated_active_backup (h : Staged m command) :
    Unrelated (m.activeDir command) (m.backupDir command) :=
  unrelated_append (unrelated_of_head (append_ne_identifier h.service))

theorem unrelated_staging_active (h : Staged m command) :
    Unrelated m.stagingDir (m.activeDir command) :=
  unrelated_append (unrelated_of_head (ne_dotted h.service (Or.inl rfl) _).symm)

theorem unrelated_staging_backup (h : Staged m command) :
    Unrelated m.stagingDir (m.backupDir command) :=
  unrelated_append (unrelated_of_head (ne_dotted h.service (Or.inr rfl) _).symm)

theorem Unrelated.append {p q : Path} (h : Unrelated p q) (r : Path) : Unrelated p (q ++ r) := by
  constructor
  · intro hp
    rcases List.prefix_or_prefix_of_prefix hp (List.prefix_append q r) with hpq | hqp
    · exact h.1 hpq
    · exact h.2 hqp
  · exact fun hq => h.2 ((List.prefix_append q r).trans hq)

/-! ## Before the exchange -/

/-- Nothing has changed but below the staging directory. -/
def Still (m : Manager) (d₀ d : Disk) : Prop :=
  ∀ q, Unrelated m.stagingDir q → d.get q = d₀.get q

/-- The workspace holds what it held. -/
def Kept (m : Manager) (command : Command) (d₀ : Disk) (w : World) : Prop :=
  ∀ r, w.disk.get (m.activeDir command ++ r) = d₀.get (m.activeDir command ++ r)

theorem Still.kept (h : Staged m command) {w : World} (hs : Still m d₀ w.disk) :
    Kept m command d₀ w := fun r => hs _ ((unrelated_staging_active h).append r)

theorem Still.call (h : Staged m command) (hs : Still m d₀ d) {w : World}
    (hw : w.disk = d) {op : Op} (hop : op.Local (stagings m command) fun _ => True) (e : Env) :
    Still m d₀ (handle op e w).2.disk := by
  intro q hq
  rw [get_call ?_ e w, hw]
  · exact hs q hq
  rw [← Bool.not_eq_true]
  intro htouch
  obtain ⟨p, hp, hpq⟩ := Op.names_of_touches htouch
  rcases hop.names p hp with ⟨b, hb, hbp⟩ | ⟨rfl, b, hb, hpb⟩
  · rcases hpq with hpq | hqp
    · exact hq.1 ((h.below b hb).trans (hbp.trans hpq))
    · exact hq.below ((h.below b hb).trans hbp) hqp
  · have hqp : q <+: p := by simpa [Op.touches] using htouch
    exact hq.below (h.below b hb) (hqp.trans hpb)

/-- Of the local calls, only those of `fails` to the quota helper may fail, and a pause may be cut
short. -/
def quotaMay (fails : QuotaCall → Bool) : Op → Bool
  | .quota call _ => fails call
  | .sleep _ => true
  | _ => false

theorem calm_quotaMay {fails : QuotaCall → Bool} : Calm (quotaMay fails) F := by
  refine Or.inl fun op hdisk => ?_
  cases op with
  | quota call p => simp [Op.isDisk] at hdisk
  | sleep n => simp [Op.isDisk] at hdisk
  | _ => rfl

variable {fails : QuotaCall → Bool} {E : Env → Prop} {w : World} {α β : Type}

theorem yields_staging (h : Staged m command) {p : M α} {ψ : α → Prop}
    (hp : Confined (Op.Local (stagings m command) fun _ => True) p ψ) (hs : Still m d₀ w.disk) :
    Yields (handleSettled (quotaMay fails)) E (Kept m command d₀) p
      (fun a w => Still m d₀ w.disk ∧ ψ a) w :=
  yields_imp (fun _ _ hw => hw) (fun _ hs => Still.kept h hs)
    (Confined.yields (I := fun w : World => Still m d₀ w.disk)
      (fun _ _ _ hop hs _ => hs.call h rfl hop _) hp hs)

/-- A program that works in the staging directories only, continued. -/
theorem yields_staging_bind (h : Staged m command) {p : M α} {f : α → M β} {ψ : α → Prop}
    {Q : β → World → Prop} (hp : Confined (Op.Local (stagings m command) fun _ => True) p ψ)
    (hs : Still m d₀ w.disk)
    (hf : ∀ a w, Still m d₀ w.disk → ψ a →
      Yields (handleSettled (quotaMay fails)) E (Kept m command d₀) (f a) Q w) :
    Yields (handleSettled (quotaMay fails)) E (Kept m command d₀) (p >>= f) Q w :=
  yields_bind (yields_mono (fun a w hw => hf a w hw.1 hw.2) (yields_staging h hp hs))

/-! ## The exchange -/

/-- The old workspace is where the backup is, and nothing is in its place. -/
structure Aside (m : Manager) (command : Command) (d₀ d : Disk) : Prop where
  active : ∀ r, d.get (m.activeDir command ++ r) = none
  backup : ∀ r, d.get (m.backupDir command ++ r) = d₀.get (m.activeDir command ++ r)
  rest : ∀ q, Unrelated m.stagingDir q → Unrelated (m.activeDir command) q →
    Unrelated (m.backupDir command) q → d.get q = d₀.get q

structure Placed (m : Manager) (command : Command) (d₀ d : Disk) : Prop where
  active : d.get (m.activeDir command) ≠ none
  rest : ∀ q, Unrelated m.stagingDir q → Unrelated (m.activeDir command) q →
    Unrelated (m.backupDir command) q → d.get q = d₀.get q

/-- The old workspace is where the backup is, and something is in its place. -/
structure Exchanged (m : Manager) (command : Command) (d₀ d : Disk) : Prop
    extends Placed m command d₀ d where
  backup : ∀ r, d.get (m.backupDir command ++ r) = d₀.get (m.activeDir command ++ r)

theorem Unrelated.ne_nil {p q : Path} (h : Unrelated p q) : p ≠ [] := by
  rintro rfl
  exact h.1 List.nil_prefix

theorem get_eq_none_of_active (h : d₀.get (m.activeDir command) = none) (r : Path) :
    d₀.get (m.activeDir command ++ r) = none := by
  by_cases hr : r = []
  · simpa [hr] using h
  · exact Disk.get_below_eq_none (by simp [h]) (List.prefix_append _ r) (by simpa using hr)

/-- **The way back.** Moving the backup to where the workspace was restores it, if there was one. -/
theorem Aside.putBack (h : Staged m command) (ha : Aside m command d₀ d) :
    (∀ d', d.rename (m.backupDir command) (m.activeDir command) = some d' →
        ∀ r, d'.get (m.activeDir command ++ r) = d₀.get (m.activeDir command ++ r)) ∧
      (d.rename (m.backupDir command) (m.activeDir command) = none →
        ∀ r, d.get (m.activeDir command ++ r) = d₀.get (m.activeDir command ++ r)) := by
  constructor
  · intro d' hd r
    rw [Disk.get_rename hd, if_pos (List.prefix_append _ r), List.drop_left, ha.backup]
  · intro hnone r
    rw [ha.active, get_eq_none_of_active]
    by_contra hwas
    -- there is a backup, so the rename succeeds
    have hbackup : d.get (m.backupDir command) = d₀.get (m.activeDir command) := by
      simpa using ha.backup []
    have hactive : d.get (m.activeDir command) = none := by simpa using ha.active []
    have hparent : d.get m.root = some .dir := d.grounded _ _ (hbackup ▸ hwas)
    have hunrelated := unrelated_active_backup h
    obtain ⟨d', hd⟩ := Disk.exists_rename (d := d) (p := m.backupDir command)
      (q := m.activeDir command) ⟨hunrelated.symm.ne_nil, hunrelated.ne_nil, hunrelated.2,
        by rwa [Manager.activeDir, List.dropLast_concat],
        by rw [hactive, hbackup]; exact Option.isSome_iff_ne_none.mpr hwas,
        d₀.named _ hwas⟩
    simp [hd] at hnone

theorem Still.aside (h : Staged m command) (hs : Still m d₀ d)
    (hd : (d.removeAll (m.backupDir command)).rename (m.activeDir command) (m.backupDir command) =
      some d') : Aside m command d₀ d' := by
  have hab := unrelated_active_backup h
  have hget : ∀ q, ¬ m.backupDir command <+: q →
      (d.removeAll (m.backupDir command)).get q = d.get q := fun q hq =>
    if_neg fun hp => hq hp.1
  constructor
  · intro r
    rw [Disk.get_rename hd, if_neg (hab.symm.append r).1, if_pos (List.prefix_append _ r)]
  · intro r
    rw [Disk.get_rename hd, if_pos (List.prefix_append _ r), List.drop_left,
      hget _ (hab.symm.append r).1, hs _ ((unrelated_staging_active h).append r)]
  · intro q hq hactive hbackup
    rw [Disk.get_rename hd, if_neg hbackup.1, if_neg hactive.1, hget q hbackup.1, hs q hq]

theorem Still.aside_nothing (h : Staged m command) (hs : Still m d₀ d)
    (hnone : d.get (m.activeDir command) = none) :
    Aside m command d₀ (d.removeAll (m.backupDir command)) := by
  have hab := unrelated_active_backup h
  have hwas : d₀.get (m.activeDir command) = none := by
    rw [← hs _ (unrelated_staging_active h), hnone]
  constructor
  · intro r
    rw [Disk.get_removeAll, if_neg fun hp => (hab.symm.append r).1 hp.1,
      hs _ ((unrelated_staging_active h).append r), get_eq_none_of_active hwas]
  · intro r
    have hne := List.append_ne_nil_of_left_ne_nil hab.symm.ne_nil r
    rw [Disk.get_removeAll, if_pos ⟨List.prefix_append _ r, hne⟩, get_eq_none_of_active hwas]
  · intro q hq hactive hbackup
    rw [Disk.get_removeAll, if_neg fun hp => hbackup.1 hp.1, hs q hq]

theorem Aside.exchanged (h : Staged m command) (ha : Aside m command d₀ d)
    (hstaging : m.stagingDir <+: staging) (hd : d.rename staging (m.activeDir command) = some d') :
    Exchanged m command d₀ d' := by
  have hsource := (Disk.rename_eq_some hd).2.2.2.2.1
  have hgone : ∀ q, Unrelated m.stagingDir q → ¬ staging <+: q := fun q hq hp =>
    hq.1 (hstaging.trans hp)
  refine ⟨⟨?_, ?_⟩, ?_⟩
  · rw [Disk.get_rename hd, if_pos List.prefix_rfl, List.drop_length, List.append_nil]
    have hactive : d.get (m.activeDir command) = none := by simpa using ha.active []
    rw [hactive] at hsource
    exact Option.isSome_iff_ne_none.mp hsource
  · intro q hq hactive hbackup
    rw [Disk.get_rename hd, if_neg hactive.1, if_neg (hgone q hq), ha.rest q hq hactive hbackup]
  · intro r
    rw [Disk.get_rename hd, if_neg ((unrelated_active_backup h).append r).1,
      if_neg (hgone _ ((unrelated_staging_backup h).append r)), ha.backup]

theorem Exchanged.aside (h : Staged m command) (hx : Exchanged m command d₀ d) :
    Aside m command d₀ (d.removeAll (m.activeDir command)) := by
  have hab := unrelated_active_backup h
  constructor
  · intro r
    have hne := List.append_ne_nil_of_left_ne_nil hab.ne_nil r
    rw [Disk.get_removeAll, if_pos ⟨List.prefix_append _ r, hne⟩]
  · intro r
    rw [Disk.get_removeAll, if_neg fun hp => (hab.append r).1 hp.1, hx.backup]
  · intro q hq hactive hbackup
    rw [Disk.get_removeAll, if_neg fun hp => hactive.1 hp.1, hx.rest q hq hactive hbackup]

/-! ## Activation -/

/-- The call leaves the world as it is. -/
def Op.Observes : Op → Prop
  | .stat _ | .quota _ _ => True
  | _ => False

theorem yields_seal (hF : F w) (p : Path) :
    Yields (handleSettled (quotaMay fails)) E F (sealReplacedWorkspaces p)
      (fun _ w' => w' = w) w := by
  have hconfined : Confined Op.Observes (sealReplacedWorkspaces p) fun _ => True := by
    have hstat : ∀ p, Op.Observes (.stat p) := fun _ => trivial
    have hquota : ∀ call p, Op.Observes (.quota call p) := fun _ _ => trivial
    refine (confined_forIn fun p _ _ => ?_).bind fun _ (_ : True) => confined_pure trivial
    refine (confined_describing (confined_ask (hstat p))).bind fun r (_ : True) => ?_
    split
    · exact confined_pure trivial
    · refine (confined_describing (confined_ask (hquota _ _))).bind fun _ (_ : True) => ?_
      exact confined_pure trivial
    · exact confined_throw
  refine yields_imp (fun _ _ h => h.1) (fun w' h => ?_)
    (Confined.yields (I := (· = w)) ?_ hconfined rfl)
  · exact (show w' = w from h) ▸ hF
  · rintro op e s hop rfl -
    cases op with
    | stat p => rfl
    | quota call p => rfl
    | _ => exact hop.elim

theorem withEnding_activeDir : withEnding (m.activeDir command) ".previous" = m.backupDir command :=
  withEnding_append _ _ _

theorem Aside.kept_of_no_backup (ha : Aside m command d₀ w.disk)
    (hnone : ∀ node, w.disk.get (m.backupDir command) ≠ some node) : Kept m command d₀ w := by
  intro r
  have hbackup : d₀.get (m.activeDir command) = none := by
    have hget := ha.backup []
    rw [List.append_nil, List.append_nil] at hget
    rw [← hget]
    exact Option.eq_none_iff_forall_ne_some.mpr hnone
  rw [ha.active, get_eq_none_of_active hbackup]

/-- The backup is moved to where the workspace was, whatever comes of it. -/
theorem Aside.yields_putBack (h : Staged m command) (ha : Aside m command d₀ w.disk) :
    Yields (handleSettled (quotaMay fails)) E F
      (attempt (ask (.rename (m.backupDir command) (m.activeDir command))))
      (fun _ w => Kept m command d₀ w) w :=
  yields_attempt (yields_rename calm_quotaMay (fun d hd => (ha.putBack h).1 d hd)
    fun hd _ => (ha.putBack h).2 hd)

/-- `replaceWorkspaceWithBackup`: the workspace is exchanged, or is back in its place. -/
theorem yields_replace (h : Staged m command) (hstaging : m.stagingDir <+: staging)
    (hs : Still m d₀ w.disk) :
    Yields (handleSettled (quotaMay fails)) E (Kept m command d₀)
      (replaceWorkspaceWithBackup staging (m.activeDir command))
      (fun backup w => backup = m.backupDir command ∧ Exchanged m command d₀ w.disk) w := by
  unfold replaceWorkspaceWithBackup
  generalize hb : withEnding (m.activeDir command) ".previous" = backup
  rw [withEnding_activeDir] at hb
  subst hb
  have hkept : Kept m command d₀ { w with disk := w.disk.removeAll (m.backupDir command) } := by
    intro r
    have hfar := ((unrelated_active_backup h).symm.append r).1
    exact (if_neg fun hp => hfar hp.1).trans (hs.kept h r)
  have hactive : (w.disk.removeAll (m.backupDir command)).get (m.activeDir command) =
      w.disk.get (m.activeDir command) := if_neg fun hp => (unrelated_active_backup h).2 hp.1
  refine yields_bind (yields_removeAll calm_quotaMay ?_)
  refine yields_bind (yields_attempt (yields_stat calm_quotaMay ?_))
  rw [hactive]
  cases hget : w.disk.get (m.activeDir command)
  on_goal 1 => have haside := hs.aside_nothing h hget
  on_goal 2 =>
    refine yields_bind (yields_describing
      (yields_rename calm_quotaMay (fun d hd => ?_) fun _ => hkept))
    have haside := hs.aside h hd
  -- with or without a workspace that was put aside, the staged directory is then moved
  all_goals
    refine yields_bind (yields_attempt
      (yields_rename calm_quotaMay (fun d hd => ?_) fun _ err => ?_))
    · exact yields_pure ⟨rfl, haside.exchanged h hstaging hd⟩
    · refine yields_bind (yields_attempt (yields_stat calm_quotaMay ?_))
      split
      · exact yields_bind (yields_mono (fun _ _ hw => yields_throw hw) (haside.yields_putBack h))
      next hnone => exact yields_throw (haside.kept_of_no_backup fun node heq =>
          hnone node (congrArg Except.ok heq))

theorem Placed.removeAll_backup (h : Staged m command) (hp : Placed m command d₀ d) :
    Placed m command d₀ (d.removeAll (m.backupDir command)) := by
  constructor
  · rw [Disk.get_removeAll, if_neg fun hb => (unrelated_active_backup h).2 hb.1]
    exact hp.active
  · intro q hq hactive hbackup
    rw [Disk.get_removeAll, if_neg fun hb => hbackup.1 hb.1, hp.rest q hq hactive hbackup]

/-- `activateStaging`: the staged directory is in place, or the workspace is back. -/
theorem yields_activateStaging (h : Staged m command) (hstaging : m.stagingDir <+: staging)
    (hs : Still m d₀ w.disk) :
    Yields (handleSettled (quotaMay fails)) E (Kept m command d₀)
      (activateStaging command staging (m.activeDir command))
      (fun _ w => Placed m command d₀ w.disk) w := by
  refine yields_bind (yields_mono (fun _ w' hw => ?_) (yields_seal (hs.kept h) _))
  subst hw
  refine yields_bind (yields_mono (fun backup w hw => ?_) (yields_replace h hstaging hs))
  obtain ⟨rfl, hx⟩ := hw
  refine yields_bind (yields_attempt (yields_quota ?_ fun _ err => ?_))
  · refine yields_bind (yields_attempt (yields_removeAll calm_quotaMay ?_))
    exact yields_pure (hx.toPlaced.removeAll_backup h)
  · refine yields_bind (yields_attempt (yields_removeAll calm_quotaMay ?_))
    exact yields_bind (yields_mono (fun _ _ hw => yields_throw hw) ((hx.aside h).yields_putBack h))

/-- `activateEmptyWorkspace`: the empty directory is in place, or the workspace is back. -/
theorem yields_activateEmptyWorkspace (h : Staged m command) (hs : Still m d₀ w.disk) :
    Yields (handleSettled (quotaMay fails)) E (Kept m command d₀)
      (m.activateEmptyWorkspace command (m.activeDir command)) (fun _ _ => True) w := by
  have hin : Inside (stagings m command) (m.restoreStaging command) :=
    inside_of_mem List.mem_cons_self
  refine yields_staging_bind h (confined_ask (local_near (hin.append _) rfl rfl)) hs
    fun _ w hs _ => ?_
  refine yields_staging_bind h (confined_ask (local_near (hin.append _) rfl rfl)) hs
    fun _ w hs _ => ?_
  refine yields_bind (yields_mono (fun _ w' hw => ?_) (yields_seal (hs.kept h) _))
  subst hw
  refine yields_bind (yields_mono (fun backup w hw => ?_) (yields_replace h (h.prefix_base _) hs))
  exact yields_removeAll calm_quotaMay trivial

/-! ## After the exchange -/

/-- Nothing is in the way of the saved manifest. -/
structure Savable (m : Manager) (command : Command) (d : Disk) : Prop where
  dir : d.get m.stateDir = none ∨ d.get m.stateDir = some .dir
  tmp : Disk.isWritable
    (d.get (m.stateDir ++ [lit command.serviceID ++ lit ".manifest.json" ++ lit ".tmp"]))
  file : d.get (m.stateDir ++ [lit command.serviceID ++ lit ".manifest.json"]) ≠ some .dir

/-- What is below the directory of saved manifests is apart from the staging directory, the
workspace and the backup. -/
theorem Placed.get_state (h : Staged m command) (hp : Placed m command d₀ d) (r : Path) :
    d.get (m.stateDir ++ r) = d₀.get (m.stateDir ++ r) := by
  have hapart : ∀ {a : Bytes}, a ≠ lit ".state" → Unrelated (m.root ++ [a]) (m.stateDir ++ r) := by
    intro a ha
    rw [Manager.stateDir, List.append_assoc]
    exact unrelated_append (unrelated_of_head ha)
  exact hp.rest _ (hapart (by decide)) (hapart (ne_dotted h.service (Or.inl rfl) _))
    (hapart (ne_dotted h.service (Or.inr rfl) _))

/-- Once something is in place of the workspace, the manifest can be saved. -/
theorem Placed.yields_persist (h : Staged m command) (hp : Placed m command d₀ d) (hw : w.disk = d)
    (hsave : Savable m command d₀) (manifest : WorkspaceManifest) :
    Yields (handleSettled (quotaMay fails)) E F (m.persistRestored command.serviceID manifest)
      (fun _ _ => True) w := by
  subst hw
  have hroot : w.disk.get m.root = some .dir := w.disk.grounded _ _ hp.active
  have hlegalRoot : m.root.all isLegalName := by
    have hall := w.disk.named _ hp.active
    rw [Manager.activeDir, List.all_append, Bool.and_eq_true] at hall
    exact hall.1
  have hlegalDir : m.stateDir.all isLegalName := by
    rw [Manager.stateDir, List.all_append, Bool.and_eq_true]
    exact ⟨hlegalRoot, by decide⟩
  have hlegal : ∀ rest, slash ∉ rest ∧ 0 ∉ rest →
      (m.stateDir ++ [lit command.serviceID ++ rest]).all isLegalName := by
    intro rest hrest
    rw [List.all_append, Bool.and_eq_true]
    exact ⟨hlegalDir, by simpa using isLegalName_of_identifier h.service hrest⟩
  have hfree : Free m.stateDir (lit command.serviceID ++ lit ".manifest.json") w.disk := by
    constructor
    · intro q hq
      rcases List.prefix_concat_iff.mp hq with rfl | hq
      · have hget := hp.get_state h []
        rw [List.append_nil] at hget
        exact hget ▸ hsave.dir
      · by_cases heq : q = m.root
        · exact Or.inr (heq ▸ hroot)
        · exact Or.inr (Disk.dir_of_below hq heq (by simp [hroot]))
    · exact hlegal _ (by decide)
    · rw [List.append_assoc]
      exact hlegal _ (by decide)
    · rw [hp.get_state h]
      exact hsave.tmp
    · rw [hp.get_state h]
      exact hsave.file
  unfold Manager.persistRestored
  refine yields_guard (fun hc => absurd h.service (by simpa using hc)) fun _ => ?_
  rw [restoredPath_eq m h.service]
  exact yields_saveJSON calm_quotaMay hfree fun _ _ => trivial

/-! ## Restore -/

theorem stagings_bases (m : Manager) (command : Command) :
    StagingBases m command (stagings m command) fun _ => True :=
  ⟨inside_of_mem List.mem_cons_self, fun _ => trivial, fun _ => trivial, trivial,
    inside_of_mem (List.mem_cons_of_mem _ List.mem_cons_self), trivial⟩

theorem yields_cleaned (h : Staged m command) {p : M Unit}
    (hp : Yields (handleSettled (quotaMay fails)) E (Kept m command d₀) p (fun _ _ => True) w) :
    Yields (handleSettled (quotaMay fails)) E (Kept m command d₀)
      (deferred (ask (.removeAll (m.restoreStaging command))) p)
      (fun _ _ => True) w := by
  refine yields_deferred (yields_mono (fun _ _ _ => yields_removeAll calm_quotaMay trivial) hp)
    fun w hw => ?_
  refine yields_removeAll calm_quotaMay fun r => ?_
  have hfar : ¬ m.restoreStaging command <+:
      m.activeDir command ++ r := by
    intro hp
    have hbase := h.prefix_base []
    rw [List.append_nil] at hbase
    exact ((unrelated_staging_active h).append r).1 (hbase.trans hp)
  exact (if_neg fun hp => hfar hp.1).trans (hw r)

/-- Nothing can fail once the restored directory is in place: there is no initial world to add, the
quota helper does its part, and nothing is in the way of the saved manifest. -/
structure Unhindered (m : Manager) (fails : QuotaCall → Bool) (command : Command) (d : Disk) :
    Prop where
  world : command.workspace.revision ≠ 0 ∨ command.initialWorld = none
  prepare : fails .prepare = false
  apply : command.workspace.revision = 0 → command.runtimeContent = none →
    fails (.apply command.workspaceGiB) = false
  save : Savable m command d

section Restore

variable (h : Staged m command)

include h

theorem yields_restoreInitialRuntimeContent (content : WorkspaceBlob)
    (hsave : Savable m command d₀) (hs : Still m d₀ w.disk) :
    Yields (handleSettled (quotaMay fails)) E (Kept m command d₀)
      (m.restoreInitialRuntimeContent command content (m.activeDir command))
      (fun _ _ => True) w := by
  have hbases := stagings_bases m command
  have hclean : ∀ {op : Op}, op.names = [m.restoreStaging command] →
      op.fills = [] →
        Confined (Op.Local (stagings m command) fun _ => True) (ask op) fun _ => True :=
    fun hn hf => confined_ask (local_near hbases.base hn hf)
  refine yields_staging_bind h (confined_check fun _ _ => trivial) hs fun _ w hs (_ : True) => ?_
  refine yields_staging_bind h (confined_describing (confined_ask (local_far rfl))) hs
    fun _ w hs (_ : True) => ?_
  refine yields_staging_bind h (confined_check fun _ _ => trivial) hs
    fun grant w hs (_ : True) => ?_
  refine yields_staging_bind h (hclean rfl rfl) hs fun _ w hs _ => yields_cleaned h ?_
  refine yields_staging_bind h (hclean rfl rfl) hs fun _ w hs _ => ?_
  refine yields_staging_bind h (downloadArchiveWithGrant_local content (hbases.base.append _)
    hbases.content fun _ => confined_pure trivial) hs fun result w hs _ => ?_
  refine yields_guard (fun _ => hs.kept h) fun _ => ?_
  refine yields_staging_bind h (extractArchive_local m content [] _ false (hbases.base.append _)
    (hbases.base.append _) hbases.tree) hs fun _ w hs _ => ?_
  refine yields_bind (yields_mono (fun _ w hp => ?_)
    (yields_activateStaging h (h.prefix_base _) hs))
  refine yields_bind (yields_remember ?_)
  exact hp.yields_persist h (by rfl) hsave _

theorem yields_restoreRevision (hprepare : fails .prepare = false) (hsave : Savable m command d₀)
    (hs : Still m d₀ w.disk) :
    Yields (handleSettled (quotaMay fails)) E (Kept m command d₀)
      (m.restoreRevision command (m.activeDir command)) (fun _ _ => True) w := by
  have hbases := stagings_bases m command
  refine yields_staging_bind h fetchManifest_local hs fun manifest w hs _ => ?_
  refine yields_staging_bind h
    (confined_describing (confined_ask (local_near hbases.base rfl rfl))) hs
    fun _ w hs (_ : True) => yields_cleaned h ?_
  refine yields_staging_bind h (confined_describing
    (confined_ask (local_near (hbases.base.append _) rfl rfl))) hs fun _ w hs (_ : True) => ?_
  refine yields_staging_bind h (restoreBatches_local manifest _ _ hbases) hs fun x w hs _ => ?_
  refine yields_guard (fun _ => hs.kept h) fun _ => ?_
  refine yields_bind (yields_mono (fun _ w hp => ?_)
    (yields_activateStaging h (h.prefix_base _) hs))
  refine yields_bind (yields_remember ?_)
  refine yields_bind (yields_mono (fun _ w _ => ?_) (hp.yields_persist h (by rfl) hsave _))
  exact yields_describing (yields_quota trivial (by simp [quotaMay, hprepare]))

end Restore

/-- The object a restore asks the broker for before it touches the disk. -/
def firstKey (command : Command) : Option Bytes :=
  if command.workspace.revision = 0 then command.runtimeContent.map (·.key)
  else some (manifestKey (lit command.workspace.objectPrefix) command.workspace.revision)

/-- No answer of the broker grants the object. -/
def Denies (key : Bytes) (e : Env) : Prop :=
  ∀ objects request response, e.broker objects request = .ok response →
    ∀ grant, oneGrant response key .get ≠ .ok grant

theorem yields_denied {key : Bytes} {request : GrantRequest} {text : String} {f : Grant → M α}
    {Q : α → World → Prop} (hE : ∀ e, E e → Denies key e) (hF : F w) :
    Yields (handleSettled (quotaMay fails)) E F (do
      let response ← describing text (ask (.grants request))
      let grant ← check (oneGrant response key .get)
      f grant) Q w := by
  refine yields_bind (yields_describing (yields_request (fun e response w' he hh => ?_)
    fun e err w' _ hh => ?_))
  · obtain ⟨hans, rfl⟩ := Prod.mk.inj hh
    exact yields_bind (yields_check
      (fun grant hg => absurd hg (hE e he _ _ _ hans grant)) fun _ _ => hF)
  · exact (Prod.mk.inj hh).2 ▸ hF

theorem yields_restore (hsafe : (∀ b ∈ stagings m command, m.stagingDir <+: b) ∧
      Unhindered m fails command w.disk ∨
      ∃ key, firstKey command = some key ∧ ∀ e, E e → Denies key e) :
    Yields (handleSettled (quotaMay fails)) E (Kept m command w.disk) (m.restore command)
      (fun _ _ => True) w := by
  have hkept : Kept m command w.disk w := fun _ => rfl
  unfold Manager.restore
  refine yields_guard (fun _ => hkept) fun _ => ?_
  refine yields_guard (fun _ => hkept) fun _ => ?_
  refine yields_bind (yields_check (fun _ _ => ?_) fun _ _ => hkept)
  refine yields_bind (yields_check (fun workspacePath hpath => ?_) fun _ _ => hkept)
  rcases hsafe with ⟨hbelow, hsafe⟩ | ⟨key, hkey, hE⟩
  · obtain ⟨hservice, hpath⟩ := path_eq hpath
    have h : Staged m command := ⟨hservice, hbelow⟩
    have hs : Still m w.disk w.disk := fun _ _ => rfl
    obtain rfl : workspacePath = m.activeDir command := hpath.trans (workspace_eq m hservice)
    have hdone : ∀ w', Yields (handleSettled (quotaMay fails)) E (Kept m command w.disk) (do
        describing "prepare active workspace ownership"
          (ask (.quota .prepare (m.activeDir command)))
        return m.activeDir command) (fun _ _ => True) w' := fun _ =>
      yields_bind (yields_describing (yields_quota (yields_pure trivial)
        (by simp [quotaMay, hsafe.prepare])))
    split
    next hzero =>
      have hno : command.initialWorld = none := hsafe.world.resolve_left (not_not.mpr hzero)
      have hworld : ∀ w', Yields (handleSettled (quotaMay fails)) E (Kept m command w.disk)
          (m.restoreInitialWorld command (m.activeDir command)) (fun _ _ => True) w' := by
        intro w'
        unfold Manager.restoreInitialWorld
        rw [hno]
        exact yields_pure trivial
      split
      next content hcontent =>
        refine yields_bind (yields_mono (fun _ w _ => ?_)
          (yields_restoreInitialRuntimeContent h content hsafe.save hs))
        exact yields_bind (yields_mono (fun _ w _ => hdone w) (hworld w))
      next hcontent =>
        refine yields_bind (yields_mono (fun _ w _ => ?_) (yields_activateEmptyWorkspace h hs))
        refine yields_bind (yields_describing (yields_quota ?_
          (by simp [quotaMay, hsafe.apply hzero hcontent])))
        exact yields_bind (yields_mono (fun _ w _ => hdone w) (hworld w))
    · exact yields_bind (yields_mono (fun _ w _ => yields_pure trivial)
        (yields_restoreRevision h hsafe.prepare hsafe.save hs))
  · -- the first request ends the restore
    unfold firstKey at hkey
    split at hkey
    next hzero =>
      obtain ⟨content, hcontent, rfl⟩ := Option.map_eq_some_iff.mp hkey
      rw [if_pos hzero, hcontent]
      refine yields_bind (yields_bind (yields_check (fun _ _ => ?_) fun _ _ => hkept))
      exact yields_denied hE hkept
    next hrevision =>
      obtain rfl := Option.some.inj hkey
      rw [if_neg hrevision]
      exact yields_bind (yields_bind (yields_denied hE hkept))

/-- **A restore that fails keeps the workspace**, whatever the broker and the store answer, if its
staging directories are below `.staging` and nothing can fail once the restored directory is in
place, or if the broker never grants the first object. -/
theorem failed_restore_keeps_workspace (choices : List Env)
    (hsafe : (∀ b ∈ stagings m command, m.stagingDir <+: b) ∧ Unhindered m fails command w.disk ∨
      ∃ key, firstKey command = some key ∧ ∀ e ∈ choices, Denies key e)
    {err : String}
    (herr : (run (handleSettled (quotaMay fails)).toHandler
      (m.restore command).run choices w []).1 = some (.error err)) :
    Kept m command w.disk (run (handleSettled (quotaMay fails)).toHandler
        (m.restore command).run choices w []).2.1 := by
  have hrestore : Yields (handleSettled (quotaMay fails)) (· ∈ choices) (Kept m command w.disk)
      (m.restore command) (fun _ _ => True) w := yields_restore hsafe
  exact twp_run (fun _ he => he) hrestore herr

/-- A first restore of service `a` with one gibibyte. -/
def restoreOf (runtimeContent : Option WorkspaceBlob) : Command :=
  { kind := .restoreAndStart, serviceID := "a", commandID := "c", accountID := "acc",
    workspace := { objectPrefix := "shared-hosting/acc/a" }, workspaceGiB := 1, runtimeContent }

/-- A world with one file in the workspace of service `a`. -/
def oneFile : World where
  disk := ((Disk.empty.mkdirAll [lit "srv", lit "a"]).bind
    (·.create [lit "srv", lit "a", lit "level.dat"] [1] 0)).getD .empty
  objects _ := none
  restored _ := none

/-- The quota helper fails to set a limit, and nothing else does. -/
def applyFails : QuotaCall → Bool
  | .apply _ => true
  | _ => false

/-- A content layer of two files, in an archive of one byte. -/
def builtContent : WorkspaceBlob where
  key := lit "shared-hosting/acc/a/compiler-content/c.tar.zst"
  sha256 := sha256 [1]
  compressedSize := 1
  logicalSize := 2
  paths := [lit ".xmcl/launch.sh", lit ".xmcl/runtime.json"]

def contentManager : Manager := { srvManager with codec.decode := fun _ =>
  (builtContent.paths.map fun path => fileMember (path, [0]), true) }

/-- The content is granted and served. -/
def brokenEnv : Env :=
  { io := some "no space", served := some [1],
    broker := fun _ _ => .ok [⟨builtContent.key, .get, true⟩] }

/-- The run of a restore over that world. -/
def brokenRun (command : Command) :=
  run (handleSettled (quotaMay applyFails)).toHandler (contentManager.restore command).run
    (List.replicate 60 brokenEnv) oneFile []

/-- The content is in place of the workspace when its quota cannot be set, and the workspace is put
back. -/
theorem failed_restore_keeps_workspace_applyFails :
    (brokenRun (restoreOf builtContent)).1 = some (.error "apply workspace quota: no space") ∧
      Kept contentManager (restoreOf builtContent) oneFile.disk
        (brokenRun (restoreOf builtContent)).2.1 := by
  have hsave : Savable contentManager (restoreOf builtContent) oneFile.disk :=
    ⟨Or.inl (by decide), by simp only [restoreOf]; decide, by simp only [restoreOf]; decide⟩
  have herr : (brokenRun (restoreOf builtContent)).1 =
      some (.error "apply workspace quota: no space") := by
    decide +kernel
  refine ⟨herr, ?_⟩
  unfold brokenRun at herr ⊢
  exact failed_restore_keeps_workspace _
    (Or.inl ⟨by decide, Or.inr rfl, rfl, fun _ => nofun, hsave⟩) herr

/-- Without content the workspace is exchanged before its limit is set: when the quota helper fails
then, `Restore` fails and the files of the workspace are gone. -/
theorem failed_quota_loses_workspace :
    (brokenRun (restoreOf none)).1 = some (.error "apply workspace quota: no space") ∧
      oneFile.disk.get (contentManager.activeDir (restoreOf none) ++ [lit "level.dat"]) =
        some (.file [1] 0) ∧
      (brokenRun (restoreOf none)).2.1.disk.get
        (contentManager.activeDir (restoreOf none) ++ [lit "level.dat"]) = none :=
  ⟨by decide +kernel, by decide, by decide +kernel⟩

end SharedNode.Workspace
