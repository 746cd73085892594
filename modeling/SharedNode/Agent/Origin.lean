import Mathlib.Data.List.Induction
import SharedNode.Agent.Conduct

/-!
# Where a published revision comes from

`Manager.Sync` (`internal/workspace/workspace.go`) publishes whatever workspace it finds as the
successor of the revision its command names. `Succeeds` asks that this workspace was restored for
the command's assignment at exactly that revision, or was the empty directory the sync itself made.

The executor (`internal/agent/executor.go`) does not check it: a `RestoreAndStart` whose start fails
for good drops the active entry and leaves the workspace, and the next stop of any assignment
publishes it (`leftover_published_as_successor`). The property holds in every history in which a
store write succeeds or the agent crashes, an assignment has one revision, and every delivery is
`Orderly`, a condition on the state it finds (`published_succeeds`):

* a stop without active entry finds no workspace,
* a restore finds no stopped entry,
* a stop that was synced before finds no active entry.

Left out: what the game server writes into a workspace.
-/

namespace SharedNode.Agent

open ControlPlane Effect

/-! ## The property and its condition -/

/-- The published tree was restored for the command's assignment and revision, or was made empty by
the sync. -/
def Succeeds (p : Publication) : Prop :=
  p.source = .fresh ∨
    p.source = .restored p.command.assignmentID p.command.workspace.revision

/-- What a delivery has to find on the node. A command with a stored final result is not executed
again, and the first two ask nothing of it. -/
structure Orderly (c : Command) (w : World) : Prop where
  stop : c.kind = .stopAndSync → Pending c w → w.store.mem.active c.serviceID = none →
    w.tree c.serviceID = none
  restore : c.kind = .restoreAndStart → Pending c w →
    ∀ a, w.store.mem.active c.serviceID = some a → a.phase ≠ .stopped
  synced : SyncedResult c w → w.store.mem.active c.serviceID = none

/-! ## The invariant -/

/-- No workspace, the empty one of a sync, or the one restored for the assignment. -/
def OwnTree (rev : String → String → Int) (svc asg : String) (o : Option Origin) : Prop :=
  ∀ origin, o = some origin → origin = .fresh ∨ origin = .restored asg (rev svc asg)

/-- The active entries, the drafts and the publications agree with the workspaces; `rev` is the
revision of each assignment. -/
structure OriginInv (rev : String → String → Int) (w : World) (t : Trace Op Ans) : Prop where
  saved : w.store.Saved
  sound : Sound w.store.mem
  entry : ∀ svc a, w.store.mem.active svc = some a →
    a.phase ≠ .unset ∧ OwnTree rev svc a.assignmentID (w.tree svc)
  restored : ∀ c path t', t = ⟨.restore c, .ok path⟩ :: t' →
    w.tree c.serviceID = some (.restored c.assignmentID c.workspace.revision)
  drafts : ∀ k d, w.drafts k = some d →
    d.source = .fresh ∨ d.source = .restored d.assignmentID (d.revision - 1)
  published : ∀ p ∈ w.published, Succeeds p

theorem OwnTree.getD {rev : String → String → Int} {svc asg : String} {o : Option Origin}
    (h : OwnTree rev svc asg o) : OwnTree rev svc asg (some (o.getD .fresh)) := by
  rintro origin ⟨rfl⟩
  cases o with
  | none => exact Or.inl rfl
  | some origin => exact h origin rfl

theorem OriginInv.reboot {rev : String → String → Int} {w : World} {t : Trace Op Ans}
    (h : OriginInv rev w t) : OriginInv rev w.reboot t where
  saved := h.saved.reload
  sound := by
    show Sound w.store.disk
    rw [show w.store.disk = w.store.mem.persisted from h.saved]
    exact durably_sound.persisted h.sound
  entry svc a ha := by
    have hd : w.store.disk.active svc = some a := ha
    rw [show w.store.disk = w.store.mem.persisted from h.saved] at hd
    exact h.entry svc a hd
  restored := h.restored
  drafts := h.drafts
  published := h.published

theorem Pending.not_synced {c : Command} {w : World} (h : Pending c w) : ¬ SyncedResult c w := by
  rintro ⟨r, hr, hs⟩
  have hnone := Option.filter_eq_none_iff.mp h r hr
  simp [CommandResult.final, hs] at hnone

theorem Conduct.pending_of_after {c : Command} {op : Op} {e : Env} {w w' : World}
    {t : Trace Op Ans} {x : Ans op} (hc : Conduct c w t op) (hh : handle op e w = some (x, w'))
    (h : Pending c w') : Pending c w := by
  cases op with
  | commit id svc r a => exact hc.2.2.1
  | _ =>
    refine Option.filter_eq_none_iff.mpr fun r hr => ?_
    obtain ⟨r', hr', hp⟩ := handle_results_kept hh (by simp) hr
    rw [← r.persisted_final, ← hp, r'.persisted_final]
    exact Option.filter_eq_none_iff.mp h r' hr'

section Step

variable {rev : String → String → Int} {c : Command} {op : Op} {e : Env} {w w' : World}
  {t : Trace Op Ans} {x : Ans op}

/-- The entries written for a command are of its assignment, and its workspace is theirs. -/
theorem Sets.ownTree (hI : OriginInv rev w t) (ho : Orderly c w) (hpend : Pending c w)
    (hrev : c.workspace.revision = rev c.serviceID c.assignmentID) {a : ActiveAssignment}
    (h : Sets c w t a) :
    a.phase ≠ .unset ∧ OwnTree rev c.serviceID a.assignmentID (w.tree c.serviceID) := by
  cases h with
  | starting hk ht =>
    refine ⟨by simp, fun origin ho => Or.inr ?_⟩
    rw [hI.restored _ _ _ ht, hrev] at ho
    exact (Option.some.inj ho).symm
  | stopped hk ha hasg ht =>
    exact ⟨by simp, hasg ▸ (hI.entry _ _ ha).2⟩
  | absent hk ha ht =>
    refine ⟨by simp, fun origin htree => ?_⟩
    rw [ho.stop hk hpend ha] at htree
    cases htree
  | again hk ha hasg hp hr => exact hI.entry _ _ ha
  | @reported b r t' ht hsvc hrep ha hasg hp => exact hI.entry c.serviceID b ha

theorem Commits.ownTree (hI : OriginInv rev w t) {r : CommandResult}
    {a : Option ActiveAssignment} (h : Commits c w t r a) :
    ∀ b, a = some b →
      b.phase ≠ .unset ∧ OwnTree rev c.serviceID b.assignmentID (w.tree c.serviceID) := by
  cases h with
  | rejected message ha => exact fun b hb => hI.entry _ _ (ha.trans hb)
  | running hk ha hasg hp => exact fun b hb => hI.entry _ _ (ha.trans hb)
  | started hk ha ht =>
    rintro b ⟨rfl⟩
    exact ⟨by simp, (hI.entry _ _ ha).2⟩
  | terminal hk ht => simp
  | synced hk ht => simp

theorem handle_tree_write (hh : handle op e w = some (x, w')) (hop : ¬ op.inert) :
    w'.tree = w.tree := by
  funext svc
  rcases handle_tree hh svc with h | ⟨d, rfl, -⟩ | ⟨d, rfl, -⟩ | ⟨d, rfl, -⟩
  · exact h
  all_goals exact absurd trivial hop

theorem originInv_entry (hI : OriginInv rev w t) (ho : Orderly c w)
    (hrev : c.workspace.revision = rev c.serviceID c.assignmentID) (hc : Conduct c w t op)
    (hh : handle op e w = some (x, w')) {svc : String} {a : ActiveAssignment}
    (ha : w'.store.mem.active svc = some a) :
    a.phase ≠ .unset ∧ OwnTree rev svc a.assignmentID (w'.tree svc) := by
  rcases handle_entry hh ha with hold | rfl | ⟨id, r, rfl⟩
  · refine ⟨(hI.entry svc a hold).1, ?_⟩
    rcases handle_tree hh svc with hsame | ⟨d, rfl, rfl⟩ | ⟨d, rfl, rfl⟩ | ⟨d, rfl, rfl, hnew⟩
    · rw [hsame]
      exact (hI.entry svc a hold).2
    · -- a restore replaces the workspace of a service without entry
      obtain ⟨rfl, hk, hpend, hact⟩ := hc
      obtain ⟨hrun, hst, -⟩ := hact a hold
      have hstop := ho.restore hk hpend a hold
      have hunset := (hI.entry _ a hold).1
      cases hp : a.phase <;> contradiction
    · -- and so does a release
      obtain ⟨rfl, hsyn, -⟩ := hc
      rw [ho.synced hsyn] at hold
      cases hold
    · rw [hnew]
      exact (hI.entry _ a hold).2.getD
  · obtain ⟨rfl, hpend, hset⟩ := hc
    rw [handle_tree_write hh (fun h => h)]
    exact hset.ownTree hI ho hpend hrev
  · obtain ⟨-, rfl, -, hcom⟩ := hc
    rw [handle_tree_write hh (fun h => h)]
    exact hcom.ownTree hI a rfl

theorem originInv_draft (hI : OriginInv rev w t)
    (hrev : c.workspace.revision = rev c.serviceID c.assignmentID) (hc : Conduct c w t (.sync c))
    {d : Draft} (hd : d = World.draftOf c d.source)
    (hsrc : w.drafts (World.stagingName c) = some d ∨ d.source = (w.tree c.serviceID).getD .fresh) :
    d.source = .fresh ∨ d.source = .restored c.assignmentID c.workspace.revision := by
  rcases hsrc with hst | htree
  · have hold := hI.drafts _ d hst
    rw [hd] at hold
    simpa [World.draftOf] using hold
  · obtain ⟨-, -, a, ha, hasg, -⟩ := hc
    have hown := (hI.entry _ a ha).2.getD _ rfl
    rw [htree, hrev, ← hasg]
    exact hown

theorem Orderly.step (ho : Orderly c w) (hc : Conduct c w t op)
    (hh : handle op e w = some (x, w')) : Orderly c w' where
  stop hk hpend' hnone := by
    have hpend := hc.pending_of_after hh hpend'
    have hact : w.store.mem.active c.serviceID = none := by
      rw [handle_active hh] at hnone
      cases op with
      | setActive svc a =>
        obtain ⟨rfl, -⟩ := hc
        simp [Op.onActive] at hnone
      | commit id svc r a =>
        obtain ⟨rfl, rfl, -, hcom⟩ := hc
        obtain rfl : a = none := by simpa [Op.onActive] using hnone
        cases hcom with
        | rejected message ha => exact ha
        | terminal hk' ht => cases hk.symm.trans hk'
        | synced hk' ht =>
          have hres := congrFun (handle_results hh) c.commandID
          rw [Op.onResults, Function.update_self] at hres
          exact absurd ⟨_, hres, rfl⟩ hpend'.not_synced
      | _ => exact hnone
    have htree := ho.stop hk hpend hact
    rcases handle_tree hh c.serviceID with hsame | ⟨d, rfl, hd⟩ | ⟨d, rfl, hd⟩ | ⟨d, rfl, hd, -⟩
    · rw [hsame, htree]
    · cases hk.symm.trans hc.2.1
    · exact absurd hc.2.1 hpend.not_synced
    · obtain ⟨-, -, a, ha, -⟩ := hc
      rw [hact] at ha
      cases ha
  restore hk hpend' a ha := by
    have hpend := hc.pending_of_after hh hpend'
    rcases handle_entry hh ha with hold | rfl | ⟨id, r, rfl⟩
    · exact ho.restore hk hpend a hold
    · obtain ⟨-, -, hset⟩ := hc
      cases hset with
      | starting hk' ht => simp
      | stopped hk' => cases hk.symm.trans hk'
      | absent hk' => cases hk.symm.trans hk'
      | again hk' => cases hk.symm.trans hk'
      | reported ht hsvc hrep ha' hasg hp => exact absurd hp (ho.restore hk hpend _ ha')
    · obtain ⟨-, -, -, hcom⟩ := hc
      cases hcom with
      | rejected message ha' => exact ho.restore hk hpend a ha'
      | running hk' ha' hasg hp => rw [hp]; simp
      | started hk' ha' ht => simp
  synced hsyn := by
    by_cases hbefore : SyncedResult c w
    · -- nothing is written for a synced command
      have hnone := ho.synced hbefore
      have hnp : ¬ Pending c w := fun h => h.not_synced hbefore
      rw [handle_active hh]
      cases op with
      | setActive svc a => exact absurd hc.2.1 hnp
      | commit id svc r a => exact absurd hc.2.2.1 hnp
      | _ => exact hnone
    · obtain ⟨r, hr, hs⟩ := hsyn
      rcases handle_stored hh hr with ⟨r₀, h₀, hp⟩ | ⟨svc, a, rfl⟩
      · exact absurd ⟨r₀, h₀, (CommandResult.status_of_persisted hp).symm.trans hs⟩ hbefore
      · obtain ⟨-, rfl, -, hcom⟩ := hc
        rw [handle_active hh]
        cases hcom with
        | synced hk ht => simp [Op.onActive]
        | _ => simp [failed] at hs

/-- The rest of the invariant after a call, from what the call does to the entries and, if it is a
sync, from the draft it goes on with. -/
theorem originInv_rest (hI : OriginInv rev w t) (he : e.Durable) (hsound : Sound w'.store.mem)
    (hh : handle op e w = some (x, w'))
    (hentry : ∀ svc a, w'.store.mem.active svc = some a →
      a.phase ≠ .unset ∧ OwnTree rev svc a.assignmentID (w'.tree svc))
    (hdraft : ∀ c d, op = .sync c → d = World.draftOf c d.source →
      (w.drafts (World.stagingName c) = some d ∨ d.source = (w.tree c.serviceID).getD .fresh) →
      d.source = .fresh ∨ d.source = .restored c.assignmentID c.workspace.revision) :
    OriginInv rev w' (⟨op, x⟩ :: t) where
  saved := handle_saved he hh hI.saved
  sound := hsound
  entry := hentry
  restored d path t' ht := by
    obtain ⟨hcall, -⟩ := List.cons.inj ht
    cases hcall
    exact handle_restore_ok hh
  drafts k d hd := by
    rcases handle_adds hh with ⟨hsame, -⟩ | ⟨c, d', rfl, ⟨hof, hsrc⟩, hnew, -⟩
    · rw [hsame] at hd
      exact hI.drafts k d hd
    · rcases hnew k d hd with hold | rfl
      · exact hI.drafts k d hold
      · have hok := hdraft c d rfl hof hsrc
        have hasg : d.assignmentID = c.assignmentID := by rw [hof]; rfl
        have hrevd : d.revision - 1 = c.workspace.revision := by
          rw [hof]
          exact Int.add_sub_cancel _ _
        rw [hasg, hrevd]
        exact hok
  published p hp := by
    rcases handle_adds hh with ⟨-, hsame⟩ | ⟨c, d, rfl, ⟨hof, hsrc⟩, -, hnew⟩
    · rw [hsame] at hp
      exact hI.published p hp
    · rcases hnew p hp with hold | rfl
      · exact hI.published p hold
      · exact hdraft c d rfl hof hsrc

/-- Every call made for an orderly delivery keeps the invariant and the order. -/
theorem originInv_keeps (hrev : c.workspace.revision = rev c.serviceID c.assignmentID) :
    Keeps Env.Durable (fun w t => OriginInv rev w t ∧ Orderly c w) c where
  sound _ _ h := h.1.sound
  step op e w t x w' hI hc he hh := by
    refine ⟨originInv_rest hI.1 he (hc.sound hI.1.sound hh) hh
      (fun svc a ha => originInv_entry hI.1 hI.2 hrev hc hh ha) ?_, hI.2.step hc hh⟩
    rintro d' d rfl hof hsrc
    obtain ⟨rfl, hrest⟩ := hc
    exact originInv_draft hI.1 hrev ⟨rfl, hrest⟩ hof hsrc

/-- A reconciliation keeps the invariant: it moves a starting entry to running. -/
theorem originInv_recovers (hI : OriginInv rev w t) (hr : Recovers w op) (he : e.Durable)
    (hh : handle op e w = some (x, w')) : OriginInv rev w' (⟨op, x⟩ :: t) := by
  have htree : w'.tree = w.tree := by
    funext svc
    rcases handle_tree hh svc with h | ⟨d, rfl, -⟩ | ⟨d, rfl, -⟩ | ⟨d, rfl, -⟩
    · exact h
    all_goals exact hr.elim
  refine originInv_rest hI he (hr.sound hI.sound hh) hh (fun svc a ha => ?_) ?_
  · rw [htree]
    rcases handle_entry hh ha with hold | rfl | ⟨id, r, rfl⟩
    · exact hI.entry svc a hold
    · obtain ⟨b, hb, hp, rfl⟩ := hr
      exact ⟨by simp, (hI.entry svc b hb).2⟩
    · exact hr.elim
  · rintro d' d rfl
    exact hr.elim

end Step

/-! ## Every history -/

/-- Every delivery of the history finds the node in order. -/
def OrderlyRun (nodeID : String) (events : List Event) : Prop :=
  ∀ earlier later c rounds es, events = earlier ++ .deliver c rounds es :: later →
    Orderly c (Node.run nodeID earlier).world

theorem originInv_init (rev : String → String → Int) : OriginInv rev {} [] where
  saved := rfl
  sound := ⟨by simp, by simp⟩
  entry _ _ h := absurd h (by simp)
  restored _ _ _ h := absurd h (by simp)
  drafts _ _ h := absurd h (by simp)
  published _ h := absurd h (by simp)

/-- The invariant holds after every orderly history of durable choices. -/
theorem originInv_run (nodeID : String) (rev : String → String → Int) (events : List Event)
    (hE : ∀ ev ∈ events, ∀ e ∈ ev.choices, e.Durable)
    (hrev : ∀ c rounds es, .deliver c rounds es ∈ events →
      c.workspace.revision = rev c.serviceID c.assignmentID)
    (horder : OrderlyRun nodeID events) :
    OriginInv rev (Node.run nodeID events).world (Node.run nodeID events).trace := by
  induction events using List.reverseRecOn with
  | nil => exact originInv_init rev
  | append_singleton events ev ih =>
    have hprev := ih (List.forall_mem_append.mp hE).1
      (fun c n es h => hrev c n es (List.mem_append_left _ h))
      (fun earlier later c n es h => horder earlier (later ++ [ev]) c n es (by rw [h]; simp))
    have hev := hE ev (List.mem_append_right _ List.mem_cons_self)
    rw [Node.run_append]
    cases ev with
    | deliver c rounds es =>
      have hI := And.intro hprev (horder events [] c rounds es rfl)
      have hc := hrev c rounds es (List.mem_append_right _ List.mem_cons_self)
      exact (Node.step_deliver (I := fun w t => OriginInv rev w t ∧ Orderly c w) hev hI
        (process_conduct (originInv_keeps hc) hI)).1
    | restart es =>
      exact Node.step_restart hev (reconcile_conduct
        (fun op e w t x w' hI hr he hh => originInv_recovers hI hr he hh) hprev.reboot)

/-- **Every published revision succeeds the one it names**: in every history in which a store write
succeeds or the agent crashes, every assignment has one revision and every delivery is orderly, a
sync publishes the workspace restored for its command's assignment and revision, or the empty one it
made itself. -/
theorem published_succeeds (nodeID : String) (rev : String → String → Int) (events : List Event)
    (hE : ∀ ev ∈ events, ∀ e ∈ ev.choices, e.Durable)
    (hrev : ∀ c rounds es, .deliver c rounds es ∈ events →
      c.workspace.revision = rev c.serviceID c.assignmentID)
    (horder : OrderlyRun nodeID events) (p : Publication)
    (hp : p ∈ (Node.run nodeID events).world.published) : Succeeds p :=
  (originInv_run nodeID rev events hE hrev horder).published p hp

/-- A history that publishes the restored workspace as the successor of its revision. -/
theorem published_succeeds_startAndStop : (Node.run "n" startAndStop).world.published =
      [⟨stopCommand "c2" "s" "a" 5, .restored "a" 5⟩] ∧
    ∀ p ∈ (Node.run "n" startAndStop).world.published, Succeeds p := by
  refine ⟨by decide, fun p hp =>
    published_succeeds "n" (fun _ _ => 5) startAndStop durable_startAndStop ?_ ?_ p hp⟩
  · intro c rounds es hc
    simp only [startAndStop, smoothly, List.mem_cons, List.not_mem_nil, or_false,
      Event.deliver.injEq] at hc
    rcases hc with ⟨rfl, -⟩ | ⟨rfl, -⟩ <;> rfl
  · intro earlier later c rounds es hsplit
    rcases earlier with _ | ⟨ev, _ | ⟨ev', rest⟩⟩
    · obtain ⟨hc, -⟩ := List.cons.inj hsplit
      obtain rfl : _ = c := (Event.deliver.inj hc).1
      exact ⟨fun h => absurd h (by decide), by simp [Node.run], fun _ => rfl⟩
    · obtain ⟨rfl, hrest⟩ := List.cons.inj hsplit
      obtain ⟨hc, -⟩ := List.cons.inj hrest
      obtain rfl : _ = c := (Event.deliver.inj hc).1
      refine ⟨fun _ _ h => absurd h (by decide), fun h => absurd h (by decide), ?_⟩
      rintro ⟨r, hr, -⟩
      cases show none = some r from hr
    · simp [startAndStop] at hsplit

/-- A restore whose start fails for good leaves its workspace without an active entry. Another
assignment of the service, started elsewhere, is then stopped here at revision 8: the sync publishes
the leftover of revision 5 as revision 9. -/
theorem leftover_published_as_successor :
    let events := [.deliver (startCommand "c1" "s" "a" 5) 3
        (List.replicate 40 { start := .terminal "crashed" "server exited" }),
      smoothly (stopCommand "c2" "s" "b" 8)]
    (Node.run "n" events).world.published = [⟨stopCommand "c2" "s" "b" 8, .restored "a" 5⟩] ∧
      ¬ ∀ p ∈ (Node.run "n" events).world.published, Succeeds p := by
  refine ⟨by decide, fun h => ?_⟩
  have hs := h ⟨stopCommand "c2" "s" "b" 8, .restored "a" 5⟩ (by decide)
  rcases hs with hs | hs <;> exact absurd hs (by decide)

end SharedNode.Agent
