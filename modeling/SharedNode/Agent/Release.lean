import Mathlib.Data.List.Induction
import SharedNode.Agent.Conduct

/-!
# Releases and later assignments

`Workspace.Release` removes the workspace of a service, whoever's it is. `Process`
(`internal/agent/daemon.go`) calls it for every delivery of a `StopAndSync` with a stored sync
result, so a stop that is delivered again after the service was restored for another assignment
deletes that assignment's workspace (`stale_stop_releases_running_workspace`).

`ReleaseSafe` asks of every release that no other assignment of the service was started since the
sync it is for. It holds in every history, with any failing calls and store writes, crashes and
restarts, in which command IDs identify commands and no stop is delivered again once a
`RestoreAndStart` of another assignment of its service was delivered after it (`release_safe`).
-/

namespace SharedNode.Agent

open ControlPlane Effect

/-! ## The property -/

/-- The sync of the command succeeded. -/
def SyncDone (id : String) : Call Op Ans → Prop
  | ⟨.sync c, .ok _⟩ => c.commandID = id
  | _ => False

/-- A `RestoreAndStart` of another assignment of the service succeeded: its container was started,
or its started result stored. -/
def StartedOther (svc asg : String) : Call Op Ans → Prop
  | ⟨.start c _, .ok⟩ => c.serviceID = svc ∧ c.assignmentID ≠ asg
  | ⟨.commit _ s r (some a), _⟩ => s = svc ∧ r.status = .started ∧ a.assignmentID ≠ asg
  | _ => False

instance (id : String) : DecidablePred (SyncDone id) := fun c => by
  unfold SyncDone
  split <;> infer_instance

instance (svc asg : String) : DecidablePred (StartedOther svc asg) := fun c => by
  unfold StartedOther
  split <;> infer_instance

/-- No other assignment was started since the sync of the command. -/
def Latest (c : Command) : Trace Op Ans → Prop :=
  Since (fun d _ => SyncDone c.commandID d) (StartedOther c.serviceID c.assignmentID)

/-- A release finds the workspace its command synced, or none. -/
def ReleaseSafe : Call Op Ans → Trace Op Ans → Prop
  | ⟨.release c, _⟩, t => Latest c t
  | _, _ => True

/-! ## The order of deliveries -/

def Event.command? : Event → Option Command
  | .deliver c _ _ => some c
  | .restart _ => none

/-- The commands delivered, in order. -/
def delivered (events : List Event) : List Command := events.filterMap Event.command?

/-- A command ID stands for one kind, service and assignment. -/
def IdsIdentify (ds : List Command) : Prop :=
  ∀ c ∈ ds, ∀ d ∈ ds, c.commandID = d.commandID →
    c.kind = d.kind ∧ c.serviceID = d.serviceID ∧ c.assignmentID = d.assignmentID

/-- No stop is delivered again after a `RestoreAndStart` of another assignment of its service. -/
def NoStaleStop (ds : List Command) : Prop :=
  ∀ c r c' : Command, [c, r, c'].Sublist ds → c.kind = .stopAndSync →
    c'.commandID = c.commandID → r.kind = .restoreAndStart → r.serviceID = c.serviceID →
    r.assignmentID = c.assignmentID

/-- A restore of another assignment of the service was delivered after the command. -/
def Superseded (ds : List Command) (c : Command) : Prop :=
  ∃ r, [c, r].Sublist ds ∧ r.kind = .restoreAndStart ∧ r.serviceID = c.serviceID ∧
    r.assignmentID ≠ c.assignmentID

variable {ds ds' : List Command} {d : Command} {t : Trace Op Ans} {w : World}

theorem not_superseded {c : Command} (hids : IdsIdentify (ds ++ [d]))
    (hstale : NoStaleStop (ds ++ [d])) (hc : c ∈ ds ++ [d]) (hk : c.kind = .stopAndSync)
    (hid : c.commandID = d.commandID) : ¬ Superseded (ds ++ [d]) c := by
  rintro ⟨r, hsub, hr, hsvc, hasg⟩
  have hd : d.kind = .stopAndSync := by
    rw [← (hids c hc d (by simp) hid).1, hk]
  have hne : r ≠ d := by
    rintro rfl
    rw [hr] at hd
    simp at hd
  -- the restore came before the last delivery, so the three are in the forbidden order
  obtain ⟨l₁, l₂, heq, h₁, h₂⟩ := List.sublist_append_iff.mp hsub
  have hl₂ : l₂ = [] := by
    rcases l₂.eq_nil_or_concat with h | ⟨l, b, rfl⟩
    · exact h
    · have hb : b = r := by
        have := congrArg List.getLast? heq
        simpa using this.symm
      have hbd : b ∈ [d] := h₂.subset (by simp)
      rw [hb] at hbd
      exact absurd (by simpa using hbd) hne
  rw [hl₂, List.append_nil] at heq
  have hthree : [c, r, d].Sublist (ds ++ [d]) := by
    have := List.Sublist.append (heq ▸ h₁) (List.Sublist.refl [d])
    simpa using this
  exact hasg (hstale c r d hthree hk hid.symm hr hsvc)

/-! ## The invariant -/

/-- A stop with this ID was delivered, and its sync is the latest word on the workspace, or it was
superseded. -/
def Fresh (ds : List Command) (t : Trace Op Ans) (id : String) : Prop :=
  ∃ c ∈ ds, c.commandID = id ∧ c.kind = .stopAndSync ∧ (Latest c t ∨ Superseded ds c)

/-- Every stored sync result is accounted for by a delivery. -/
structure Custody (ds : List Command) (t : Trace Op Ans) (s : FileState) : Prop where
  sound : Sound s
  fresh : ∀ id r, s.results id = some r → r.status = .stoppedAndSynced → Fresh ds t id

theorem durably_custody (ds : List Command) (t : Trace Op Ans) : Durably (Custody ds t) := by
  intro s s' ha hr hs
  refine ⟨durably_sound s s' ha hr hs.sound, fun id r h hst => ?_⟩
  have hp := hr id
  rw [h, Option.map_some] at hp
  obtain ⟨r₀, h₀, hr₀⟩ := Option.map_eq_some_iff.mp hp.symm
  rw [CommandResult.status_of_persisted hr₀.symm] at hst
  exact hs.fresh id r₀ h₀ hst

/-- Memory and file are accounted for, and every release so far was safe. -/
structure ReleaseInv (ds : List Command) (w : World) (t : Trace Op Ans) : Prop where
  mem : Custody ds t w.store.mem
  disk : Custody ds t w.store.disk
  safe : Always ReleaseSafe t

theorem Custody.mono {s : FileState}
    (hds : ds.Sublist ds') (h : Custody ds t s) : Custody ds' t s := by
  refine ⟨h.sound, fun id r hr hs => ?_⟩
  obtain ⟨c, hc, hid, hk, hl | ⟨q, hq, hrest⟩⟩ := h.fresh id r hr hs
  · exact ⟨c, hds.subset hc, hid, hk, Or.inl hl⟩
  · exact ⟨c, hds.subset hc, hid, hk, Or.inr ⟨q, hq.trans hds, hrest⟩⟩

theorem ReleaseInv.mono (hds : ds.Sublist ds') (h : ReleaseInv ds w t) : ReleaseInv ds' w t :=
  ⟨h.mem.mono hds, h.disk.mono hds, h.safe⟩

theorem ReleaseInv.reboot
    (h : ReleaseInv ds w t) : ReleaseInv ds w.reboot t := ⟨h.disk, h.disk, h.safe⟩

theorem Custody.cons {call : Call Op Ans} {s : FileState}
    (hfresh : ∀ id, Fresh ds t id → Fresh ds (call :: t) id) (h : Custody ds t s) :
    Custody ds (call :: t) s :=
  ⟨h.sound, fun id r hr hs => hfresh id (h.fresh id r hr hs)⟩

theorem Conduct.startedOther {op : Op} {x : Ans op}
    (hc : Conduct d w t op) {svc asg : String} (h : StartedOther svc asg ⟨op, x⟩) :
    d.kind = .restoreAndStart ∧ d.serviceID = svc ∧ d.assignmentID ≠ asg := by
  cases op with
  | start c p =>
    obtain ⟨rfl, hk, -⟩ := hc
    cases x with
    | ok => exact ⟨hk, h⟩
    | terminal code message => exact h.elim
    | failed err => exact h.elim
  | commit id s r a =>
    obtain ⟨-, hsvc, -, hcom⟩ := hc
    cases hcom with
    | rejected message ha =>
      cases a with
      | none => exact h.elim
      | some b => exact absurd h.2.1 (by simp [failed])
    | running hk ha hasg hp => exact ⟨hk, hsvc.symm.trans h.1, hasg ▸ h.2.2⟩
    | started hk ha ht => exact ⟨hk, hsvc.symm.trans h.1, h.2.2⟩
    | terminal hk ht => exact h.elim
    | synced hk ht => exact h.elim
  | _ => exact h.elim

/-- A call made for the last delivery leaves every stop fresh: either it starts no other
assignment, or the last delivery is the restore that supersedes the stop. -/
theorem Fresh.step {op : Op}
    {x : Ans op} (hc : Conduct d w t op) {id : String} (h : Fresh (ds ++ [d]) t id) :
    Fresh (ds ++ [d]) (⟨op, x⟩ :: t) id := by
  obtain ⟨c, hmem, hid, hk, hl⟩ := h
  refine ⟨c, hmem, hid, hk, ?_⟩
  rcases hl with hl | hs
  · by_cases hother : StartedOther c.serviceID c.assignmentID ⟨op, x⟩
    · obtain ⟨hdk, hsvc, hasg⟩ := hc.startedOther hother
      have hcd : c ∈ ds := by
        rcases List.mem_append.mp hmem with h | h
        · exact h
        · obtain rfl : c = d := by simpa using h
          rw [hk] at hdk
          simp at hdk
      refine Or.inr ⟨d, ?_, hdk, hsvc, hasg⟩
      exact List.Sublist.append (List.singleton_sublist.mpr hcd) (List.Sublist.refl [d])
    · exact Or.inl (hl.cons hother)
  · exact Or.inr hs

theorem releaseInv_keeps (hids : IdsIdentify (ds ++ [d])) (hstale : NoStaleStop (ds ++ [d])) :
    Keeps (fun _ => True) (ReleaseInv (ds ++ [d])) d where
  sound _ _ h := h.mem.sound
  step op e w t x w' hI hc _ hh := by
    have hstep : ∀ id, Fresh (ds ++ [d]) t id → Fresh (ds ++ [d]) (⟨op, x⟩ :: t) id :=
      fun id => Fresh.step hc
    have hmem' : Custody (ds ++ [d]) (⟨op, x⟩ :: t) w'.store.mem := by
      refine ⟨hc.sound hI.mem.sound hh, fun id r hr hs => ?_⟩
      rcases handle_stored hh hr with ⟨r₀, h₀, hp⟩ | ⟨svc, a, rfl⟩
      · rw [CommandResult.status_of_persisted hp] at hs
        exact hstep id (hI.mem.fresh id r₀ h₀ hs)
      · -- the result committed follows its sync
        obtain ⟨rfl, -, -, hcom⟩ := hc
        cases hcom with
        | synced hk ht =>
          subst ht
          exact ⟨d, by simp, rfl, hk, Or.inl ((Since.head rfl).cons (fun h => h))⟩
        | _ => simp [failed] at hs
    refine ⟨hmem', handle_disk (durably_custody _ _) hh (hI.mem.cons hstep) (hI.disk.cons hstep)
      hmem', ?_, hI.safe⟩
    cases op with
    | release c =>
      obtain ⟨rfl, ⟨r, hr, hs⟩, -⟩ := hc
      obtain ⟨c', hmem, hid, hk, hl⟩ := hI.mem.fresh _ r hr hs
      obtain ⟨-, hsvc, hasg⟩ := hids c' hmem c (by simp) hid
      have hlatest := hl.resolve_right (not_superseded hids hstale hmem hk hid)
      unfold Latest at hlatest
      rw [hid, hsvc, hasg] at hlatest
      exact hlatest
    | _ => trivial

/-- A reconciliation keeps the invariant: it stores no result and releases nothing. -/
theorem releaseInv_recovers (op : Op) (e : Env) (w : World)
    (t : Trace Op Ans) (x : Ans op) (w' : World) (hI : ReleaseInv ds w t) (hr : Recovers w op)
    (hh : handle op e w = some (x, w')) : ReleaseInv ds w' (⟨op, x⟩ :: t) := by
  have hno : ∀ svc asg, ¬ StartedOther svc asg ⟨op, x⟩ := by
    intro svc asg h
    cases op <;> first | exact hr | exact h
  have hstep : ∀ id, Fresh ds t id → Fresh ds (⟨op, x⟩ :: t) id := by
    rintro id ⟨c, hc, hid, hk, hl | hs⟩
    · exact ⟨c, hc, hid, hk, Or.inl (hl.cons (hno _ _))⟩
    · exact ⟨c, hc, hid, hk, Or.inr hs⟩
  have hmem' : Custody ds (⟨op, x⟩ :: t) w'.store.mem := by
    refine ⟨hr.sound hI.mem.sound hh, fun id r hres hs => ?_⟩
    rcases handle_stored hh hres with ⟨r₀, h₀, hp⟩ | ⟨svc, a, rfl⟩
    · rw [CommandResult.status_of_persisted hp] at hs
      exact hstep id (hI.mem.fresh id r₀ h₀ hs)
    · exact hr.elim
  refine ⟨hmem', handle_disk (durably_custody _ _) hh (hI.mem.cons hstep) (hI.disk.cons hstep)
    hmem', ?_, hI.safe⟩
  cases op <;> first | exact hr.elim | trivial

/-! ## Every history -/

theorem releaseInv_init : ReleaseInv [] {} [] where
  mem := ⟨⟨by simp, by simp⟩,
    by simp⟩
  disk := ⟨⟨by simp, by simp⟩,
    by simp⟩
  safe := trivial

theorem IdsIdentify.sublist (hds : ds.Sublist ds') (h : IdsIdentify ds') :
    IdsIdentify ds := fun c hc d hd => h c (hds.subset hc) d (hds.subset hd)

theorem NoStaleStop.sublist (hds : ds.Sublist ds') (h : NoStaleStop ds') :
    NoStaleStop ds := fun c r c' hsub => h c r c' (hsub.trans hds)

theorem releaseInv_run (nodeID : String) (events : List Event)
    (hids : IdsIdentify (delivered events)) (hstale : NoStaleStop (delivered events)) :
    ReleaseInv (delivered events) (Node.run nodeID events).world
      (Node.run nodeID events).trace := by
  induction events using List.reverseRecOn with
  | nil => exact releaseInv_init
  | append_singleton events ev ih =>
    have hsub : (delivered events).Sublist (delivered (events ++ [ev])) := by
      rw [delivered, delivered, List.filterMap_append]
      exact List.sublist_append_left _ _
    have hprev := ih (hids.sublist hsub) (hstale.sublist hsub)
    rw [Node.run_append]
    cases ev with
    | deliver c rounds es =>
      have heq : delivered (events ++ [.deliver c rounds es]) = delivered events ++ [c] := by
        simp [delivered, Event.command?]
      rw [heq] at hids hstale ⊢
      have hI := hprev.mono (List.sublist_append_left (delivered events) [c])
      exact Node.step_deliver (fun _ _ => trivial) hI
        (process_conduct (releaseInv_keeps hids hstale) hI)
    | restart es =>
      have heq : delivered (events ++ [.restart es]) = delivered events := by
        simp [delivered, Event.command?]
      rw [heq]
      refine Node.step_restart (E := fun _ => True) (fun _ _ => trivial)
        (reconcile_conduct (fun op e w t x w' hI hr _ hh => ?_) hprev.reboot)
      exact releaseInv_recovers op e w t x w' hI hr hh

/-- **A release never removes the workspace of a later assignment**, in every history of deliveries
with any failing calls, store writes, crashes and restarts, in which command IDs identify commands
and no stop is delivered again once another assignment's `RestoreAndStart` was delivered after
it. -/
theorem release_safe (nodeID : String) (events : List Event)
    (hids : IdsIdentify (delivered events)) (hstale : NoStaleStop (delivered events))
    (after before : Trace Op Ans) (c : Command) (x : Except String Unit)
    (h : (Node.run nodeID events).trace = after ++ ⟨.release c, x⟩ :: before) :
    Latest c before :=
  always_iff.mp (releaseInv_run nodeID events hids hstale).safe after _ before h

/-- One assignment started and stopped, the acknowledgement cut off by a crash. -/
def stopThenCrash : List Event :=
  [smoothly (startCommand "c1" "s" "a" 5),
   .deliver (stopCommand "c2" "s" "a" 5) 3 (List.replicate 34 {}),
   .restart (List.replicate 5 {})]

/-- After that crash both commands are delivered again. -/
def redelivered : List Event :=
  stopThenCrash ++ [smoothly (startCommand "c1" "s" "a" 5), smoothly (stopCommand "c2" "s" "a" 5)]

/-- The stop is delivered on both sides of a start, of its own assignment, and its second release is
safe. -/
theorem release_safe_redelivered :
    [stopCommand "c2" "s" "a" 5, startCommand "c1" "s" "a" 5, stopCommand "c2" "s" "a" 5].Sublist
      (delivered redelivered) ∧
    ∃ after before x, (Node.run "n" redelivered).trace =
      after ++ ⟨.release (stopCommand "c2" "s" "a" 5), x⟩ :: before ∧
        Latest (stopCommand "c2" "s" "a" 5) before := by
  have hids : IdsIdentify (delivered redelivered) := by
    unfold IdsIdentify
    decide
  have hstale : NoStaleStop (delivered redelivered) := by
    intro c r c' hsub _ _ _ _
    have hasg : ∀ d ∈ delivered redelivered, d.assignmentID = "a" := by decide
    rw [hasg r (hsub.subset (by simp)), hasg c (hsub.subset (by simp))]
  have hsplit : (Node.run "n" redelivered).trace = (Node.run "n" redelivered).trace.take 7 ++
      ⟨.release (stopCommand "c2" "s" "a" 5), .ok ()⟩ ::
        (Node.run "n" redelivered).trace.drop 8 := rfl
  exact ⟨by decide, _, _, _, hsplit, release_safe "n" redelivered hids hstale _ _ _ _ hsplit⟩

/-- After that crash the service is restored for another assignment, and the stop is delivered
again. -/
def staleStop : List Event :=
  stopThenCrash ++ [smoothly (startCommand "c3" "s" "b" 6), smoothly (stopCommand "c2" "s" "a" 5)]

/-- The second release of the stop removes the workspace of the assignment that is running now. -/
theorem stale_stop_releases_running_workspace : (∃ after before x, (Node.run "n" staleStop).trace =
      after ++ ⟨.release (stopCommand "c2" "s" "a" 5), x⟩ :: before ∧
        ¬ Latest (stopCommand "c2" "s" "a" 5) before) ∧
    (Node.run "n" (staleStop.take 4)).world.tree "s" = some (.restored "b" 6) ∧
    (Node.run "n" staleStop).world.store.mem.active "s" =
      some { assignmentID := "b", phase := .running } ∧
    (Node.run "n" staleStop).world.tree "s" = none := by
  refine ⟨⟨(Node.run "n" staleStop).trace.take 7, (Node.run "n" staleStop).trace.drop 8, .ok (),
    rfl, ?_⟩, by decide, by decide, by decide⟩
  unfold Latest
  decide

end SharedNode.Agent
