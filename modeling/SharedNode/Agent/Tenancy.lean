import SharedNode.Agent.Order

/-!
# One tenant per service

Whose container may be up, as the answers of the container runtime tell the executor
(`internal/agent/executor.go`): that of the last start, whatever its answer, until a stop of the
service succeeds (`tenant`). In every history of deliveries, failing calls, crashes and restarts the
store knows the tenant of a service (`Known`): its active entry is of that assignment, starting or
running. So no other assignment is started beside it, and no workspace is restored or synced under
it (`Undisturbed`).

The exception is a start that fails for good: `Execute` drops the entry then, and does not know
whether the container is gone (`Abandoned`).

Left out: containers that end by themselves.
-/

namespace SharedNode.Agent

open ControlPlane Effect Prog

variable {entry : Option ActiveAssignment} {asg : Option String}

/-- The assignment whose container may be up. -/
def tenant (svc : String) : Trace Op Ans → Option String
  | [] => none
  | ⟨.start c _, _⟩ :: t => if c.serviceID = svc then some c.assignmentID else tenant svc t
  | ⟨.stop c, .ok ()⟩ :: t => if c.serviceID = svc then none else tenant svc t
  | _ :: t => tenant svc t

/-- A start of the service failed for good. -/
def abandons (svc : String) : Call Op Ans → Bool
  | ⟨.start c _, .terminal ..⟩ => c.serviceID = svc
  | _ => false

/-- A start of the service failed for good. -/
def Abandoned (svc : String) (t : Trace Op Ans) : Prop := Once (abandons svc · = true) t

/-- The entry of a service is one of its tenant, if it has one. -/
def Known (entry : Option ActiveAssignment) (tenant : Option String) : Prop :=
  ∀ asg, tenant = some asg → ∃ a, entry = some a ∧ a.assignmentID = asg ∧
    (a.phase = .starting ∨ a.phase = .running)

/-- A start finds no tenant but its own assignment; a restore and a sync find none. -/
def Undisturbed : Call Op Ans → Trace Op Ans → Prop
  | ⟨.start c _, _⟩, t => Abandoned c.serviceID t ∨
      ∀ asg, tenant c.serviceID t = some asg → asg = c.assignmentID
  | ⟨.restore c, _⟩, t | ⟨.sync c, _⟩, t => Abandoned c.serviceID t ∨ tenant c.serviceID t = none
  | _, _ => True

structure Tenancy (w : World) (t : Trace Op Ans) : Prop where
  order : OrderInv w t
  known : ∀ svc, ¬ Abandoned svc t → Known (w.store.mem.active svc) (tenant svc t)
  undisturbed : Always Undisturbed t

variable {w w' : World} {t : Trace Op Ans} {op : Op} {svc : String} {a : ActiveAssignment}
  {c : Command} {e : Env} {x : Ans op}

/-- No tenant without an entry that is starting or running. -/
theorem Known.vacant (h : Known entry asg)
    (hentry : ∀ a, entry = some a → a.phase ≠ .running ∧ a.phase ≠ .starting) : asg = none := by
  cases asg with
  | none => rfl
  | some asg =>
    obtain ⟨a, ha, -, hst | hrun⟩ := h asg rfl
    · exact absurd hst (hentry a ha).2
    · exact absurd hrun (hentry a ha).1

theorem Known.vacant_of_stopped (h : Known entry asg) (ha : entry = some a)
    (hp : a.phase = .stopped) : asg = none := by
  refine h.vacant fun b hb => ?_
  obtain rfl := Option.mem_unique ha hb
  simp [hp]

theorem known_of_none (h : asg = none) : Known entry asg :=
  fun _ hasg => absurd (h.symm.trans hasg) (by simp)

/-- A call other than a start brings no new tenant. -/
theorem Known.cons (h : Known entry (tenant svc t)) (hop : ∀ c path, op ≠ .start c path)
    (x : Ans op) : Known entry (tenant svc (⟨op, x⟩ :: t)) := by
  cases op with
  | start c path => exact absurd rfl (hop c path)
  | stop c =>
    cases x with
    | error err => exact h
    | ok u =>
      unfold tenant
      split
      · exact known_of_none rfl
      · exact h
  | _ => exact h

/-- The entries that are written for a command are known. -/
theorem Sets.known (hI : Tenancy w t) (h : Sets c w t a) (hnot : ¬ Abandoned c.serviceID t) :
    Known (some a) (tenant c.serviceID t) := by
  have hknown := hI.known c.serviceID hnot
  refine known_of_none ?_
  cases h with
  | starting hk ht =>
    subst ht
    exact hI.undisturbed.1.resolve_left (mt Once.cons hnot)
  | stopped hk ha hasg ht =>
    subst ht
    exact if_pos rfl
  | absent hk ha ht => exact hknown.vacant fun b hb => absurd (ha.symm.trans hb) (by simp)
  | again hk ha hasg hp hr => exact hknown.vacant_of_stopped ha hp
  | reported ht hsvc hrep ha hasg hp => exact hknown.vacant_of_stopped ha hp

theorem Commits.known {r : CommandResult} {a : Option ActiveAssignment} (hI : Tenancy w t)
    (h : Commits c w t r a) (hnot : ¬ Abandoned c.serviceID t) :
    Known a (tenant c.serviceID t) := by
  have hknown := hI.known c.serviceID hnot
  cases h with
  | rejected message ha => exact ha ▸ hknown
  | running hk ha hasg hp => exact ha ▸ hknown
  | started hk ha ht =>
    intro asg hasg
    obtain ⟨b, hb, rfl, -⟩ := hknown asg hasg
    obtain rfl := Option.mem_unique ha hb
    exact ⟨_, rfl, rfl, by simp⟩
  | @terminal path code message t' hk ht =>
    subst ht
    exact absurd ⟨_, List.mem_cons_self, by simp [abandons]⟩ hnot
  | synced hk ht =>
    subst ht
    exact known_of_none (hI.undisturbed.1.resolve_left (mt Once.cons hnot))

/-- The entries stay known when a known one is written. -/
theorem Tenancy.written {a : Option ActiveAssignment} (hI : Tenancy w t)
    (hwrites : w'.store.mem.active = Function.update w.store.mem.active svc a)
    (ha : ¬ Abandoned svc t → Known a (tenant svc t)) {svc' : String} (hnot : ¬ Abandoned svc' t) :
    Known (w'.store.mem.active svc') (tenant svc' t) := by
  rw [hwrites]
  by_cases hsvc : svc' = svc
  · subst hsvc
    rw [Function.update_self]
    exact ha hnot
  · rw [Function.update_of_ne hsvc]
    exact hI.known svc' hnot

theorem Conduct.undisturbed (hI : Tenancy w t) (h : Conduct c w t op) (x : Ans op) :
    Undisturbed ⟨op, x⟩ t := by
  by_cases hnot : Abandoned c.serviceID t
  · cases op with
    | start d path | restore d | sync d => exact h.1 ▸ Or.inl hnot
    | _ => trivial
  have hknown := hI.known c.serviceID hnot
  cases op with
  | start d path =>
    obtain ⟨rfl, -, hact⟩ := h
    refine Or.inr fun asg hasg => ?_
    obtain ⟨b, hb, rfl, -⟩ := hknown asg hasg
    exact Option.mem_unique hact hb ▸ rfl
  | restore d =>
    obtain ⟨rfl, -, -, hne⟩ := h
    exact Or.inr (hknown.vacant fun a ha => ⟨(hne a ha).1, (hne a ha).2.1⟩)
  | sync d =>
    obtain ⟨rfl, -, a, ha, -, hp, -⟩ := h
    exact Or.inr (hknown.vacant_of_stopped ha hp)
  | _ => trivial

/-- **Everything the agent does for a command keeps the tenancy.** -/
theorem tenancy_keeps (c : Command) : Keeps Env.Durable Tenancy c where
  sound _ _ hI := hI.order.sound
  step op e w t x w' hI hc he hh := by
    refine ⟨orderInv_step op e w t x w' hI.order (hc.allowed hI.order) he hh, fun svc hnot => ?_,
      hc.undisturbed hI x, hI.undisturbed⟩
    have hnot' : ¬ Abandoned svc t := mt Once.cons hnot
    cases op with
    | setActive s a =>
      obtain ⟨rfl, -, hset⟩ := hc
      exact hI.written (handle_active hh) (hset.known hI) hnot'
    | commit id s r a =>
      obtain ⟨-, rfl, -, hcommit⟩ := hc
      exact hI.written (handle_active hh) (hcommit.known hI) hnot'
    | start d path =>
      obtain ⟨rfl, -, hact⟩ := hc
      have hentries := handle_active_inert hh trivial
      by_cases hsvc : d.serviceID = svc
      · subst hsvc
        intro asg hasg
        obtain rfl : d.assignmentID = asg := by simpa [tenant] using hasg
        exact ⟨_, (congrFun hentries _).trans hact, rfl, by simp⟩
      · rw [hentries, tenant, if_neg hsvc]
        exact hI.known svc hnot'
    | _ =>
      rw [handle_active_inert hh trivial]
      exact (hI.known svc hnot').cons (by simp) x

theorem tenancy_recovers (hI : Tenancy w t) (hr : Recovers w op) (he : e.Durable)
    (hh : handle op e w = some (x, w')) : Tenancy w' (⟨op, x⟩ :: t) := by
  have horder := orderInv_step op e w t x w' hI.order (hr.allowed hI.order) he hh
  cases op with
  | setActive s a =>
    obtain ⟨b, hb, -, rfl⟩ := hr
    refine ⟨horder, fun svc hnot => ?_, trivial, hI.undisturbed⟩
    refine hI.written (handle_active hh) (fun hs asg hasg => ?_) (mt Once.cons hnot)
    obtain ⟨b', hb', rfl, -⟩ := hI.known s hs asg hasg
    obtain rfl := Option.mem_unique hb hb'
    exact ⟨_, rfl, rfl, by simp⟩
  | running | active | removeOrphan =>
    refine ⟨horder, fun svc hnot => ?_, trivial, hI.undisturbed⟩
    rw [handle_active_inert hh trivial]
    exact (hI.known svc (mt Once.cons hnot)).cons (by simp) x
  | _ => exact hr.elim

theorem Tenancy.reboot (hI : Tenancy w t) : Tenancy w.reboot t where
  order := hI.order.reboot
  known svc hnot := by
    have hdisk : w.store.disk = w.store.mem.persisted := hI.order.saved
    show Known (w.store.disk.active svc) _
    rw [hdisk]
    exact hI.known svc hnot
  undisturbed := hI.undisturbed

theorem tenancy_run (nodeID : String) (events : List Event)
    (hE : ∀ ev ∈ events, ∀ e ∈ ev.choices, e.Durable) :
    Tenancy (Node.run nodeID events).world (Node.run nodeID events).trace := by
  induction events using List.reverseRecOn with
  | nil => exact ⟨orderInv_init, fun _ _ => known_of_none rfl, trivial⟩
  | append_singleton events ev ih =>
    have hprev := ih (List.forall_mem_append.mp hE).1
    have hev := hE ev (List.mem_append_right _ List.mem_cons_self)
    rw [Node.run_append]
    cases ev with
    | deliver c rounds es =>
      exact Node.step_deliver hev hprev (process_conduct (tenancy_keeps c) hprev)
    | restart es =>
      exact Node.step_restart hev
        (reconcile_conduct (fun _ _ _ _ _ _ => tenancy_recovers) hprev.reboot)

/-- **One tenant per service.** After every history in which a store write succeeds or the agent
crashes, the store knows the tenant of each service none of whose starts failed for good, and no
call ever disturbed one. -/
theorem one_tenant (nodeID : String) (events : List Event)
    (hE : ∀ ev ∈ events, ∀ e ∈ ev.choices, e.Durable) :
    (∀ svc, ¬ Abandoned svc (Node.run nodeID events).trace →
      Known ((Node.run nodeID events).world.store.mem.active svc)
        (tenant svc (Node.run nodeID events).trace)) ∧
    ∀ after call before, (Node.run nodeID events).trace = after ++ call :: before →
      Undisturbed call before :=
  ⟨(tenancy_run nodeID events hE).known, always_iff.mp (tenancy_run nodeID events hE).undisturbed⟩

/-- A start whose answer is lost in a crash, and its container after the restart. -/
def lostStart : List Event :=
  [.deliver (startCommand "c1" "s" "a" 5) 3 (List.replicate 12 {}), .restart [{}]]

theorem one_tenant_lostStart : tenant "s" (Node.run "n" lostStart).trace = some "a" ∧
      ∃ a, (Node.run "n" lostStart).world.store.mem.active "s" = some a ∧ a.assignmentID = "a" ∧
        (a.phase = .starting ∨ a.phase = .running) := by
  have hup : tenant "s" (Node.run "n" lostStart).trace = some "a" := by decide
  have hdefault : ∀ ev ∈ lostStart, ∀ e ∈ ev.choices, e = {} := by simp [lostStart, Event.choices]
  refine ⟨hup, (one_tenant "n" lostStart fun ev hev e he => ?_).1 "s" ?_ "a" hup⟩
  · rw [hdefault ev hev e he]
    exact ⟨rfl, by simp⟩
  · unfold Abandoned Once
    decide

end SharedNode.Agent
