import SharedNode.Agent.Evidence
import SharedNode.Agent.Release
import SharedNode.Docker.Runtime

/-!
# Started reports and health

A node with its containers: `Process` and `Reconcile` with the calls to the container runtime
replaced by the programs of `internal/docker/runtime.go`, so that a crash can come between any two
calls to the engine. When `ReportStarted` is sent for an assignment, was its container seen healthy
after its last start?
-/

namespace SharedNode.Agent

open ControlPlane Effect Prog
open Docker (Engine Runtime Weather healthySince nameOf)

variable {request : Docker.Call} {ds : List Command}

/-! ## The node with its containers -/

/-- The calls of a node, with those to the container engine. -/
inductive HostCall where
  | agent (op : Op)
  | docker (request : Docker.Call)

abbrev HostAns : HostCall → Type
  | .agent op => Ans op
  | .docker request => Docker.Answer request

/-- The choices of the outside for one call. -/
structure HostEnv where
  env : Env := {}
  weather : Weather := {}

/-- A started report, with the past of the containers when it was sent. -/
structure StartedReport where
  serviceID : String
  assignmentID : String
  past : List Docker.Moment
  deriving DecidableEq

/-- A node with its containers and the started reports it has sent. -/
structure Host where
  world : World := {}
  engine : Engine := {}
  reports : List StartedReport := []

namespace Host

def reported (s : Host) : Op → List StartedReport
  | .reportStarted svc asg _ => ⟨svc, asg, s.engine.log⟩ :: s.reports
  | _ => s.reports

/-- What the next process finds; the containers are as they were. -/
def reboot (s : Host) : Host := { s with world := s.world.reboot }

end Host

def hostHandle : Handler HostCall HostAns HostEnv Host
  | .agent op, e, s =>
    (handle op e.env s.world).map fun (x, world) => (x, { s with world, reports := s.reported op })
  | .docker request, e, s =>
    (Docker.serve request e.weather s.engine).map fun (x, engine) => (x, { s with engine })

/-- A program of the runtime, as calls of the node. -/
def onDocker {α : Type} (p : Docker.D α) : Prog HostCall HostAns α :=
  p.expand fun request => Prog.perform (.docker request)

/-- A call of the agent: those to the runtime are programs. -/
def hostCall (r : Runtime) : (op : Op) → Prog HostCall HostAns (Ans op)
  | .start c path => onDocker (r.start c path)
  | .stop c => onDocker (r.stop c)
  | .running => onDocker Runtime.running
  | .removeOrphan service => onDocker (Runtime.removeOrphan service)
  | op => (Prog.perform (HostCall.agent op) : Prog HostCall HostAns _)

/-- A delivery or a restart, with the choices of the engine. -/
inductive HostEvent where
  | deliver (command : Command) (rounds : Nat) (choices : List HostEnv)
  | restart (choices : List HostEnv)

def HostEvent.choices : HostEvent → List HostEnv
  | deliver _ _ es => es
  | restart es => es

def HostEvent.command? : HostEvent → Option Command
  | deliver c _ _ => some c
  | restart _ => none

/-- A node, and whether its agent is running. -/
structure HostNode where
  host : Host := {}
  up : Bool := true

namespace HostNode

variable (r : Runtime) (nodeID : String)

def step (n : HostNode) : HostEvent → HostNode
  | .deliver c rounds es =>
    if n.up then
      match run hostHandle ((Daemon.process nodeID rounds c).expand (hostCall r)) es n.host [] with
      | (x, s, _) => ⟨s, x.isSome⟩
    else n
  | .restart es =>
    match run hostHandle (Executor.reconcile.expand (hostCall r)) es n.host.reboot [] with
    | (some (.ok ()), s, _) => ⟨s, true⟩
    | (_, s, _) => ⟨s, false⟩

/-- The node after a history, from an empty store and no containers. -/
def run (events : List HostEvent) : HostNode := events.foldl (step r nodeID) {}

end HostNode

/-! ## The invariant -/

/-- A started report for every command of `ds` that has a stored result `started`, and for every
entry that says running, would be backed by the past of the containers; and every report sent
was. -/
structure HealthInv (ds : List Command) (s : Host) : Prop where
  saved : s.world.store.Saved
  results : ∀ c ∈ ds, ∀ r, s.world.store.mem.results c.commandID = some r → r.status = .started →
    c.kind = .restoreAndStart ∧
      healthySince (nameOf c.serviceID) c.assignmentID s.engine.log = true
  active : ∀ svc a, s.world.store.mem.active svc = some a → a.phase = .running →
    healthySince (nameOf svc) a.assignmentID s.engine.log = true
  reports : ∀ p ∈ s.reports, healthySince (nameOf p.serviceID) p.assignmentID p.past = true

/-- No entry of the command's service is running, and the command is to be executed. -/
structure Clear (c : Command) (w : World) : Prop where
  pending : Pending c w
  entry : ∀ a, w.store.mem.active c.serviceID = some a → a.phase ≠ .running

/-- What `Process` has seen is so. -/
def Evidence.Holds (c : Command) (s : Host) : Evidence → Prop
  | .idle => True
  | .unsettled => Pending c s.world
  | .found a => Pending c s.world ∧ s.world.store.mem.active c.serviceID = some a
  | .clear => Clear c s.world
  | .healthy => Clear c s.world ∧
      healthySince (nameOf c.serviceID) c.assignmentID s.engine.log = true
  | .proven => ∃ r, s.world.store.mem.results c.commandID = some r ∧ r.status = .started

def StillHealthy (log log' : List Docker.Moment) : Prop :=
  ∀ name asg, healthySince name asg log = true → healthySince name asg log' = true

variable {ds : List Command} {s : Host} {engine g : Engine} {c : Command} {name asg : String}
  {d : Docker.Dock}

theorem HealthInv.mono (h : HealthInv ds s)
    (hlog : StillHealthy s.engine.log engine.log) : HealthInv ds { s with engine } where
  saved := h.saved
  results c hc r hr hs := ⟨(h.results c hc r hr hs).1, hlog _ _ (h.results c hc r hr hs).2⟩
  active svc a ha hp := hlog _ _ (h.active svc a ha hp)
  reports := h.reports

theorem Evidence.Holds.mono {st : Evidence} (h : st.Holds c s)
    (hlog : StillHealthy s.engine.log engine.log) : st.Holds c { s with engine } := by
  cases st with
  | healthy => exact ⟨h.1, hlog _ _ h.2⟩
  | _ => exact h

/-! ## Bringing a container up -/

/-- What `Start` knows is so. -/
def Knows (name asg : String) (g : Engine) : Docker.Dock → Prop
  | .unknown => True
  | .matched => ∀ k, g.find (.name name) = some k → k.assignmentID = asg
  | .created ref => ref.container = name ∧ ∀ k, g.find ref = some k → k.assignmentID = asg
  | .healthy => healthySince name asg g.log = true

/-- What `Start` knows stays so while containers keep their labels. -/
theorem Knows.kin {g' : Engine} (h : Knows name asg g d)
    (hkin : Engine.From Docker.Kin g g') (hlog : StillHealthy g.log g'.log) :
    Knows name asg g' d := by
  cases d with
  | unknown => trivial
  | matched =>
    intro k' hk'
    obtain ⟨k, hk, hkk⟩ := hkin.find hk'
    exact hkk.assignmentID.trans (h k hk)
  | created ref =>
    refine ⟨h.1, fun k' hk' => ?_⟩
    obtain ⟨k, hk, hkk⟩ := hkin.find hk'
    exact hkk.assignmentID.trans (h.2 k hk)
  | healthy => exact hlog _ _ h

/-- No other command starts the assignment. -/
def Sole (ds : List Command) (c : Command) : Prop :=
  ∀ d ∈ ds, d.kind = .restoreAndStart → d.serviceID = c.serviceID →
    d.assignmentID = c.assignmentID → d.commandID = c.commandID

theorem nameOf_inj {a b : String} (h : nameOf a = nameOf b) : a = b := by
  have := congrArg String.toList h
  simp only [nameOf, String.toList_append] at this
  exact String.toList_inj.mp (List.append_cancel_left this)

/-- A start of the container of a command that is to be executed. -/
theorem HealthInv.started (h : HealthInv ds s) (hsole : Sole ds c) (hclear : Clear c s.world)
    (hlog : engine.log = .started (nameOf c.serviceID) c.assignmentID :: s.engine.log) :
    HealthInv ds { s with engine } where
  saved := h.saved
  results d hd r hr hs := by
    obtain ⟨hk, hh⟩ := h.results d hd r hr hs
    refine ⟨hk, ?_⟩
    rw [hlog]
    refine Docker.healthySince_started hh ?_
    rintro ⟨hname, hasg⟩
    -- the result would be that of the command itself
    have hid := hsole d hd hk (nameOf_inj hname).symm hasg.symm
    have hcached : Executor.cached (s.world.store.mem.results c.commandID) = none := hclear.pending
    rw [← hid, hr] at hcached
    simp [Executor.cached, CommandResult.final, hs] at hcached
  active svc a ha hp := by
    rw [hlog]
    refine Docker.healthySince_started (h.active svc a ha hp) ?_
    rintro ⟨hname, -⟩
    obtain rfl := nameOf_inj hname
    exact hclear.entry a ha hp
  reports := h.reports

theorem stillHealthy_of_eq {log log' : List Docker.Moment} (h : log' = log) :
    StillHealthy log log' := fun _ _ hs => h ▸ hs

theorem stillHealthy_observe (g : Engine) (ref : Docker.Ref) (i : Docker.Inspection) :
    StillHealthy g.log (g.observe ref i).log := by
  intro name asg hs
  unfold Engine.observe
  split
  · split
    · exact Docker.healthySince_observed hs _ _
    · exact hs
  · exact hs

theorem Knows.observe (h : Knows name asg g d)
    {ref : Docker.Ref} (hd : (d = .matched ∧ ref = .name name) ∨ d = .created ref) (e : Weather) :
    Knows name asg (g.observe ref (g.inspected e ref))
      (d.next asg (.inspectHealth ref) (g.inspected e ref)) := by
  have hcontainer : ref.container = name ∧ ∀ k, g.find ref = some k → k.assignmentID = asg := by
    rcases hd with ⟨rfl, rfl⟩ | rfl
    · exact ⟨rfl, h⟩
    · exact h
  have hstay : Knows name asg (g.observe ref (g.inspected e ref)) d := by
    refine h.kin (fun n k hk => ⟨k, ?_, ⟨rfl, rfl, rfl⟩⟩) (stillHealthy_observe g ref _)
    rwa [Engine.observe_containers] at hk
  cases hi : g.inspected e ref with
  | found k =>
    rw [hi] at hstay
    have hnext : d.next asg (.inspectHealth ref) (.found k) =
        if k.isHealthy then .healthy else d := by
      rcases hd with ⟨rfl, -⟩ | rfl <;> rfl
    rw [hnext]
    split
    next hk =>
      have hasg := hcontainer.2 k (Engine.find_of_inspected hi)
      simp only [Knows, Engine.observe, hk, if_true, hcontainer.1, hasg]
      exact Docker.healthySince_observed_self name asg g.log
    · exact hstay
  | missing err =>
    rw [hi] at hstay
    rcases hd with ⟨rfl, -⟩ | rfl <;> exact hstay
  | failed err =>
    rw [hi] at hstay
    rcases hd with ⟨rfl, -⟩ | rfl <;> exact hstay

theorem Knows.step (h : Knows name asg g d) (hfits : d.Fits name asg request)
    (hstart : ∀ ref, request ≠ .start ref) (e : Weather) :
    Knows name asg (g.reply e request).2 (d.next asg request (g.reply e request).1) ∧
      StillHealthy g.log (g.reply e request).2.log := by
  have hleft := g.left_reply e request
  cases request with
  | start ref => exact absurd rfl (hstart ref)
  | inspect ref =>
    obtain rfl : ref = .name name := hfits
    refine ⟨?_, stillHealthy_of_eq rfl⟩
    cases d with
    | unknown =>
      show Knows name asg g (Docker.Dock.next asg .unknown (.inspect (.name name))
        (g.inspected e (.name name)))
      cases hi : g.inspected e (.name name) with
      | found k =>
        simp only [Docker.Dock.next]
        split
        next hk =>
          intro k' hk'
          rw [Engine.find_of_inspected hi] at hk'
          exact Option.some.inj hk' ▸ hk.2
        · trivial
      | missing err => trivial
      | failed err => trivial
    | _ => exact h
  | inspectHealth ref => exact ⟨h.observe hfits e, stillHealthy_observe g ref _⟩
  | create n svc a =>
    obtain ⟨rfl, rfl, rfl⟩ := hfits
    refine ⟨?_, stillHealthy_of_eq (Engine.create_log g e n svc a)⟩
    show Knows n a (g.create e n svc a).2 (Docker.Dock.next a .unknown (.create n svc a)
      (g.create e n svc a).1)
    cases hx : (g.create e n svc a).1 with
    | error err => trivial
    | ok ref => exact Engine.create_spec hx
  | _ =>
    have hold := hleft.older (by simp) (by simp)
    have hlog := stillHealthy_of_eq (hleft.log (by simp) (by simp))
    refine ⟨?_, hlog⟩
    cases d <;> exact Knows.kin h hold.kin hlog

/-- What holds while `Start` brings the container of a command up. -/
structure BringsUp (ds : List Command) (c : Command) (d : Docker.Dock) (s : Host) : Prop where
  inv : HealthInv ds s
  clear : Clear c s.world
  knows : Knows (nameOf c.serviceID) c.assignmentID s.engine d

theorem BringsUp.step (hsole : Sole ds c) (h : BringsUp ds c d s)
    (hfits : d.Fits (nameOf c.serviceID) c.assignmentID request) (e : Weather) :
    BringsUp ds c (d.next c.assignmentID request ((s.engine.drifted e).reply e request).1)
      { s with engine := ((s.engine.drifted e).reply e request).2 } := by
  obtain ⟨hold, hdrift⟩ := s.engine.drifted_spec e
  have hinv : HealthInv ds { s with engine := s.engine.drifted e } :=
    h.inv.mono (stillHealthy_of_eq hdrift)
  have hknows := h.knows.kin hold.kin (stillHealthy_of_eq hdrift)
  by_cases hstart : ∃ ref, request = .start ref
  · obtain ⟨ref, rfl⟩ := hstart
    obtain rfl : d = .created ref := hfits
    obtain hsame | ⟨k, hk, hstarted⟩ := (s.engine.drifted e).start_spec e ref
    · rw [hsame]
      exact ⟨hinv, h.clear, hknows⟩
    · have hlog : ((s.engine.drifted e).started e ref.container k).log =
          .started (nameOf c.serviceID) c.assignmentID :: (s.engine.drifted e).log := by
        rw [Engine.started, hknows.1, hknows.2 k hk]
      rw [hstarted]
      refine ⟨hinv.started hsole h.clear hlog, h.clear, hknows.1, fun k' hk' => ?_⟩
      obtain ⟨k₀, hk₀, hkin⟩ := (Engine.kin_started _ e _ k).find hk'
      exact hkin.assignmentID.trans (hknows.2 k₀ hk₀)
  · have hne : ∀ ref, request ≠ .start ref := fun ref heq => hstart ⟨ref, heq⟩
    obtain ⟨hk, hlog⟩ := hknows.step hfits hne e
    exact ⟨hinv.mono hlog, h.clear, hk⟩

section Segments

variable {E : HostEnv → Prop} {C : Host → Trace HostCall HostAns → Prop} {s : Host}
  {t : Trace HostCall HostAns}

theorem docker_wp {Q : Docker.Answer request → Host → Trace HostCall HostAns → Prop} (hC : C s t)
    (h : ∀ e : Weather, ∀ t, Q ((s.engine.drifted e).reply e request).1
      { s with engine := ((s.engine.drifted e).reply e request).2 } t) :
    wp hostHandle E C (Prog.perform (.docker request)) Q s t := by
  refine ⟨hC, fun e _ x s' hx => ?_⟩
  cases hx
  exact h e.weather _

/-- `Start` of a command that is to be executed: a success comes with a healthy container. -/
theorem start_wp {c : Command} (hsole : Sole ds c) (r : Runtime) (path : String)
    (hinv : HealthInv ds s) (hclear : Clear c s.world) :
    wp hostHandle E (fun s _ => HealthInv ds s) (onDocker (r.start c path))
      (fun x s' _ => HealthInv ds s' ∧
        (Evidence.next .clear (.start c path) x).Holds c s') s t := by
  refine wp_mono (fun x s' t' hx => ?_)
    (Follows.wp_expand (J := BringsUp ds c) (fun d s t h => h.inv) (fun d request s t h hfits => ?_)
      (Runtime.start_follows r c path) ⟨hinv, hclear, trivial⟩)
  · obtain ⟨d, hd, hup⟩ := hx
    refine ⟨hd.inv, ?_⟩
    cases x with
    | ok =>
      obtain rfl := hup rfl
      exact ⟨hd.clear, hd.knows⟩
    | terminal code message => exact hd.clear
    | failed err => exact hd.clear
  · exact docker_wp h.inv fun e t => h.step hsole hfits e

/-- A program of quiet calls keeps what ageing containers keep, and the containers it lists are
running ones of the engine. -/
theorem quiet_wp {α : Type} {K : Host → Prop} {L : Docker.Container → Prop}
    (hK : ∀ s engine, K s → s.engine.Older engine → engine.log = s.engine.log → K { s with engine })
    (hL : ∀ s, K s → ∀ p ∈ s.engine.managed, p.2.running = true → L p.2)
    (hC : ∀ s t, K s → C s t) {p : Docker.D α} {R : α → List (Docker.Ref × Docker.Container) → Prop}
    (hp : Follows Docker.listing p R []) (hs : K s) :
    wp hostHandle E C (onDocker p)
      (fun x s' _ => K s' ∧ ∃ l, (∀ q ∈ l, q.2.running = true → L q.2) ∧ R x l) s t := by
  refine wp_mono (fun x s' t' hx => ?_)
    (Follows.wp_expand (J := fun l s => K s ∧ ∀ q ∈ l, q.2.running = true → L q.2)
      (fun l s t h => hC s t h.1) (fun l request s t h hquiet => ?_) hp
      ⟨hs, fun q hq => absurd hq List.not_mem_nil⟩)
  · obtain ⟨l, hl, hr⟩ := hx
    exact ⟨hl.1, l, hl.2, hr⟩
  · refine docker_wp (hC s t h.1) fun e t => ?_
    have hquiet' : request.quiet := hquiet
    obtain ⟨hold, hdrift⟩ := s.engine.drifted_spec e
    have hleft := (s.engine.drifted e).left_reply e request
    have hstart : ∀ ref, request ≠ .start ref :=
      fun ref heq => by rw [heq] at hquiet'; exact hquiet'
    have hcreate : ∀ n svc asg, request ≠ .create n svc asg := fun n svc asg heq => by
      rw [heq] at hquiet'; exact hquiet'
    have hwait : ∀ ref, request ≠ .inspectHealth ref := fun ref heq => by
      rw [heq] at hquiet'; exact hquiet'
    refine ⟨hK s _ h.1 (hold.trans (hleft.older hstart hcreate))
      ((hleft.log hstart hwait).trans hdrift), ?_⟩
    by_cases hlist : request = .list
    · subst hlist
      have hdrifted : K { s with engine := s.engine.drifted e } := hK s _ h.1 hold hdrift
      cases he : e.err with
      | none =>
        have hx : ((s.engine.drifted e).reply e .list).1 = .ok (s.engine.drifted e).managed := by
          simp only [Engine.reply, he]
        rw [hx]
        exact hL _ hdrifted
      | some err =>
        have hx : ((s.engine.drifted e).reply e .list).1 = .error err := by
          simp only [Engine.reply, he]
        rw [hx]
        exact h.2
    · have hnext : Docker.listing.next l request ((s.engine.drifted e).reply e request).1 = l := by
        cases request <;> first | exact absurd rfl hlist | rfl
      rw [hnext]
      exact h.2

end Segments

/-! ## The calls of `Process` -/

/-- Command IDs identify commands, and an assignment is started by one command. -/
structure Identified (ds : List Command) : Prop where
  ids : IdsIdentify ds
  starts : ∀ c ∈ ds, c.kind = .restoreAndStart → Sole ds c

section Steps

variable {ds : List Command} {c : Command} {s : Host} {op : Op} {e : Env} {w : World} {x : Ans op}

/-- A call that leaves the active entries and results leaves what was seen. -/
theorem Evidence.Holds.inert {st : Evidence} (h : st.Holds c s)
    (hh : handle op e s.world = some (x, w)) (hop : op.inert) (reports : List StartedReport) :
    st.Holds c { s with world := w, reports } := by
  have hpend : Pending c s.world → Pending c w := fun hp => hp.step hh hop.ne_commit
  have hact := handle_active_inert hh hop
  have hclear : Clear c s.world → Clear c w := by
    intro hc
    refine ⟨hpend hc.pending, fun a ha => hc.entry a ?_⟩
    rw [← hact]
    exact ha
  cases st with
  | idle => trivial
  | unsettled => exact hpend h
  | found a => exact ⟨hpend h.1, (congrFun hact c.serviceID).trans h.2⟩
  | clear => exact hclear h
  | healthy => exact ⟨hclear h.1, h.2⟩
  | proven =>
    obtain ⟨r, hr, hs⟩ := h
    obtain ⟨r', hr', hp⟩ := handle_results_kept hh hop.ne_commit hr
    exact ⟨r', hr', (CommandResult.status_of_persisted hp).trans hs⟩

theorem Evidence.Holds.step {st : Evidence} (h : st.Holds c s) (hfits : st.Fits c op)
    (hstart : ∀ d path, op ≠ .start d path) (he : e.Durable)
    (hh : handle op e s.world = some (x, w)) (reports : List StartedReport) :
    (st.next op x).Holds c { s with world := w, reports } := by
  cases op with
  | start d path => exact absurd rfl (hstart d path)
  | result id =>
    obtain rfl : id = c.commandID := hfits
    have hx : x = w.store.mem.results c.commandID := by
      rw [handle_results hh]
      exact handle_result_reply hh
    have hnext : st.next (.result c.commandID) x = ofResult x := by cases st <;> rfl
    rw [hnext]
    unfold ofResult
    split
    next r hr =>
      split
      next hs => exact ⟨r, hx.symm.trans (Option.filter_eq_some_iff.mp hr).1, hs⟩
      · trivial
    next hr =>
      show Executor.cached (w.store.mem.results c.commandID) = none
      rw [← hx]
      exact hr
  | active svc =>
    obtain rfl : svc = c.serviceID := hfits
    have hkeep := h.inert hh trivial reports
    have hx : x = w.store.mem.active c.serviceID := by
      rw [handle_active hh]
      exact handle_active_reply hh
    cases st with
    | unsettled =>
      show (ofActive x).Holds c _
      unfold ofActive
      split
      next a =>
        split
        · exact ⟨hkeep, hx.symm⟩
        next hp =>
          refine ⟨hkeep, fun b hb => ?_⟩
          obtain rfl := Option.some.inj (hx.trans hb)
          exact hp
      · exact ⟨hkeep, fun b hb => absurd (hx.trans hb) (by simp)⟩
    | _ => exact hkeep
  | commit id svc r a =>
    obtain ⟨rfl, rfl, -⟩ := hfits
    obtain rfl := handle_commit_reply he hh
    have hnext : st.next (.commit c.commandID c.serviceID r a) (.ok ()) =
        if r.status = .started then .proven else .idle := by cases st <;> rfl
    rw [hnext]
    split
    next hs =>
      refine ⟨r, ?_, hs⟩
      rw [handle_results hh]
      simp [Op.onResults]
    · trivial
  | setActive svc a =>
    obtain ⟨rfl, hp⟩ := hfits
    have hpend : Pending c s.world → Pending c w := fun hp => hp.step hh (by simp)
    have hclear : Clear c s.world → Clear c w := by
      intro hc
      refine ⟨hpend hc.pending, fun b hb => ?_⟩
      rw [handle_active hh] at hb
      obtain rfl : a = b := by simpa [Op.onActive] using hb
      exact hp
    cases st with
    | idle => trivial
    | unsettled => exact hpend h
    | found b => trivial
    | clear => exact hclear h
    | healthy => exact ⟨hclear h.1, h.2⟩
    | proven =>
      obtain ⟨r, hr, hs⟩ := h
      refine ⟨r, ?_, hs⟩
      rw [handle_results hh]
      exact hr
  | _ =>
    exact h.inert hh trivial reports

theorem HealthInv.backs (hinv : HealthInv ds s) {st : Evidence} (hst : st.Holds c s)
    {r : CommandResult} {a : Option ActiveAssignment} (hb : Evidence.Backs c st r a) :
    (r.status = .started → healthySince (nameOf c.serviceID) c.assignmentID s.engine.log = true) ∧
    ∀ b, a = some b → b.phase = .running →
      healthySince (nameOf c.serviceID) b.assignmentID s.engine.log = true := by
  constructor
  · intro hs
    rcases (hb.result hs).2 with rfl | ⟨b, rfl, hasg, hp⟩
    · exact hst.2
    · rw [← hasg]
      exact hinv.active _ b hst.2 hp
  · intro b hab hp
    rcases hb.entry b hab hp with ⟨rfl, hasg⟩ | rfl
    · rw [hasg]
      exact hst.2
    · exact hinv.active _ b hst.2 hp

/-- A call of `Process` to anything but the container runtime keeps the invariant. -/
theorem HealthInv.step (hds : Identified ds) (hc : c ∈ ds) (hinv : HealthInv ds s) {st : Evidence}
    (hst : st.Holds c s) (hfits : st.Fits c op) (he : e.Durable)
    (hh : handle op e s.world = some (x, w)) :
    HealthInv ds { s with world := w, reports := s.reported op } where
  saved := handle_saved he hh hinv.saved
  results d hd r hr hs := by
    rcases handle_stored hh hr with ⟨r₀, h₀, hp⟩ | ⟨svc, a, rfl⟩
    · exact hinv.results d hd r₀ h₀ ((CommandResult.status_of_persisted hp).symm.trans hs)
    · obtain ⟨hid, -, hb⟩ := hfits
      obtain ⟨hk, hsvc, hasg⟩ := hds.ids d hd c hc hid
      rw [hk, hsvc, hasg]
      exact ⟨(hb.result hs).1, (hinv.backs hst hb).1 hs⟩
  active svc a ha hp := by
    rcases handle_entry hh ha with hold | rfl | ⟨id, r, rfl⟩
    · exact hinv.active svc a hold hp
    · exact absurd hp hfits.2
    · obtain ⟨-, rfl, hb⟩ := hfits
      exact (hinv.backs hst hb).2 a rfl hp
  reports p hp := by
    cases op with
    | reportStarted svc asg endpoint =>
      obtain ⟨rfl, rfl, rfl⟩ := hfits
      rcases List.mem_cons.mp hp with rfl | hp
      · obtain ⟨r, hr, hs⟩ := hst
        exact (hinv.results c hc r hr hs).2
      · exact hinv.reports p hp
    | _ => exact hinv.reports p hp

end Steps

section Runs

variable {ds : List Command} {r : Runtime} {s : Host} {t : Trace HostCall HostAns}

/-- Every store write succeeds. -/
def HostEnv.Durable (e : HostEnv) : Prop := e.env.Durable

/-- What `Process` keeps. -/
def Watched (ds : List Command) (c : Command) (st : Evidence) (s : Host) : Prop :=
  HealthInv ds s ∧ st.Holds c s

variable {op : Op} {c : Command} {svc : String} {engine : Engine} {st : Recovery}

theorem hostHandle_agent {e : HostEnv} {x : Ans op} {s' : Host}
    (h : hostHandle (.agent op) e s = some (x, s')) :
    ∃ w, handle op e.env s.world = some (x, w) ∧
      s' = { s with world := w, reports := s.reported op } := by
  have h' : (handle op e.env s.world).map (fun p : Ans op × World =>
      (p.1, ({ s with world := p.2, reports := s.reported op } : Host))) = some (x, s') := h
  obtain ⟨⟨y, w⟩, hh, heq⟩ := Option.map_eq_some_iff.mp h'
  obtain ⟨rfl, rfl⟩ := Prod.mk.inj heq
  exact ⟨w, hh, rfl⟩

theorem agent_wp (hds : Identified ds) (hc : c ∈ ds) {st : Evidence}
    (h : Watched ds c st s) (hfits : st.Fits c op) (hstart : ∀ d path, op ≠ .start d path) :
    wp hostHandle HostEnv.Durable (fun s _ => HealthInv ds s) (Prog.perform (HostCall.agent op))
      (fun x s' _ => Watched ds c (st.next op x) s') s t := by
  refine ⟨h.1, fun e he x s' hx => ?_⟩
  obtain ⟨w, hh, rfl⟩ := hostHandle_agent hx
  exact ⟨h.1.step hds hc h.2 hfits he hh, h.2.step hfits hstart he hh _⟩

theorem hostCall_wp (hds : Identified ds) (hc : c ∈ ds) {st : Evidence}
    (h : Watched ds c st s) (hfits : st.Fits c op) :
    wp hostHandle HostEnv.Durable (fun s _ => HealthInv ds s) (hostCall r op)
      (fun x s' _ => Watched ds c (st.next op x) s') s t := by
  cases op with
  | start d path =>
    obtain ⟨rfl, hk, rfl⟩ := hfits
    exact start_wp (hds.starts d hc hk) r path h.1 h.2
  | stop d =>
    refine wp_mono (fun x s' t' hx => ?_) (quiet_wp (K := Watched ds c st) (L := fun _ => True)
      (fun s engine hs _ hlog => ⟨hs.1.mono (stillHealthy_of_eq hlog),
        hs.2.mono (stillHealthy_of_eq hlog)⟩)
      (fun _ _ _ _ _ => trivial) (fun _ _ hs => hs.1) (Runtime.stop_quiet r d []) h)
    exact hx.1
  | running => exact hfits.elim
  | removeOrphan service => exact hfits.elim
  | _ => exact agent_wp hds hc h hfits (by simp)

theorem process_wp (hds : Identified ds) (hc : c ∈ ds) (nodeID : String) (rounds : Nat)
    (h : HealthInv ds s) :
    wp hostHandle HostEnv.Durable (fun s _ => HealthInv ds s)
      ((Daemon.process nodeID rounds c).expand (hostCall r)) (fun _ s _ => HealthInv ds s) s t := by
  refine wp_mono (fun x s' t' hx => ?_)
    (Follows.wp_expand (J := Watched ds c) (fun st s t h => h.1)
      (fun st op s t h hfits => hostCall_wp hds hc h hfits) (process_evidence nodeID rounds)
      ⟨h, trivial⟩)
  obtain ⟨st, hst, -⟩ := hx
  exact hst.1

/-! ## Restarts -/

/-- An entry of the service that is starting, for this assignment, is of a healthy container. -/
def Promotable (s : Host) (svc asg : String) : Prop :=
  ∀ a, s.world.store.mem.active svc = some a → a.assignmentID = asg → a.phase = .starting →
    healthySince (nameOf svc) asg s.engine.log = true

/-- What `Reconcile` has seen is so, and it promotes entries of healthy containers only. -/
def Recovery.Holds (s : Host) : Recovery → Prop
  | .listing => ∀ n k, s.engine.containers.lookup n = some k → k.running = true →
      Promotable s k.serviceID k.assignmentID
  | .listed l => ∀ p ∈ l, Promotable s p.serviceID p.assignmentID
  | .looked l svc a => (∀ p ∈ l, Promotable s p.serviceID p.assignmentID) ∧
      s.world.store.mem.active svc = some a

/-- The condition of a restart: a running container whose assignment is recorded as starting was
seen healthy since its last start. -/
def RestartsHealthy (s : Host) : Prop := Recovery.Holds s.reboot .listing

theorem Promotable.mono {asg : String} (h : Promotable s svc asg)
    (hlog : engine.log = s.engine.log) : Promotable { s with engine } svc asg := by
  intro a ha hasg hp
  rw [hlog]
  exact h a ha hasg hp

theorem Recovery.Holds.mono (h : st.Holds s)
    (hold : s.engine.Older engine) (hlog : engine.log = s.engine.log) :
    st.Holds { s with engine } := by
  cases st with
  | listing =>
    intro n k' hk' hrun
    obtain ⟨k, hk, hage⟩ := hold n k' hk'
    rw [hage.serviceID, hage.assignmentID]
    exact (h n k hk (hage.running hrun)).mono hlog
  | listed l => exact fun p hp => (h p hp).mono hlog
  | looked l svc a => exact ⟨fun p hp => (h.1 p hp).mono hlog, h.2⟩

/-- What `Reconcile` keeps. -/
def Restarting (ds : List Command) (st : Recovery) (s : Host) : Prop :=
  HealthInv ds s ∧ st.Holds s

theorem Restarting.mono (h : Restarting ds st s)
    (hold : s.engine.Older engine) (hlog : engine.log = s.engine.log) :
    Restarting ds st { s with engine } :=
  ⟨h.1.mono (stillHealthy_of_eq hlog), h.2.mono hold hlog⟩

theorem mem_managed {g : Engine} {p : Docker.Ref × Docker.Container} (h : p ∈ g.managed) :
    ∃ n, g.containers.lookup n = some p.2 := by
  obtain ⟨⟨n, k⟩, hk, rfl⟩ := List.mem_map.mp h
  exact ⟨n, AList.mem_lookup_iff.mpr (List.mem_filter.mp hk).1⟩

theorem running_wp (h : Restarting ds .listing s) :
    wp hostHandle HostEnv.Durable (fun s _ => HealthInv ds s) (onDocker Runtime.running)
      (fun x s' _ => Restarting ds (Recovery.next .listing .running x) s') s t := by
  -- the store does not change while the containers are listed
  have hq := quiet_wp (E := HostEnv.Durable) (C := fun s _ => HealthInv ds s) (s := s) (t := t)
    (K := fun s' => Restarting ds .listing s' ∧ s'.world = s.world ∧ s'.engine.log = s.engine.log)
    (L := fun k => Promotable s k.serviceID k.assignmentID)
    (fun s' engine hs hold hlog => ⟨hs.1.mono hold hlog, hs.2.1, hlog.trans hs.2.2⟩)
    (fun s' hs p hp hrun a ha hasg hst => ?_) (fun _ _ hs => hs.1.1)
    (Runtime.running_follows []) ⟨h, rfl, rfl⟩
  · refine wp_mono (fun x s' t' hx => ?_) hq
    obtain ⟨⟨hs', hworld, hlog⟩, l, hl, hx⟩ := hx
    cases x with
    | error err => exact hs'
    | ok services =>
      refine ⟨hs'.1, fun p hp a ha hasg hst => ?_⟩
      obtain ⟨q, hq, hrun, hsvc, hqasg⟩ := hx services rfl p hp
      have := hl q hq hrun
      rw [hsvc, hqasg] at this
      rw [hlog]
      exact this a (by rw [← hworld]; exact ha) hasg hst
  · obtain ⟨n, hn⟩ := mem_managed hp
    rw [← hs.2.2]
    exact hs.1.2 n p.2 hn hrun a (by rw [hs.2.1]; exact ha) hasg hst

theorem Restarting.lookup (h : Restarting ds st s) {e : Env}
    (he : e.Durable) {x : Option ActiveAssignment} {w : World}
    (hh : handle (.active svc) e s.world = some (x, w)) :
    Restarting ds (st.next (.active svc) x) { s with world := w } := by
  have hact : w.store.mem.active = s.world.store.mem.active := handle_active hh
  have hx : w.store.mem.active svc = x := by rw [hact]; exact (handle_active_reply hh).symm
  have hprom : ∀ svc asg, Promotable s svc asg → Promotable { s with world := w } svc asg := by
    intro svc asg hp a ha
    exact hp a (by rw [← hact]; exact ha)
  refine ⟨⟨handle_saved he hh h.1.saved, fun c hc r hr => h.1.results c hc r ?_,
    fun svc a ha => h.1.active svc a ?_, h.1.reports⟩, ?_⟩
  · rw [handle_results hh] at hr
    exact hr
  · rw [← hact]
    exact ha
  cases st with
  | listing => cases x <;> exact fun n k hk hrun => hprom _ _ (h.2 n k hk hrun)
  | listed l =>
    have hl : ∀ p ∈ l, Promotable { s with world := w } p.serviceID p.assignmentID :=
      fun p hp => hprom _ _ (h.2 p hp)
    cases x with
    | none => exact hl
    | some a => exact ⟨hl, hx⟩
  | looked l svc' a' =>
    have hl : ∀ p ∈ l, Promotable { s with world := w } p.serviceID p.assignmentID :=
      fun p hp => hprom _ _ (h.2.1 p hp)
    cases x with
    | none => exact hl
    | some a => exact ⟨hl, hx⟩

theorem Restarting.promote {l : List RunningService} {a : ActiveAssignment}
    (h : Restarting ds (.looked l svc a) s) (hp : a.phase = .starting)
    (hmem : ⟨svc, a.assignmentID⟩ ∈ l) {e : Env} (he : e.Durable) {x : Except String Unit}
    {w : World}
    (hh : handle (.setActive svc { a with phase := .running }) e s.world = some (x, w)) :
    Restarting ds (.listed l) { s with world := w } := by
  have hhealthy := h.2.1 _ hmem a h.2.2 rfl hp
  refine ⟨⟨handle_saved he hh h.1.saved, fun c hc r hr => h.1.results c hc r ?_,
    fun svc' b hb hrun => ?_, h.1.reports⟩, fun p hpl b hb hasg hst => ?_⟩
  · rw [handle_results hh] at hr
    exact hr
  · rcases handle_entry hh hb with hold | hset | ⟨id, r, hcommit⟩
    · exact h.1.active svc' b hold hrun
    · obtain ⟨rfl, rfl⟩ : svc = svc' ∧ { a with phase := .running } = b := by
        simpa using hset
      exact hhealthy
    · cases hcommit
  · rcases handle_entry hh hb with hold | hset | ⟨id, r, hcommit⟩
    · exact h.2.1 p hpl b hold hasg hst
    · obtain ⟨-, rfl⟩ : svc = p.serviceID ∧ { a with phase := .running } = b := by
        simpa using hset
      cases hst
    · cases hcommit

theorem recover_wp (h : Restarting ds st s) (hfits : st.Fits op) :
    wp hostHandle HostEnv.Durable (fun s _ => HealthInv ds s) (hostCall r op)
      (fun x s' _ => Restarting ds (st.next op x) s') s t := by
  cases op with
  | running =>
    obtain rfl : st = .listing := hfits
    exact running_wp h
  | removeOrphan service =>
    refine wp_mono (fun x s' t' hx => ?_) (quiet_wp (K := Restarting ds st) (L := fun _ => True)
      (fun s engine hs hold hlog => hs.mono hold hlog) (fun _ _ _ _ _ => trivial)
      (fun _ _ hs => hs.1) (Runtime.removeOrphan_quiet service []) h)
    have hnext : st.next (.removeOrphan service) x = st := by cases st <;> rfl
    rw [hnext]
    exact hx.1
  | active svc =>
    refine ⟨h.1, fun e he x s' hx => ?_⟩
    obtain ⟨w, hh, rfl⟩ := hostHandle_agent hx
    exact h.lookup he hh
  | setActive svc b =>
    obtain ⟨l, a, rfl, hp, hmem, rfl⟩ := hfits
    refine ⟨h.1, fun e he x s' hx => ?_⟩
    obtain ⟨w, hh, rfl⟩ := hostHandle_agent hx
    exact h.promote hp hmem he hh
  | _ => exact hfits.elim

theorem HealthInv.reboot (h : HealthInv ds s) : HealthInv ds s.reboot where
  saved := h.saved.reload
  results c hc r hr hs := by
    have hdisk : s.world.store.disk = s.world.store.mem.persisted := h.saved
    have hr' : s.world.store.disk.results c.commandID = some r := hr
    rw [hdisk, FileState.persisted_results] at hr'
    obtain ⟨r₀, h₀, rfl⟩ := Option.map_eq_some_iff.mp hr'
    exact h.results c hc r₀ h₀ hs
  active svc a ha hp := by
    have hdisk : s.world.store.disk = s.world.store.mem.persisted := h.saved
    have ha' : s.world.store.disk.active svc = some a := ha
    rw [hdisk, FileState.persisted_active] at ha'
    exact h.active svc a ha' hp
  reports := h.reports

theorem reconcile_wp (h : HealthInv ds s) (hrestart : RestartsHealthy s) :
    wp hostHandle HostEnv.Durable (fun s _ => HealthInv ds s)
      (Executor.reconcile.expand (hostCall r)) (fun _ s _ => HealthInv ds s) s.reboot t := by
  refine wp_mono (fun x s' t' hx => ?_)
    (Follows.wp_expand (J := Restarting ds) (fun st s t h => h.1)
      (fun st op s t h hfits => recover_wp h hfits) reconcile_evidence ⟨h.reboot, hrestart⟩)
  obtain ⟨st, hst, -⟩ := hx
  exact hst.1

end Runs

/-! ## Every history -/

section Histories

variable (r : Runtime) (nodeID : String)

def hostDelivered (events : List HostEvent) : List Command := events.filterMap HostEvent.command?

/-- The conditions on a history. -/
structure Sheltered (events : List HostEvent) : Prop where
  writes : ∀ ev ∈ events, ∀ e ∈ ev.choices, e.Durable
  commands : Identified (hostDelivered events)
  restarts : ∀ before es after, events = before ++ .restart es :: after →
    RestartsHealthy (HostNode.run r nodeID before).host

variable {r nodeID}

theorem healthInv_deliver (hds : Identified ds) {c : Command} (hc : c ∈ ds) {rounds : Nat}
    {es : List HostEnv} (hes : ∀ e ∈ es, e.Durable) {n : HostNode} (h : HealthInv ds n.host) :
    HealthInv ds (n.step r nodeID (.deliver c rounds es)).host := by
  obtain ⟨hret, hcut⟩ := wp_run hes (process_wp (r := r) (t := []) hds hc nodeID rounds h)
  unfold HostNode.step
  cases n.up with
  | false => exact h
  | true =>
    cases hr : (Effect.run hostHandle ((Daemon.process nodeID rounds c).expand (hostCall r)) es
        n.host []).1 with
    | none => exact hcut hr
    | some a => exact hret a hr

theorem healthInv_restart {es : List HostEnv} (hes : ∀ e ∈ es, e.Durable) {n : HostNode}
    (h : HealthInv ds n.host) (hrestart : RestartsHealthy n.host) :
    HealthInv ds (n.step r nodeID (.restart es)).host := by
  obtain ⟨hret, hcut⟩ := wp_run hes (reconcile_wp (r := r) (t := []) h hrestart)
  have hall : HealthInv ds
      (Effect.run hostHandle (Executor.reconcile.expand (hostCall r)) es n.host.reboot []).2.1 := by
    cases hr : (Effect.run hostHandle (Executor.reconcile.expand (hostCall r)) es
        n.host.reboot []).1 with
    | none => exact hcut hr
    | some a => exact hret a hr
  unfold HostNode.step
  dsimp only
  split
  next heq => rw [heq] at hall; exact hall
  next heq => rw [heq] at hall; exact hall

theorem healthInv_run (hds : Identified ds) (events : List HostEvent)
    (hwrites : ∀ ev ∈ events, ∀ e ∈ ev.choices, e.Durable)
    (hsub : ∀ c ∈ hostDelivered events, c ∈ ds)
    (hrestarts : ∀ before es after, events = before ++ .restart es :: after →
      RestartsHealthy (HostNode.run r nodeID before).host) :
    HealthInv ds (HostNode.run r nodeID events).host := by
  induction events using List.reverseRecOn with
  | nil =>
    exact ⟨rfl, by simp [HostNode.run],
      by simp [HostNode.run], by simp [HostNode.run]⟩
  | append_singleton events ev ih =>
    have hprev := ih (List.forall_mem_append.mp hwrites).1
      (fun c hc => hsub c (by
        rw [hostDelivered, List.filterMap_append]
        exact List.mem_append_left _ hc))
      (fun before es after heq => hrestarts before es (after ++ [ev]) (by rw [heq]; simp))
    have hev := hwrites ev (by simp)
    rw [show HostNode.run r nodeID (events ++ [ev]) =
      (HostNode.run r nodeID events).step r nodeID ev by simp [HostNode.run]]
    cases ev with
    | deliver c rounds es =>
      refine healthInv_deliver hds (hsub c ?_) hev hprev
      rw [hostDelivered, List.filterMap_append]
      exact List.mem_append_right _ (by simp [HostEvent.command?])
    | restart es => exact healthInv_restart hev hprev (hrestarts events es [] rfl)

/-- **Started reports are backed by a health check.** In every history of deliveries, behaviours of
the engine, crashes and restarts that meets the conditions, whenever `ReportStarted` is sent for an
assignment, its container was seen healthy after its last start. -/
theorem reports_healthy (events : List HostEvent) (h : Sheltered r nodeID events) :
    ∀ p ∈ (HostNode.run r nodeID events).host.reports,
      healthySince (nameOf p.serviceID) p.assignmentID p.past = true :=
  (healthInv_run h.commands events h.writes (fun _ hc => hc) h.restarts).reports

end Histories

/-! ## A crash in the health wait -/

/-- A `RestoreAndStart` with compiled content. -/
def contentCommand : Command := { startCommand "c" "s" "a" 5 with runtimeContent := some {} }

def plainRuntime : Runtime := { createRequest := fun _ _ => none, rounds := 2 }

/-- The agent dies after some calls of a delivery, is started again, and the command is delivered
again, under the same choice at every call. -/
def crashAndRecover (calls : Nat) (choice : HostEnv) : List HostEvent :=
  [.deliver contentCommand 3 (List.replicate calls choice), .restart (List.replicate 10 choice),
   .deliver contentCommand 3 (List.replicate 40 choice)]

/-- The health check of the container has passed. -/
def healthyChoice : HostEnv := { weather := { drift := [.health (nameOf "s") .healthy] } }

/-- A crash after the health wait saw the container healthy, before the result is committed. -/
theorem reports_healthy_crashAndRecover :
    (HostNode.run plainRuntime "n" (crashAndRecover 13 healthyChoice)).host.reports ≠ [] ∧
    ∀ p ∈ (HostNode.run plainRuntime "n" (crashAndRecover 13 healthyChoice)).host.reports,
      healthySince (nameOf p.serviceID) p.assignmentID p.past = true := by
  refine ⟨by decide, reports_healthy (crashAndRecover 13 healthyChoice) ⟨?_, ⟨?_, ?_⟩, ?_⟩⟩
  · intro ev hev e he
    have hchoice : e = healthyChoice := by
      simp only [crashAndRecover, List.mem_cons, List.not_mem_nil, or_false] at hev
      rcases hev with rfl | rfl | rfl <;> exact List.eq_of_mem_replicate he
    rw [hchoice]
    exact ⟨rfl, by simp [healthyChoice]⟩
  · unfold IdsIdentify
    decide
  · unfold Sole
    decide
  · intro before es after heq
    -- the only restart is the second event
    have hbefore : before = (crashAndRecover 13 healthyChoice).take 1 := by
      rcases before with _ | ⟨b₁, _ | ⟨b₂, _ | ⟨b₃, rest⟩⟩⟩ <;>
        simp [crashAndRecover] at heq ⊢
      exact heq.1.symm
    subst hbefore
    intro n k hk hrun a ha hasg hst
    have hentries : (HostNode.run plainRuntime "n"
        ((crashAndRecover 13 healthyChoice).take 1)).host.reboot.engine.containers.entries =
        [⟨nameOf "s",
          { id := 0, serviceID := "s", assignmentID := "a", running := true,
            health := some .healthy }⟩] := by decide
    have hmem := AList.mem_lookup_iff.mp hk
    rw [hentries, List.mem_singleton] at hmem
    obtain ⟨rfl, hk'⟩ := Sigma.mk.inj hmem
    obtain rfl := eq_of_heq hk'
    decide

/-- A crash in the health wait: after the restart the entry says running, and the command delivered
again is reported as started although no health check was seen. -/
theorem reported_without_health :
    (HostNode.run plainRuntime "n" (crashAndRecover 12 {})).host.reports =
      [⟨"s", "a", [.started (nameOf "s") "a"]⟩] ∧
    healthySince (nameOf "s") "a" [.started (nameOf "s") "a"] = false := by
  decide

end SharedNode.Agent
