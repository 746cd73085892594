import SharedNode.Agent.Outline

/-!
# What stands behind a started report

The calls of `Process` (`internal/agent/daemon.go`) and of `Reconcile` (`executor.go`) as protocols,
with what the agent has seen of the health of a service. `ReportStarted` needs a stored result
`started`; that result is committed after a successful `Start`, or because the active entry says
running already; and an entry that says running is committed with such a result, or promoted by
`Reconcile` from a starting one (`process_evidence`, `reconcile_evidence`).

Left out: how the container runtime checks the health, the subject of `Agent.Health`.
-/

namespace SharedNode.Agent

open ControlPlane Effect Prog

/-- What `Process` has seen of its command. -/
inductive Evidence where
  | idle
  /-- The command has no final stored result. -/
  | unsettled
  /-- Neither has it a final result, and the active entry of the service is this running one. -/
  | found (a : ActiveAssignment)
  /-- Neither has it a final result, and no active entry of the service is running. -/
  | clear
  /-- `Start` returned success after that. -/
  | healthy
  /-- The stored result of the command is `started`. -/
  | proven
  deriving DecidableEq

namespace Evidence

def ofResult (stored : Option CommandResult) : Evidence :=
  match Executor.cached stored with
  | some r => if r.status = .started then proven else idle
  | none => unsettled

/-- What a lookup of the active entry shows. -/
def ofActive : Option ActiveAssignment → Evidence
  | some a => if a.phase = .running then found a else clear
  | none => clear

def next : Evidence → (op : Op) → Ans op → Evidence
  | _, .result _, stored => ofResult stored
  | unsettled, .active _, active => ofActive active
  | clear, .start .., .ok => healthy
  | _, .commit _ _ r _, .ok () => if r.status = .started then proven else idle
  | _, .commit .., .error _ => idle
  | found _, .setActive .., _ => idle
  | st, _, _ => st

/-- A result and an entry that may be committed. -/
structure Backs (c : Command) (st : Evidence) (r : CommandResult) (a : Option ActiveAssignment) :
    Prop where
  result : r.status = .started → c.kind = .restoreAndStart ∧
    (st = healthy ∨ ∃ b, st = found b ∧ b.assignmentID = c.assignmentID ∧ b.phase = .running)
  entry : ∀ b, a = some b → b.phase = .running →
    (st = healthy ∧ b.assignmentID = c.assignmentID) ∨ st = found b

/-- The calls of `Process`. -/
def Fits (c : Command) (st : Evidence) : Op → Prop
  | .result id => id = c.commandID
  | .active svc => svc = c.serviceID
  | .setActive svc a => svc = c.serviceID ∧ a.phase ≠ .running
  | .commit id svc r a => id = c.commandID ∧ svc = c.serviceID ∧ Backs c st r a
  | .start d _ => d = c ∧ c.kind = .restoreAndStart ∧ st = clear
  | .reportStarted svc asg _ => svc = c.serviceID ∧ asg = c.assignmentID ∧ st = proven
  | .running | .removeOrphan _ => False
  | _ => True

/-- The calls that show nothing. -/
def plain : Op → Bool
  | .result _ | .active _ | .start .. | .commit .. | .setActive .. => false
  | _ => true

theorem next_of_plain {op : Op} (hop : plain op = true) (st : Evidence) (x : Ans op) :
    st.next op x = st := by
  cases op with
  | result | active | start | commit | setActive => simp [plain] at hop
  | _ => cases st <;> rfl

end Evidence

open Evidence

/-- The calls of `Process` for a command. -/
def evidence (c : Command) : Protocol Op Ans Evidence := ⟨Evidence.Fits c, Evidence.next⟩

section

variable {c : Command} {st : Evidence} {res : CommandResult}

theorem ofResult_final {stored : Option CommandResult} (h : Executor.cached stored = some res)
    (hs : res.status = .started) : ofResult stored = .proven := by
  simp only [ofResult, h, hs, if_true]

theorem ofResult_none {stored : Option CommandResult} (h : Executor.cached stored = none) :
    ofResult stored = .unsettled := by
  simp only [ofResult, h]

theorem ofActive_clear {active : Option ActiveAssignment}
    (h : ∀ a, active = some a → a.phase ≠ .running) : ofActive active = .clear := by
  cases active with
  | none => rfl
  | some a => exact if_neg (h a rfl)

/-- A result other than `started` with an entry that does not run. -/
theorem backs_of_ne {a : Option ActiveAssignment} (hr : res.status ≠ .started)
    (ha : ∀ b, a = some b → b.phase ≠ .running) : Backs c st res a :=
  ⟨fun h => absurd h hr, fun b hb hp => absurd hp (ha b hb)⟩

/-- A result and an entry that `Execute` may store. -/
def Storable (c : Command) (res : CommandResult) (a : Option ActiveAssignment) (st : Evidence) :
    Prop :=
  Backs c st res a ∧ (res.status = .stopped → ∀ b, a = some b → b.phase ≠ .running)

theorem storable_stopped {a : ActiveAssignment} (hp : a.phase ≠ .running) :
    Storable c { status := .stopped } (some a) st := by
  have ha : ∀ b, some a = some b → b.phase ≠ .running := by
    rintro b ⟨rfl⟩
    exact hp
  exact ⟨backs_of_ne (by simp) ha, fun _ => ha⟩

/-- A result without an entry that is neither a start nor a stop. -/
theorem storable_none (hr : res.status ≠ .started) (hs : res.status ≠ .stopped) :
    Storable c res none st :=
  ⟨backs_of_ne hr (by simp), fun h => absurd h hs⟩

/-- What `Process` has seen between its calls. -/
def sightings (c : Command) : Outline (evidence c).logic c where
  later := Eq
  quiet {op st} hop := by
    cases op with
    | setLease | clearLease | stamp | lockService | unlockService | unlockFile | wait
    | stopRenewal => exact ⟨trivial, fun x => (next_of_plain rfl st x).symm⟩
    | _ => cases hop
  opening := .top
  ready _ := True
  renew _ _ := ⟨trivial, fun _ => trivial⟩
  begun := .top
  failing := .top
  executed res := .fixed fun st => res.status = .started → st = .proven
  lookup st _ := ⟨rfl, fun stored => by
    cases st <;> exact ⟨fun _ hr => ofResult_final hr, fun _ => trivial⟩⟩
  lock _ _ := ⟨trivial, fun x => by cases x <;> trivial⟩
  pending := (· = .unsettled)
  lookupLocked st _ := ⟨rfl, fun stored => by
    cases st <;> exact ⟨fun _ hr => ofResult_final hr, ofResult_none⟩⟩
  read a := (· = ofActive a)
  entry := by
    rintro _ rfl
    exact ⟨rfl, fun _ => rfl⟩
  outcome := Storable c
  rejected message a := by
    rintro _ rfl
    refine ⟨⟨by simp [failed], ?_⟩, by simp [failed]⟩
    rintro b rfl hp
    exact Or.inr (if_pos hp)
  running a st hk hasg hp h := by
    have hst : st = .found a := h.trans (if_pos hp)
    refine ⟨⟨fun _ => ⟨hk, Or.inr ⟨a, hst, hasg, hp⟩⟩, ?_⟩, by simp⟩
    rintro b ⟨rfl⟩ _
    exact Or.inr hst
  starting st := c.kind = .restoreAndStart ∧ st = .clear
  path a hk _ hp := by
    rintro _ rfl
    rw [show ofActive (some a) = .clear from if_neg (by simp [hp])]
    exact ⟨trivial, fun x => by cases x <;> trivial⟩
  placed st := c.kind = .restoreAndStart ∧ st = .clear
  restore a hk hne := by
    rintro _ rfl
    rw [ofActive_clear fun b hb => (hne b hb).1]
    exact ⟨trivial, fun x => by cases x <;> trivial⟩
  put := by
    rintro _ ⟨hk, rfl⟩
    exact ⟨⟨rfl, by simp⟩, fun x => by cases x <;> trivial⟩
  start path := by
    rintro _ ⟨hk, rfl⟩
    refine ⟨⟨rfl, hk, rfl⟩, fun started => ?_⟩
    cases started with
    | terminal code message => exact storable_none (by simp) (by simp)
    | failed err => trivial
    | ok =>
      refine ⟨⟨fun _ => ⟨hk, Or.inl rfl⟩, ?_⟩, by simp⟩
      rintro b ⟨rfl⟩ _
      exact Or.inl ⟨rfl, rfl⟩
  absent _ _ _ := storable_stopped (by simp)
  stop _ _ _ _ _ := ⟨trivial, fun x => by
    cases x with
    | error err => trivial
    | ok u => exact storable_stopped (by simp)⟩
  unreported _ _ _ _ hp _ _ := storable_stopped (by simp [hp])
  sync _ _ _ _ _ _ _ := ⟨trivial, fun x => by
    cases x with
    | error err => trivial
    | ok sync => exact storable_none (by simp) (by simp)⟩
  keep res b hs st h := ⟨⟨rfl, h.2 hs b rfl⟩, fun x => by
    cases x with
    | error err => trivial
    | ok u => exact fun hst => absurd (hs.symm.trans hst) (by simp)⟩
  commit res a _ st h := ⟨⟨rfl, rfl, h.1⟩, fun x => by
    cases x with
    | error err => trivial
    | ok u => exact fun hs => by cases st <;> exact if_pos hs⟩
  processed _ := .top
  lost _ _ _ := ⟨trivial, fun _ => trivial⟩
  broken := .top
  processed_broken _ _ _ := trivial
  reporting _ := .top
  copy _ _ _ _ := ⟨trivial, fun _ => trivial⟩
  broken_reporting _ _ _ := trivial
  reported _ := True
  report _ _ _ := ⟨trivial, fun x => by cases x <;> trivial⟩
  marking _ _ := True
  marks _ _ := ⟨rfl, fun _ => trivial⟩
  broken_marking _ _ _ := trivial
  mark a _ hp _ _ := ⟨⟨rfl, by simp [hp]⟩, fun x => by cases x <;> trivial⟩
  settled res := .fixed fun st => res.status = .started → st = .proven
  finish res _ st h := ⟨trivial, fun lost => by
    cases lost with
    | true => trivial
    | false =>
      have hnext : Evidence.next st .leaseLost false = st := next_of_plain rfl st _
      exact fun hs => hnext.trans (h hs)⟩
  broken_settled _ _ _ := trivial
  reportStart res _ hs st h :=
    ⟨⟨rfl, rfl, h hs⟩, fun x hs => (next_of_plain rfl st x).trans (h hs)⟩
  signed _ := .top
  sign _ _ _ _ := ⟨trivial, fun _ => trivial⟩
  broken_signed _ _ _ := trivial
  synced := .top
  reportSync _ _ _ _ _ _ := ⟨trivial, fun x => by cases x <;> trivial⟩
  broken_synced _ _ := trivial
  relock _ _ := ⟨trivial, fun _ => trivial⟩
  released := .top
  release _ _ := ⟨trivial, fun x => by cases x <;> trivial⟩
  final _ := .top
  final_released _ _ _ := trivial
  final_settled _ _ _ _ := trivial
  allow _ _ _ := ⟨trivial, fun lost => by cases lost <;> trivial⟩
  acking _ _ := .top
  signAck _ _ _ := ⟨trivial, fun _ => trivial⟩
  broken_acking _ _ _ _ := trivial
  acked := .top
  ack _ _ _ _ := ⟨trivial, fun x => by cases x <;> trivial⟩
  processed_acked _ _ _ := trivial

/-- **`Process`** reports a start only with a stored result `started`, and commits such a result
only after a successful `Start` or with a running entry of its assignment. -/
theorem process_evidence (nodeID : String) (rounds : Nat) :
    Follows (evidence c) (Daemon.process nodeID rounds c) (fun _ _ => True) .idle := by
  refine follows_of_holds ((sightings c).process nodeID rounds ?_ fun _ _ => ?_)
  all_goals exact True.intro

end

/-! ## Reconciliation -/

/-- What `Reconcile` has seen. -/
inductive Recovery where
  | listing
  /-- These services run. -/
  | listed (running : List RunningService)
  /-- This entry was looked up last. -/
  | looked (running : List RunningService) (serviceID : String) (a : ActiveAssignment)

namespace Recovery

def next : Recovery → (op : Op) → Ans op → Recovery
  | listing, .running, .ok l => listed l
  | listed l, .active svc, some a => looked l svc a
  | looked l .., .active svc, some a => looked l svc a
  | looked l .., .active _, none => listed l
  | looked l .., .setActive .., _ => listed l
  | st, _, _ => st

/-- The calls of `Reconcile`: it promotes an entry that is starting if its container runs. -/
def Fits (st : Recovery) : Op → Prop
  | .running => st = listing
  | .active _ | .removeOrphan _ => True
  | .setActive svc b => ∃ l a, st = looked l svc a ∧ a.phase = .starting ∧
      ⟨svc, a.assignmentID⟩ ∈ l ∧ b = { a with phase := .running }
  | _ => False

def services : Recovery → List RunningService
  | listing => []
  | listed l | looked l .. => l

end Recovery

/-- The calls of `Reconcile`. -/
def recovery : Protocol Op Ans Recovery := ⟨Recovery.Fits, Recovery.next⟩

theorem reconcileServices_evidence {l : List RunningService} :
    ∀ rest, (∀ s ∈ rest, s ∈ l) → ∀ st : Recovery, st ≠ .listing → st.services = l →
      Follows recovery (Executor.reconcileServices rest) (fun _ _ => True) st := by
  intro rest
  induction rest with
  | nil => exact fun _ _ _ _ => trivial
  | cons service rest ih =>
    intro hrest st hst hl
    have hih := ih (List.forall_mem_cons.mp hrest).2
    unfold Executor.reconcileServices
    refine Follows.call trivial fun active => ?_
    -- the lookup leaves the entry, if there is one
    have hlook : ∀ a, active = some a →
        recovery.next st (.active service.serviceID) active = .looked l service.serviceID a := by
      rintro a rfl
      cases st with
      | listing => exact absurd rfl hst
      | listed l' => exact congrArg (Recovery.looked · _ a) hl
      | looked l' _ _ => exact congrArg (Recovery.looked · _ a) hl
    have hstay : recovery.next st (.active service.serviceID) active ≠ .listing ∧
        (recovery.next st (.active service.serviceID) active).services = l := by
      cases st with
      | listing => exact absurd rfl hst
      | listed l' => cases active <;> exact ⟨by simp [recovery, Recovery.next], hl⟩
      | looked l' _ _ => cases active <;> exact ⟨by simp [recovery, Recovery.next], hl⟩
    split
    · refine Follows.call trivial fun removed => ?_
      cases removed with
      | error err => trivial
      | ok u =>
        have hnext : ∀ st' : Recovery, recovery.next st' (.removeOrphan service)
            (.ok ()) = st' := by
          rintro (_ | _ | _) <;> rfl
        rw [hnext]
        exact hih _ hstay.1 hstay.2
    next a ha =>
      obtain ⟨hactive, hasg⟩ := Option.filter_eq_some_iff.mp ha
      rw [decide_eq_true_eq] at hasg
      split
      next hp =>
        rw [hlook a hactive]
        refine Follows.call ⟨l, a, rfl, hp, ?_, rfl⟩ fun stored => ?_
        · rw [hasg]
          exact hrest service List.mem_cons_self
        · cases stored with
          | error err => trivial
          | ok u => exact hih _ (by simp [recovery, Recovery.next]) rfl
      · exact hih _ hstay.1 hstay.2

/-- **`Reconcile`** promotes an entry only from starting, and only if its container is running. -/
theorem reconcile_evidence : Follows recovery Executor.reconcile (fun _ _ => True) .listing := by
  refine Follows.call rfl fun running => ?_
  cases running with
  | error err => trivial
  | ok l =>
    exact reconcileServices_evidence l (fun s hs => hs) _ (by simp [recovery, Recovery.next]) rfl

end SharedNode.Agent
