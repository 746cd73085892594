import Mathlib.Data.List.AList
import SharedNode.Effect.Prog
import SharedNode.Text.Bytes

/-!
# The container engine

What `internal/docker/runtime.go` sees of the Docker daemon. A container has a name, under which
there is at most one, an ID that is never used again, and the labels it was created with. Between
two calls the outside may stop or remove a container and change its health status; nothing but
`ContainerStart` starts one, since the agent sets no restart policy. A call may fail, and a call
that fails may have taken effect all the same (`Weather`).

`Moment` is what matters of the past of a container: that it was started, and that the health wait
of the agent saw it healthy.
-/

namespace SharedNode.Docker

open Effect Text

/-- `State.Health.Status`. -/
inductive Health where
  | starting
  | healthy
  | unhealthy
  deriving DecidableEq, Repr

structure Container where
  id : Nat
  /-- The label `xmcl.managed` is `"true"`. -/
  managed : Bool := true
  /-- The label `xmcl.service-id`. -/
  serviceID : String
  /-- The label `xmcl.assignment-id`. -/
  assignmentID : String
  running : Bool := false
  /-- `none` if the image defines no health check. -/
  health : Option Health := none
  /-- Neither privileged nor with the Docker socket mounted. -/
  isolated : Bool := true
  /-- Why `resourcesFromLabels` refuses the capacity labels, if it does. -/
  badCapacity : Option String := none
  deriving DecidableEq, Repr

namespace Container

/-- The container runs and its health check has passed. -/
def isHealthy (k : Container) : Bool := k.running && k.health = some .healthy

end Container

/-- What a call names a container by: its name, or its name and the ID it was created with. -/
inductive Ref where
  | name (name : String)
  | id (name : String) (id : Nat)
  deriving DecidableEq, Repr

def Ref.container : Ref → String
  | .name n => n
  | .id n _ => n

/-- What is noted of a container. -/
inductive Moment where
  | started (name assignmentID : String)
  | observed (name assignmentID : String)
  deriving DecidableEq, Repr

/-- The containers, and what happened to them, newest first. -/
structure Engine where
  containers : AList (fun _ : String => Container) := ∅
  next : Nat := 0
  log : List Moment := []

/-- What happens to a container without a call of the agent. -/
inductive Drift where
  | exit (name : String)
  | health (name : String) (status : Health)
  | vanish (name : String)
  deriving DecidableEq, Repr

/-- The choices of the outside for one call. -/
structure Weather where
  drift : List Drift := []
  err : Option String := none
  /-- A call that fails took effect. -/
  reached : Bool := false
  /-- The image of a container that is started has a health check. -/
  healthCheck : Bool := true
  expired : Bool := false

inductive Call where
  | validateWorkspace (path : String) (sha256 : Bytes)
  | inspect (ref : Ref)
  /-- The inspection of the health wait. -/
  | inspectHealth (ref : Ref)
  | list
  | stats (ref : Ref)
  | create (name serviceID assignmentID : String)
  | start (ref : Ref)
  | remove (ref : Ref)
  | stop (name : String)
  | kill (name : String)
  /-- Whether the deadline of a wait has passed. -/
  | expired
  /-- The pause of a wait, which the context may cut short. -/
  | pause
  deriving DecidableEq

/-- The outcome of an inspection; `missing` is an error for which `IsNotFound` holds. -/
inductive Inspection where
  | found (k : Container)
  | missing (err : String)
  | failed (err : String)

abbrev Answer : Call → Type
  | .inspect _ | .inspectHealth _ => Inspection
  | .list => Except String (List (Ref × Container))
  | .create .. => Except String Ref
  | .expired => Bool
  | _ => Except String Unit

namespace Engine

def find (g : Engine) : Ref → Option Container
  | .name n => g.containers.lookup n
  | .id n i => (g.containers.lookup n).filter (·.id = i)

def alter (g : Engine) (name : String) (f : Container → Container) : Engine :=
  match g.containers.lookup name with
  | none => g
  | some k => { g with containers := g.containers.insert name (f k) }

def erase (g : Engine) (name : String) : Engine :=
  { g with containers := g.containers.erase name }

/-- Something happens to a container. -/
def drift (g : Engine) : Drift → Engine
  | .exit n => g.alter n fun k => { k with running := false }
  | .health n status => g.alter n fun k => { k with health := k.health.map fun _ => status }
  | .vanish n => g.erase n

def drifted (g : Engine) (e : Weather) : Engine := e.drift.foldl drift g

def inspected (g : Engine) (e : Weather) (ref : Ref) : Inspection :=
  match e.err, g.find ref with
  | some err, _ => .failed err
  | none, none => .missing ("No such container: " ++ ref.container)
  | none, some k => .found k

/-- `ContainerList` of the managed containers, running or not. -/
def managed (g : Engine) : List (Ref × Container) :=
  (g.containers.entries.filter (·.2.managed)).map fun ⟨n, k⟩ => (.id n k.id, k)

/-- The outcome of a call that changes the container behind `ref`. -/
def change (g : Engine) (e : Weather) (ref : Ref) (f : Engine → Container → Engine) :
    Except String Unit × Engine :=
  match g.find ref with
  | none => (.error ("No such container: " ++ ref.container), g)
  | some k =>
    match e.err with
    | none => (.ok (), f g k)
    | some err => (.error err, if e.reached then f g k else g)

def started (g : Engine) (e : Weather) (name : String) (k : Container) : Engine :=
  { g.alter name fun k =>
      { k with running := true, health := if e.healthCheck then some .starting else none } with
    log := .started name k.assignmentID :: g.log }

def created (g : Engine) (name serviceID assignmentID : String) : Engine :=
  { g with
    containers := g.containers.insert name { id := g.next, serviceID, assignmentID }
    next := g.next + 1 }

/-- `ContainerCreate`. -/
def create (g : Engine) (e : Weather) (name serviceID assignmentID : String) :
    Except String Ref × Engine :=
  match g.containers.lookup name with
  | some _ => (.error ("Conflict. The container name is already in use: " ++ name), g)
  | none =>
    match e.err with
    | none => (.ok (.id name g.next), g.created name serviceID assignmentID)
    | some err => (.error err, if e.reached then g.created name serviceID assignmentID else g)

/-- The health wait saw this. -/
def observe (g : Engine) (ref : Ref) : Inspection → Engine
  | .found k =>
    if k.isHealthy then { g with log := .observed ref.container k.assignmentID :: g.log } else g
  | _ => g

def failing (e : Weather) : Except String Unit :=
  match e.err with
  | none => .ok ()
  | some err => .error err

def reply (g : Engine) (e : Weather) : (call : Call) → Answer call × Engine
  | .validateWorkspace .. | .stats _ | .pause => (failing e, g)
  | .inspect ref => (g.inspected e ref, g)
  | .inspectHealth ref => (g.inspected e ref, g.observe ref (g.inspected e ref))
  | .list =>
    (match e.err with
      | none => .ok g.managed
      | some err => .error err, g)
  | .create n svc asg => g.create e n svc asg
  | .start ref => g.change e ref fun g k => g.started e ref.container k
  | .remove ref => g.change e ref fun g _ => g.erase ref.container
  | .stop n | .kill n => g.change e (.name n) fun g _ => g.alter n fun k =>
    { k with running := false }
  | .expired => (e.expired, g)

end Engine

def serve : Handler Call Answer Weather Engine := fun call e g => some ((g.drifted e).reply e call)

/-! ## What a call can do to a container -/

structure Kin (k k' : Container) : Prop where
  id : k'.id = k.id
  serviceID : k'.serviceID = k.serviceID
  assignmentID : k'.assignmentID = k.assignmentID

/-- A container some time later, if nobody started it. -/
structure Ages (k k' : Container) : Prop extends Kin k k' where
  running : k'.running = true → k.running = true

theorem Ages.rfl {k : Container} : Ages k k := ⟨⟨Eq.refl _, Eq.refl _, Eq.refl _⟩, fun h => h⟩

theorem Kin.trans {k k' k'' : Container} (h : Kin k k') (h' : Kin k' k'') : Kin k k'' :=
  ⟨h'.id.trans h.id, h'.serviceID.trans h.serviceID, h'.assignmentID.trans h.assignmentID⟩

theorem Ages.trans {k k' k'' : Container} (h : Ages k k') (h' : Ages k' k'') : Ages k k'' :=
  ⟨h.toKin.trans h'.toKin, fun hr => h.running (h'.running hr)⟩

namespace Engine

/-- Every container of `g'` is one of `g` in relation `R` to it. -/
def From (R : Container → Container → Prop) (g g' : Engine) : Prop :=
  ∀ n k', g'.containers.lookup n = some k' → ∃ k, g.containers.lookup n = some k ∧ R k k'

/-- Every container of `g'` is one of `g` some time later, and nobody started it. -/
abbrev Older : Engine → Engine → Prop := From Ages

variable {g g' : Engine} {ref : Ref} {e : Weather}

theorem Older.rfl : Older g g := fun _ k h => ⟨k, h, Ages.rfl⟩

theorem Older.trans {g'' : Engine} (h : Older g g') (h' : Older g' g'') : Older g g'' := by
  intro n k'' hk''
  obtain ⟨k', hk', hage'⟩ := h' n k'' hk''
  obtain ⟨k, hk, hage⟩ := h n k' hk'
  exact ⟨k, hk, hage.trans hage'⟩

theorem Older.kin (h : Older g g') : From Kin g g' := by
  intro n k' hk'
  obtain ⟨k, hk, hage⟩ := h n k' hk'
  exact ⟨k, hk, hage.toKin⟩

theorem From.find (h : From Kin g g') {k' : Container}
    (hk' : g'.find ref = some k') : ∃ k, g.find ref = some k ∧ Kin k k' := by
  cases ref with
  | name n => exact h n k' hk'
  | id n i =>
    obtain ⟨hl, hi⟩ := Option.filter_eq_some_iff.mp hk'
    obtain ⟨k, hk, hkin⟩ := h n k' hl
    refine ⟨k, Option.filter_eq_some_iff.mpr ⟨hk, ?_⟩, hkin⟩
    rw [decide_eq_true_eq] at hi ⊢
    exact hkin.id.symm.trans hi

theorem from_alter {R : Container → Container → Prop} (hR : ∀ k, R k k)
    {name : String} {f : Container → Container} (hf : ∀ k, R k (f k)) :
    From R g (g.alter name f) := by
  unfold alter
  split
  · exact fun n k h => ⟨k, h, hR k⟩
  next k hk =>
    intro n k' hk'
    by_cases hn : n = name
    · subst hn
      rw [AList.lookup_insert] at hk'
      cases hk'
      exact ⟨k, hk, hf k⟩
    · rw [AList.lookup_insert_ne hn] at hk'
      exact ⟨k', hk', hR k'⟩

theorem older_alter {name : String} {f : Container → Container}
    (hf : ∀ k, Ages k (f k)) : Older g (g.alter name f) := from_alter (fun _ => Ages.rfl) hf

theorem kin_started (g : Engine) (e : Weather) (name : String) (k : Container) :
    From Kin g (g.started e name k) :=
  from_alter (R := Kin) (fun _ => ⟨rfl, rfl, rfl⟩) fun _ => ⟨rfl, rfl, rfl⟩

theorem older_erase (g : Engine) (name : String) : Older g (g.erase name) := by
  intro n k' hk'
  by_cases hn : n = name
  · subst hn
    rw [erase, AList.lookup_erase] at hk'
    cases hk'
  · rw [erase, AList.lookup_erase_ne hn] at hk'
    exact ⟨k', hk', Ages.rfl⟩

theorem ages_exit (k : Container) : Ages k { k with running := false } :=
  ⟨⟨rfl, rfl, rfl⟩, by simp⟩

theorem older_drift (g : Engine) (d : Drift) : Older g (g.drift d) := by
  cases d with
  | exit n => exact older_alter ages_exit
  | health n status => exact older_alter fun k => ⟨⟨rfl, rfl, rfl⟩, fun h => h⟩
  | vanish n => exact older_erase g n

@[simp] theorem alter_log (g : Engine) (name : String) (f : Container → Container) :
    (g.alter name f).log = g.log := by
  unfold alter
  split <;> rfl

theorem drift_log (g : Engine) (d : Drift) : (g.drift d).log = g.log := by
  cases d with
  | exit n => exact alter_log g n _
  | health n status => exact alter_log g n _
  | vanish n => rfl

theorem drifted_spec (g : Engine) (e : Weather) :
    Older g (g.drifted e) ∧ (g.drifted e).log = g.log := by
  unfold drifted
  induction e.drift generalizing g with
  | nil => exact ⟨Older.rfl, rfl⟩
  | cons d ds ih =>
    obtain ⟨hold, hlog⟩ := ih (g.drift d)
    exact ⟨(older_drift g d).trans hold, hlog.trans (drift_log g d)⟩

structure Left (g g' : Engine) (call : Call) : Prop where
  /-- Containers change, but only a start and a creation bring one up. -/
  older : (∀ ref, call ≠ .start ref) → (∀ n svc asg, call ≠ .create n svc asg) → Older g g'
  log : (∀ ref, call ≠ .start ref) → (∀ ref, call ≠ .inspectHealth ref) → g'.log = g.log

theorem change_spec (ref : Ref) {f : Engine → Container → Engine}
    (hold : ∀ k, Older g (f g k)) (hlog : ∀ k, (f g k).log = g.log) :
    Older g (g.change e ref f).2 ∧ (g.change e ref f).2.log = g.log := by
  unfold change
  split
  · exact ⟨Older.rfl, rfl⟩
  next k _ =>
    split
    · exact ⟨hold k, hlog k⟩
    · split
      · exact ⟨hold k, hlog k⟩
      · exact ⟨Older.rfl, rfl⟩

@[simp] theorem observe_containers (g : Engine) (ref : Ref) (i : Inspection) :
    (g.observe ref i).containers = g.containers := by
  unfold observe
  split
  · split <;> rfl
  · rfl

@[simp] theorem create_log (g : Engine) (e : Weather) (n svc asg : String) :
    (g.create e n svc asg).2.log = g.log := by
  unfold create
  split
  · rfl
  split
  · rfl
  split <;> rfl

/-- A start: nothing, or the container behind the reference is started. -/
theorem start_spec (g : Engine) (e : Weather) (ref : Ref) :
    (g.reply e (.start ref)).2 = g ∨ ∃ k, g.find ref = some k ∧
      (g.reply e (.start ref)).2 = g.started e ref.container k := by
  simp only [reply, change]
  split
  · exact Or.inl rfl
  next k hk =>
    split
    · exact Or.inr ⟨k, hk, rfl⟩
    · split
      · exact Or.inr ⟨k, hk, rfl⟩
      · exact Or.inl rfl

theorem find_of_inspected {k : Container}
    (h : g.inspected e ref = .found k) : g.find ref = some k := by
  unfold inspected at h
  split at h
  · cases h
  · cases h
  next k' _ hk' =>
    obtain rfl := Inspection.found.inj h
    exact hk'

/-- A successful creation leaves a container with the labels asked for. -/
theorem create_spec {n svc asg : String} (h : (g.create e n svc asg).1 = .ok ref) :
    ref.container = n ∧ ∀ k, (g.create e n svc asg).2.find ref = some k → k.assignmentID = asg := by
  unfold create at h ⊢
  split at h
  · cases h
  split at h
  · cases h
    refine ⟨rfl, fun k hk => ?_⟩
    obtain ⟨hl, -⟩ := Option.filter_eq_some_iff.mp hk
    rw [created, AList.lookup_insert] at hl
    exact Option.some.inj hl ▸ rfl
  · cases h

theorem left_reply (g : Engine) (e : Weather) (call : Call) : Left g (g.reply e call).2 call := by
  cases call with
  | create n svc asg => exact ⟨fun _ h => absurd rfl (h n svc asg), fun _ _ => create_log g e _ _ _⟩
  | start ref => exact ⟨fun h => absurd rfl (h ref), fun h => absurd rfl (h ref)⟩
  | inspectHealth ref =>
    refine ⟨fun _ _ n k hk => ⟨k, ?_, Ages.rfl⟩, fun _ h => absurd rfl (h ref)⟩
    rwa [reply, observe_containers] at hk
  | remove ref =>
    have h := change_spec (g := g) (e := e) ref (f := fun g _ => g.erase ref.container)
      (fun _ => older_erase g _) fun _ => rfl
    exact ⟨fun _ _ => h.1, fun _ _ => h.2⟩
  | stop n | kill n =>
    have h := change_spec (g := g) (e := e) (.name n)
      (f := fun g _ => g.alter n fun k => { k with running := false })
      (fun _ => older_alter ages_exit) fun _ => alter_log g n _
    exact ⟨fun _ _ => h.1, fun _ _ => h.2⟩
  | _ => exact ⟨fun _ _ => Older.rfl, fun _ _ => rfl⟩

end Engine

/-! ## The health of a container -/

/-- The container of the assignment was seen healthy by the health wait after it was last started.
-/
def healthySince (name assignmentID : String) : List Moment → Bool
  | [] => false
  | .observed n a :: h => (n = name && a = assignmentID) || healthySince name assignmentID h
  | .started n a :: h => !(n = name && a = assignmentID) && healthySince name assignmentID h

theorem healthySince_observed_self (name asg : String) (h : List Moment) :
    healthySince name asg (.observed name asg :: h) = true := by
  simp [healthySince]

theorem healthySince_observed {name asg : String} {h : List Moment}
    (hs : healthySince name asg h = true) (n a : String) :
    healthySince name asg (.observed n a :: h) = true := by
  simp [healthySince, hs]

theorem healthySince_started {name asg n a : String} {h : List Moment}
    (hs : healthySince name asg h = true) (hne : ¬ (n = name ∧ a = asg)) :
    healthySince name asg (.started n a :: h) = true := by
  simp only [healthySince, hs, Bool.and_true, Bool.not_eq_true', Bool.and_eq_false_iff,
    decide_eq_false_iff_not]
  exact not_and_or.mp hne

end SharedNode.Docker
