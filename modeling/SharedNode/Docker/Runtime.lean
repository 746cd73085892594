import SharedNode.Agent.Node
import SharedNode.Docker.Engine
import SharedNode.Effect.Protocol

/-!
# The container runtime

Model of `internal/docker/runtime.go`: `Start` with its health wait, `Stop`, `Running` and
`RemoveOrphan` as programs over the calls of the engine. The waits have no bound but a deadline in
the source; here they take a number of rounds, and a run that uses them up counts as cut.

`Runtime.createRequest` is the check of `BuildCreateRequest`: the text of its error, if any. The
content of the request is left out but for the labels. `Running` returns the labels that
reconciliation reads; the metrics it fetches for the heartbeat are a call that may fail.
-/

namespace SharedNode.Docker

open Agent (StartReply RunningService)
open ControlPlane Effect Prog

abbrev D := Prog Call Answer

abbrev docker (call : Call) : D (Answer call) := Prog.perform call

/-- What stands behind the configuration of a runtime. -/
structure Runtime where
  /-- The error of `BuildCreateRequest` for a command and a workspace path. -/
  createRequest : Command → String → Option String
  /-- The rounds of a wait. -/
  rounds : Nat

/-- The name of a service's container. -/
def nameOf (serviceID : String) : String := "xmcl-shared-" ++ serviceID

def containerName (serviceID : String) : Except String String :=
  if serviceID = "" ∨ serviceID.toList.any (fun c => c = '/' || c = '\\') then
    .error "invalid service ID for container name"
  else .ok (nameOf serviceID)

theorem eq_of_containerName {serviceID name : String} (h : containerName serviceID = .ok name) :
    name = nameOf serviceID := by
  unfold containerName at h
  split at h
  · cases h
  · exact (Except.ok.inj h).symm

namespace Runtime

/-- One round of `waitHealthy`. -/
def healthRound (ref : Ref) : D (Option StartReply) := do
  let inspected ← docker (.inspectHealth ref)
  match inspected with
  | .failed err | .missing err => ret (some (.failed ("inspect container health: " ++ err)))
  | .found k =>
    if ¬ k.running then
      ret (some (.terminal "container_exited" "Minecraft container exited before becoming healthy"))
    else
      match k.health with
      | none =>
        ret (some (.terminal "health_check_missing"
          "container image must define a Docker health check"))
      | some .healthy => ret (some .ok)
      | some .unhealthy =>
        ret (some (.terminal "health_check_failed" "Minecraft container health check failed"))
      | some .starting =>
        let late ← docker .expired
        if late then
          ret (some (.terminal "health_check_timeout"
            "timed out waiting for Minecraft container health check"))
        else
          let paused ← docker .pause
          match paused with
          | .error err => ret (some (.failed err))
          | .ok () => ret none

def waitHealthy (r : Runtime) (ref : Ref) : D StartReply := (healthRound ref).iterate r.rounds

/-- `Start` once a container was created: a start that fails, and one that does not become healthy,
removes it again. -/
def startCreated (r : Runtime) (ref : Ref) : D StartReply := do
  let started ← docker (.start ref)
  match started with
  | .error err =>
    let _ ← docker (.remove ref)
    ret (.failed ("start container: " ++ err))
  | .ok () =>
    let healthy ← r.waitHealthy ref
    if healthy = .ok then ret .ok
    else
      let _ ← docker (.remove ref)
      ret healthy

/-- `Start` once the name is free. -/
def createAndStart (r : Runtime) (c : Command) (path name : String) : D StartReply :=
  match r.createRequest c path with
  | some err => ret (.terminal "runtime_request_invalid" err)
  | none => do
    let created ← docker (.create name c.serviceID c.assignmentID)
    match created with
    | .error err => ret (.failed ("create container: " ++ err))
    | .ok ref => r.startCreated ref

/-- `Start` once the name of the container is known. -/
def startNamed (r : Runtime) (c : Command) (path name : String) : D StartReply := do
  let inspected ← docker (.inspect (.name name))
  match inspected with
  | .failed err => ret (.failed ("inspect existing container: " ++ err))
  | .missing _ => r.createAndStart c path name
  | .found k =>
    if k.running then
      if k.assignmentID ≠ c.assignmentID then
        ret (.failed "existing running container belongs to a different assignment")
      else r.waitHealthy (.name name)
    else
      let removed ← docker (.remove (.name name))
      match removed with
      | .error err => ret (.failed ("remove inactive managed container: " ++ err))
      | .ok () => r.createAndStart c path name

def start (r : Runtime) (c : Command) (path : String) : D StartReply :=
  match c.runtimeContent with
  | none =>
    ret (.terminal "runtime_content_missing"
      "shared modded runtime start requires compiler-selected runtime content")
  | some content => do
    let valid ← docker (.validateWorkspace path content.sha256)
    match valid with
    | .error err =>
      ret (.terminal "runtime_descriptor_invalid" ("validate compiler runtime descriptor: " ++ err))
    | .ok () =>
      match containerName c.serviceID with
      | .error err => ret (.failed err)
      | .ok name => r.startNamed c path name

/-- One round of the wait of `Stop`. -/
def stopRound (name : String) : D (Option (Except String Unit)) := do
  let inspected ← docker (.inspect (.name name))
  match inspected with
  | .failed err | .missing err => ret (some (.error ("inspect container after stop: " ++ err)))
  | .found k =>
    if ¬ k.running then ret (some (.ok ()))
    else
      let late ← docker .expired
      if late then
        let killed ← docker (.kill name)
        match killed with
        | .error err => ret (some (.error ("kill unresponsive Minecraft container: " ++ err)))
        | .ok () => ret (some (.ok ()))
      else
        let paused ← docker .pause
        match paused with
        | .error err => ret (some (.error err))
        | .ok () => ret none

/-- `Stop` once the name of the container is known. -/
def stopNamed (r : Runtime) (c : Command) (name : String) : D (Except String Unit) := do
  let inspected ← docker (.inspect (.name name))
  match inspected with
  | .missing _ => ret (.ok ())
  | .failed err => ret (.error ("inspect container before stop: " ++ err))
  | .found k =>
    if k.assignmentID ≠ c.assignmentID then
      ret (.error "container assignment does not match stop command")
    else
      let stopped : Except String Unit ←
        if k.running then docker (.stop name) else ret (.ok ())
      match stopped with
      | .error err => ret (.error ("gracefully stop Minecraft container: " ++ err))
      | .ok () => (stopRound name).iterate r.rounds

def stop (r : Runtime) (c : Command) : D (Except String Unit) :=
  match containerName c.serviceID with
  | .error err => ret (.error err)
  | .ok name => r.stopNamed c name

def removeOrphan (service : RunningService) : D (Except String Unit) :=
  match containerName service.serviceID with
  | .error err => ret (.error err)
  | .ok name => do
    let inspected ← docker (.inspect (.name name))
    match inspected with
    | .missing _ => ret (.ok ())
    | .failed err => ret (.error ("inspect orphan container: " ++ err))
    | .found k =>
      if ¬ k.managed ∨ k.serviceID ≠ service.serviceID ∨ k.assignmentID ≠ service.assignmentID then
        ret (.error "orphan container ownership labels do not match")
      else
        let removed ← docker (.remove (.name name))
        match removed with
        | .error err => ret (.error ("remove orphan managed container: " ++ err))
        | .ok () => ret (.ok ())

/-- The name a managed container is reported by in an error. -/
def managedText (k : Container) : String := "managed container \"" ++ toString k.id ++ "\""

def checkRunning (ref : Ref) (k : Container) : D (Except String RunningService) :=
  if k.serviceID = "" ∨ k.assignmentID = "" then
    ret (.error (managedText k ++ " is missing ownership labels"))
  else do
    let inspected ← docker (.inspect ref)
    match inspected with
    | .failed err | .missing err => ret (.error ("inspect " ++ managedText k ++ ": " ++ err))
    | .found k' =>
      if ¬ k'.isolated then ret (.error (managedText k ++ " violates runtime isolation"))
      else
        match k.badCapacity with
        | some err => ret (.error (managedText k ++ " has invalid capacity labels: " ++ err))
        | none =>
          let metrics ← docker (.stats ref)
          match metrics with
          | .error err => ret (.error ("read " ++ managedText k ++ " metrics: " ++ err))
          | .ok () => ret (.ok ⟨k.serviceID, k.assignmentID⟩)

def runningLoop : List (Ref × Container) → D (Except String (List RunningService))
  | [] => ret (.ok [])
  | (ref, k) :: rest =>
    if ¬ k.running then runningLoop rest
    else do
      let checked ← checkRunning ref k
      match checked with
      | .error err => ret (.error err)
      | .ok service =>
        let services ← runningLoop rest
        ret (services.map (service :: ·))

def running : D (Except String (List RunningService)) := do
  let listed ← docker .list
  match listed with
  | .error err => ret (.error ("list managed containers: " ++ err))
  | .ok summaries => runningLoop summaries

end Runtime

/-! ## Bringing a container up -/

/-- What `Start` knows of the container of an assignment. -/
inductive Dock where
  | unknown
  /-- A running container with the label of the assignment was found under the name. -/
  | matched
  /-- The container was created. -/
  | created (ref : Ref)
  /-- The health wait saw it healthy. -/
  | healthy
  deriving DecidableEq

namespace Dock

/-- What `Start` knows after a call. -/
def next (asg : String) : Dock → (call : Call) → Answer call → Dock
  | unknown, .inspect _, .found k =>
    if k.running = true ∧ k.assignmentID = asg then matched else unknown
  | unknown, .create .., .ok ref => created ref
  | matched, .inspectHealth _, .found k => if k.isHealthy then healthy else matched
  | created ref, .inspectHealth _, .found k => if k.isHealthy then healthy else created ref
  | d, _, _ => d

def Fits (name asg : String) (d : Dock) : Call → Prop
  | .inspect ref => ref = .name name
  | .inspectHealth ref => (d = matched ∧ ref = .name name) ∨ d = created ref
  | .create n _ a => d = unknown ∧ n = name ∧ a = asg
  | .start ref => d = created ref
  | _ => True

end Dock

/-- The calls of `Start` for an assignment and the name of its container. -/
def bringingUp (name asg : String) : Protocol Call Answer Dock :=
  ⟨Dock.Fits name asg, Dock.next asg⟩

namespace Runtime

/-- `Start` returns success only for a container that was seen healthy. -/
def Up (x : StartReply) (d : Dock) : Prop := x = .ok → d = .healthy

theorem up_of_ne {x : StartReply} (hx : x ≠ .ok) (d : Dock) : Up x d := fun h => absurd h hx

variable {name asg : String}

theorem healthRound_follows {ref : Ref} {d : Dock}
    (hd : (d = .matched ∧ ref = .name name) ∨ d = .created ref) :
    Follows (bringingUp name asg) (healthRound ref) (fun x d' => x.elim (d' = d) (Up · d')) d := by
  refine Follows.call hd fun inspected => ?_
  have hstay : ∀ k : Container, k.isHealthy = false →
      (bringingUp name asg).next d (.inspectHealth ref) (.found k) = d := by
    intro k hk
    rcases hd with ⟨rfl, -⟩ | rfl <;> simp [bringingUp, Dock.next, hk]
  have hpass : ∀ k : Container, k.isHealthy = true →
      (bringingUp name asg).next d (.inspectHealth ref) (.found k) = .healthy := by
    intro k hk
    rcases hd with ⟨rfl, -⟩ | rfl <;> simp [bringingUp, Dock.next, hk]
  cases inspected with
  | failed err => exact up_of_ne (by simp) _
  | missing err => exact up_of_ne (by simp) _
  | found k =>
    dsimp only
    split
    · exact up_of_ne (by simp) _
    next hrun =>
    rw [not_not] at hrun
    split
    · exact up_of_ne (by simp) _
    next hk => exact fun _ => hpass k (by simp [Container.isHealthy, hrun, hk])
    next => exact up_of_ne (by simp) _
    next hk =>
      have hk' : k.isHealthy = false := by simp [Container.isHealthy, hk]
      refine Follows.call trivial fun late => ?_
      cases late with
      | true => exact up_of_ne (by simp) _
      | false =>
        refine Follows.call trivial fun paused => ?_
        cases paused with
        | error err => exact up_of_ne (by simp) _
        | ok u =>
          rw [hstay k hk']
          rcases hd with ⟨rfl, -⟩ | rfl <;> rfl

theorem waitHealthy_follows (r : Runtime) {ref : Ref} {d : Dock}
    (hd : (d = .matched ∧ ref = .name name) ∨ d = .created ref) :
    Follows (bringingUp name asg) (r.waitHealthy ref) Up d := by
  refine Follows.iterate (fun d' => d' = d) (fun d' hd' => ?_) r.rounds rfl
  subst hd'
  exact healthRound_follows hd

theorem startCreated_follows (r : Runtime) (ref : Ref) :
    Follows (bringingUp name asg) (r.startCreated ref) Up (.created ref) := by
  refine Follows.call rfl fun started => ?_
  cases started with
  | error err => exact Follows.call trivial fun _ => up_of_ne (by simp) _
  | ok u =>
    refine Follows.bind (Follows.mono (fun x d hx => ?_) (waitHealthy_follows r (Or.inr rfl)))
    split
    next hok => exact fun _ => hx hok
    next hok => exact Follows.call trivial fun _ => up_of_ne hok _

theorem createAndStart_follows (r : Runtime) {c : Command} (path : String)
    (hasg : c.assignmentID = asg) :
    Follows (bringingUp name asg) (r.createAndStart c path name) Up .unknown := by
  unfold createAndStart
  split
  · exact up_of_ne (by simp) _
  · refine Follows.call ⟨rfl, rfl, hasg⟩ fun created => ?_
    cases created with
    | error err => exact up_of_ne (by simp) _
    | ok ref => exact startCreated_follows r ref

theorem startNamed_follows (r : Runtime) {c : Command} (path : String)
    (hasg : c.assignmentID = asg) :
    Follows (bringingUp name asg) (r.startNamed c path name) Up .unknown := by
  refine Follows.call rfl fun inspected => ?_
  cases inspected with
  | failed err => exact up_of_ne (by simp) _
  | missing err => exact createAndStart_follows r path hasg
  | found k =>
    dsimp only
    split
    next hrun =>
      split
      · exact up_of_ne (by simp) _
      next hk =>
        rw [ne_eq, not_not] at hk
        have hmatch : (bringingUp name asg).next .unknown (.inspect (.name name)) (.found k) =
            .matched := if_pos ⟨hrun, hk.trans hasg⟩
        rw [hmatch]
        exact waitHealthy_follows r (Or.inl ⟨rfl, rfl⟩)
    next hrun =>
      have hstay : (bringingUp name asg).next .unknown (.inspect (.name name)) (.found k) =
          .unknown := if_neg fun h => hrun h.1
      rw [hstay]
      refine Follows.call trivial fun removed => ?_
      cases removed with
      | error err => exact up_of_ne (by simp) _
      | ok u => exact createAndStart_follows r path hasg

/-- **`Start`** returns success only after its health wait saw the container healthy, and starts a
container only if it created it for the assignment. -/
theorem start_follows (r : Runtime) (c : Command) (path : String) :
    Follows (bringingUp (nameOf c.serviceID) c.assignmentID) (r.start c path) Up .unknown := by
  unfold start
  split
  · exact up_of_ne (by simp) _
  · refine Follows.call trivial fun valid => ?_
    cases valid with
    | error err => exact up_of_ne (by simp) _
    | ok u =>
      dsimp only
      split
      · exact up_of_ne (by simp) _
      next name hname =>
        rw [eq_of_containerName hname]
        exact startNamed_follows r path rfl

end Runtime

/-! ## The other calls of the agent -/

/-- Neither starts nor creates a container, nor waits for one. -/
def Call.quiet : Call → Prop
  | .start _ | .create .. | .inspectHealth _ => False
  | _ => True

/-- Quiet calls, with the containers that were listed last. -/
def listing : Protocol Call Answer (List (Ref × Container)) where
  fits _ call := call.quiet
  next
    | _, .list, .ok l => l
    | st, _, _ => st

namespace Runtime

abbrev Quiet {α : Type} (p : D α) : Prop := ∀ st, Follows listing p (fun _ _ => True) st

theorem stop_quiet (r : Runtime) (c : Command) : Quiet (r.stop c) := by
  intro st
  unfold stop
  split
  · trivial
  next name _ =>
  refine Follows.call trivial fun inspected => ?_
  cases inspected with
  | missing err => trivial
  | failed err => trivial
  | found k =>
    have hloop : ∀ st, Follows listing ((stopRound name).iterate r.rounds)
        (fun _ _ => True) st := by
      refine fun st => Follows.iterate (fun _ => True) (fun st _ => ?_) r.rounds trivial
      refine Follows.call trivial fun inspected => ?_
      cases inspected with
      | missing err => trivial
      | failed err => trivial
      | found k =>
        dsimp only
        split
        · trivial
        refine Follows.call trivial fun late => ?_
        cases late with
        | true =>
          refine Follows.call trivial fun killed => ?_
          cases killed <;> trivial
        | false =>
          refine Follows.call trivial fun paused => ?_
          cases paused <;> trivial
    dsimp only
    split
    · trivial
    split
    · refine Follows.call trivial fun stopped => ?_
      cases stopped with
      | error err => trivial
      | ok u => exact hloop _
    · exact hloop _

theorem removeOrphan_quiet (service : RunningService) : Quiet (removeOrphan service) := by
  intro st
  unfold removeOrphan
  split
  · trivial
  refine Follows.call trivial fun inspected => ?_
  cases inspected with
  | missing err => trivial
  | failed err => trivial
  | found k =>
    dsimp only
    split
    · trivial
    · refine Follows.call trivial fun removed => ?_
      cases removed <;> trivial

/-- The services of running containers among those listed. -/
def Listed (l : List (Ref × Container)) (services : List RunningService) : Prop :=
  ∀ s ∈ services, ∃ p ∈ l, p.2.running = true ∧ p.2.serviceID = s.serviceID ∧
    p.2.assignmentID = s.assignmentID

theorem checkRunning_follows (ref : Ref) (k : Container) (l : List (Ref × Container)) :
    Follows listing (checkRunning ref k)
      (fun x l' => l' = l ∧ ∀ s, x = .ok s → s = ⟨k.serviceID, k.assignmentID⟩) l := by
  unfold checkRunning
  split
  · exact ⟨rfl, by simp⟩
  refine Follows.call trivial fun inspected => ?_
  cases inspected with
  | failed err => exact ⟨rfl, by simp⟩
  | missing err => exact ⟨rfl, by simp⟩
  | found k' =>
    dsimp only
    split
    · exact ⟨rfl, by simp⟩
    split
    · exact ⟨rfl, by simp⟩
    refine Follows.call trivial fun metrics => ?_
    cases metrics with
    | error err => exact ⟨rfl, by simp⟩
    | ok u => exact ⟨rfl, fun s h => (Except.ok.inj h).symm⟩

theorem runningLoop_follows (l : List (Ref × Container)) :
    ∀ rest, (∀ p ∈ rest, p ∈ l) → Follows listing (runningLoop rest)
      (fun x l' => l' = l ∧ ∀ services, x = .ok services → Listed l services) l := by
  intro rest
  induction rest with
  | nil =>
    intro _
    refine ⟨rfl, fun services h => ?_⟩
    cases h
    exact fun s hs => absurd hs List.not_mem_nil
  | cons p rest ih =>
    obtain ⟨ref, k⟩ := p
    intro hrest
    have hih := ih (List.forall_mem_cons.mp hrest).2
    unfold runningLoop
    split
    · exact hih
    next hrun =>
    rw [not_not] at hrun
    refine Follows.bind (Follows.mono (fun x l' hx => ?_) (checkRunning_follows ref k l))
    obtain ⟨rfl, hx⟩ := hx
    cases x with
    | error err => exact ⟨rfl, by simp⟩
    | ok s =>
      obtain rfl := hx s rfl
      refine Follows.bind (Follows.mono (fun y l' hy => ?_) hih)
      obtain ⟨rfl, hy⟩ := hy
      refine ⟨rfl, fun services h => ?_⟩
      cases y with
      | error err => simp [Except.map] at h
      | ok tail =>
        cases h
        intro s hs
        rcases List.mem_cons.mp hs with rfl | hs
        · exact ⟨(ref, k), hrest _ List.mem_cons_self, hrun, rfl, rfl⟩
        · exact hy tail rfl s hs

theorem running_follows (l : List (Ref × Container)) :
    Follows listing running (fun x l' => ∀ services, x = .ok services → Listed l' services) l := by
  refine Follows.call trivial fun listed => ?_
  cases listed with
  | error err => exact fun services h => absurd h (by simp)
  | ok summaries =>
    refine Follows.mono (fun x l' h services hx => ?_)
      (runningLoop_follows summaries summaries fun p hp => hp)
    obtain ⟨rfl, h⟩ := h
    exact h services hx

end Runtime

end SharedNode.Docker
