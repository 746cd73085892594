import SharedNode.Agent.Frame
import SharedNode.Agent.Position

/-!
# The renewal goroutine beside `Process`

`World.background` lets a finished renewal happen before a call. Here the goroutine of `renewLease`
in `internal/agent/daemon.go` is a thread of its own: it waits, copies the lease, asks for a new
one, assigns the shared variable, stores the new lease, and on any failure sets the lost flag and
ends. Any number of its steps (`Tick`) may come before a call of `Process`, and before each grant
request that a call of the workspace makes; those requests carry the lease of the command that was
handed down (`workspaceGrants` in `internal/controlplane/client.go`).

A `Session` is the node, the goroutine, and what has happened so far, newest first (`Moment`).
`session_step` is what one call of `Process` can do to it.
-/

namespace SharedNode.Agent

open ControlPlane Effect Prog

inductive Renewer where
  | off
  | waiting
  | requesting (current : CommandLease)
  | storing (renewed : CommandLease)
  | tracking (renewed : CommandLease)
  | losing
  deriving DecidableEq, Repr

/-- The choices of the outside for one step of the goroutine. -/
structure Tick where
  /-- The wait ends because the context is cancelled or the command is done. -/
  cancelled : Bool := false
  reply : Except String CommandLease := .error ""
  write : Option String := none

inductive Moment where
  | call (op : Op) (answer : Ans op)
  /-- The workspace manager asks for a grant with this lease. -/
  | grant (lease : CommandLease)
  /-- A renewed lease is assigned to the shared variable. -/
  | stored (lease : CommandLease)
  /-- The lost flag is set. -/
  | lost

/-- A node that processes a command, with the goroutine that renews its lease. -/
structure Session where
  world : World := {}
  renewer : Renewer := .off
  commandID : String := ""
  history : List Moment := []

namespace Session

def record (s : Session) (m : Moment) : Session := { s with history := m :: s.history }

def tick (s : Session) (t : Tick) : Session :=
  match s.renewer with
  | .off => s
  | .waiting =>
    { s with renewer := if t.cancelled then .off else .requesting s.world.lease.lease }
  | .requesting _ =>
    match t.reply with
    | .error _ => { s with renewer := .losing }
    | .ok lease =>
      { s with
        renewer := if lease.token = "" ∨ lease.generation < 1 then .losing else .storing lease }
  | .storing lease =>
    { s with
      world := { s.world with lease := { s.world.lease with lease } }
      renewer := .tracking lease
      history := .stored lease :: s.history }
  | .tracking lease =>
    { s with
      world := { s.world with store := s.world.store.mutate (·.setLease s.commandID lease) t.write }
      renewer := if t.write.isNone then .waiting else .losing }
  | .losing =>
    { s with
      world := { s.world with lease := { s.world.lease with lost := true } }
      renewer := .off
      history := .lost :: s.history }

def ticks (s : Session) (ts : List Tick) : Session := ts.foldl tick s

/-- The grant requests of a call of the workspace, with the steps of the goroutine before each. -/
def grants (s : Session) (lease : CommandLease) (tss : List (List Tick)) : Session :=
  tss.foldl (fun s ts => (s.ticks ts).record (.grant lease)) s

def renewerAfter (s : Session) : Op → Renewer
  | .renewLease _ lease => if lease.token ≠ "" ∧ 0 < lease.generation then .waiting else .off
  | _ => s.renewer

def commandAfter (s : Session) : Op → String
  | .renewLease id _ => id
  | _ => s.commandID

end Session

/-- The choices of the outside for one call. -/
structure Turn where
  env : Env := {}
  /-- The steps of the goroutine before each grant request of a call of the workspace. -/
  grants : List (List Tick) := []
  /-- The steps of the goroutine before the call returns. -/
  ticks : List Tick := []

/-- The session when a call takes effect. -/
def Session.before (s : Session) (op : Op) (e : Turn) : Session :=
  match op with
  | .restore c | .sync c => (s.grants c.lease e.grants).ticks e.ticks
  | _ => s.ticks e.ticks

/-- A call of `Process` between steps of the goroutine. -/
def sessionHandle : Handler Op Ans Turn Session := fun op e s =>
  let s := s.before op e
  (handle op { e.env with renewal := .quiet } s.world).map fun (x, w) =>
    (x, { world := w, renewer := s.renewerAfter op, commandID := s.commandAfter op,
          history := .call op x :: s.history })

/-- The node before it processes a command. -/
def Session.start (w : World) : Session := { world := w }

/-- `Process` beside its goroutine: what it returns, `none` if the run is cut, and the session it
leaves. -/
def Session.run (w : World) (nodeID : String) (rounds : Nat) (c : Command) (turns : List Turn) :
    Option (Except AgentError Unit) × Session :=
  let r := Effect.run sessionHandle (Daemon.process nodeID rounds c) turns (.start w) []
  (r.1, r.2.1)

/-! ## Turns for runs on fixed inputs -/

/-- The command with a lease that is renewed. -/
def leased (c : Command) : Command := { c with lease := { token := "t", generation := 1 } }

/-- The turns in which the goroutine takes the given steps during the call number `n`, and every
call succeeds. -/
def duringCall (n : Nat) (ticks : List Tick) : List Turn :=
  List.replicate n ({} : Turn) ++ ({ ticks } : Turn) :: List.replicate 40 ({} : Turn)

/-! ## What a call can do -/

def stageOf : List Moment → Stage
  | [] => .opening
  | .call op x :: h => (stageOf h).next op x
  | _ :: h => stageOf h

@[simp] theorem stageOf_tick (s : Session) (t : Tick) :
    stageOf (s.tick t).history = stageOf s.history := by
  unfold Session.tick
  split
  · rfl
  · rfl
  · split <;> rfl
  · rfl
  · rfl
  · rfl

/-- A property every step of the goroutine and every grant request keeps holds when a call takes
effect. -/
theorem before_induction {I : Session → Prop} (htick : ∀ s t, I s → I (s.tick t)) {op : Op}
    (hgrant : ∀ c, op = .restore c ∨ op = .sync c → ∀ s, I s → I (s.record (.grant c.lease)))
    (e : Turn) {s : Session} (h : I s) : I (s.before op e) := by
  have hticks : ∀ ts s, I s → I (s.ticks ts) := by
    intro ts
    induction ts with
    | nil => exact fun s h => h
    | cons t ts ih => exact fun s h => ih (s.tick t) (htick s t h)
  have hgrants : ∀ c, op = .restore c ∨ op = .sync c →
      ∀ tss s, I s → I (s.grants c.lease tss) := by
    intro c hc tss
    induction tss with
    | nil => exact fun s h => h
    | cons ts tss ih => exact fun s h => ih _ (hgrant c hc _ (hticks ts s h))
  cases op with
  | restore c => exact hticks _ _ (hgrants c (Or.inl rfl) _ s h)
  | sync c => exact hticks _ _ (hgrants c (Or.inr rfl) _ s h)
  | _ => exact hticks _ s h

theorem stageOf_before (s : Session) (op : Op) (e : Turn) :
    stageOf (s.before op e).history = stageOf s.history :=
  before_induction (I := fun s' => stageOf s'.history = stageOf s.history)
    (fun s' t h => (stageOf_tick s' t).trans h) (fun _ _ _ h => h) e rfl

/-- The reads of the shared variables answer what they hold. -/
def Session.Answers (s : Session) : (op : Op) → Ans op → Prop
  | .currentLease, lease => lease = s.world.lease.lease
  | .leaseLost, lost => lost = s.world.lease.lost
  | _, _ => True

/-- What a call leaves of the session it took effect in. -/
structure Called (op : Op) (x : Ans op) (s s' : Session) : Prop where
  history : s'.history = .call op x :: s.history
  renewer : s'.renewer = s.renewerAfter op
  start : ∀ id lease, op = .renewLease id lease →
    s'.world.lease.lease = lease ∧ s'.world.lease.lost = false
  frame : (∀ id lease, op ≠ .renewLease id lease) →
    s'.world.lease.lease = s.world.lease.lease ∧ s'.world.lease.lost = s.world.lease.lost
  answers : s.Answers op x

/-- **One call of `Process`**: steps of the goroutine and grant requests, then the call. -/
theorem session_step {op : Op} {e : Turn} {s s' : Session} {x : Ans op}
    (h : sessionHandle op e s = some (x, s')) : Called op x (s.before op e) s' := by
  obtain ⟨⟨y, w⟩, hh, heq⟩ := Option.map_eq_some_iff.mp h
  obtain ⟨rfl, rfl⟩ := Prod.mk.inj heq
  obtain ⟨-, hx, hw⟩ := handle_eq_some.mp hh
  have hquiet : (s.before op e).world.background .quiet = (s.before op e).world := rfl
  refine ⟨rfl, rfl, ?_, fun hop => ?_, ?_⟩
  · rintro id lease rfl
    rw [hw]
    exact ⟨rfl, rfl⟩
  · rw [hw]
    by_cases hstop : op = .stopRenewal
    · subst hstop
      exact ⟨rfl, rfl⟩
    · rw [World.after_lease _ _ hop hstop]
      exact ⟨rfl, rfl⟩
  · cases op <;> first | exact hx | trivial

theorem Called.stage {op : Op} {x : Ans op} {s s' : Session} (h : Called op x s s') :
    stageOf s'.history = (stageOf s.history).next op x := by
  rw [h.history]
  rfl

theorem Called.renewer_of_ne {op : Op} {x : Ans op} {s s' : Session} (h : Called op x s s')
    (hop : ∀ id lease, op ≠ .renewLease id lease) : s'.renewer = s.renewer := by
  rw [h.renewer]
  cases op with
  | renewLease id lease => exact absurd rfl (hop id lease)
  | _ => rfl

end SharedNode.Agent
