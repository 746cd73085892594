import SharedNode.Agent.Renewal

/-!
# The lease a request carries

A renewal may bring a new token or generation (`Client.RenewLease`,
`internal/controlplane/client.go`). The lease of a command lives in three places: the variable the
goroutine assigns, the command that `Execute` hands to the workspace, and the copies that the
retries of a report or an acknowledgement send again. Only the variable follows a renewal.

Left out: when a renewal is due; one may come before any call.
-/

namespace SharedNode.ControlPlane

def CommandLease.wire (l : CommandLease) : String × Int := (l.token, l.generation)

structure RenewalResponse where
  token : Option String := none
  generation : Option Int := none
  expiresAt : String := ""

/-- `Client.RenewLease`, once the response is decoded. -/
def Client.renewLease (lease : CommandLease) (renewed : RenewalResponse) :
    Except String CommandLease :=
  if lease.token = "" ∨ lease.generation < 1 then
    .error "cannot renew a command without a lease token and generation"
  else if renewed.expiresAt = "" then .error "lease renewal response is missing lease expiry"
  else
    .ok { token := renewed.token.getD lease.token
          generation := renewed.generation.getD lease.generation
          expiresAt := renewed.expiresAt }

end SharedNode.ControlPlane

namespace SharedNode.Agent

open ControlPlane Effect Prog

/-! ## Leases in a history -/

/-- The lease stored last, or the one the command came with. -/
def current (c : Command) : List Moment → CommandLease
  | [] => c.lease
  | .stored lease :: _ => lease
  | _ :: h => current c h

/-- The lease a request carries. -/
def Moment.carried : Moment → Option CommandLease
  | .grant lease => some lease
  | .call (.reportStopped r) _ => some r.lease
  | .call (.reportStoppedAndSynced r) _ => some r.lease
  | .call (.ack _ lease _) _ => some lease
  | _ => none

/-- Every request carried the lease stored last. -/
def fresh (c : Command) : List Moment → Bool
  | [] => true
  | m :: h => m.carried.all (fun lease => lease.wire = (current c h).wire) && fresh c h

/-- The stages in which the variable is read again before any request is sent. -/
def Stage.rereads : Stage → Bool
  | .decided | .settled | .denied => true
  | _ => false

/-- Every renewal keeps the token and the generation, or is stored where the variable is read
again before any request is sent. -/
def steady (c : Command) : List Moment → Bool
  | [] => true
  | .stored lease :: h =>
    (lease.wire = (current c h).wire || (stageOf h).rereads) && steady c h
  | _ :: h => steady c h

/-! ## Every interleaving -/

/-- The variable holds the lease stored last. -/
structure VariableInv (c : Command) (s : Session) : Prop where
  assigned : stageOf s.history ≠ .opening → s.world.lease.lease = current c s.history
  closed : stageOf s.history = .opening → s.renewer = .off ∧ current c s.history = c.lease

/-- What the leases in use at a stage carry: the command before its grants are asked for, a copy
while it is being sent. -/
def Stage.InUse (c : Command) : Stage → String × Int → Prop
  | .opening, wire | .executing, wire | .marking, wire => wire = c.lease.wire
  | .reporting lease, wire => wire = c.lease.wire ∧ wire = lease.wire
  | .signed lease, wire => wire = lease.wire
  | .decided, _ | .settled, _ | .denied, _ => True

/-- What is true whenever a call takes effect. -/
structure FreshInv (c : Command) (s : Session) : Prop extends VariableInv c s where
  requests : steady c s.history = true → fresh c s.history = true
  inUse : steady c s.history = true →
    (stageOf s.history).InUse c (current c s.history).wire

variable {c : Command} {st : Stage} {s s' : Session} {op : Op} {x : Ans op}

theorem Stage.inUse_of_rereads (h : st.rereads = true) (wire : String × Int) : st.InUse c wire := by
  cases st <;> first | exact trivial | simp [Stage.rereads] at h

theorem FreshInv.tick (hs : FreshInv c s) (t : Tick) : FreshInv c (s.tick t) := by
  by_cases hoff : s.renewer = .off
  · rw [Session.tick, hoff]
    exact hs
  have hopen : stageOf s.history ≠ .opening := fun h => hoff (hs.closed h).1
  have hmove : ∀ s' : Session, s'.history = s.history →
      s'.world.lease.lease = s.world.lease.lease → FreshInv c s' := by
    intro s' hh hl
    refine ⟨⟨fun _ => ?_, fun ho => ?_⟩, ?_, ?_⟩
    · rw [hl, hh]
      exact hs.assigned hopen
    · rw [hh] at ho
      exact absurd ho hopen
    · rw [hh]
      exact hs.requests
    · rw [hh]
      exact hs.inUse
  unfold Session.tick
  split
  next h => exact absurd h hoff
  · exact hmove _ rfl rfl
  · split <;> exact hmove _ rfl rfl
  · -- the renewed lease is assigned
    refine ⟨⟨fun _ => rfl, fun ho => absurd ho hopen⟩, fun hst => ?_, fun hst => ?_⟩
    · simp only [steady, Bool.and_eq_true] at hst
      exact hs.requests hst.2
    · simp only [steady, Bool.and_eq_true, Bool.or_eq_true, decide_eq_true_eq] at hst
      rcases hst.1 with hwire | hrereads
      · show (stageOf s.history).InUse c _
        rw [current, hwire]
        exact hs.inUse hst.2
      · exact Stage.inUse_of_rereads hrereads _
  · exact hmove _ rfl rfl
  · exact ⟨⟨fun _ => hs.assigned hopen, fun ho => absurd ho hopen⟩, hs.requests, hs.inUse⟩

theorem FreshInv.grant (hs : FreshInv c s)
    (hst : stageOf s.history = .executing) : FreshInv c (s.record (.grant c.lease)) := by
  refine ⟨⟨hs.assigned, hs.closed⟩, fun hsteady => ?_, hs.inUse⟩
  have huse := hs.inUse hsteady
  rw [hst] at huse
  have hwire : c.lease.wire = (current c s.history).wire := Eq.symm huse
  show (decide (c.lease.wire = (current c s.history).wire) && fresh c s.history) = true
  rw [hs.requests hsteady, decide_eq_true hwire]
  rfl

/-- The leases in use after a call: a copy that was just made holds what the variable holds. -/
theorem Stage.InUse.next {wire : String × Int} (h : st.InUse c wire)
    (hcopy : st ≠ .opening → ∀ lease, (⟨op, x⟩ : Call Op Ans) = ⟨.currentLease, lease⟩ →
      lease.wire = wire) :
    (st.next op x).InUse c wire := by
  have hexecute : st = .executing → (Stage.afterExecute op x).InUse c wire := by
    rintro rfl
    unfold Stage.afterExecute
    split <;> first | exact trivial | exact h | skip
    exact ⟨h, (hcopy (by simp) _ rfl).symm⟩
  unfold Stage.next
  split
  · exact h
  · exact hexecute rfl
  · exact trivial
  · exact trivial
  · exact h.1
  · exact h
  · exact (hcopy (by simp) _ rfl).symm
  · exact trivial
  · exact trivial
  · exact trivial
  · exact h

theorem carried_inUse (x : Ans op) (hfits : st.Fits c op)
    {wire : String × Int} (h : st.InUse c wire) :
    (Moment.call op x).carried.all (fun lease => lease.wire = wire) = true := by
  cases op with
  | reportStopped r =>
    obtain rfl : st = _ := hfits
    exact decide_eq_true h.2.symm
  | reportStoppedAndSynced r =>
    obtain rfl : st = _ := hfits
    exact decide_eq_true (Eq.symm h)
  | ack id lease r =>
    obtain rfl : st = _ := hfits
    exact decide_eq_true (Eq.symm h)
  | _ => rfl

theorem VariableInv.call
    (hs : VariableInv c s) (hfits : (stageOf s.history).Fits c op) (h : Called op x s s') :
    VariableInv c s' := by
  have hcurrent : current c s'.history = current c s.history := by
    rw [h.history]
    rfl
  by_cases hstart : ∃ id lease, op = .renewLease id lease
  · obtain ⟨id, lease, rfl⟩ := hstart
    obtain ⟨hopening, -, hlease⟩ := hfits
    constructor
    · intro _
      rw [(h.start id lease rfl).1, hcurrent, (hs.closed hopening).2, hlease]
    · intro ho
      rw [h.stage, hopening] at ho
      simp [Stage.next] at ho
  · have hop : ∀ id lease, op ≠ .renewLease id lease := fun id lease heq =>
      hstart ⟨id, lease, heq⟩
    constructor
    · intro ho
      rw [(h.frame hop).1, hcurrent]
      refine hs.assigned fun hopening => ho ?_
      rw [h.stage, hopening, Stage.next_opening hop]
    · intro ho
      have hopening : stageOf s.history = .opening := by
        by_contra hne
        exact Stage.next_ne_opening hne op x (h.stage ▸ ho)
      rw [h.renewer_of_ne hop, hcurrent]
      exact hs.closed hopening

theorem FreshInv.call (hs : FreshInv c s)
    (hfits : (stageOf s.history).Fits c op) (h : Called op x s s') : FreshInv c s' := by
  have hcurrent : current c s'.history = current c s.history := by
    rw [h.history]
    rfl
  have hsteady : steady c s'.history = steady c s.history := by
    rw [h.history]
    rfl
  refine ⟨hs.toVariableInv.call hfits h, fun hst => ?_, fun hst => ?_⟩
  · rw [hsteady] at hst
    rw [h.history]
    simp only [fresh, Bool.and_eq_true]
    exact ⟨carried_inUse x hfits (hs.inUse hst), hs.requests hst⟩
  · rw [hsteady] at hst
    rw [h.stage, hcurrent]
    refine (hs.inUse hst).next fun hopen lease hcopy => ?_
    obtain ⟨rfl, hx⟩ := Sigma.mk.inj hcopy
    obtain rfl := eq_of_heq hx
    rw [show x = s.world.lease.lease from h.answers, hs.assigned hopen]

theorem FreshInv.step {e : Turn} (hs : FreshInv c s ∧ stageOf s.history = st)
    (hfits : (positions c).fits st op) (h : sessionHandle op e s = some (x, s')) :
    FreshInv c s' ∧ stageOf s'.history = (positions c).next st op x := by
  obtain ⟨hs, rfl⟩ := hs
  have hcall := session_step h
  have hstage := stageOf_before s op e
  -- grants are asked for in `Execute` only, with the lease of the command
  have hbefore : FreshInv c (s.before op e) ∧
      stageOf (s.before op e).history = stageOf s.history := by
    refine before_induction
      (I := fun s' => FreshInv c s' ∧ stageOf s'.history = stageOf s.history)
      (fun s' t hs' => ⟨hs'.1.tick t, (stageOf_tick s' t).trans hs'.2⟩) ?_ e ⟨hs, rfl⟩
    rintro d hd s' ⟨hs', hst⟩
    obtain ⟨hex, rfl⟩ : stageOf s.history = .executing ∧ d = c := by
      rcases hd with rfl | rfl <;> exact hfits
    exact ⟨hs'.grant (hst.trans hex), hst⟩
  have hfits' : (stageOf (s.before op e).history).Fits c op := by
    rw [hstage]
    exact hfits
  refine ⟨hbefore.1.call hfits' hcall, ?_⟩
  rw [hcall.stage, hstage]
  rfl

theorem freshInv_start (c : Command) (w : World) : FreshInv c (.start w) :=
  ⟨⟨fun h => absurd rfl h, fun _ => ⟨rfl, rfl⟩⟩, fun _ => rfl, fun _ => rfl⟩

/-- **Fresh leases.** In every interleaving of `Process` with its renewal goroutine in which a
renewal that changes the token or the generation is stored only while neither the command nor a
copy of the lease will be sent, every grant request, report and acknowledgement, and every retry of
these, carries the lease stored last. -/
theorem fresh_of_steady (w : World) (nodeID : String) (rounds : Nat) (c : Command)
    (turns : List Turn) (h : steady c (Session.run w nodeID rounds c turns).2.history = true) :
    fresh c (Session.run w nodeID rounds c turns).2.history = true := by
  obtain ⟨st, hst, -⟩ := Follows.run
    (J := fun st s => FreshInv c s ∧ stageOf s.history = st) (h := sessionHandle)
    (fun _ _ _ _ _ _ hs hfits h => FreshInv.step hs hfits h)
    (process_follows (c := c) nodeID rounds) ⟨freshInv_start c w, rfl⟩ turns []
  exact hst.1.requests h

/-- The steps of a goroutine that renews the lease of a `leased` command with this response. -/
def renewal (renewed : RenewalResponse) : List Tick :=
  [{}, { reply := Client.renewLease { token := "t", generation := 1 } renewed }, {}, {}]

/-- The turns of a stop that is reported and synced, with a renewal between the two grant requests
of the sync. -/
def renewedInSync (renewed : RenewalResponse) : List Turn :=
  List.replicate 19 ({} : Turn) ++ ({ grants := [[], renewal renewed] } : Turn) ::
    List.replicate 40 ({} : Turn)

/-- A response that extends the lease only. -/
theorem fresh_of_steady_extended :
    let s := Session.run {} "n" 3 (leased (stopCommand "c" "s" "a" 5))
      (renewedInSync { expiresAt := "later" })
    s.1 = some (.ok ()) ∧
      current (leased (stopCommand "c" "s" "a" 5)) s.2.history =
        { token := "t", generation := 1, expiresAt := "later" } ∧
      fresh (leased (stopCommand "c" "s" "a" 5)) s.2.history = true := by
  refine ⟨by decide, by decide, ?_⟩
  exact fresh_of_steady {} "n" 3 _ _ (by decide)

/-- A response with a new token: the next grant request carries the old one. -/
theorem stale_grant_request :
    let c := leased (stopCommand "c" "s" "a" 5)
    let s := Session.run {} "n" 3 c (renewedInSync { token := some "t2", expiresAt := "later" })
    fresh c s.2.history = false := by
  decide

end SharedNode.Agent
