import SharedNode.Agent.Renewal

/-!
# After the lease is lost

Once a renewal is denied and the lost flag is set, `Process` (`internal/agent/daemon.go`) should
make no further report, release or acknowledgement and return `ErrLeaseLost`. It reads the flag
after `Execute` and before the acknowledgement only, and the retries of its reports run on a context
that the loss does not cancel.

Left out: when a renewal is due; one may come before any call.
-/

namespace SharedNode.Agent

open ControlPlane Effect Prog

/-! ## Losses in a history -/

/-- The calls a lost lease forbids. -/
def Op.isStatement : Op → Bool
  | .reportStopped _ | .reportStarted .. | .reportStoppedAndSynced _ | .release _ | .ack .. => true
  | _ => false

/-- The lost flag was set. -/
def anyLoss : List Moment → Bool
  | [] => false
  | .lost :: _ => true
  | _ :: h => anyLoss h

/-- The lost flag was set after the last call. -/
def lossPending : List Moment → Bool
  | .lost :: _ => true
  | .grant _ :: h | .stored _ :: h => lossPending h
  | _ => false

/-- The calls made since the flag was set, newest first. -/
def callsAfterLoss : List Moment → List Op
  | [] => []
  | .call op _ :: h => if anyLoss h then op :: callsAfterLoss h else []
  | _ :: h => callsAfterLoss h

/-- No report, release or acknowledgement was made since the flag was set. -/
def silentAfterLoss (h : List Moment) : Bool := (callsAfterLoss h).all (!·.isStatement)

/-- The stages of a command that will end with a read of the flag, or has. -/
def Stage.isGuarded : Stage → Bool
  | .decided | .denied => true
  | _ => false

/-- A flag that is set while this call is in progress will be read before anything is stated: the
outcome of `Execute` is certain not to be a stop once the call returns, or the call is the read. -/
def Stage.noticesLoss : Stage → Op → Bool
  | .decided, _ | .denied, _ => true
  | .executing, .restore _ | .executing, .path _ | .executing, .start .. | .executing, .sync _
  | .executing, .commit .. => true
  | .executing, .leaseLost | .settled, .leaseLost => true
  | _, _ => false

/-- Every loss comes while a call is in progress after which the flag is read first. -/
def lossesGuarded : List Moment → Bool
  | [] => true
  | .call op _ :: h => (!lossPending h || (stageOf h).noticesLoss op) && lossesGuarded h
  | _ :: h => lossesGuarded h

/-! ## Every interleaving -/

/-- The flag is what the history says, and the goroutine has ended once it is set. -/
structure FlagInv (s : Session) : Prop where
  flag : stageOf s.history ≠ .opening → s.world.lease.lost = anyLoss s.history
  ended : anyLoss s.history = true → s.renewer = .off
  closed : stageOf s.history = .opening → s.renewer = .off ∧ anyLoss s.history = false

/-- Nothing was stated after a loss, and a loss that a call followed has been guarded. -/
def Guarded (h : List Moment) : Prop :=
  silentAfterLoss h = true ∧
    (anyLoss h = true → lossPending h = true ∨ (stageOf h).isGuarded = true)

/-- What is true whenever a call takes effect. -/
structure LossInv (s : Session) : Prop extends FlagInv s where
  guarded : lossesGuarded s.history = true → Guarded s.history

variable {s : Session} {c : Command} {st : Stage} {op : Op} {x : Ans op}

theorem LossInv.grant (hs : LossInv s) (lease : CommandLease) : LossInv (s.record (.grant lease)) :=
  ⟨⟨hs.flag, hs.ended, hs.closed⟩, hs.guarded⟩

theorem LossInv.tick (hs : LossInv s) (t : Tick) : LossInv (s.tick t) := by
  by_cases hoff : s.renewer = .off
  · rw [Session.tick, hoff]
    exact hs
  -- the goroutine is running, so it was started and has lost nothing
  have hopen : stageOf s.history ≠ .opening := fun h => hoff (hs.closed h).1
  have hloss : anyLoss s.history = false := by
    by_contra h
    exact hoff (hs.ended (by simpa using h))
  have hmove : ∀ s' : Session, s'.history = s.history →
      s'.world.lease.lost = s.world.lease.lost → LossInv s' := by
    intro s' hh hl
    refine ⟨⟨fun h => ?_, fun h => ?_, fun h => ?_⟩, fun h => ?_⟩
    · rw [hl, hh]; exact hs.flag hopen
    · rw [hh, hloss] at h; cases h
    · rw [hh] at h; exact absurd h hopen
    · rw [hh] at h ⊢; exact hs.guarded h
  unfold Session.tick
  split
  next h => exact absurd h hoff
  · exact hmove _ rfl rfl
  · split <;> exact hmove _ rfl rfl
  · refine ⟨⟨fun _ => hs.flag hopen, fun h => ?_, fun h => absurd h hopen⟩, hs.guarded⟩
    simp [anyLoss, hloss] at h
  · exact hmove _ rfl rfl
  · refine ⟨⟨fun _ => rfl, fun _ => rfl, fun h => absurd h hopen⟩, fun hg => ?_⟩
    exact ⟨(hs.guarded hg).1, fun _ => Or.inl rfl⟩

theorem not_guarded_of_statement (hfits : st.Fits c op) (hop : op.isStatement = true) (x : Ans op) :
    st.isGuarded = false ∧ (st.next op x).isGuarded = false := by
  cases op with
  | reportStopped r => obtain rfl : st = _ := hfits; cases x <;> exact ⟨rfl, rfl⟩
  | reportStoppedAndSynced r => obtain rfl : st = _ := hfits; cases x <;> exact ⟨rfl, rfl⟩
  | ack id l r => obtain rfl : st = _ := hfits; cases x <;> exact ⟨rfl, rfl⟩
  | reportStarted svc asg e => obtain rfl : st = _ := hfits; exact ⟨rfl, rfl⟩
  | release d => obtain rfl : st = _ := hfits; exact ⟨rfl, rfl⟩
  | _ => simp [Op.isStatement] at hop

theorem guarded_next (hst : st.isGuarded = true)
    (hflag : ∀ b, (⟨op, x⟩ : Call Op Ans) = ⟨.leaseLost, b⟩ → b = true) :
    (st.next op x).isGuarded = true := by
  cases st with
  | decided =>
    cases op with
    | leaseLost =>
      obtain rfl : x = true := hflag x rfl
      rfl
    | _ => rfl
  | denied => rfl
  | _ => simp [Stage.isGuarded] at hst

/-- A call after which the flag is read first leads to a guarded stage. -/
theorem guarded_of_noticesLoss (hst : st.noticesLoss op = true)
    (hflag : ∀ b, (⟨op, x⟩ : Call Op Ans) = ⟨.leaseLost, b⟩ → b = true) :
    (st.next op x).isGuarded = true := by
  cases st with
  | decided => exact guarded_next rfl hflag
  | denied => rfl
  | executing =>
    cases op with
    | leaseLost =>
      obtain rfl : x = true := hflag x rfl
      rfl
    | restore | path | start | sync | commit => rfl
    | _ => simp [Stage.noticesLoss] at hst
  | settled =>
    cases op with
    | leaseLost =>
      obtain rfl : x = true := hflag x rfl
      rfl
    | _ => simp [Stage.noticesLoss] at hst
  | _ => simp [Stage.noticesLoss] at hst

theorem Guarded.call (hs : LossInv s)
    (hfits : (stageOf s.history).Fits c op) (hanswers : s.Answers op x)
    (hopen : stageOf s.history ≠ .opening ∨ anyLoss s.history = false)
    (hg : lossesGuarded (.call op x :: s.history) = true) : Guarded (.call op x :: s.history) := by
  obtain ⟨hnew, hold⟩ : (lossPending s.history = true →
      (stageOf s.history).noticesLoss op = true) ∧ lossesGuarded s.history = true := by
    simp only [lossesGuarded, Bool.and_eq_true, Bool.or_eq_true, Bool.not_eq_true'] at hg
    refine ⟨fun hp => hg.1.resolve_left fun h => ?_, hg.2⟩
    rw [hp] at h
    cases h
  obtain ⟨hsilent, hguard⟩ := hs.guarded hold
  cases hl : anyLoss s.history with
  | false =>
    refine ⟨by simp [silentAfterLoss, callsAfterLoss, hl], fun h => ?_⟩
    simp [anyLoss, hl] at h
  | true =>
    have hst := hopen.resolve_right (by simp [hl])
    have hflag : ∀ b, (⟨op, x⟩ : Call Op Ans) = ⟨.leaseLost, b⟩ → b = true := by
      rintro b hb
      obtain ⟨rfl, hb⟩ := Sigma.mk.inj hb
      obtain rfl := eq_of_heq hb
      rw [show x = s.world.lease.lost from hanswers, hs.flag hst, hl]
    -- the stage after the call is guarded, so the call is no statement
    have hnext : ((stageOf s.history).next op x).isGuarded = true := by
      rcases hguard hl with hp | hst'
      · exact guarded_of_noticesLoss (hnew hp) hflag
      · exact guarded_next hst' hflag
    have hquiet : op.isStatement = false := by
      by_contra hop
      have := (not_guarded_of_statement hfits (by simpa using hop) x).2
      rw [hnext] at this
      cases this
    refine ⟨?_, fun _ => Or.inr hnext⟩
    simp only [silentAfterLoss, callsAfterLoss, hl, if_true, List.all_cons, hquiet]
    exact hsilent

/-- One call of `Process` keeps what relates the flag to the history. -/
theorem FlagInv.call {s' : Session} (hs : FlagInv s)
    (hfits : (stageOf s.history).Fits c op) (h : Called op x s s') : FlagInv s' := by
  by_cases hstart : ∃ id lease, op = .renewLease id lease
  · obtain ⟨id, lease, rfl⟩ := hstart
    have hopening : stageOf s.history = .opening := hfits.1
    have hloss := (hs.closed hopening).2
    have hstage : stageOf s'.history = .executing := by rw [h.stage, hopening]; rfl
    have hloss' : anyLoss s'.history = false := by rw [h.history]; exact hloss
    refine ⟨fun _ => ?_, fun hl => ?_, fun ho => ?_⟩
    · rw [(h.start id lease rfl).2, hloss']
    · rw [hloss'] at hl; cases hl
    · rw [hstage] at ho; cases ho
  · have hop : ∀ id lease, op ≠ .renewLease id lease := fun id lease heq =>
      hstart ⟨id, lease, heq⟩
    have hloss : anyLoss s'.history = anyLoss s.history := by rw [h.history]; rfl
    refine ⟨fun ho => ?_, fun hl => ?_, fun ho => ?_⟩
    · rw [(h.frame hop).2, hloss]
      refine hs.flag fun hopening => ho ?_
      rw [h.stage, hopening, Stage.next_opening hop]
    · rw [h.renewer_of_ne hop]
      exact hs.ended (hloss ▸ hl)
    · have hopening : stageOf s.history = .opening := by
        by_contra hne
        exact Stage.next_ne_opening hne op x (h.stage ▸ ho)
      rw [h.renewer_of_ne hop, hloss]
      exact hs.closed hopening

/-- What holds between two calls: a call has followed every loss. -/
structure Between (st : Stage) (s : Session) : Prop where
  inv : LossInv s
  stage : stageOf s.history = st
  followed : lossPending s.history = false

theorem Between.step {e : Turn} {s' : Session}
    (hs : Between st s) (hfits : (positions c).fits st op)
    (h : sessionHandle op e s = some (x, s')) : Between ((positions c).next st op x) s' := by
  obtain ⟨hs, rfl, -⟩ := hs
  have hcall := session_step h
  have hbefore : LossInv (s.before op e) :=
    before_induction (I := LossInv) (fun s t hs => hs.tick t) (fun d _ s hs => hs.grant d.lease)
      e hs
  have hstage := stageOf_before s op e
  have hfits' : (stageOf (s.before op e).history).Fits c op := by rw [hstage]; exact hfits
  refine ⟨⟨hbefore.toFlagInv.call hfits' hcall, fun hg => ?_⟩, ?_, ?_⟩
  · rw [hcall.history] at hg ⊢
    refine Guarded.call hbefore hfits' hcall.answers ?_ hg
    by_cases ho : stageOf (s.before op e).history = .opening
    · exact Or.inr (hbefore.closed ho).2
    · exact Or.inl ho
  · rw [hcall.stage, hstage]
    rfl
  · rw [hcall.history]
    rfl

theorem between_start (w : World) : Between .opening (.start w) := by
  have hloss : anyLoss (Session.start w).history ≠ true := by simp [Session.start, anyLoss]
  exact ⟨⟨⟨fun h => absurd rfl h, fun h => absurd h hloss, fun _ => ⟨rfl, rfl⟩⟩,
    fun _ => ⟨rfl, fun h => absurd h hloss⟩⟩, rfl, rfl⟩

/-- **Silence after a loss.** In every interleaving of `Process` with its renewal goroutine in which
each loss comes while a call is in progress after which the flag is read first, nothing is reported,
released or acknowledged after the loss, and `Process` returns `ErrLeaseLost`. -/
theorem silent_after_loss (w : World) (nodeID : String) (rounds : Nat) (c : Command)
    (turns : List Turn)
    (hg : lossesGuarded (Session.run w nodeID rounds c turns).2.history = true) :
    silentAfterLoss (Session.run w nodeID rounds c turns).2.history = true ∧
      ∀ r, (Session.run w nodeID rounds c turns).1 = some r →
        anyLoss (Session.run w nodeID rounds c turns).2.history = true → r = .error .leaseLost := by
  obtain ⟨st, hst, hret⟩ := Follows.run (J := Between) (h := sessionHandle)
    (fun _ _ _ _ _ _ hs hfits h => hs.step hfits h)
    (process_follows (c := c) nodeID rounds) (between_start w) turns []
  obtain ⟨hsilent, hguard⟩ := hst.inv.guarded hg
  refine ⟨hsilent, fun r hr hl => ?_⟩
  obtain ⟨hdecided, hdenied⟩ := hret r hr
  have hstage : st.isGuarded = true := by
    rw [← hst.stage]
    refine (hguard hl).resolve_left fun hp => ?_
    rw [hst.followed] at hp
    cases hp
  cases st with
  | decided => exact absurd rfl hdecided
  | denied => exact hdenied rfl
  | _ => simp [Stage.isGuarded] at hstage

/-- The steps of a goroutine whose next renewal is denied. -/
def denial : List Tick := [{}, {}, {}]

/-- A renewal denied while the container is being started: nothing is reported. -/
theorem silent_after_loss_in_start :
    let s := Session.run {} "n" 3 (leased (startCommand "c" "s" "a" 5)) (duringCall 9 denial)
    anyLoss s.2.history = true ∧ silentAfterLoss s.2.history = true ∧
      s.1 = some (.error .leaseLost) := by
  have h := silent_after_loss {} "n" 3 (leased (startCommand "c" "s" "a" 5)) (duringCall 9 denial)
    (by decide)
  have hloss : anyLoss (Session.run {} "n" 3 (leased (startCommand "c" "s" "a" 5))
      (duringCall 9 denial)).2.history = true := by decide
  have hret : (Session.run {} "n" 3 (leased (startCommand "c" "s" "a" 5))
      (duringCall 9 denial)).1.isSome = true := by decide
  obtain ⟨r, hr⟩ := Option.isSome_iff_exists.mp hret
  refine ⟨hloss, h.1, ?_⟩
  rw [hr, h.2 r hr hloss]

/-- A renewal denied while `ReportStoppedAndSynced` is being sent: the report is made all the same,
and the workspace is released. -/
theorem released_after_loss :
    let c := leased (stopCommand "c" "s" "a" 5)
    let s := Session.run {} "n" 3 c (duringCall 26 denial)
    silentAfterLoss s.2.history = false ∧ .release c ∈ callsAfterLoss s.2.history ∧
      (callsAfterLoss s.2.history).any (fun | .reportStoppedAndSynced _ => true | _ => false) := by
  decide

end SharedNode.Agent
