import SharedNode.ControlPlane.Client
import SharedNode.Effect.Pool

/-!
# The use of the bootstrap credential

Model of `Register` and `Run` in `internal/agent/daemon.go` with the requests they make. `Run`
registers the node, sends a heartbeat and calls `Ready`; then the loop over the commands runs beside
the heartbeats, the rotation of the credential and the renewals of the leases (`Loop`), in any
interleaving. Loops without a bound in the source take a number of rounds here.

A registration is settled when the control plane accepts or rejects it (`Exchange.settles`).
`retry` calls `Client.Register` again after every error, so a registration that is rejected, or
accepted with a response the client cannot use or a credential it cannot store, is followed by
another request with the bootstrap credential (`settled_bootstrap_resent`).

Left out: what `Process` does with a command, the subject of `Agent.Daemon`.
-/

namespace SharedNode.Enrollment

open Text Effect Prog

variable {α : Type}

/-! ## The daemon -/

/-- One round of the package's `retry`. -/
def attempt (operation : M (Outcome α)) : M (Option (Outcome α)) := do
  let r ← operation
  match r with
  | .ok a => ret (some (.ok a))
  | .error err =>
    let done ← ask .wait
    ret (if done then some (.error err) else none)

def retry (rounds : Nat) (operation : M (Outcome α)) : M (Outcome α) :=
  (attempt operation).iterate rounds

namespace Daemon

/-- The error of `recoverAuthentication`. -/
def rejected (err : ClientError) : ClientError :=
  .other ("node credential was rejected; refusing bootstrap re-enrollment: " ++ err.text)

/-- One round of the daemon's own `retry`. -/
def attempt (operation : M (Outcome α)) : M (Option (Outcome α)) := do
  let r ← operation
  match r with
  | .ok a => ret (some (.ok a))
  | .error err =>
    if err.isAuthenticationFailure then ret (some (.error (rejected err)))
    else
      let done ← ask .wait
      ret (if done then some (.error err) else none)

/-- The daemon's own `retry`. -/
def retry (rounds : Nat) (operation : M (Outcome α)) : M (Outcome α) :=
  (attempt operation).iterate rounds

def register (id : Identity) (rounds : Nat) : M (Outcome Unit) := do
  let issued ← ask .credential
  if issued.credential ≠ [] then
    let needed ← Client.credentialNeedsRotation
    if needed then retry rounds (Client.rotateCredential id.nodeID) else ret (.ok ())
  else Enrollment.retry rounds (Client.register id)

def heartbeat (nodeID : Bytes) (rounds : Nat) : M (Outcome Bool) := do
  let status ← ask .errand
  retry rounds (Errand.run nodeID ⟨.heartbeat, status.bind (·.body)⟩)

/-- `Run` between the registration and its loops. -/
def announce (nodeID : Bytes) (rounds : Nat) : M (Outcome Unit) := do
  let sent ← heartbeat nodeID rounds
  match sent with
  | .error err => fail ("send initial heartbeat: " ++ err.text)
  | .ok _ =>
    let ready ← ask .ready
    match ready with
    | .error err => fail ("record node readiness: " ++ err)
    | .ok () => ret (.ok ())

def heartbeatLoop (nodeID : Bytes) (rounds : Nat) : M Unit :=
  Prog.iterate (do
    let _ ← heartbeat nodeID rounds
    let done ← ask .wait
    ret (if done then some () else none)) rounds

def credentialLoop (nodeID : Bytes) (rounds : Nat) : M Unit :=
  Prog.iterate (do
    let needed ← Client.credentialNeedsRotation
    let _ ← (if needed then retry rounds (Client.rotateCredential nodeID) else ret (.ok ()))
    let done ← ask .wait
    ret (if done then some () else none)) rounds

/-- The goroutines of `renewLease`, one request after the other. -/
def renewLeases (nodeID : Bytes) (rounds : Nat) : M Unit :=
  Prog.iterate (do
    let done ← ask .wait
    if done then ret (some ())
    else
      let errand ← ask .errand
      match errand with
      | none => ret none
      | some errand =>
        let _ ← Errand.run nodeID errand
        ret none) rounds

/-- `Next`: asks until a response holds a command. -/
def next (nodeID : Bytes) (rounds : Nat) : M (Outcome Unit) :=
  Prog.iterate (do
    let response ← Errand.run nodeID ⟨.next, some []⟩
    match response with
    | .error err => ret (some (.error err))
    | .ok true => ret (some (.ok ()))
    | .ok false =>
      let done ← ask .wait
      ret (if done then some (.error (.other "context canceled")) else none)) rounds

/-- `Process`, by the requests it makes: grants are asked for once, reports are retried. -/
def process (nodeID : Bytes) (rounds : Nat) : M Unit :=
  Prog.iterate (do
    let errand ← ask .errand
    match errand with
    | none => ret (some ())
    | some ⟨.workspaceGrants operation, body⟩ =>
      let _ ← Errand.run nodeID ⟨.workspaceGrants operation, body⟩
      ret none
    | some errand =>
      let _ ← retry rounds (Errand.run nodeID errand)
      ret none) rounds

/-- The loop of `Run`. -/
def commandLoop (nodeID : Bytes) (rounds : Nat) : M Unit :=
  Prog.iterate (do
    let command ← next nodeID rounds
    match command with
    | .error err =>
      if err.isAuthenticationFailure then ret (some ())
      else
        let done ← ask .wait
        ret (if done then some () else none)
    | .ok () =>
      let _ ← process nodeID rounds
      ret none) rounds

end Daemon

/-- The goroutines of `Run`. -/
inductive Loop where
  | commands
  | heartbeats
  | credentials
  | renewals
  deriving DecidableEq, Repr

def Loop.code (nodeID : Bytes) (rounds : Nat) : Loop → M Unit
  | commands => Daemon.commandLoop nodeID rounds
  | heartbeats => Daemon.heartbeatLoop nodeID rounds
  | credentials => Daemon.credentialLoop nodeID rounds
  | renewals => Daemon.renewLeases nodeID rounds

def loops (nodeID : Bytes) (rounds : Nat) (w : World) : Pool Op Ans World Loop fun _ => Unit :=
  ⟨w, [.commands, .heartbeats, .credentials, .renewals].map fun l =>
    ⟨l, some (l.code nodeID rounds)⟩⟩

/-- The agent process of a registered node after some choices for the first heartbeat and some steps
of its goroutines. -/
def Daemon.operate (nodeID : Bytes) (rounds : Nat) (w : World) (announcing : List Choice)
    (steps : List (Nat × Choice)) : World :=
  match Effect.run handle (Daemon.announce nodeID rounds) announcing w [] with
  | (some (.ok ()), w, _) =>
    ((steps.map fun s => Action.step s.1 s.2).foldl
      (Pool.act handle (Loop.code nodeID rounds) fun w => w) (loops nodeID rounds w)).state
  | (_, w, _) => w

/-- `Run`: the agent process as it stands after some choices for the registration, and then as a
registered node. -/
def Daemon.run (id : Identity) (rounds : Nat) (w : World) (registering announcing : List Choice)
    (steps : List (Nat × Choice)) : World :=
  match Effect.run handle (Daemon.register id rounds) registering w [] with
  | (some (.ok ()), w, _) => Daemon.operate id.nodeID rounds w announcing steps
  | (_, w, _) => w

/-- A new client: the bootstrap credential it was configured with, the credential it found. -/
def World.start (bootstrapCredential : Bytes) (issued : Credential) (file : Option Bytes) : World :=
  { bootstrapCredential, issued, file }

/-! ## Settled registrations -/

/-- The control plane has accepted or rejected this registration. -/
def Exchange.settles (x : Exchange) : Prop :=
  x.request.scheme = .bootstrap ∧ ∃ r, x.served = some r ∧ (r.accepts ∨ r.rejects)

instance (x : Exchange) : Decidable x.settles :=
  decidable_of_iff
    (x.request.scheme = .bootstrap ∧ (x.served.any fun r => decide (r.accepts ∨ r.rejects)) = true)
    (by simp [Exchange.settles, Option.any_eq_true_iff_get, Option.eq_some_iff_get_eq])

/-- After a settled registration no request carries the credential `b`. -/
def Spent (b : Bytes) (log : List Exchange) : Prop :=
  log.Pairwise fun later earlier => earlier.settles → later.request.credential ≠ b

instance (b : Bytes) (log : List Exchange) : Decidable (Spent b log) :=
  inferInstanceAs (Decidable (List.Pairwise _ log))

/-! ## The requests of an enrolled node -/

section Own

variable {P : Bytes → Prop}

/-- A call of an enrolled node: its requests carry a credential of the node that satisfies `P`,
and only such a credential is stored. -/
def OwnCall (P : Bytes → Prop) : Op → Prop
  | .send r => r.scheme = .node ∧ P r.credential
  | .assign c => P c.credential
  | _ => True

/-- An answer that gives the node no credential but one that satisfies `P`. -/
def OwnAnswer (P : Bytes → Prop) : (op : Op) → Ans op → Prop
  | .credential, c => P c.credential
  | .send _, x =>
    ∀ r d, x = .ok r → r.accepts → Client.decodeIssue r.body = some d → P d.issued.credential
  | _, _ => True

/-- The control plane issues only credentials that satisfy `P`. -/
def Choice.Issues (P : Bytes → Prop) (e : Choice) : Prop :=
  ∀ request r d, e.serve request = some r → r.accepts → Client.decodeIssue r.body = some d →
    P d.issued.credential

/-- The program makes calls of an enrolled node only. -/
abbrev Own (P : Bytes → Prop) (p : M α) : Prop := p.Guarded (OwnCall P) (OwnAnswer P)

variable {path body nodeID : Bytes} {c : Credential} {rounds : Nat}

theorem own_send {credential : Bytes} (hok : P credential) {f : Outcome Bytes → M α}
    (hf : ∀ r, (∀ text d, r = .ok text → Client.decodeIssue text = some d → P d.issued.credential) →
      Own P (f r)) : Own P ((Client.send path body .node credential).bind f) := by
  refine Guarded.call trivial fun now _ => Guarded.call trivial fun nonce _ => ?_
  cases nonce with
  | error err => exact hf _ fun _ _ h => nomatch h
  | ok nonce =>
    refine Guarded.call ⟨rfl, hok⟩ fun response hresponse => hf _ fun text d htext hd => ?_
    obtain ⟨r, hr, haccepts, rfl, -⟩ := Client.receive_eq_ok.mp htext
    exact hresponse r d hr haccepts hd

theorem own_sendNodeLocked {f : Outcome Bytes → M α}
    (hf : ∀ r, (∀ text d, r = .ok text → Client.decodeIssue text = some d → P d.issued.credential) →
      Own P (f r)) : Own P ((Client.sendNodeLocked path body).bind f) := by
  refine Guarded.call trivial fun issued hissued => ?_
  simp only [ret_bind]
  by_cases hnone : issued.credential = []
  · rw [if_pos hnone]
    exact hf _ fun _ _ h => nomatch h
  · rw [if_neg hnone]
    exact own_send hissued hf

theorem own_sendNode : Own P (Client.sendNode path body) :=
  Guarded.call trivial fun _ _ => own_sendNodeLocked fun _ _ => Guarded.call trivial
    fun _ _ => trivial

theorem own_commit (hc : P c.credential) : Own P (Client.commit c) := by
  refine Guarded.call trivial fun closed _ => ?_
  cases closed with
  | error err => exact Guarded.call trivial fun _ _ => trivial
  | ok =>
    refine Guarded.call trivial fun renamed _ => ?_
    cases renamed with
    | error err => exact Guarded.call trivial fun _ _ => trivial
    | ok => exact Guarded.call hc fun _ _ => trivial

theorem own_persist (hc : P c.credential) : Own P (Client.persist c) := by
  refine Guarded.call trivial fun made _ => ?_
  cases made with
  | error err => trivial
  | ok =>
    refine Guarded.call trivial fun created _ => ?_
    cases created with
    | error err => trivial
    | ok =>
      refine Guarded.call trivial fun written _ => Guarded.bind ?_ fun _ => own_commit hc
      cases written with
      | error err => trivial
      | ok => exact Guarded.call trivial fun _ _ => trivial

theorem own_setCredential (hc : P c.credential) : Own P (Client.setCredential nodeID c) := by
  unfold Client.setCredential
  split
  · trivial
  split
  · trivial
  refine Guarded.call trivial fun now _ => ?_
  split
  · trivial
  · exact own_persist hc

theorem own_rotateCredential : Own P (Client.rotateCredential nodeID) := by
  refine Guarded.call trivial fun _ _ => own_sendNodeLocked fun r hr => Guarded.bind ?_ fun _ =>
    Guarded.call trivial fun _ _ => trivial
  cases r with
  | error err => trivial
  | ok text =>
    dsimp only
    unfold Client.exchangeCredential
    cases hd : Client.decodeIssue text with
    | none => trivial
    | some d =>
      dsimp only
      split
      · trivial
      · exact own_setCredential (hr text d rfl hd)

theorem own_credentialNeedsRotation : Own P Client.credentialNeedsRotation := by
  refine Guarded.call trivial fun issued _ => ?_
  split
  · trivial
  · split
    · trivial
    · exact Guarded.call trivial fun _ _ => trivial

theorem own_errand {errand : Errand} : Own P (errand.run nodeID) := by
  unfold Errand.run
  split
  · trivial
  · refine Guarded.bind own_sendNode fun response => ?_
    cases response with
    | error err => trivial
    | ok text => exact Guarded.call trivial fun _ _ => trivial

theorem own_wait {f : Bool → α} : Own P ((ask .wait).bind fun done => ret (f done)) :=
  Guarded.call trivial fun _ _ => trivial

theorem own_retry {operation : M (Outcome α)} (h : Own P operation) :
    Own P (Daemon.retry rounds operation) := by
  refine Guarded.iterate (Guarded.bind h fun r => ?_) rounds
  cases r with
  | ok a => trivial
  | error err =>
    dsimp only
    split
    · trivial
    · exact own_wait

theorem own_heartbeat : Own P (Daemon.heartbeat nodeID rounds) :=
  Guarded.call trivial fun _ _ => own_retry own_errand

theorem own_announce : Own P (Daemon.announce nodeID rounds) := by
  refine Guarded.bind own_heartbeat fun sent => ?_
  cases sent with
  | error err => trivial
  | ok =>
    refine Guarded.call trivial fun ready _ => ?_
    cases ready with
    | error err => trivial
    | ok => trivial

theorem own_next : Own P (Daemon.next nodeID rounds) := by
  refine Guarded.iterate (Guarded.bind own_errand fun response => ?_) rounds
  match response with
  | .error err | .ok true => trivial
  | .ok false => exact own_wait

theorem own_process : Own P (Daemon.process nodeID rounds) := by
  refine Guarded.iterate (Guarded.call trivial fun errand _ => ?_) rounds
  split
  · trivial
  · exact Guarded.bind own_errand fun _ => trivial
  · exact Guarded.bind (own_retry own_errand) fun _ => trivial

theorem own_loop (l : Loop) : Own P (l.code nodeID rounds) := by
  cases l with
  | commands =>
    refine Guarded.iterate (Guarded.bind own_next fun command => ?_) rounds
    cases command with
    | error err =>
      dsimp only
      split
      · trivial
      · exact own_wait
    | ok => exact Guarded.bind own_process fun _ => trivial
  | heartbeats => exact Guarded.iterate (Guarded.bind own_heartbeat fun _ => own_wait) rounds
  | credentials =>
    refine Guarded.iterate (Guarded.bind own_credentialNeedsRotation fun needed => ?_) rounds
    refine Guarded.bind ?_ fun _ => own_wait
    split
    · exact own_retry own_rotateCredential
    · trivial
  | renewals =>
    refine Guarded.iterate (Guarded.call trivial fun done _ => ?_) rounds
    split
    · trivial
    · refine Guarded.call trivial fun errand _ => ?_
      cases errand with
      | none => trivial
      | some errand => exact Guarded.bind own_errand fun _ => trivial

variable {K : List Exchange → Prop}

/-- One call of an enrolled node: whatever its requests keep is kept. -/
theorem own_call
    (hK : ∀ log x, K log → x.request.scheme = .node → P x.request.credential → K (x :: log))
    (op : Op) (e : Choice) (w : World) (x : Ans op) (w' : World)
    (hw : P w.issued.credential ∧ K w.log) (hop : OwnCall P op) (he : e.Issues P)
    (hx : handle op e w = some (x, w')) :
    OwnAnswer P op x ∧ P w'.issued.credential ∧ K w'.log := by
  cases op with
  | send r =>
    cases hx
    refine ⟨fun response d hresponse => ?_, hw.1, hK _ _ hw.2 hop.1 hop.2⟩
    exact he r response d (Choice.receive_eq_ok.mp hresponse).1
  | credential =>
    cases hx
    exact ⟨hw.1, hw⟩
  | assign c =>
    cases hx
    exact ⟨trivial, hop, hw.2⟩
  | file step =>
    have hsame : w'.issued = w.issued ∧ w'.log = w.log := by
      obtain rfl : (w.store e step).2 = w' := congrArg Prod.snd (Option.some.inj hx)
      cases step <;> unfold World.store <;> cases e.file _ <;> exact ⟨rfl, rfl⟩
    exact ⟨trivial, hsame.1 ▸ hw.1, hsame.2 ▸ hw.2⟩
  | lock | rLock =>
    simp only [handle, Option.ite_none_left_eq_some] at hx
    obtain ⟨-, rfl⟩ := Prod.mk.inj (Option.some.inj hx.2)
    exact ⟨trivial, hw⟩
  | now | nonce | wait | bootstrap | consumeBootstrap | unlock | rUnlock | decode | errand
      | ready =>
    cases hx
    exact ⟨trivial, hw⟩

/-- A registered node keeps what its requests keep, in every interleaving of its goroutines. -/
theorem own_operate
    (hK : ∀ log x, K log → x.request.scheme = .node → P x.request.credential → K (x :: log))
    {w : World} (hw : P w.issued.credential ∧ K w.log)
    {announcing : List Choice} {steps : List (Nat × Choice)}
    (hannouncing : ∀ e ∈ announcing, e.Issues P) (hsteps : ∀ s ∈ steps, s.2.Issues P) :
    K (Daemon.operate nodeID rounds w announcing steps).log := by
  have hrun := wp_run hannouncing (own_announce.wp (own_call hK) hw [])
    (p := Daemon.announce nodeID rounds)
  unfold Daemon.operate
  split
  next w' _ hok =>
    rw [hok] at hrun
    refine (Pool.guarded_steps (own_call hK) (hrun.1 _ rfl) (fun t ht q hq => ?_) hsteps).2
    simp only [loops, List.mem_map] at ht
    obtain ⟨l, -, rfl⟩ := ht
    exact Option.some.inj hq ▸ own_loop l
  next r w' _ _ hcut =>
    rw [hcut] at hrun
    cases r with
    | none => exact (hrun.2 rfl).2
    | some a => exact (hrun.1 a rfl).2

end Own

/-! ## Registration -/

/-- The document issues a credential the client takes: it is about this node, the credential is one
of this node and is not the bootstrap credential `b`, and it is valid until `deadline` or later. -/
structure Client.Issue.Usable (nodeID b : Bytes) (deadline : Int) (d : Client.Issue) : Prop where
  node : d.nodeID = nodeID
  valid : Client.validateCredential nodeID d.issued.credential = true
  other : d.issued.credential ≠ b
  expiry : ∃ t, parseTime d.issued.expiresAt = some t ∧ deadline ≤ t

/-- Under this choice no registration is rejected, and one that is accepted is answered in full with
a credential the client can use before `deadline` and store. A failing write or `Chmod` does no
harm. -/
structure Choice.Enrolls (nodeID b : Bytes) (deadline : Int) (e : Choice) : Prop where
  clock : e.now < deadline
  mkdirAll : e.file .mkdirAll = none
  create : e.file .create = none
  close : e.file .close = none
  rename : e.file .rename = none
  answers : ∀ request r, request.scheme = .bootstrap → e.serve request = some r →
    ¬ r.rejects ∧ (r.accepts → e.fault = none ∧
      r.body.length ≤ Client.maxControlPlaneResponseBytes ∧
      ∃ d, Client.decodeIssue r.body = some d ∧ d.Usable nodeID b deadline)

def Unsettled (log : List Exchange) : Prop := ∀ x ∈ log, ¬ x.settles

/-- Where only the newest exchange may be settled, nothing follows a settled one. -/
theorem spent_of_tail {b : Bytes} {log : List Exchange} (h : Unsettled log.tail) : Spent b log := by
  cases log with
  | nil => exact List.Pairwise.nil
  | cons x rest =>
    refine List.Pairwise.cons (fun y hy hsettled => absurd hsettled (h y hy)) ?_
    exact List.pairwise_of_forall_mem_list fun _ _ y hy hsettled => absurd hsettled (h y hy)

section Registration

variable {id : Identity} {b : Bytes} {deadline : Int}

/-- Under choices that enroll, with only the newest exchange settled wherever a run is cut. -/
abbrev WpEnroll (id : Identity) (b : Bytes) (deadline : Int) (p : M α)
    (Q : α → World → Trace Op Ans → Prop) : World → Trace Op Ans → Prop :=
  wp handle (Choice.Enrolls id.nodeID b deadline) (fun w _ => Unsettled w.log.tail) p Q

variable {w : World} {t : Trace Op Ans}

/-- A step on the files: it changes files only, and succeeds unless the outside makes it fail. -/
theorem wpEnroll_file {step : FileStep} {f : Except String Unit → M α}
    {Q : α → World → Trace Op Ans → Prop}
    (hw : Unsettled w.log.tail)
    (hf : ∀ e : Choice, e.Enrolls id.nodeID b deadline → ∀ x w' t', w'.log = w.log →
      (e.file step = none → x = .ok ()) → WpEnroll id b deadline (f x) Q w' t') :
    WpEnroll id b deadline ((ask (.file step)).bind f) Q w t := by
  refine ⟨hw, fun e he x w' hx => hf e he x w' _ ?_ ?_⟩
  all_goals
    obtain ⟨rfl, rfl⟩ : (w.store e step).1 = x ∧ (w.store e step).2 = w' :=
      Prod.mk.inj (Option.some.inj hx)
  · cases step <;> unfold World.store <;> cases e.file _ <;> rfl
  · intro hnone
    cases step <;> simp only [World.store, hnone]

theorem wpEnroll_commit {c : Credential} (hw : Unsettled w.log.tail) :
    WpEnroll id b deadline (Client.commit c)
      (fun r w' _ => r = .ok () ∧ w'.issued = c ∧ w'.log = w.log) w t := by
  refine wpEnroll_file hw fun e he x w₁ _ hlog₁ hx => ?_
  obtain rfl := hx he.close
  have hw₁ : Unsettled w₁.log.tail := hlog₁ ▸ hw
  refine wpEnroll_file hw₁ fun e he x w₂ _ hlog₂ hx => ?_
  obtain rfl := hx he.rename
  have hw₂ : Unsettled w₂.log.tail := hlog₂ ▸ hw₁
  refine ⟨hw₂, fun e _ x w₃ hassign => ?_⟩
  cases hassign
  exact ⟨rfl, rfl, hlog₂.trans hlog₁⟩

theorem wpEnroll_persist {c : Credential} (hw : Unsettled w.log.tail) :
    WpEnroll id b deadline (Client.persist c)
      (fun r w' _ => r = .ok () ∧ w'.issued = c ∧ w'.log = w.log) w t := by
  refine wpEnroll_file hw fun e he x w₁ _ hlog₁ hx => ?_
  obtain rfl := hx he.mkdirAll
  rw [← hlog₁] at hw ⊢
  refine wpEnroll_file hw fun e he x w₂ _ hlog₂ hx => ?_
  obtain rfl := hx he.create
  rw [← hlog₂] at hw ⊢
  refine wpEnroll_file hw fun e he written w₃ t₃ hlog₃ _ => ?_
  rw [← hlog₃] at hw ⊢
  -- The file is put in place whatever became of the write and the `Chmod`.
  cases written with
  | error err => exact wpEnroll_commit hw
  | ok =>
    refine wpEnroll_file hw fun e _ _ w₄ t₄ hlog₄ _ => ?_
    rw [← hlog₄] at hw ⊢
    exact wpEnroll_commit hw

theorem wpEnroll_setCredential {d : Client.Issue} (hd : d.Usable id.nodeID b deadline)
    (hw : Unsettled w.log.tail) : WpEnroll id b deadline (Client.setCredential id.nodeID d.issued)
      (fun r w' _ => r = .ok () ∧ w'.issued = d.issued ∧ w'.log = w.log) w t := by
  obtain ⟨expiry, hparse, hlater⟩ := hd.expiry
  unfold Client.setCredential
  rw [if_neg (not_not_intro hd.valid), hparse]
  refine ⟨hw, fun e he now w₁ hnow => ?_⟩
  cases hnow
  have hfuture : ¬ expiry ≤ e.now := by
    have := he.clock
    omega
  simp only [ret_bind, if_neg hfuture]
  exact wpEnroll_persist hw

theorem wpEnroll_enroll {text : Bytes} {d : Client.Issue} (htext : Client.decodeIssue text = some d)
    (hd : d.Usable id.nodeID b deadline)
    (hw : Unsettled w.log.tail) :
    WpEnroll id b deadline (Client.enroll id text)
      (fun r w' _ => r = .ok () ∧ w'.issued.credential ≠ b ∧ w'.log = w.log) w t := by
  unfold Client.enroll
  rw [htext]
  simp only [hd.node, ne_eq, not_true_eq_false, if_false]
  refine wp_bind.mpr (wp_mono ?_ (wpEnroll_setCredential hd hw))
  rintro _ w₁ t₁ ⟨rfl, hissued, hlog⟩
  have hw₁ : Unsettled w₁.log.tail := hlog ▸ hw
  refine ⟨hw₁, fun e _ x w₂ hconsume => ?_⟩
  obtain ⟨-, rfl⟩ := Prod.mk.inj (Option.some.inj hconsume)
  exact ⟨rfl, hissued ▸ hd.other, hlog⟩

def Attempted (b : Bytes) : Outcome Unit → World → Prop
  | .ok (), w => Unsettled w.log.tail ∧ w.issued.credential ≠ b
  | .error _, w => Unsettled w.log

theorem unsettled_tail {log : List Exchange} (h : Unsettled log) : Unsettled log.tail :=
  fun x hx => h x (List.mem_of_mem_tail hx)

theorem wpEnroll_register (hw : Unsettled w.log) :
    WpEnroll id b deadline (Client.register id) (fun r w' _ => Attempted b r w') w t := by
  have htail : Unsettled w.log.tail := unsettled_tail hw
  refine ⟨htail, fun e _ bootstrap w₁ hbootstrap => ?_⟩
  obtain ⟨-, rfl⟩ := Prod.mk.inj (Option.some.inj hbootstrap)
  simp only [ret_bind]
  by_cases hnone : bootstrap = []
  · rw [if_pos hnone]
    exact hw
  rw [if_neg hnone]
  by_cases hinstance : id.instanceID = []
  · rw [if_pos hinstance]
    exact hw
  rw [if_neg hinstance]
  refine ⟨htail, fun e _ now w₂ hnow => ?_⟩
  cases hnow
  refine ⟨htail, fun e _ nonce w₃ hnonce => ?_⟩
  obtain ⟨-, rfl⟩ := Prod.mk.inj (Option.some.inj hnonce)
  cases nonce with
  | error err => exact hw
  | ok nonce =>
    refine ⟨htail, fun e he response w₄ hsend => ?_⟩
    cases hsend
    simp only [ret_bind]
    generalize hrequest : Request.mk .. = request
    have hscheme : request.scheme = .bootstrap := hrequest ▸ rfl
    cases hr : Client.receive (e.receive request) with
    | error err =>
      -- An accepted registration would have been received, a rejected one does not occur.
      intro x hx
      rcases List.mem_cons.mp hx with rfl | hx
      · rintro ⟨-, r, hserve, hsettled⟩
        obtain ⟨hrejects, haccepted⟩ := he.answers request r hscheme hserve
        have haccepts := hsettled.resolve_right hrejects
        obtain ⟨hfault, hsmall, -⟩ := haccepted haccepts
        have hok := Client.receive_eq_ok.mpr
          ⟨r, Choice.receive_eq_ok.mpr ⟨hserve, hfault⟩, haccepts, rfl, hsmall⟩
        exact nomatch hr.symm.trans hok
      · exact hw x hx
    | ok text =>
      obtain ⟨r, hreceive, haccepts, rfl, -⟩ := Client.receive_eq_ok.mp hr
      have hserve := (Choice.receive_eq_ok.mp hreceive).1
      obtain ⟨-, -, d, hdecode, hd⟩ := (he.answers request r hscheme hserve).2 haccepts
      refine wp_mono ?_ (wpEnroll_enroll hdecode hd (w := { w with log := _ :: w.log }) hw)
      rintro _ w' _ ⟨rfl, hother, hlog⟩
      exact ⟨hlog ▸ hw, hother⟩

theorem wpEnroll_retry {rounds : Nat} (hw : Unsettled w.log) :
    WpEnroll id b deadline (retry rounds (Client.register id))
      (fun r w' _ => Attempted b r w') w t := by
  refine wp_iterate (fun (w : World) _ => Unsettled w.log)
    (fun _ _ h => unsettled_tail h) ?_ rounds hw
  intro w t hw
  refine wp_bind.mpr (wp_mono (fun r w' t' hr => ?_) (wpEnroll_register hw))
  cases r with
  | ok => exact hr
  | error err =>
    refine ⟨unsettled_tail hr, fun e _ done w'' hwait => ?_⟩
    obtain ⟨-, rfl⟩ := Prod.mk.inj (Option.some.inj hwait)
    cases done with
    | true => exact hr
    | false => exact hr

end Registration

/-! ## Runs -/

section Runs

variable {id : Identity} {rounds : Nat} {b : Bytes} {issued : Credential} {file : Option Bytes}
  {registering announcing : List Choice} {steps : List (Nat × Choice)}

def NodeOnly (log : List Exchange) : Prop := ∀ x ∈ log, x.request.scheme = .node

theorem nodeOnly_cons (log : List Exchange) (x : Exchange) (hlog : NodeOnly log)
    (hx : x.request.scheme = .node) : NodeOnly (x :: log) := by
  intro y hy
  rcases List.mem_cons.mp hy with rfl | hy
  · exact hx
  · exact hlog y hy

theorem issues_any (e : Choice) : e.Issues fun _ => True := fun _ _ _ _ _ _ => trivial

theorem nodeOnly_of_credential (hissued : issued.credential ≠ []) :
    NodeOnly (Daemon.run id rounds (World.start b issued file) registering announcing
      steps).log := by
  have hcall := own_call (P := fun _ => True) (K := NodeOnly) fun log x hlog hx _ =>
    nodeOnly_cons log x hlog hx
  have hstart : True ∧ NodeOnly (World.start b issued file).log :=
    ⟨trivial, fun y hy => absurd hy List.not_mem_nil⟩
  have hregister : wp handle (Choice.Issues fun _ => True) (fun w _ => True ∧ NodeOnly w.log)
      (Daemon.register id rounds) (fun _ w _ => True ∧ NodeOnly w.log)
      (World.start b issued file) [] := by
    refine ⟨hstart, fun e _ x w hx => ?_⟩
    cases hx
    have hbranch : (World.start b issued file).issued.credential ≠ [] := hissued
    simp only [ret_bind, if_pos hbranch]
    refine Guarded.wp hcall (Guarded.bind own_credentialNeedsRotation fun needed => ?_) hstart _
    split
    · exact own_retry own_rotateCredential
    · trivial
  have hany : ∀ e ∈ registering, e.Issues fun _ => True := fun e _ => issues_any e
  have hrun := wp_run hany hregister
  unfold Daemon.run
  split
  next w _ hok =>
    rw [hok] at hrun
    exact own_operate (fun log x hlog hx _ => nodeOnly_cons log x hlog hx) (hrun.1 _ rfl)
      (fun e _ => issues_any e) fun s _ => issues_any s.2
  next r w _ _ hcut =>
    rw [hcut] at hrun
    cases r with
    | none => exact (hrun.2 rfl).2
    | some a => exact (hrun.1 a rfl).2

/-- A node without a credential, where every accepted registration enrolls it. -/
theorem spent_of_enrolls (hissued : issued.credential = []) {deadline : Int}
    (hregistering : ∀ e ∈ registering, e.Enrolls id.nodeID b deadline)
    (hannouncing : ∀ e ∈ announcing, e.Issues (· ≠ b)) (hsteps : ∀ s ∈ steps, s.2.Issues (· ≠ b)) :
    Spent b (Daemon.run id rounds (World.start b issued file) registering announcing
      steps).log := by
  have hstart : Unsettled (World.start b issued file).log := fun x hx => absurd hx List.not_mem_nil
  have hregister : WpEnroll id b deadline (Daemon.register id rounds)
      (fun r w _ => Attempted b r w) (World.start b issued file) [] := by
    refine ⟨unsettled_tail hstart, fun e _ x w hx => ?_⟩
    cases hx
    have hbranch : ¬ (World.start b issued file).issued.credential ≠ [] := not_not_intro hissued
    simp only [ret_bind, if_neg hbranch]
    exact wpEnroll_retry hstart
  have hrun := wp_run hregistering hregister
  unfold Daemon.run
  split
  next w _ hok =>
    rw [hok] at hrun
    obtain ⟨hlog, hother⟩ := hrun.1 _ rfl
    refine own_operate (fun log x hlog _ hx => ?_) ⟨hother, spent_of_tail hlog⟩ hannouncing hsteps
    exact List.Pairwise.cons (fun _ _ _ => hx) hlog
  next r w _ hnot hcut =>
    rw [hcut] at hrun
    match r with
    | none => exact spent_of_tail (hrun.2 rfl)
    | some (.ok ()) => exact (hnot rfl).elim
    | some (.error err) => exact spent_of_tail (unsettled_tail (hrun.1 _ rfl))

/-- After a registration was accepted or rejected, no request carries the bootstrap credential,
provided the node starts with a credential of its own, or no registration is rejected and every
accepted one is answered with another credential, which the node can use and store. -/
theorem bootstrap_unused_after_settled (id : Identity) (rounds : Nat) (b : Bytes)
    (issued : Credential) (file : Option Bytes) (registering announcing : List Choice)
    (steps : List (Nat × Choice)) (deadline : Int)
    (h : issued.credential = [] → (∀ e ∈ registering, e.Enrolls id.nodeID b deadline) ∧
      (∀ e ∈ announcing, e.Issues (· ≠ b)) ∧ ∀ s ∈ steps, s.2.Issues (· ≠ b)) :
    Spent b (Daemon.run id rounds (World.start b issued file) registering announcing
      steps).log := by
  by_cases hissued : issued.credential = []
  · obtain ⟨hregistering, hannouncing, hsteps⟩ := h hissued
    exact spent_of_enrolls hissued hregistering hannouncing hsteps
  · refine List.pairwise_of_forall_mem_list fun _ _ y hy hsettled => ?_
    have hnode := nodeOnly_of_credential hissued y hy
    exact absurd (hsettled.1.symm.trans hnode) nofun

end Runs

/-! ## A node on its own -/

def sampleNode : Identity where
  nodeID := lit "node-1"
  instanceID := lit "i-1"
  region := lit "eu"

def sampleIssue : Bytes :=
  renderObject [(lit "nodeId", quote (lit "node-1")), (lit "credential", quote (lit "node-1.key")),
    (lit "expiresAt", quote (lit "2026-01-01T00:00:00Z"))]

/-- A choice under which a registration is accepted and everything works. -/
def sampleChoice : Choice where
  serve := fun _ => some ⟨200, sampleIssue⟩
  errand := some ⟨.heartbeat, some []⟩

theorem decodeIssue_sample : Client.decodeIssue sampleIssue =
    some ⟨lit "node-1", lit "node-1.key", lit "2026-01-01T00:00:00Z"⟩ := by
  decide +kernel

theorem sampleChoice_enrolls : sampleChoice.Enrolls (lit "node-1") (lit "token") 1 where
  clock := by decide
  mkdirAll := rfl
  create := rfl
  close := rfl
  rename := rfl
  answers := by
    rintro request r - hserve
    cases hserve
    refine ⟨by decide, fun _ => ⟨rfl, by decide +kernel, _, decodeIssue_sample, ?_⟩⟩
    exact ⟨rfl, by decide +kernel, by decide, 1767225600000000000, by decide +kernel, by decide⟩

theorem sampleChoice_issues : sampleChoice.Issues (· ≠ lit "token") := by
  intro request r d hserve _ hdecode
  cases hserve
  obtain rfl := Option.some.inj (decodeIssue_sample.symm.trans hdecode)
  decide

/-- A node registers, sends its heartbeat and asks for a command: the first of its three requests
settles the registration. -/
theorem bootstrap_unused_after_enrollment :
    let w := Daemon.run sampleNode 1 (World.start (lit "token") {} none)
      (List.replicate 14 sampleChoice) (List.replicate 9 sampleChoice)
      (List.replicate 5 (0, sampleChoice))
    (w.log.map (·.request.scheme) = [.node, .node, .bootstrap]) ∧ Spent (lit "token") w.log :=
  ⟨by decide +kernel,
    bootstrap_unused_after_settled sampleNode 1 (lit "token") {} none _ _ _ 1 fun _ =>
      ⟨fun _ he => (List.eq_of_mem_replicate he) ▸ sampleChoice_enrolls,
        fun _ he => (List.eq_of_mem_replicate he) ▸ sampleChoice_issues,
        fun _ hs => (List.eq_of_mem_replicate hs) ▸ sampleChoice_issues⟩⟩

/-- A registration that is rejected is made again, and so is one whose credential cannot be
stored. -/
theorem settled_bootstrap_resent :
    ¬ Spent (lit "token") (Daemon.run sampleNode 2 (World.start (lit "token") {} none)
      (List.replicate 10 { serve := fun _ => some ⟨401, []⟩ }) [] []).log ∧
    ¬ Spent (lit "token") (Daemon.run sampleNode 2 (World.start (lit "token") {} none)
      (List.replicate 18 { sampleChoice with
        file := fun step => if step = .rename then some "disk full" else none }) [] []).log := by
  constructor
  · decide +kernel
  · decide +kernel

end SharedNode.Enrollment
