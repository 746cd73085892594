import SharedNode.Effect.Faults
import SharedNode.Compiler.Redelivery

/-!
# The job queue when file calls fail

The worker of `compiler/src/http-worker.mjs` on the queue, where writing or renaming a record,
removing one and syncing a directory may each fail. A call that fails that way throws;
`processQueued` answers the error of its `finish` with a second `finish` that asks for a retry,
whose own errors it drops.

A `finish` that ends a job renames the record into `archive`, syncs that directory and then removes
the record from `pending`. If the sync or the removal fails, the record is in both directories, and
the second `finish` makes a retryable job of the one that is archived.
-/

namespace SharedNode.Compiler.JobQueue

open Effect Text Prog

/-! ## Faults -/

/-- What the history of a queue tells of its archive. -/
inductive Deed where
  /-- A `claim` returned the job. -/
  | claimed (job : Job)
  /-- A record was renamed into `archive`. -/
  | archived (name : String)
  deriving DecidableEq

def Deed.name (q : Queue) : Deed → String
  | .claimed job => q.queueKey job.id
  | .archived name => name

/-- The files with their history, newest first. -/
structure Disk where
  files : Files := {}
  history : List Deed := []

/-- What an effect adds to the history. -/
def Op.deeds : Op → List Deed
  | .write .archive name _ => [.archived name]
  | _ => []

namespace Disk

/-- The meaning of an effect that does not fail. -/
def handle : Handler Op Ans Int Disk := fun op time d =>
  (JobQueue.handle op time d.files).map fun r => (r.1, ⟨r.2, op.deeds ++ d.history⟩)

end Disk

/-- One choice of the outside: the time, and the effects that fail. -/
structure Choice where
  time : Int
  /-- Writing the temporary file of a record, or renaming it. -/
  write : Dir → Option String := fun _ => none
  remove : Dir → Option String := fun _ => none
  sync : Dir → Option String := fun _ => none

def Choice.fault : Op → Choice → Option String
  | .write d _ _, e => e.write d
  | .remove d _, e => e.remove d
  | .sync d, e => e.sync d
  | .now, _ | .list _, _ | .read .., _ => none

/-- The meaning of an effect that may fail. -/
abbrev handleFaults : Handler Op (fun op => Except String (Ans op)) Choice Disk :=
  faulty Disk.handle Choice.time Choice.fault

/-! ## The worker -/

/-- Where `processQueued` is with a job: before its `finish`, or after one that threw. -/
inductive Phase where
  | compiling
  | recovering
  deriving DecidableEq

/-- A worker: the queue, whether it was started since the last crash, and the jobs it processes. -/
structure HttpWorker where
  disk : Disk := {}
  up : Bool := false
  busy : List (String × Phase) := []

inductive Act where
  | start
  | enqueue (input : Input)
  | claim
  /-- `finish` of the job at this place, with the outcome of its run. -/
  | finish (i : Nat) (outcome : Outcome)
  /-- The second `finish` of the job at this place. -/
  | recover (i : Nat)
  deriving DecidableEq

/-- An act with the choices for its effects; one that has fewer of them is cut by a crash. -/
structure Turn where
  act : Act
  choices : List Choice

namespace HttpWorker

def call (w : HttpWorker) : Act → Option Call
  | .start => if w.up then none else some .initializeQueue
  | .enqueue input => if w.up then some (.enqueue input) else none
  | .claim => if w.up then some .claim else none
  | .finish i outcome =>
    match w.up, w.busy[i]? with
    | true, some (id, .compiling) => some (.finish id outcome)
    | _, _ => none
  | .recover i =>
    match w.up, w.busy[i]? with
    | true, some (id, .recovering) => some (.finish id .retry)
    | _, _ => none

def returned (w : HttpWorker) (disk : Disk) (reply : Except String Reply) : Act → HttpWorker
  | .start => ⟨disk, reply.isOk, []⟩
  | .enqueue _ => { w with disk }
  | .claim =>
    match reply with
    | .ok (.claimed (some job)) =>
      { w with disk := { disk with history := .claimed job :: disk.history }
               busy := (job.id, .compiling) :: w.busy }
    | _ => { w with disk }
  | .finish i _ =>
    if reply.isOk then { w with disk, busy := w.busy.eraseIdx i }
    else { w with disk, busy := w.busy.modify i fun job => (job.1, .recovering) }
  | .recover i => { w with disk, busy := w.busy.eraseIdx i }

def step (q : Queue) (w : HttpWorker) (turn : Turn) : HttpWorker :=
  match w.call turn.act with
  | none => w
  | some call =>
    match Effect.run handleFaults (failing (call.program q)).run turn.choices w.disk [] with
    | (some reply, disk, _) => w.returned disk reply turn.act
    | (none, disk, _) => ⟨disk, false, []⟩

def run (q : Queue) (turns : List Turn) : HttpWorker := turns.foldl (step q) {}

end HttpWorker

/-- A name that was archived is neither archived again nor claimed. -/
def Kept (q : Queue) (history : List Deed) : Prop :=
  Always (fun deed before => .archived (deed.name q) ∉ before) history

/-- The `finish` that ends a job does not fail to sync the archive or to remove the record. -/
def Turn.Clean (turn : Turn) : Prop :=
  ∀ i, turn.act = .finish i .terminal →
    ∀ e ∈ turn.choices, e.sync .archive = none ∧ e.remove .pending = none

/-! ## Programs under faults -/

/-- Under choices in `E` the program returns as `Q` says, throws in `F`, and is cut in `C`. -/
def Survives {α : Type} (E : Choice → Prop) (C F : Disk → Prop) (p : M α) (Q : α → Disk → Prop)
    (d : Disk) : Prop :=
  Ends handleFaults E C (failing p)
    (fun r d' => match r with | .ok a => Q a d' | .error _ => F d') d

section Survives

variable {α β : Type} {E : Choice → Prop} {C F : Disk → Prop} {d : Disk}

variable {Q : α → Disk → Prop} {dir : Dir} {name : String}

theorem survives_pure {a : α} (hQ : Q a d) : Survives E C F (pure a) Q d := fun _ => hQ

theorem survives_throw {err : String} (hF : F d) : Survives E C F (throw err) Q d := fun _ => hF

theorem survives_bind {p : M α} {f : α → M β} {Q : β → Disk → Prop}
    (hp : Survives E C F p (fun a d => Survives E C F (f a) Q d) d) :
    Survives E C F (p >>= f) Q d := by
  refine ends_failing_bind (ends_mono (fun r d' hr => ?_) hp)
  cases r <;> exact hr

theorem survives_act {op : Op} {Q : Ans op → Disk → Prop} (hC : C d)
    (hF : ∀ e err, E e → Choice.fault op e = some err → F d)
    (hQ : ∀ time x f', handle op time d.files = some (x, f') → Q x ⟨f', op.deeds ++ d.history⟩) :
    Survives E C F (act op) Q d := by
  refine ends_failing_effect hC hF fun e x d' _ hx => ?_
  obtain ⟨r, hr, heq⟩ := Option.map_eq_some_iff.mp hx
  obtain ⟨rfl, rfl⟩ := Prod.mk.inj heq
  exact hQ e.time r.1 r.2 hr

theorem survives_imp {F' : Disk → Prop} {p : M α} {R : α → Disk → Prop}
    (hF : ∀ d, F d → F' d) (hQR : ∀ a d, Q a d → R a d) (hp : Survives E C F p Q d) :
    Survives E C F' p R d :=
  ends_mono (fun r d hr => by
    cases r with
    | ok a => exact hQR a d hr
    | error err => exact hF d hr) hp

theorem survives_now {Q : Int → Disk → Prop} (hC : C d) (hQ : ∀ now, Q now d) :
    Survives E C F (act .now) Q d :=
  survives_act hC (fun _ _ _ h => nomatch h) fun time x f' hx => by
    obtain ⟨-, rfl⟩ := Prod.mk.inj (Option.some.inj hx)
    exact hQ x

theorem survives_list {Q : List String → Disk → Prop} (hC : C d)
    (hQ : Q ((d.files.dir dir).keys.insertionSort (· ≤ ·)) d) :
    Survives E C F (act (.list dir)) Q d :=
  survives_act hC (fun _ _ _ h => nomatch h) fun time x f' hx => by
    cases hx
    exact hQ

theorem survives_readIfPresent {q : Queue} {Q : Option Record → Disk → Prop} (hC : C d) (hF : F d)
    (hnone : (d.files.dir dir).lookup name = none → Q none d)
    (hsome : ∀ r, (d.files.dir dir).lookup name = some r → Q (some r) d) :
    Survives E C F (q.readRecordIfPresent dir name) Q d := by
  refine survives_bind (survives_act hC (fun _ _ _ h => nomatch h) fun time x f' hx => ?_)
  obtain ⟨hl, rfl⟩ := Prod.mk.inj (Option.some.inj hx)
  cases x with
  | none => exact survives_pure (hnone hl)
  | some r =>
    show Survives E C F (if q.valid r then pure (some r) else throw _) Q d
    split
    · exact survives_pure (hsome r hl)
    · exact survives_throw hF

theorem survives_read {q : Queue} {Q : Record → Disk → Prop}
    (hC : C d) (hF : F d) (hsome : ∀ r, (d.files.dir dir).lookup name = some r → Q r d) :
    Survives E C F (q.readRecord dir name) Q d :=
  survives_bind (survives_readIfPresent hC hF (fun _ => survives_throw hF)
    fun r hr => survives_pure (hsome r hr))

theorem survives_assert {r other : Identity} {Q : Unit → Disk → Prop} (hF : F d)
    (hQ : r = other → Q () d) : Survives E C F (assertSameIdentity r other) Q d := by
  unfold assertSameIdentity
  split
  next h => exact survives_pure (hQ h)
  · exact survives_throw hF

theorem survives_atomicWrite {r : Record} {Q : Unit → Disk → Prop} (hC : C d) (hF : F d)
    (hC' : C ⟨d.files.write dir name r, (Op.write dir name r).deeds ++ d.history⟩)
    (hF' : ∀ e err, E e → e.sync dir = some err →
      F ⟨d.files.write dir name r, (Op.write dir name r).deeds ++ d.history⟩)
    (hQ : Q () ⟨d.files.write dir name r, (Op.write dir name r).deeds ++ d.history⟩) :
    Survives E C F (atomicWrite dir name r) Q d := by
  refine survives_bind (survives_act hC (fun _ _ _ _ => hF) fun time x f' hx => ?_)
  cases hx
  refine survives_act hC' hF' fun time x f' hx => ?_
  cases hx
  exact hQ

theorem survives_durableRemove {Q : Unit → Disk → Prop} (hC : C d)
    (hF : ∀ e err, E e → e.remove dir = some err → F d)
    (hC' : C ⟨d.files.remove dir name, d.history⟩) (hF' : F ⟨d.files.remove dir name, d.history⟩)
    (hQ : Q () ⟨d.files.remove dir name, d.history⟩) :
    Survives E C F (durableRemove dir name) Q d := by
  refine survives_bind (survives_act hC hF fun time x f' hx => ?_)
  cases hx
  refine survives_act hC' (fun _ _ _ _ => hF') fun time x f' hx => ?_
  cases hx
  exact hQ

end Survives

/-! ## The invariant -/

/-- What every effect keeps: a pending record has the name of its job, what the history says was
archived is there, and the history is as it should be. -/
structure Sound (q : Queue) (d : Disk) : Prop where
  named : ∀ n r, d.files.pending.lookup n = some r → q.queueKey r.id = n
  logged : ∀ n, .archived n ∈ d.history → d.files.archive.lookup n ≠ none
  kept : Kept q d.history

namespace Sound

variable {q : Queue} {f : Files} {history : List Deed} {name : String} {r : Record}

theorem writePending (h : Sound q ⟨f, history⟩) (hname : q.queueKey r.id = name) :
    Sound q ⟨f.write .pending name r, history⟩ where
  named n r' hr' := by
    by_cases hn : n = name
    · subst hn
      obtain rfl : r = r' := by simpa using hr'
      exact hname
    · exact h.named n r' (by simpa [hn] using hr')
  logged := h.logged
  kept := h.kept

theorem writeArchive (h : Sound q ⟨f, history⟩) (hnone : f.archive.lookup name = none) :
    Sound q ⟨f.write .archive name r, .archived name :: history⟩ where
  named := h.named
  logged n hn := by
    by_cases heq : n = name
    · simp [heq]
    · have hold : .archived n ∈ history := by simpa [heq] using hn
      simpa [heq] using h.logged n hold
  kept := ⟨fun hmem => h.logged name hmem hnone, h.kept⟩

theorem removePending (h : Sound q ⟨f, history⟩) : Sound q ⟨f.remove .pending name, history⟩ where
  named n r' hr' := by
    by_cases hn : n = name
    · simp [hn] at hr'
    · exact h.named n r' (by simpa [hn] using hr')
  logged := h.logged
  kept := h.kept

end Sound

/-- No name is in both directories. -/
def Disk.Settled (d : Disk) : Prop := ∀ n, d.files.Settled n

namespace Disk.Settled

variable {f : Files} {history history' : List Deed} {name : String} {r : Record}

theorem writePending (h : Disk.Settled ⟨f, history⟩) (hnone : f.archive.lookup name = none) :
    Disk.Settled ⟨f.write .pending name r, history'⟩ := by
  intro n
  by_cases hn : n = name
  · exact Or.inr (hn ▸ hnone)
  · simpa [Files.Settled, hn] using h n

theorem archived (h : Disk.Settled ⟨f, history⟩) :
    Disk.Settled ⟨(f.write .archive name r).remove .pending name, history'⟩ := by
  intro n
  by_cases hn : n = name
  · exact Or.inl (by simp [hn])
  · simpa [Files.Settled, hn] using h n

theorem archive_none (h : Disk.Settled ⟨f, history⟩) (hr : f.pending.lookup name = some r) :
    f.archive.lookup name = none :=
  (h name).resolve_left fun hnone => absurd (hnone.symm.trans hr) (by simp)

end Disk.Settled

structure Steady (q : Queue) (d : Disk) : Prop where
  sound : Sound q d
  settled : d.Settled

/-! ## The calls -/

section Calls

variable {q : Queue} {E : Choice → Prop} {d : Disk}

theorem steady_writePending {f : Files} {history : List Deed} {name : String} {r : Record}
    (h : Steady q ⟨f, history⟩) (hnone : f.archive.lookup name = none)
    (hname : q.queueKey r.id = name) : Steady q ⟨f.write .pending name r, history⟩ :=
  ⟨h.sound.writePending hname, h.settled.writePending hnone⟩

theorem survives_writePending {name : String} {r : Record} (h : Steady q d)
    (hnone : d.files.archive.lookup name = none) (hname : q.queueKey r.id = name) :
    Survives E (Sound q) (Steady q) (atomicWrite .pending name r) (fun _ d' => Steady q d') d :=
  have h' := steady_writePending h hnone hname
  survives_atomicWrite h.sound h h'.sound (fun _ _ _ _ => h') h'

theorem survives_enqueue (input : Input) (h : Steady q d) :
    Survives E (Sound q) (Steady q) (q.enqueue input) (fun _ d' => Steady q d') d := by
  unfold Queue.enqueue
  split
  · exact survives_throw h
  refine survives_bind (survives_readIfPresent h.sound h (fun harchive => ?_) fun a ha => ?_)
  · have hwrite : ∀ r (b : Bool), q.queueKey r.id = q.queueKey input.id →
        Survives E (Sound q) (Steady q)
          (do atomicWrite .pending (q.queueKey input.id) r; pure b) (fun _ d' => Steady q d') d :=
      fun r b hr => survives_bind (survives_imp (fun _ h => h) (fun _ _ h' => survives_pure h')
        (survives_writePending h harchive hr))
    refine survives_bind (survives_readIfPresent h.sound h (fun hnone => ?_) fun r hr => ?_)
    · exact survives_bind (survives_now h.sound fun now => hwrite _ _ rfl)
    · have hname := h.sound.named _ r hr
      refine survives_bind (survives_assert h fun hid => ?_)
      split
      · exact hwrite _ _ hname
      · exact survives_bind (survives_now h.sound fun now => hwrite _ _ hname)
  · exact survives_bind (survives_assert h fun _ => survives_pure h)

theorem survives_claimLoop (now : Int) (names : List String) (h : Steady q d) :
    Survives E (Sound q) (Steady q) (q.claimLoop now names) (fun job d' => Steady q d' ∧
        ∀ j, job = some j → d'.files.archive.lookup (q.queueKey j.id) = none) d := by
  induction names with
  | nil => exact survives_pure ⟨h, fun _ heq => nomatch heq⟩
  | cons name rest ih =>
    refine survives_bind (survives_read h.sound h fun r hr => ?_)
    have hname := h.sound.named _ r hr
    have hnone := h.settled.archive_none hr
    split
    · exact ih
    · have h' := steady_writePending h hnone (r := Queue.Record.claim r) hname
      refine survives_bind
        (survives_atomicWrite h.sound h h'.sound (fun _ _ _ _ => h') (survives_pure ⟨h', ?_⟩))
      intro j hj
      cases hj
      rw [hname]
      exact hnone

theorem survives_claim (h : Steady q d) : Survives E (Sound q) (Steady q) q.claim
      (fun job d' => Steady q d' ∧
        ∀ j, job = some j → d'.files.archive.lookup (q.queueKey j.id) = none) d :=
  survives_bind (survives_now h.sound fun now => survives_bind (survives_list h.sound
    (survives_claimLoop now _ h)))

/-- A `finish` that ends a job leaves its record in one directory, if it can sync the archive and
remove the record once it is archived. -/
theorem survives_finish (id : String) (outcome : Outcome) (h : Steady q d)
    (hE : outcome = .terminal → ∀ e, E e → e.sync .archive = none ∧ e.remove .pending = none) :
    Survives E (Sound q) (Steady q) (q.finish id outcome) (fun _ d' => Steady q d') d := by
  have hchecked : ∀ p : Record → M Unit,
      (∀ r, d.files.pending.lookup (q.queueKey id) = some r →
        Survives E (Sound q) (Steady q) (p r) (fun _ d' => Steady q d') d) →
      Survives E (Sound q) (Steady q)
        (do
          if id = "" then throw "invalid compiler queue outcome"
          let record ← q.readRecord .pending (q.queueKey id)
          if record.id ≠ id ∨ record.state ≠ .running then throw "compiler queue state conflict"
          p record)
        (fun _ d' => Steady q d') d := by
    intro p hp
    split
    · exact survives_throw h
    refine survives_bind (survives_read h.sound h fun r hr => ?_)
    split
    · exact survives_throw h
    · exact hp r hr
  cases outcome with
  | terminal =>
    refine hchecked _ fun r hr => ?_
    have hnone := h.settled.archive_none hr
    have harchived := h.sound.writeArchive hnone (r := { r with state := .terminal })
    have hremoved : Steady q ⟨_, _⟩ := ⟨harchived.removePending, h.settled.archived⟩
    refine survives_bind (survives_atomicWrite h.sound h harchived (fun e err he herr => ?_) ?_)
    · cases (hE rfl e he).1.symm.trans herr
    · refine survives_durableRemove harchived (fun e err he herr => ?_) hremoved.sound hremoved
        hremoved
      cases (hE rfl e he).2.symm.trans herr
  | retry =>
    refine hchecked _ fun r hr => ?_
    exact survives_bind (survives_now h.sound fun now => survives_writePending h
      (h.settled.archive_none hr) (h.sound.named _ r hr))

theorem survives_initializeFile (name : String) (h : Sound q d) :
    Survives E (Sound q) (Sound q) (q.initializeFile name) (fun _ d' => Sound q d' ∧
        ∀ n, (n ≠ name → d.files.Settled n) → d'.files.Settled n) d := by
  refine survives_bind (survives_read h h fun r hr => ?_)
  refine survives_bind (survives_readIfPresent h h (fun hnone => ?_) fun a ha => ?_)
  · dsimp only
    split
    next hst =>
      have h' := h.writePending (r := { r with state := .pending }) (h.named _ r hr)
      exact survives_atomicWrite h h h' (fun _ _ _ _ => h')
        ⟨h', fun n => (Tidied.reset hr hnone hst).settled⟩
    next hst =>
      refine survives_pure ⟨h, fun n hn => ?_⟩
      by_cases hname : n = name
      · exact Or.inr (hname ▸ hnone)
      · exact hn hname
  · refine survives_bind (survives_assert h fun hid => ?_)
    split
    · exact survives_throw h
    · have h' : Sound q ⟨d.files.remove .pending name, d.history⟩ := h.removePending
      exact survives_durableRemove h (fun _ _ _ _ => h) h' h'
        ⟨h', fun n => (Tidied.dropped hr ha hid).settled⟩

theorem survives_initializeFiles (names : List String) (h : Sound q d)
    (hs : ∀ n ∉ names, d.files.Settled n) :
    Survives E (Sound q) (Sound q) (q.initializeFiles names) (fun _ d' => Steady q d') d := by
  induction names generalizing d with
  | nil => exact survives_pure ⟨h, fun n => hs n List.not_mem_nil⟩
  | cons name rest ih =>
    refine survives_bind (survives_imp (fun _ h => h) (fun _ d' hd' => ?_)
      (survives_initializeFile name h))
    refine ih hd'.1 fun n hrest => hd'.2 n fun hname => hs n ?_
    simp only [List.mem_cons, not_or]
    exact ⟨hname, hrest⟩

theorem survives_initializeQueue (h : Sound q d) :
    Survives E (Sound q) (Sound q) q.initializeQueue (fun _ d' => Steady q d') d := by
  refine survives_bind (survives_list h (survives_initializeFiles _ h fun n hn => Or.inl ?_))
  rw [List.mem_insertionSort] at hn
  exact AList.lookup_eq_none.mpr hn

end Calls

/-! ## Every run -/

structure HttpWorker.Inv (q : Queue) (w : HttpWorker) : Prop where
  sound : Sound q w.disk
  settled : w.up = true → w.disk.Settled

variable {q : Queue} {w : HttpWorker}

theorem HttpWorker.Inv.steady (h : w.Inv q) (hup : w.up = true) :
    Steady q w.disk := ⟨h.sound, h.settled hup⟩

theorem Sound.claim {d : Disk} {job : Job} (h : Sound q d)
    (hnone : d.files.archive.lookup (q.queueKey job.id) = none) :
    Sound q { d with history := .claimed job :: d.history } where
  named := h.named
  logged n hn := h.logged n (by simpa using hn)
  kept := ⟨fun hmem => h.logged _ hmem hnone, h.kept⟩

theorem survives_run {α : Type} {E : Choice → Prop} {C F : Disk → Prop} {p : M α}
    {Q : α → Disk → Prop} {d : Disk} (hp : Survives E C F p Q d) {es : List Choice}
    (hes : ∀ e ∈ es, E e) :
    match Effect.run handleFaults (failing p).run es d [] with
    | (some (.ok a), d', _) => Q a d'
    | (some (.error _), d', _) => F d'
    | (none, d', _) => C d' := by
  have h := ends_run es (t := []) hes hp
  revert h
  generalize Effect.run handleFaults (failing p).run es d [] = result
  obtain ⟨reply, d', t⟩ := result
  intro h
  match reply with
  | none => exact h.2 rfl
  | some (.error err) => exact h.1 _ rfl
  | some (.ok a) => exact h.1 _ rfl

theorem survives_call {turn : Turn} {call : Call} (h : w.Inv q)
    (hclean : turn.Clean) (hcall : w.call turn.act = some call) :
    Survives (· ∈ turn.choices) (Sound q)
      (fun d' => ∀ err, (w.returned d' (.error err) turn.act).Inv q) (call.program q)
      (fun r d' => (w.returned d' (.ok r) turn.act).Inv q) w.disk := by
  obtain ⟨act, choices⟩ := turn
  cases act with
  | start =>
    simp only [HttpWorker.call, Option.ite_none_left_eq_some, Option.some.injEq] at hcall
    obtain ⟨-, rfl⟩ := hcall
    refine survives_bind (survives_imp (fun d' hd' err => ⟨hd', fun hup => nomatch hup⟩)
      (fun _ d' hd' => survives_pure ⟨hd'.sound, fun _ => hd'.settled⟩)
      (survives_initializeQueue h.sound))
  | enqueue input =>
    simp only [HttpWorker.call, Option.ite_none_right_eq_some, Option.some.injEq] at hcall
    obtain ⟨hup, rfl⟩ := hcall
    exact survives_bind (survives_imp (fun d' hd' err => ⟨hd'.sound, fun _ => hd'.settled⟩)
      (fun _ d' hd' => survives_pure ⟨hd'.sound, fun _ => hd'.settled⟩)
      (survives_enqueue input (h.steady hup)))
  | claim =>
    simp only [HttpWorker.call, Option.ite_none_right_eq_some, Option.some.injEq] at hcall
    obtain ⟨hup, rfl⟩ := hcall
    refine survives_bind (survives_imp (fun d' hd' err => ⟨hd'.sound, fun _ => hd'.settled⟩)
      (fun job d' hd' => survives_pure ?_) (survives_claim (h.steady hup)))
    obtain ⟨hsteady, hnone⟩ := hd'
    cases job with
    | none => exact ⟨hsteady.sound, fun _ => hsteady.settled⟩
    | some job => exact ⟨hsteady.sound.claim (hnone job rfl), fun _ => hsteady.settled⟩
  | finish i outcome =>
    have hready : ∃ id, w.up = true ∧ call = .finish id outcome := by
      simp only [HttpWorker.call] at hcall
      split at hcall
      next id hup _ => exact ⟨id, hup, (Option.some.inj hcall).symm⟩
      · cases hcall
    obtain ⟨id, hup, rfl⟩ := hready
    have hreturned : ∀ d' reply, Steady q d' → (w.returned d' reply (.finish i outcome)).Inv q := by
      intro d' reply hd'
      simp only [HttpWorker.returned]
      split <;> exact ⟨hd'.sound, fun _ => hd'.settled⟩
    refine survives_bind (survives_imp (fun d' hd' err => hreturned d' _ hd')
      (fun _ d' hd' => survives_pure (hreturned d' _ hd'))
      (survives_finish id outcome (h.steady hup) ?_))
    rintro rfl e he
    exact hclean i rfl e he
  | recover i =>
    have hready : ∃ id, w.up = true ∧ call = .finish id .retry := by
      simp only [HttpWorker.call] at hcall
      split at hcall
      next id hup _ => exact ⟨id, hup, (Option.some.inj hcall).symm⟩
      · cases hcall
    obtain ⟨id, hup, rfl⟩ := hready
    exact survives_bind (survives_imp (fun d' hd' err => ⟨hd'.sound, fun _ => hd'.settled⟩)
      (fun _ d' hd' => survives_pure ⟨hd'.sound, fun _ => hd'.settled⟩)
      (survives_finish id .retry (h.steady hup) fun heq => nomatch heq))

theorem HttpWorker.Inv.step {turn : Turn} (h : w.Inv q)
    (hclean : turn.Clean) : (w.step q turn).Inv q := by
  unfold HttpWorker.step
  cases hcall : w.call turn.act with
  | none => exact h
  | some call =>
    have hrun := survives_run (survives_call h hclean hcall) fun e he => he
    simp only
    revert hrun
    generalize Effect.run handleFaults (failing (call.program q)).run turn.choices w.disk
      [] = result
    obtain ⟨reply, d', t⟩ := result
    intro hrun
    match reply with
    | none => exact ⟨hrun, fun hup => nomatch hup⟩
    | some (.error err) => exact hrun err
    | some (.ok r) => exact hrun

/-- **What is archived is kept**: in every run in which no `finish` that ends a job fails to sync
the archive or to remove the record, an archived record is not written again and its job not
claimed. -/
theorem archived_kept (q : Queue) (turns : List Turn) (hclean : ∀ turn ∈ turns, turn.Clean) :
    Kept q (HttpWorker.run q turns).disk.history := by
  suffices hinv : ∀ w : HttpWorker, w.Inv q → (turns.foldl (HttpWorker.step q) w).Inv q by
    have hsound : Sound q {} :=
      ⟨by simp, fun n hn => (nomatch hn), trivial⟩
    exact (hinv {} ⟨hsound, fun hup => nomatch hup⟩).sound.kept
  induction turns with
  | nil => exact fun w hw => hw
  | cons turn rest ih =>
    intro w hw
    exact ih (List.forall_mem_cons.mp hclean).2 _
      (hw.step (hclean turn List.mem_cons_self))

section Example

def smooth (time : Int) : Choice := { time }

/-- Choices under which no directory `d` can be synced. -/
def unsynced (d : Dir) : Choice where
  time := 0
  sync d' := if d' = d then some "sync failed" else none

def unremoved : Choice where
  time := 0
  remove _ := some "remove failed"

def turnOf (e : Choice) (act : Act) : Turn := ⟨act, List.replicate 8 e⟩

/-- A job that is delivered, claimed and ended, and if that throws finished once more. -/
def endedJob (e : Choice) : List Turn :=
  [turnOf (smooth 0) .start,
    turnOf (smooth 0) (.enqueue (exampleInput [1])),
    turnOf (smooth 0) .claim, turnOf e (.finish 0 .terminal), turnOf (smooth 0) (.recover 0),
    turnOf (smooth 1000) .claim]

/-- The `finish` of a job whose removal cannot be synced throws, and the second one finds no
record. -/
theorem archived_kept_unsynced :
    (HttpWorker.run exampleQueue (endedJob (unsynced .pending))).disk.history =
        [.archived (exampleQueue.queueKey "job"), .claimed ⟨"job", "deployment", [1], 1⟩] ∧
      Kept exampleQueue (HttpWorker.run exampleQueue
        (endedJob (unsynced .pending))).disk.history := by
  refine ⟨by decide +kernel, archived_kept exampleQueue _ fun turn hturn i hi e he => ?_⟩
  simp only [endedJob, List.mem_cons, List.not_mem_nil, or_false] at hturn
  rcases hturn with rfl | rfl | rfl | rfl | rfl | rfl
  case inr.inr.inr.inl =>
    obtain rfl := List.eq_of_mem_replicate he
    exact ⟨rfl, rfl⟩
  all_goals simp [turnOf] at hi

/-- One removal fails: the archived job is claimed again, and archived a second time. -/
theorem archived_job_claimed : (HttpWorker.run exampleQueue (endedJob unremoved ++
        [turnOf (smooth 1000) (.finish 0 .terminal)])).disk.history =
      [.archived (exampleQueue.queueKey "job"), .claimed ⟨"job", "deployment", [1], 2⟩,
        .archived (exampleQueue.queueKey "job"),
        .claimed ⟨"job", "deployment", [1], 1⟩] ∧
      ¬ Kept exampleQueue (HttpWorker.run exampleQueue (endedJob unremoved)).disk.history := by
  have hhistory : (HttpWorker.run exampleQueue (endedJob unremoved)).disk.history =
      [.claimed ⟨"job", "deployment", [1], 2⟩, .archived (exampleQueue.queueKey "job"),
        .claimed ⟨"job", "deployment", [1], 1⟩] := by decide +kernel
  refine ⟨by decide +kernel, fun hkept => ?_⟩
  rw [hhistory] at hkept
  exact hkept.1 List.mem_cons_self

end Example

end SharedNode.Compiler.JobQueue
