import SharedNode.Compiler.Queue

/-!
# The calls of the job queue

What each call of the queue (`compiler/src/job-queue.mjs`) does to its files: those it can leave
when it is cut, and those it leaves when it returns (`leaves_initializeQueue`, `leaves_enqueue`,
`leaves_claim`, `leaves_finish`). `Makes` gathers them with what is noted of a call, and
`step_cases` says that a queue takes no other steps.
-/

namespace SharedNode.Compiler.JobQueue

open Effect Text Prog

/-! ## The effects of the calls -/

/-- `Ends` for the queue, at any time: the files, marked once a record was written. -/
abbrev Leaves {α : Type} (C : Files × Bool → Prop) (p : M α)
    (Q : Except String α → Files × Bool → Prop) (s : Files × Bool) : Prop :=
  Ends (marked handle isWrite) (fun _ => True) C p Q s

section Effects

variable {C : Files × Bool → Prop} {f : Files} {w : Bool}

theorem leaves_now {Q : Except String Int → Files × Bool → Prop} (hC : C (f, w))
    (hQ : ∀ now, Q (.ok now) (f, w)) : Leaves C (act .now) Q (f, w) := by
  refine ends_effect hC fun e x s' _ hx => ?_
  cases hx
  exact hQ e

variable {d : Dir} {name : String} {Q : Except String Unit → Files × Bool → Prop}

theorem leaves_list {Q : Except String (List String) → Files × Bool → Prop}
    (hC : C (f, w)) (hQ : Q (.ok ((f.dir d).keys.insertionSort (· ≤ ·))) (f, w)) :
    Leaves C (act (.list d)) Q (f, w) := by
  refine ends_effect hC fun e x s' _ hx => ?_
  cases hx
  exact hQ

theorem leaves_atomicWrite {r : Record} (hC : C (f, w))
    (hC' : C (f.write d name r, true)) (hQ : Q (.ok ()) (f.write d name r, true)) :
    Leaves C (atomicWrite d name r) Q (f, w) := by
  refine ends_bind (ends_effect hC fun e x s' _ hx => ?_)
  cases hx
  refine ends_effect hC' fun e x s' _ hx => ?_
  cases hx
  exact hQ

theorem leaves_durableRemove (hC : C (f, w)) (hC' : C (f.remove d name, w))
    (hQ : Q (.ok ()) (f.remove d name, w)) : Leaves C (durableRemove d name) Q (f, w) := by
  refine ends_bind (ends_effect hC fun e x s' _ hx => ?_)
  cases hx
  refine ends_effect hC' fun e x s' _ hx => ?_
  cases hx
  exact hQ

variable {q : Queue}

theorem leaves_readIfPresent
    {Q : Except String (Option Record) → Files × Bool → Prop} (hC : C (f, w))
    (herr : ∀ err, Q (.error err) (f, w))
    (hnone : (f.dir d).lookup name = none → Q (.ok none) (f, w))
    (hsome : ∀ r, (f.dir d).lookup name = some r → Q (.ok (some r)) (f, w)) :
    Leaves C (q.readRecordIfPresent d name) Q (f, w) := by
  refine ends_bind (ends_effect hC fun e x s' _ hx => ?_)
  obtain ⟨hl, rfl⟩ := Prod.mk.inj (Option.some.inj hx)
  cases x with
  | none => exact ends_pure (hnone hl)
  | some r =>
    show Leaves C (if q.valid r then pure (some r) else throw _) Q (f, w)
    split
    · exact ends_pure (hsome r hl)
    · exact ends_throw (herr _)

theorem leaves_read {Q : Except String Record → Files × Bool → Prop}
    (hC : C (f, w)) (herr : ∀ err, Q (.error err) (f, w))
    (hsome : ∀ r, (f.dir d).lookup name = some r → Q (.ok r) (f, w)) :
    Leaves C (q.readRecord d name) Q (f, w) :=
  ends_bind (leaves_readIfPresent hC herr (fun _ => ends_throw (herr _))
    fun r hr => ends_pure (hsome r hr))

theorem leaves_assert {r other : Identity}
    (herr : r ≠ other → ∀ err, Q (.error err) (f, w)) (hok : r = other → Q (.ok ()) (f, w)) :
    Leaves C (assertSameIdentity r other) Q (f, w) := by
  unfold assertSameIdentity
  split
  next h => exact ends_pure (hok h)
  next h => exact ends_throw (herr h _)

end Effects

/-! ## Files -/

namespace Files

variable (f : Files) (name n : String) (r : Record)

@[simp] theorem lookup_write_pending : (f.write .pending name r).pending.lookup n =
    if n = name then some r else f.pending.lookup n := by
  by_cases h : n = name
  · subst h
    simp only [write, AList.lookup_insert, if_true]
  · simp only [write, AList.lookup_insert_ne h, if_neg h]

@[simp] theorem lookup_write_archive : (f.write .archive name r).archive.lookup n =
    if n = name then some r else f.archive.lookup n := by
  by_cases h : n = name
  · subst h
    simp only [write, AList.lookup_insert, if_true]
  · simp only [write, AList.lookup_insert_ne h, if_neg h]

@[simp] theorem lookup_remove_pending : (f.remove .pending name).pending.lookup n =
    if n = name then none else f.pending.lookup n := by
  by_cases h : n = name
  · subst h
    simp only [remove, AList.lookup_erase, if_true]
  · simp only [remove, AList.lookup_erase_ne h, if_neg h]

@[simp] theorem archive_write_pending : (f.write .pending name r).archive = f.archive := rfl

@[simp] theorem pending_write_archive : (f.write .archive name r).pending = f.pending := rfl

@[simp] theorem archive_remove_pending : (f.remove .pending name).archive = f.archive := rfl

/-- A name is not in both directories. -/
def Settled (f : Files) (name : String) : Prop :=
  f.pending.lookup name = none ∨ f.archive.lookup name = none

end Files

/-! ## What each call leaves -/

/-- The record an `enqueue` writes. -/
inductive Put (q : Queue) (input : Input) (f : Files) : Record → Prop where
  | fresh (now : Int) (hnone : f.pending.lookup (q.queueKey input.id) = none) :
      Put q input f (q.newRecord input now)
  | replace {r : Record} (now : Int) (hr : f.pending.lookup (q.queueKey input.id) = some r)
      (hid : r.identity = input.identity) (hst : r.state ≠ .running) :
      Put q input f (Queue.Record.replace q r input.body now)
  | redeliver {r : Record} (hr : f.pending.lookup (q.queueKey input.id) = some r)
      (hid : r.identity = input.identity) (hst : r.state = .running) :
      Put q input f (Queue.Record.redeliver q r input.body)

/-- The files after the write of an `enqueue`. -/
structure Enqueued (q : Queue) (input : Input) (f f' : Files) (r : Record) : Prop where
  archive : f.archive.lookup (q.queueKey input.id) = none
  put : Put q input f r
  files : f' = f.write .pending (q.queueKey input.id) r

/-- What an `enqueue` that returns leaves: it finds the job archived, or writes its record. -/
def EnqueueLeaves (q : Queue) (input : Input) (f : Files) : Except String Bool → Files → Prop
  | .error _, f' => f' = f
  | .ok _, f' => (f' = f ∧ ∃ a, f.archive.lookup (q.queueKey input.id) = some a ∧
      a.identity = input.identity) ∨ ∃ r, Enqueued q input f f' r

/-- Where an `enqueue` can be cut: before or after its write. -/
def EnqueueCut (q : Queue) (input : Input) (f : Files) (s : Files × Bool) : Prop :=
  s = (f, false) ∨ s.2 = true ∧ ∃ r, Enqueued q input f s.1 r

theorem leaves_enqueue (q : Queue) (input : Input) (f : Files) :
    Leaves (EnqueueCut q input f) (q.enqueue input)
      (fun r s => EnqueueLeaves q input f r s.1) (f, false) := by
  unfold Queue.enqueue
  split
  · exact ends_throw rfl
  refine ends_bind (leaves_readIfPresent (Or.inl rfl) (fun _ => rfl) (fun harchive => ?_)
    fun a ha => ?_)
  · have hwrite : ∀ r b, Put q input f r →
        Leaves (EnqueueCut q input f)
          (do atomicWrite .pending (q.queueKey input.id) r; pure b)
          (fun r s => EnqueueLeaves q input f r s.1) (f, false) := by
      intro r b hr
      have hdone : Enqueued q input f (f.write .pending (q.queueKey input.id) r) r :=
        ⟨harchive, hr, rfl⟩
      exact ends_bind (leaves_atomicWrite (Or.inl rfl) (Or.inr ⟨rfl, r, hdone⟩)
        (ends_pure (Or.inr ⟨r, hdone⟩)))
    refine ends_bind (leaves_readIfPresent (Or.inl rfl) (fun _ => rfl) (fun hnone => ?_)
      fun r hr => ?_)
    · exact ends_bind (leaves_now (Or.inl rfl) fun now => hwrite _ _ (.fresh now hnone))
    · refine ends_bind (leaves_assert (fun _ _ => rfl) fun hid => ?_)
      split
      next hst => exact hwrite _ _ (.redeliver hr hid hst)
      next hst =>
        exact ends_bind (leaves_now (Or.inl rfl) fun now => hwrite _ _ (.replace now hr hid hst))
  · exact ends_bind (leaves_assert (fun _ _ => rfl) fun hid => ends_pure (Or.inl ⟨rfl, a, ha, hid⟩))

theorem handle_isSome (op : Op) (time : Int) (f : Files) : (handle op time f).isSome := by
  cases op <;> rfl

theorem enqueue_within (q : Queue) (input : Input) : Within 5 (q.enqueue input).run := by
  have hwrite : ∀ r (b : Bool), Within 2 (do
      atomicWrite .pending (q.queueKey input.id) r; pure b : M Bool).run :=
    fun r b _ _ => trivial
  have hread : ∀ d, Within 1 (q.readRecordIfPresent d (q.queueKey input.id)).run := by
    intro d x
    cases x with
    | none => trivial
    | some r =>
      show Within 0 (if q.valid r then pure (some r) else throw _ : M (Option Record)).run
      split <;> trivial
  have hassert : ∀ i j, Within 0 (assertSameIdentity i j).run := by
    intro i j
    unfold assertSameIdentity
    split <;> trivial
  unfold Queue.enqueue
  split
  · trivial
  refine (hread .archive).bind fun a => Within.mono (n := 1 + 3) ?_ le_rfl
  cases a with
  | some a =>
    refine Within.mono (n := 0 + 0) ?_ (Nat.zero_le _)
    exact (hassert _ _).bind fun _ => trivial
  | none =>
    refine (hread .pending).bind fun r => ?_
    cases r with
    | none => exact fun now => hwrite _ _
    | some r =>
      refine Within.mono (n := 0 + 3) ((hassert _ _).bind fun _ => ?_) le_rfl
      split
      · exact (hwrite _ _).mono (by decide)
      · exact fun now => hwrite _ _

/-- A record that a `claim` takes, and the files after its write. -/
structure Claimed (f f' : Files) (name : String) (r : Record) : Prop where
  record : f.pending.lookup name = some r
  waiting : r.state ≠ .running
  files : f' = f.write .pending name (Queue.Record.claim r)

def Record.job (r : Record) : Job := ⟨r.id, r.deploymentId, r.body, r.attempts + 1⟩

/-- What a `claim` that returns leaves. -/
def ClaimLeaves (f : Files) : Except String (Option Job) → Files → Prop
  | .error _, f' | .ok none, f' => f' = f
  | .ok (some job), f' => ∃ name r, Claimed f f' name r ∧ job = r.job

def ClaimCut (f f' : Files) : Prop := f' = f ∨ ∃ name r, Claimed f f' name r

theorem leaves_claimLoop (q : Queue) (now : Int) (f : Files) (names : List String) :
    Leaves (fun s => ClaimCut f s.1) (q.claimLoop now names) (fun r s => ClaimLeaves f r s.1)
      (f, false) := by
  induction names with
  | nil => exact ends_pure rfl
  | cons name rest ih =>
    refine ends_bind (leaves_read (Or.inl rfl) (fun _ => rfl) fun r hr => ?_)
    dsimp only [Continues]
    split
    · exact ih
    next hst =>
      have hclaimed : Claimed f (f.write .pending name (Queue.Record.claim r)) name r :=
        ⟨hr, fun h => hst (Or.inl h), rfl⟩
      exact ends_bind (leaves_atomicWrite (Or.inl rfl) (Or.inr ⟨name, r, hclaimed⟩)
        (ends_pure ⟨name, r, hclaimed, rfl⟩))

theorem leaves_claim (q : Queue) (f : Files) :
    Leaves (fun s => ClaimCut f s.1) q.claim (fun r s => ClaimLeaves f r s.1) (f, false) :=
  ends_bind (leaves_now (Or.inl rfl) fun now => ends_bind (leaves_list (Or.inl rfl)
    (leaves_claimLoop q now f _)))

/-- What a `finish` that does not fail finds. -/
structure Running (q : Queue) (id : String) (f : Files) (r : Record) : Prop where
  record : f.pending.lookup (q.queueKey id) = some r
  id : r.id = id
  state : r.state = .running

/-- The files a `finish` of a running record can leave: those it wrote the archived record to, those
it also removed the pending one from, or those with the record to be tried again. -/
inductive Finished (q : Queue) (id : String) (f : Files) (r : Record) : Files → Prop where
  | archived : Finished q id f r (f.write .archive (q.queueKey id) { r with state := .terminal })
  | removed : Finished q id f r
      ((f.write .archive (q.queueKey id) { r with state := .terminal }).remove .pending
        (q.queueKey id))
  | retried (now : Int) : Finished q id f r
      (f.write .pending (q.queueKey id) (Queue.Record.retry q r now))

/-- What a `finish` that returns leaves: it does not archive a record without removing it. -/
def FinishLeaves (q : Queue) (id : String) (f : Files) : Except String Unit → Files → Prop
  | .error _, f' => f' = f
  | .ok _, f' => ∃ r, Running q id f r ∧ Finished q id f r f' ∧
      (f.archive.lookup (q.queueKey id) = none → f'.Settled (q.queueKey id))

def FinishCut (q : Queue) (id : String) (f f' : Files) : Prop :=
  f' = f ∨ ∃ r, Running q id f r ∧ Finished q id f r f'

theorem leaves_finish (q : Queue) (id : String) (outcome : Outcome) (f : Files) :
    Leaves (fun s => FinishCut q id f s.1) (q.finish id outcome)
      (fun r s => FinishLeaves q id f r s.1) (f, false) := by
  have hchecked : ∀ p : Record → M Unit,
      (∀ r, Running q id f r → Leaves (fun s => FinishCut q id f s.1) (p r)
        (fun r s => FinishLeaves q id f r s.1) (f, false)) →
      Leaves (fun s => FinishCut q id f s.1)
        (do
          if id = "" then throw "invalid compiler queue outcome"
          let record ← q.readRecord .pending (q.queueKey id)
          if record.id ≠ id ∨ record.state ≠ .running then throw "compiler queue state conflict"
          p record)
        (fun r s => FinishLeaves q id f r s.1) (f, false) := by
    intro p hp
    split
    · exact ends_throw rfl
    refine ends_bind (leaves_read (Or.inl rfl) (fun _ => rfl) fun r hr => ?_)
    dsimp only [Continues]
    split
    · exact ends_throw rfl
    next hrun =>
    rw [not_or, not_not, not_not] at hrun
    exact hp r ⟨hr, hrun.1, hrun.2⟩
  cases outcome with
  | terminal =>
    refine hchecked _ fun r hr => ?_
    exact ends_bind (leaves_atomicWrite (Or.inl rfl) (Or.inr ⟨r, hr, .archived⟩)
      (leaves_durableRemove (Or.inr ⟨r, hr, .archived⟩) (Or.inr ⟨r, hr, .removed⟩)
        ⟨r, hr, .removed, fun _ => Or.inl (by simp)⟩))
  | retry =>
    refine hchecked _ fun r hr => ?_
    exact ends_bind (leaves_now (Or.inl rfl) fun now => leaves_atomicWrite (Or.inl rfl)
      (Or.inr ⟨r, hr, .retried now⟩) ⟨r, hr, .retried now, Or.inr⟩)

/-- What `initialize` does to one file. -/
inductive Tidied (f : Files) (name : String) : Files → Prop where
  | dropped {r a : Record} (hr : f.pending.lookup name = some r)
      (ha : f.archive.lookup name = some a) (hid : a.identity = r.identity) :
      Tidied f name (f.remove .pending name)
  | reset {r : Record} (hr : f.pending.lookup name = some r) (ha : f.archive.lookup name = none)
      (hst : r.state = .running) :
      Tidied f name (f.write .pending name { r with state := .pending })

variable {f f' : Files} {q : Queue}

theorem Tidied.settled {name n : String} (h : Tidied f name f')
    (hn : n ≠ name → f.Settled n) : f'.Settled n := by
  by_cases hname : n = name
  · subst hname
    cases h with
    | dropped hr ha hid => exact Or.inl (by simp)
    | reset hr ha hst => exact Or.inr ha
  · have hs := hn hname
    cases h <;> simpa [Files.Settled, hname] using hs

/-- What `initialize` does to the files. -/
abbrev Tidy : Files → Files → Prop := Relation.ReflTransGen fun f f' => ∃ name, Tidied f name f'

def InitializeLeaves (f : Files) : Except String Unit → Files → Prop
  | .error _, f' => Tidy f f'
  | .ok _, f' => Tidy f f' ∧ ∀ name, f'.Settled name

theorem leaves_initializeFile {f₀ : Files} {w : Bool} {name : String}
    {Q : Except String Unit → Files × Bool → Prop} (htidy : Tidy f₀ f)
    (herr : ∀ err, Q (.error err) (f, w))
    (hok : ∀ f' w', Tidy f₀ f' → (∀ n, (n ≠ name → f.Settled n) → f'.Settled n) →
      Q (.ok ()) (f', w')) :
    Leaves (fun s => Tidy f₀ s.1) (q.initializeFile name) Q (f, w) := by
  refine ends_bind (leaves_read htidy herr fun r hr => ?_)
  refine ends_bind (leaves_readIfPresent htidy herr (fun hnone => ?_) fun a ha => ?_)
  · dsimp only [Continues]
    split
    next hst =>
      have hstep := Tidied.reset hr hnone hst
      exact leaves_atomicWrite htidy (htidy.tail ⟨name, hstep⟩)
        (hok _ _ (htidy.tail ⟨name, hstep⟩) fun n => hstep.settled)
    next hst =>
      refine ends_pure (hok f w htidy fun n hn => ?_)
      by_cases hname : n = name
      · exact Or.inr (hname ▸ hnone)
      · exact hn hname
  · refine ends_bind (leaves_assert (fun _ => herr) fun hid => ?_)
    split
    · exact ends_throw (herr _)
    · have hstep := Tidied.dropped hr ha hid
      exact leaves_durableRemove htidy (htidy.tail ⟨name, hstep⟩)
        (hok _ _ (htidy.tail ⟨name, hstep⟩) fun n => hstep.settled)

-- The loop keeps that every name but those still to come is settled.
theorem leaves_initializeFiles {f₀ : Files} (names : List String) {w : Bool}
    (htidy : Tidy f₀ f) (hs : ∀ n ∉ names, f.Settled n) :
    Leaves (fun s => Tidy f₀ s.1) (q.initializeFiles names) (fun r s => InitializeLeaves f₀ r s.1)
      (f, w) := by
  induction names generalizing f w with
  | nil => exact ends_pure ⟨htidy, fun n => hs n List.not_mem_nil⟩
  | cons name rest ih =>
    refine ends_bind (leaves_initializeFile htidy (fun _ => htidy) fun f' w' htidy' hn => ?_)
    refine ih htidy' fun n hrest => hn n fun hname => hs n ?_
    simp only [List.mem_cons, not_or]
    exact ⟨hname, hrest⟩

theorem leaves_initializeQueue (q : Queue) (f : Files) :
    Leaves (fun s => Tidy f s.1) q.initializeQueue (fun r s => InitializeLeaves f r s.1)
      (f, false) := by
  refine ends_bind (leaves_list .refl (leaves_initializeFiles _ .refl fun n hn => Or.inl ?_))
  rw [List.mem_insertionSort] at hn
  exact AList.lookup_eq_none.mpr hn

/-! ## One call -/

inductive Makes (q : Queue) (f : Files) : Happened → Files → Prop where
  | failed {call : Call} {err : String} {w : Bool} : Makes q f ⟨call, some (.error err), w⟩ f
  | cut {call : Call} {w : Bool} (hw : ∀ input, call = .enqueue input → w = false) :
      Makes q f ⟨call, none, w⟩ f
  | found {input : Input} {b w : Bool} {a : Record}
      (ha : f.archive.lookup (q.queueKey input.id) = some a) (hid : a.identity = input.identity) :
      Makes q f ⟨.enqueue input, some (.ok (.enqueued b)), w⟩ f
  | enqueued {input : Input} {reply : Option (Except String Reply)} {w : Bool} {f' : Files}
      {r : Record} (hr : Enqueued q input f f' r)
      (hreply : reply = none ∧ w = true ∨ ∃ b, reply = some (.ok (.enqueued b))) :
      Makes q f ⟨.enqueue input, reply, w⟩ f'
  | idle {w : Bool} : Makes q f ⟨.claim, some (.ok (.claimed none)), w⟩ f
  | claimed {reply : Option (Except String Reply)} {w : Bool} {f' : Files} {name : String}
      {r : Record} (hr : Claimed f f' name r)
      (hreply : reply = none ∨ reply = some (.ok (.claimed (some r.job)))) :
      Makes q f ⟨.claim, reply, w⟩ f'
  | finished {id : String} {outcome : Outcome} {reply : Option (Except String Reply)} {w : Bool}
      {f' : Files} {r : Record} (hr : Running q id f r) (hf : Finished q id f r f')
      (hreply : reply = none ∨ reply = some (.ok .finished) ∧
        (f.archive.lookup (q.queueKey id) = none → f'.Settled (q.queueKey id))) :
      Makes q f ⟨.finish id outcome, reply, w⟩ f'
  | tidied {reply : Option (Except String Reply)} {w : Bool} {f' : Files} (ht : Tidy f f')
      (hs : reply.any Except.isOk = true → ∀ name, f'.Settled name) :
      Makes q f ⟨.initializeQueue, reply, w⟩ f'

/-- The postcondition of a call whose program returns `g a`. -/
def Replies {α : Type} (g : α → Reply) (Q : Except String α → Files × Bool → Prop) :
    Except String Reply → Files × Bool → Prop
  | .ok reply, s => ∃ a, reply = g a ∧ Q (.ok a) s
  | .error err, s => Q (.error err) s

theorem leaves_reply {α : Type} {C : Files × Bool → Prop} {p : M α} (g : α → Reply)
    {Q : Except String α → Files × Bool → Prop} {s : Files × Bool} (hp : Leaves C p Q s) :
    Leaves C (do return g (← p)) (Replies g Q) s := by
  refine ends_bind (ends_mono (fun r s hr => ?_) hp)
  cases r with
  | ok a => exact ends_pure ⟨a, rfl, hr⟩
  | error err => exact hr

theorem leaves_run {α : Type} {C : Files × Bool → Prop} {p : M α}
    {Q : Except String α → Files × Bool → Prop} (hp : Leaves C p Q (f, false))
    (times : List Int) {reply : Option (Except String α)} {t : Trace Op Ans}
    (hrun : run handle p.run times f [] = (reply, f', t)) :
    (∀ r, reply = some r → Q r (f', t.any isWrite)) ∧ (reply = none → C (f', t.any isWrite)) := by
  have h := ends_run times (t := []) (fun _ _ => trivial) hp
  have hmarked := run_marked handle isWrite p.run times f []
  rw [hrun] at hmarked
  rw [show (f, false) = (f, ([] : Trace Op Ans).any isWrite) from rfl, hmarked] at h
  exact h

theorem makes_of_run {call : Call} {times : List Int}
    {reply : Option (Except String Reply)} {t : Trace Op Ans}
    (hrun : run handle (call.program q).run times f [] = (reply, f', t)) :
    Makes q f ⟨call, reply, t.any isWrite⟩ f' := by
  cases call with
  | initializeQueue =>
    obtain ⟨hret, hcut⟩ :=
      leaves_run (leaves_reply (fun _ => .initialized) (leaves_initializeQueue q f)) times hrun
    refine .tidied ?_ ?_
    · match reply with
      | none => exact hcut rfl
      | some (.error err) => exact hret _ rfl
      | some (.ok r) =>
        obtain ⟨_, -, htidy, -⟩ := hret _ rfl
        exact htidy
    · match reply with
      | none => simp
      | some (.error err) => simp [Except.isOk, Except.toBool]
      | some (.ok r) =>
        obtain ⟨_, -, -, hs⟩ := hret _ rfl
        exact fun _ => hs
  | enqueue input =>
    obtain ⟨hret, hcut⟩ := leaves_run (leaves_reply .enqueued (leaves_enqueue q input f)) times hrun
    match reply with
    | none =>
      rcases hcut rfl with h | ⟨hw, r, hr⟩
      · obtain ⟨rfl, hw⟩ := Prod.mk.inj h
        exact .cut fun _ _ => hw
      · exact .enqueued hr (Or.inl ⟨rfl, hw⟩)
    | some (.error err) =>
      obtain rfl : f' = f := hret _ rfl
      exact .failed
    | some (.ok r) =>
      obtain ⟨b, rfl, ⟨rfl, a, ha, hid⟩ | ⟨r, hr⟩⟩ := hret _ rfl
      · exact .found ha hid
      · exact .enqueued hr (Or.inr ⟨b, rfl⟩)
  | claim =>
    obtain ⟨hret, hcut⟩ := leaves_run (leaves_reply .claimed (leaves_claim q f)) times hrun
    match reply with
    | none =>
      rcases hcut rfl with rfl | ⟨name, r, hr⟩
      · exact .cut fun _ h => nomatch h
      · exact .claimed hr (Or.inl rfl)
    | some (.error err) =>
      obtain rfl : f' = f := hret _ rfl
      exact .failed
    | some (.ok r) =>
      obtain ⟨job, rfl, hjob⟩ := hret _ rfl
      cases job with
      | none =>
        obtain rfl : f' = f := hjob
        exact .idle
      | some job =>
        obtain ⟨name, r, hr, rfl⟩ := hjob
        exact .claimed hr (Or.inr rfl)
  | finish id outcome =>
    obtain ⟨hret, hcut⟩ := leaves_run (leaves_reply (fun _ => .finished)
      (leaves_finish q id outcome f)) times hrun
    match reply with
    | none =>
      rcases hcut rfl with rfl | ⟨r, hr, hf⟩
      · exact .cut fun _ h => nomatch h
      · exact .finished hr hf (Or.inl rfl)
    | some (.error err) =>
      obtain rfl : f' = f := hret _ rfl
      exact .failed
    | some (.ok r) =>
      obtain ⟨_, rfl, r, hr, hf, hs⟩ := hret _ rfl
      exact .finished hr hf (Or.inr ⟨rfl, hs⟩)

/-- Whether calls other than `initialize` may follow. -/
def Happened.leavesUp (h : Happened) : Bool :=
  if h.call = .initializeQueue then h.reply.any Except.isOk else h.reply.isSome

theorem step_cases (q : Queue) (m : Machine) (ev : Event) :
    (m.up = false ∧ m.step q ev = m) ∨ ∃ h f', h.call = ev.call ∧
      (m.up = false → ev.call = .initializeQueue) ∧ Makes q m.files h f' ∧
        m.step q ev = ⟨f', h.leavesUp, h :: m.history⟩ := by
  unfold Machine.step
  split
  next hdown => exact Or.inl ⟨hdown.1, rfl⟩
  next hcall =>
    rw [not_and, not_not] at hcall
    exact Or.inr ⟨_, _, rfl, hcall, makes_of_run rfl, rfl⟩

end SharedNode.Compiler.JobQueue
