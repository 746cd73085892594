import SharedNode.Effect.Eval
import SharedNode.Compiler.MemoryQueue
import SharedNode.Compiler.Redelivery

/-!
# The two job queues are one

`FilesystemCompilerJobQueue` and `MemoryCompilerJobQueue` (`compiler/src/job-queue.mjs`) behave as
the same abstract queue, if no effect fails and no call is cut: they give the same answers and keep
the same of each job, but for the job a `claim` takes among those that are eligible.

The two directories of the queue on files are there, as after its `initialize`.
-/

namespace SharedNode.Compiler.JobQueue

open Effect Text Prog

/-! ## The queue on files, call by call -/

namespace Queue

variable (q : Queue)

/-- One call, made at one time, without faults or a crash. -/
def step (f : Files) (timed : Timed) : Answer × Files :=
  match (timed.call.program q).run.eval handle timed.now f with
  | (some r, f') => (answerOf r, f')
  | (none, f') => (.rejected, f')

/-- The constructor's check of `retryDelayMs`. -/
def Configured : Prop := 100 ≤ q.retryDelayMs ∧ q.retryDelayMs ≤ 300000

end Queue

/-- What a record file tells of its job. -/
def Record.entry (r : Record) : Entry :=
  ⟨r.deploymentId, r.jobFingerprint, r.body, r.redeliveryBody, r.state, r.attempts, r.nextAttemptAt⟩

/-- The jobs recorded in the files. -/
def Queue.jobs (q : Queue) (f : Files) : Jobs := fun id =>
  (((f.pending.lookup (q.queueKey id)).or (f.archive.lookup (q.queueKey id))).filter
    (·.id = id)).map Record.entry

/-- The times of the clock: the time values of a `Date`. -/
def IsTime (now : Int) : Prop := -8640000000000000 ≤ now ∧ now ≤ 8640000000000000

/-! ## The invariant -/

section Invariant

variable (q : Queue) (ids : Set String) (claims : Nat)

/-- A record of the queue, with `claims` claims to come. -/
structure Fit (r : Record) : Prop where
  id : r.id ∈ ids
  body : q.sha256 r.body = r.bodySha256
  redelivery : r.redeliveryBody.map q.sha256 = r.redeliveryBodySha256
  counted : 0 ≤ r.attempts ∧ r.attempts + claims < 2 ^ 53
  timed : -8640000000000000 ≤ r.nextAttemptAt ∧ r.nextAttemptAt ≤ 8640000000300000

/-- The record files of the queue. -/
structure Fits (f : Files) : Prop where
  named : ∀ d n r, (f.dir d).lookup n = some r → q.queueKey r.id = n
  fit : ∀ d n r, (f.dir d).lookup n = some r → Fit q ids claims r
  live : ∀ n r, f.pending.lookup n = some r → r.state ≠ .terminal
  ended : ∀ n r, f.archive.lookup n = some r → r.state = .terminal
  settled : ∀ n, f.Settled n

end Invariant

section Records

variable {q : Queue} {ids : Set String} {claims : Nat} {r : Record}

theorem Fit.valid (h : Fit q ids claims r) : q.valid r = true := by
  have hcounted := h.counted
  have htimed := h.timed
  simp only [Queue.valid, isSafeInteger, Bool.and_eq_true, decide_eq_true_eq]
  exact ⟨⟨⟨by omega, by omega⟩, h.body⟩, h.redelivery⟩

theorem Fit.mono {claims' : Nat} (hle : claims' ≤ claims) (h : Fit q ids claims r) :
    Fit q ids claims' r :=
  ⟨h.id, h.body, h.redelivery, by have := h.counted; omega, h.timed⟩

end Records

/-! ## The effects -/

section Effects

variable {q : Queue} {f : Files} {now : Int} {d : Dir} {name : String} {r : Record}

theorem gives_readIfPresent (hr : (f.dir d).lookup name = some r) (hv : q.valid r = true) :
    Gives handle now (q.readRecordIfPresent d name) f (.ok (some r)) f := by
  refine gives_bind (gives_effect (x := some r) (congrArg (fun x => some (x, f)) hr)) ?_
  show Gives handle now (if q.valid r then pure (some r) else throw _) f _ f
  rw [if_pos hv]
  exact gives_pure

theorem gives_readIfPresent_none (hr : (f.dir d).lookup name = none) :
    Gives handle now (q.readRecordIfPresent d name) f (.ok none) f :=
  gives_bind (gives_effect (x := none) (congrArg (fun x => some (x, f)) hr)) gives_pure

theorem gives_read (hr : (f.dir d).lookup name = some r) (hv : q.valid r = true) :
    Gives handle now (q.readRecord d name) f (.ok r) f :=
  gives_bind (gives_readIfPresent hr hv) gives_pure

theorem gives_read_none (hr : (f.dir d).lookup name = none) :
    Gives handle now (q.readRecord d name) f (.error "ENOENT: no such file or directory") f :=
  gives_bind (gives_readIfPresent_none hr) gives_throw

theorem gives_assert {i j : Identity} (h : i = j) :
    Gives handle now (assertSameIdentity i j) f (.ok ()) f := by
  unfold assertSameIdentity
  rw [if_pos h]
  exact gives_pure

theorem gives_assert_error {i j : Identity} (h : i ≠ j) :
    Gives handle now (assertSameIdentity i j) f
      (.error "compiler queue idempotency conflict") f := by
  unfold assertSameIdentity
  rw [if_neg h]
  exact gives_throw

theorem gives_atomicWrite : Gives handle now (atomicWrite d name r) f (.ok ()) (f.write d name r) :=
  gives_bind (gives_effect rfl) (gives_effect rfl)

theorem gives_durableRemove :
    Gives handle now (durableRemove d name) f (.ok ()) (f.remove d name) :=
  gives_bind (gives_effect rfl) (gives_effect rfl)

end Effects

/-! ## Jobs and files -/

section Jobs

variable {q : Queue} {ids : Set String} {claims : Nat} {f : Files} {id : String} {r : Record}

theorem Fits.id_eq (h : Fits q ids claims f) (hkeys : Set.InjOn q.queueKey ids) (hid : id ∈ ids)
    {d : Dir} (hr : (f.dir d).lookup (q.queueKey id) = some r) : r.id = id :=
  hkeys (h.fit d _ r hr).id hid (h.named d _ r hr)

theorem jobs_of_pending (hr : f.pending.lookup (q.queueKey id) = some r) (hid : r.id = id) :
    q.jobs f id = some r.entry := by
  simp [Queue.jobs, hr, hid]

theorem jobs_of_archive (h : Fits q ids claims f) (hr : f.archive.lookup (q.queueKey id) = some r)
    (hid : r.id = id) : q.jobs f id = some r.entry := by
  have hnone := (h.settled (q.queueKey id)).resolve_right (by simp [hr])
  simp [Queue.jobs, hnone, hr, hid]

theorem jobs_eq_none (hp : f.pending.lookup (q.queueKey id) = none)
    (ha : f.archive.lookup (q.queueKey id) = none) : q.jobs f id = none := by
  simp [Queue.jobs, hp, ha]

theorem jobs_of_other (hr : f.pending.lookup (q.queueKey id) = some r) (hid : r.id ≠ id) :
    q.jobs f id = none := by
  simp [Queue.jobs, hr, hid]

theorem exists_of_jobs {e : Entry} (h : q.jobs f id = some e) :
    ∃ d r, (f.dir d).lookup (q.queueKey id) = some r ∧ r.id = id ∧ e = r.entry := by
  simp only [Queue.jobs, Option.map_eq_some_iff, Option.filter_eq_some_iff,
    decide_eq_true_eq, Option.or_eq_some_iff] at h
  obtain ⟨r, ⟨hr | ⟨-, hr⟩, hid⟩, rfl⟩ := h
  · exact ⟨.pending, r, hr, hid, rfl⟩
  · exact ⟨.archive, r, hr, hid, rfl⟩

theorem jobs_write (hold : ∀ x, f.pending.lookup (q.queueKey r.id) = some x → x.id = r.id)
    (hnone : f.archive.lookup (q.queueKey r.id) = none) :
    q.jobs (f.write .pending (q.queueKey r.id) r) =
      Function.update (q.jobs f) r.id (some r.entry) := by
  funext id
  by_cases hid : id = r.id
  · subst hid
    simp [Queue.jobs]
  · rw [Function.update_of_ne hid]
    by_cases hname : q.queueKey id = q.queueKey r.id
    · -- another id of the same name has no job, before as after
      have hne : ¬ r.id = id := fun h => hid h.symm
      have hbefore : (f.pending.lookup (q.queueKey r.id)).filter (·.id = id) = none := by
        cases hx : f.pending.lookup (q.queueKey r.id) with
        | none => rfl
        | some x => simp [hold x hx, hne]
      have hp := congrArg (fun n => (f.pending.lookup n : Option Record)) hname
      have ha := congrArg (fun n => (f.archive.lookup n : Option Record)) hname
      simp only [Queue.jobs, Files.lookup_write_pending, if_pos hname, hp, ha,
        Files.archive_write_pending, hnone, Option.or_none, hbefore]
      simp [hne]
    · simp [Queue.jobs, hname]

/-- A pending record is written under its name, where none is archived. -/
theorem Fits.write (h : Fits q ids claims f) (hfit : Fit q ids claims r)
    (hlive : r.state ≠ .terminal) (hnone : f.archive.lookup (q.queueKey r.id) = none) :
    Fits q ids claims (f.write .pending (q.queueKey r.id) r) := by
  have hlookup : ∀ n x, (f.write .pending (q.queueKey r.id) r).pending.lookup n = some x →
      (n = q.queueKey r.id ∧ x = r) ∨ f.pending.lookup n = some x := by
    intro n x hx
    by_cases hn : n = q.queueKey r.id
    · exact Or.inl ⟨hn, by simpa [hn, eq_comm] using hx⟩
    · exact Or.inr (by simpa [hn] using hx)
  refine ⟨fun d n x hx => ?_, fun d n x hx => ?_, fun n x hx => ?_, h.ended, fun n => ?_⟩
  · cases d with
    | archive => exact h.named .archive n x hx
    | pending =>
      rcases hlookup n x hx with ⟨rfl, rfl⟩ | hx
      · rfl
      · exact h.named .pending n x hx
  · cases d with
    | archive => exact h.fit .archive n x hx
    | pending =>
      rcases hlookup n x hx with ⟨rfl, rfl⟩ | hx
      · exact hfit
      · exact h.fit .pending n x hx
  · rcases hlookup n x hx with ⟨rfl, rfl⟩ | hx
    · exact hlive
    · exact h.live n x hx
  · by_cases hn : n = q.queueKey r.id
    · exact Or.inr (hn ▸ hnone)
    · simpa [Files.Settled, hn] using h.settled n

theorem Fits.mono {claims' : Nat} (hle : claims' ≤ claims) (h : Fits q ids claims f) :
    Fits q ids claims' f :=
  ⟨h.named, fun d n r hr => (h.fit d n r hr).mono hle, h.live, h.ended, h.settled⟩

end Jobs

/-! ## The calls -/

/-- What one step of the queue on files is: one of the abstract queue. -/
def Refined (q : Queue) (ids : Set String) (claims : Nat) (f : Files) (timed : Timed)
    (result : Answer × Files) : Prop :=
  Fits q ids claims result.2 ∧ ∃ pick, (q.jobs f).Allows timed pick ∧
    (q.jobs f).next q.retryDelayMs timed pick = (result.1, q.jobs result.2)

section Calls

variable {q : Queue} {ids : Set String} {claims : Nat} {f f' : Files} {now : Int}

theorem step_of_gives {call : Call} {r : Except String Reply}
    (h : Gives handle now (call.program q) f r f') : q.step f ⟨call, now⟩ = (answerOf r, f') := by
  unfold Queue.step
  rw [show (call.program q).run.eval handle now f = _ from h]

/-- A pending record is written as the abstract queue changes its job. -/
theorem refined_write {timed : Timed} {answer : Answer} {pick : Option String} {r : Record}
    (h : Fits q ids claims f) (hfit : Fit q ids claims r) (hlive : r.state ≠ .terminal)
    (hold : ∀ x, f.pending.lookup (q.queueKey r.id) = some x → x.id = r.id)
    (hnone : f.archive.lookup (q.queueKey r.id) = none) (hpick : (q.jobs f).Allows timed pick)
    (hnext : (q.jobs f).next q.retryDelayMs timed pick =
      (answer, Function.update (q.jobs f) r.id (some r.entry))) :
    Refined q ids claims f timed (answer, f.write .pending (q.queueKey r.id) r) :=
  ⟨h.write hfit hlive hnone, pick, hpick,
    hnext.trans (congrArg (Prod.mk _) (jobs_write hold hnone).symm)⟩

theorem identity_iff {r : Record} {input : Input} (hid : r.id = input.id) :
    r.identity = input.identity ↔ r.entry.deploymentId = input.deploymentId ∧
      r.entry.jobFingerprint = input.jobFingerprint := by
  simp [Record.identity, Input.identity, Record.entry, hid]

section Enqueue

variable {input : Input}

theorem gives_enqueue_archived {a : Record} (hinput : validInput input)
    (ha : f.archive.lookup (q.queueKey input.id) = some a) (hv : q.valid a = true) :
    Gives handle now (q.enqueue input) f (if a.identity = input.identity then .ok true
        else .error "compiler queue idempotency conflict") f := by
  unfold Queue.enqueue
  rw [if_neg (not_not.mpr hinput)]
  refine gives_bind (gives_readIfPresent ha hv) ?_
  by_cases hid : a.identity = input.identity
  · rw [if_pos hid]
    exact gives_bind (gives_assert hid) gives_pure
  · rw [if_neg hid]
    exact gives_bind_error (gives_assert_error hid)

theorem gives_enqueue_pending {r : Record} (hinput : validInput input)
    (ha : f.archive.lookup (q.queueKey input.id) = none)
    (hr : f.pending.lookup (q.queueKey input.id) = some r) (hv : q.valid r = true)
    (hid : r.identity = input.identity) :
    Gives handle now (q.enqueue input) f (.ok true) (f.write .pending (q.queueKey input.id)
      (if r.state = .running then Queue.Record.redeliver q r input.body
        else Queue.Record.replace q r input.body now)) := by
  unfold Queue.enqueue
  rw [if_neg (not_not.mpr hinput)]
  refine gives_bind (gives_readIfPresent_none ha) (gives_bind (gives_readIfPresent hr hv) ?_)
  refine gives_bind (gives_assert hid) ?_
  split
  · exact gives_bind gives_atomicWrite gives_pure
  · exact gives_bind (gives_effect rfl) (gives_bind gives_atomicWrite gives_pure)

theorem gives_enqueue_conflict {r : Record} (hinput : validInput input)
    (ha : f.archive.lookup (q.queueKey input.id) = none)
    (hr : f.pending.lookup (q.queueKey input.id) = some r) (hv : q.valid r = true)
    (hid : r.identity ≠ input.identity) :
    Gives handle now (q.enqueue input) f (.error "compiler queue idempotency conflict") f := by
  unfold Queue.enqueue
  rw [if_neg (not_not.mpr hinput)]
  exact gives_bind (gives_readIfPresent_none ha) (gives_bind (gives_readIfPresent hr hv)
    (gives_bind_error (gives_assert_error hid)))

theorem gives_enqueue_fresh (hinput : validInput input)
    (ha : f.archive.lookup (q.queueKey input.id) = none)
    (hp : f.pending.lookup (q.queueKey input.id) = none) :
    Gives handle now (q.enqueue input) f (.ok false)
      (f.write .pending (q.queueKey input.id) (q.newRecord input now)) := by
  unfold Queue.enqueue
  rw [if_neg (not_not.mpr hinput)]
  exact gives_bind (gives_readIfPresent_none ha) (gives_bind (gives_readIfPresent_none hp)
    (gives_bind (gives_effect rfl) (gives_bind gives_atomicWrite gives_pure)))

theorem step_enqueue {r : Except String Bool} (hr : Gives handle now (q.enqueue input) f r f') :
    q.step f ⟨.enqueue input, now⟩ = (answerOf (r.map .enqueued), f') := by
  refine step_of_gives ?_
  cases r with
  | ok b => exact gives_bind hr gives_pure
  | error err => exact gives_bind_error hr

theorem refined_enqueue (h : Fits q ids claims f) (hkeys : Set.InjOn q.queueKey ids)
    (hids : validInput input → input.id ∈ ids) (htime : IsTime now) (hclaims : claims < 2 ^ 53) :
    Refined q ids claims f ⟨.enqueue input, now⟩ (q.step f ⟨.enqueue input, now⟩) := by
  have hpick : (q.jobs f).Allows ⟨.enqueue input, now⟩ none := fun h => nomatch h
  by_cases hinput : validInput input
  swap
  · have hgives : Gives handle now (q.enqueue input) f (.error "invalid compiler queue job") f := by
      unfold Queue.enqueue
      rw [if_pos hinput]
      exact gives_throw
    rw [step_enqueue hgives]
    exact ⟨h, none, hpick, Jobs.next_enqueue_invalid hinput⟩
  have hid := hids hinput
  cases ha : f.archive.lookup (q.queueKey input.id) with
  | some a =>
    have haid := h.id_eq hkeys hid (d := .archive) ha
    have hjob := jobs_of_archive h ha haid
    rw [step_enqueue (gives_enqueue_archived hinput ha (h.fit .archive _ a ha).valid)]
    split
    next heq =>
      exact ⟨h, none, hpick, Jobs.next_enqueue_ended hinput hjob ((identity_iff haid).mp heq)
        (h.ended _ a ha)⟩
    next hne =>
      exact ⟨h, none, hpick, Jobs.next_enqueue_conflict hinput hjob
        (mt (identity_iff haid).mpr hne)⟩
  | none =>
  cases hr : f.pending.lookup (q.queueKey input.id) with
  | none =>
    rw [step_enqueue (gives_enqueue_fresh hinput ha hr)]
    have hfit : Fit q ids claims (q.newRecord input now) := by
      obtain ⟨hlow, hhigh⟩ := htime
      exact ⟨hid, rfl, rfl, ⟨le_rfl, by simp only [Queue.newRecord]; omega⟩, hlow,
        by simp only [Queue.newRecord]; omega⟩
    exact refined_write (r := q.newRecord input now) h hfit (by simp [Queue.newRecord])
      (fun x hx => nomatch hr.symm.trans hx) ha hpick
      (Jobs.next_enqueue_fresh hinput (jobs_eq_none hr ha))
  | some r =>
    have hrid := h.id_eq hkeys hid (d := .pending) hr
    have hjob := jobs_of_pending hr hrid
    have hfit := h.fit .pending _ r hr
    by_cases heq : r.identity = input.identity
    swap
    · rw [step_enqueue (gives_enqueue_conflict hinput ha hr hfit.valid heq)]
      exact ⟨h, none, hpick, Jobs.next_enqueue_conflict hinput hjob
        (mt (identity_iff hrid).mpr heq)⟩
    rw [step_enqueue (gives_enqueue_pending hinput ha hr hfit.valid heq)]
    have hnext : (q.jobs f).next q.retryDelayMs ⟨.enqueue input, now⟩ none = _ :=
      Jobs.next_enqueue_deliver hinput hjob ((identity_iff hrid).mp heq)
    rw [← hrid] at ha hr hnext ⊢
    have hold : ∀ x, f.pending.lookup (q.queueKey r.id) = some x → x.id = r.id := by
      intro x hx
      rw [Option.mem_unique hr hx]
    split
    next hst =>
      refine refined_write (r := Queue.Record.redeliver q r input.body) h
        ⟨hfit.id, hfit.body, rfl, hfit.counted, hfit.timed⟩ (h.live _ r hr) hold ha hpick ?_
      rw [hnext]
      simp only [Entry.deliver, Record.entry, Queue.Record.redeliver, hst]
      rfl
    next hst =>
      obtain ⟨hlow, hhigh⟩ := htime
      refine refined_write (r := Queue.Record.replace q r input.body now) h
        ⟨hfit.id, rfl, hfit.redelivery, hfit.counted,
          hlow, by simp only [Queue.Record.replace]; omega⟩
        (by simp [Queue.Record.replace]) hold ha hpick ?_
      have hlive := h.live _ r hr
      cases hstate : r.state <;> simp_all [Entry.deliver, Record.entry, Queue.Record.replace]
      all_goals rfl

end Enqueue

section Claim

/-- The loop of `claim`, over the names of pending records: it takes the first that is eligible. -/
theorem gives_claimLoop (h : Fits q ids claims f) (names : List String)
    (hnames : ∀ n ∈ names, f.pending.lookup n ≠ none) :
    (Gives handle now (q.claimLoop now names) f (.ok none) f ∧
      ∀ n ∈ names, ∀ r, f.pending.lookup n = some r → r.state = .running ∨ now < r.nextAttemptAt) ∨
    ∃ n r, f.pending.lookup n = some r ∧ r.state ≠ .running ∧ r.nextAttemptAt ≤ now ∧
      Gives handle now (q.claimLoop now names) f (.ok (some r.job))
        (f.write .pending n (Queue.Record.claim r)) := by
  induction names with
  | nil => exact Or.inl ⟨gives_pure, fun n hn => absurd hn List.not_mem_nil⟩
  | cons name rest ih =>
    obtain ⟨r, hr⟩ := Option.ne_none_iff_exists'.mp (hnames name List.mem_cons_self)
    have hread : Gives handle now (q.readRecord .pending name) f (.ok r) f :=
      gives_read hr (h.fit .pending _ r hr).valid
    by_cases hwait : r.state = .running ∨ now < r.nextAttemptAt
    · have hskip : ∀ {result f'}, Gives handle now (q.claimLoop now rest) f result f' →
          Gives handle now (q.claimLoop now (name :: rest)) f result f' := by
        intro result f' hrest
        refine gives_bind hread ?_
        rw [if_pos hwait]
        exact hrest
      rcases ih (List.forall_mem_cons.mp hnames).2 with ⟨hgives, hall⟩ | ⟨n, x, hx⟩
      · refine Or.inl ⟨hskip hgives, fun n hn x hx => ?_⟩
        rcases List.mem_cons.mp hn with rfl | hn
        · obtain rfl := Option.mem_unique hr hx
          exact hwait
        · exact hall n hn x hx
      · exact Or.inr ⟨n, x, hx.1, hx.2.1, hx.2.2.1, hskip hx.2.2.2⟩
    · have hgo := hwait
      rw [not_or, not_lt] at hgo
      refine Or.inr ⟨name, r, hr, hgo.1, hgo.2, gives_bind hread ?_⟩
      rw [if_neg hwait]
      exact gives_bind gives_atomicWrite gives_pure

theorem gives_claim {job : Option Job}
    (hloop : Gives handle now (q.claimLoop now (f.pending.keys.insertionSort (· ≤ ·))) f (.ok job)
      f') : q.step f ⟨.claim, now⟩ = (.reply (.claimed job), f') :=
  step_of_gives (r := .ok (.claimed job))
    (gives_bind (gives_bind (gives_effect rfl) (gives_bind (gives_effect rfl) hloop)) gives_pure)

theorem refined_claim (h : Fits q ids (claims + 1) f) :
    Refined q ids claims f ⟨.claim, now⟩ (q.step f ⟨.claim, now⟩) := by
  have hnames : ∀ n ∈ f.pending.keys.insertionSort (· ≤ ·), f.pending.lookup n ≠ none := by
    intro n hn
    rw [List.mem_insertionSort] at hn
    exact fun hnone => AList.lookup_eq_none.mp hnone hn
  rcases gives_claimLoop h _ hnames with ⟨hgives, hall⟩ | ⟨n, r, hr, hrunning, htime, hgives⟩
  · rw [gives_claim hgives]
    refine ⟨h.mono (Nat.le_succ _), none, fun _ id => ?_, rfl⟩
    rintro ⟨e, he, hrunning, hterminal, htime⟩
    obtain ⟨d, r, hr, -, rfl⟩ := exists_of_jobs he
    cases d with
    | archive => exact hterminal (h.ended _ r hr)
    | pending =>
      have hmem : q.queueKey id ∈ f.pending.keys.insertionSort (· ≤ ·) := by
        rw [List.mem_insertionSort]
        by_contra hnot
        exact nomatch (AList.lookup_eq_none.mpr hnot).symm.trans hr
      rcases hall _ hmem r hr with hst | hlt
      · exact hrunning hst
      · exact absurd htime (not_le.mpr hlt)
  · rw [gives_claim hgives]
    obtain rfl := h.named .pending n r hr
    have hjob := jobs_of_pending hr rfl
    have hfit := h.fit .pending _ r hr
    have hnone := (h.settled _).resolve_left fun hnone => nomatch hnone.symm.trans hr
    have hpick : (q.jobs f).Allows ⟨.claim, now⟩ (some r.id) :=
      fun _ => ⟨r.entry, hjob, hrunning, h.live _ r hr, htime⟩
    have hcounted : 0 ≤ r.attempts + 1 ∧ r.attempts + 1 + claims < 2 ^ 53 := by
      have := hfit.counted
      omega
    refine refined_write (r := Queue.Record.claim r) (h.mono (Nat.le_succ _))
      ⟨hfit.id, hfit.body, hfit.redelivery, hcounted, hfit.timed⟩ (by simp [Queue.Record.claim])
      (fun x hx => ?_) hnone hpick (Jobs.next_claim hjob)
    rw [Option.mem_unique hr hx]
    rfl

end Claim

section Finish

variable {id : String} {outcome : Outcome}

theorem not_running_of_pending (h : Fits q ids claims f)
    (hp : ∀ r, f.pending.lookup (q.queueKey id) = some r → r.id = id → r.state ≠ .running) :
    ∀ e, q.jobs f id = some e → e.state ≠ .running := by
  intro e he
  obtain ⟨d, r, hr, hid, rfl⟩ := exists_of_jobs he
  cases d with
  | pending => exact hp r hr hid
  | archive => simp [Record.entry, h.ended _ r hr]

def archivedFiles (q : Queue) (f : Files) (r : Record) : Files :=
  (f.write .archive (q.queueKey r.id) { r with state := .terminal }).remove .pending
    (q.queueKey r.id)

/-- The files after a `finish` of a running record. -/
def finishedFiles (q : Queue) (f : Files) (r : Record) (now : Int) : Outcome → Files
  | .terminal => archivedFiles q f r
  | .retry => f.write .pending (q.queueKey r.id) (Queue.Record.retry q r now)

variable {r : Record}

theorem gives_finish_conflict (hr : f.pending.lookup (q.queueKey id) = some r)
    (hv : q.valid r = true) (hempty : id ≠ "") (hnot : ¬ (r.id = id ∧ r.state = .running)) :
    Gives handle now (q.finish id outcome) f (.error "compiler queue state conflict") f := by
  unfold Queue.finish
  rw [if_neg hempty]
  refine gives_bind (gives_read hr hv) ?_
  rw [if_pos (not_and_or.mp hnot)]
  exact gives_throw

theorem gives_finish (hr : f.pending.lookup (q.queueKey r.id) = some r)
    (hv : q.valid r = true) (hempty : r.id ≠ "") (hst : r.state = .running) :
    Gives handle now (q.finish r.id outcome) f (.ok ()) (finishedFiles q f r now outcome) := by
  unfold Queue.finish
  rw [if_neg hempty]
  refine gives_bind (gives_read hr hv) ?_
  rw [if_neg (by simp [hst])]
  cases outcome with
  | terminal => exact gives_bind gives_atomicWrite gives_durableRemove
  | retry => exact gives_bind (gives_effect rfl) gives_atomicWrite

theorem step_finish {r : Except String Unit} (hr : Gives handle now (q.finish id outcome) f r f') :
    q.step f ⟨.finish id outcome, now⟩ = (answerOf (r.map fun _ => .finished), f') := by
  refine step_of_gives ?_
  cases r with
  | ok b => exact gives_bind hr gives_pure
  | error err => exact gives_bind_error hr

theorem retryDelay_bounds {base : Int} (attempts : Int) (hbase : 0 ≤ base) :
    0 ≤ retryDelay base attempts ∧ retryDelay base attempts ≤ 300000 := by
  unfold retryDelay
  have hpow : 0 ≤ base * 2 ^ (min (max (attempts - 1) 0) 8).toNat :=
    Int.mul_nonneg hbase (Int.pow_nonneg (by decide))
  omega

theorem archivedFiles_pending {n : String} : (archivedFiles q f r).pending.lookup n =
      if n = q.queueKey r.id then none else f.pending.lookup n := by
  simp [archivedFiles]

theorem archivedFiles_archive {n : String} : (archivedFiles q f r).archive.lookup n =
      if n = q.queueKey r.id then some { r with state := .terminal } else f.archive.lookup n := by
  simp [archivedFiles]

theorem jobs_archive (hr : f.pending.lookup (q.queueKey r.id) = some r) :
    q.jobs (archivedFiles q f r) =
      Function.update (q.jobs f) r.id (some { r.entry with state := .terminal }) := by
  funext id
  unfold Queue.jobs
  rw [archivedFiles_pending, archivedFiles_archive]
  by_cases hid : id = r.id
  · subst hid
    simp [Record.entry]
  · rw [Function.update_of_ne hid]
    by_cases hname : q.queueKey id = q.queueKey r.id
    · -- another id of the same name has no job, before as after
      have hne : ¬ r.id = id := fun h => hid h.symm
      have hp := congrArg (fun n => (f.pending.lookup n : Option Record)) hname
      have hfilter : ∀ x : Record, x.id = r.id → (some x).filter (·.id = id) = none := by
        intro x hx
        simp [hx, hne]
      rw [if_pos hname, if_pos hname, show f.pending.lookup (q.queueKey id) =
        some r from hp.trans hr]
      exact (congrArg (Option.map Record.entry) (hfilter { r with state := .terminal } rfl)).trans
        (congrArg (Option.map Record.entry) (hfilter r rfl)).symm
    · rw [if_neg hname, if_neg hname]

theorem Fits.archive (h : Fits q ids claims f) (hr : f.pending.lookup (q.queueKey r.id) = some r) :
    Fits q ids claims (archivedFiles q f r) := by
  have hfit := h.fit .pending _ r hr
  have hpending : ∀ n x, (archivedFiles q f r).pending.lookup n = some x →
      f.pending.lookup n = some x := by
    intro n x hx
    rw [archivedFiles_pending] at hx
    exact (Option.ite_none_left_eq_some.mp hx).2
  have harchive : ∀ n x, (archivedFiles q f r).archive.lookup n = some x →
      (n = q.queueKey r.id ∧ x = { r with state := .terminal }) ∨ f.archive.lookup n = some x := by
    intro n x hx
    rw [archivedFiles_archive] at hx
    split at hx
    next hn => exact Or.inl ⟨hn, (Option.some.inj hx).symm⟩
    · exact Or.inr hx
  refine ⟨fun d n x hx => ?_, fun d n x hx => ?_, fun n x hx => h.live n x (hpending n x hx),
    fun n x hx => ?_, fun n => ?_⟩
  · cases d with
    | pending => exact h.named .pending n x (hpending n x hx)
    | archive =>
      rcases harchive n x hx with ⟨rfl, rfl⟩ | hx
      · rfl
      · exact h.named .archive n x hx
  · cases d with
    | pending => exact h.fit .pending n x (hpending n x hx)
    | archive =>
      rcases harchive n x hx with ⟨rfl, rfl⟩ | hx
      · exact ⟨hfit.id, hfit.body, hfit.redelivery, hfit.counted, hfit.timed⟩
      · exact h.fit .archive n x hx
  · rcases harchive n x hx with ⟨rfl, rfl⟩ | hx
    · rfl
    · exact h.ended n x hx
  · unfold Files.Settled
    rw [archivedFiles_pending, archivedFiles_archive]
    by_cases hn : n = q.queueKey r.id
    · exact Or.inl (if_pos hn)
    · rw [if_neg hn, if_neg hn]
      exact h.settled n

theorem Fit.retry (h : Fit q ids claims r) (hq : q.Configured) (htime : IsTime now) :
    Fit q ids claims (Queue.Record.retry q r now) := by
  obtain ⟨hlow, hhigh⟩ := htime
  have hdelay := retryDelay_bounds r.attempts (le_trans (by decide) hq.1)
  refine ⟨h.id, ?_, rfl, h.counted, ?_⟩
  · have hredelivery := h.redelivery
    simp only [Queue.Record.retry]
    cases hbody : r.redeliveryBody with
    | none =>
      rw [hbody] at hredelivery
      rw [← hredelivery]
      exact h.body
    | some body =>
      rw [hbody] at hredelivery
      rw [← hredelivery]
      rfl
  · simp only [Queue.Record.retry]
    omega

theorem refined_finish (h : Fits q ids claims f) (hempty : "" ∉ ids) (hq : q.Configured)
    (htime : IsTime now) :
    Refined q ids claims f ⟨.finish id outcome, now⟩ (q.step f ⟨.finish id outcome, now⟩) := by
  have hpick : (q.jobs f).Allows ⟨.finish id outcome, now⟩ none := fun h => nomatch h
  by_cases hid : id = ""
  · have hgives : Gives handle now (q.finish id outcome) f
        (.error "invalid compiler queue outcome") f := by
      unfold Queue.finish
      rw [if_pos hid]
      exact gives_throw
    rw [step_finish hgives]
    refine ⟨h, none, hpick, Jobs.next_finish_rejected
      (not_running_of_pending h fun r hr hrid => ?_)⟩
    exact absurd (hid ▸ hrid ▸ (h.fit .pending _ r hr).id) hempty
  cases hr : f.pending.lookup (q.queueKey id) with
  | none =>
    have hgives : Gives handle now (q.finish id outcome) f
        (.error "ENOENT: no such file or directory") f := by
      unfold Queue.finish
      rw [if_neg hid]
      exact gives_bind_error (gives_read_none hr)
    rw [step_finish hgives]
    exact ⟨h, none, hpick, Jobs.next_finish_rejected (not_running_of_pending h fun r hr' =>
      nomatch hr.symm.trans hr')⟩
  | some r =>
    have hfit := h.fit .pending _ r hr
    by_cases hrun : r.id = id ∧ r.state = .running
    swap
    · rw [step_finish (gives_finish_conflict hr hfit.valid hid hrun)]
      refine ⟨h, none, hpick, Jobs.next_finish_rejected
        (not_running_of_pending h fun x hx hxid => ?_)⟩
      obtain rfl := Option.mem_unique hr hx
      exact fun hst => hrun ⟨hxid, hst⟩
    obtain ⟨rfl, hst⟩ := hrun
    have hjob := jobs_of_pending hr rfl
    rw [step_finish (gives_finish hr hfit.valid hid hst)]
    cases outcome with
    | terminal =>
      exact ⟨h.archive hr, none, hpick,
        (Jobs.next_finish hjob hst).trans (congrArg (Prod.mk _) (jobs_archive hr).symm)⟩
    | retry =>
      have hnone := (h.settled _).resolve_left fun hnone => nomatch hnone.symm.trans hr
      refine refined_write (r := Queue.Record.retry q r now) h (hfit.retry hq htime)
        (by simp [Queue.Record.retry]) (fun x hx => ?_) hnone hpick (Jobs.next_finish hjob hst)
      rw [Option.mem_unique hr hx]
      rfl

end Finish

section Initialize

def Record.restart (r : Record) : Record :=
  if r.state = .running then { r with state := .pending } else r

/-- The files after `initialize` went through some names. -/
structure Restarted (f : Files) (names : List String) (f' : Files) : Prop where
  archive : f'.archive = f.archive
  pending : ∀ n, f'.pending.lookup n =
    if n ∈ names then (f.pending.lookup n).map Record.restart else f.pending.lookup n

theorem gives_initializeFile (now : Int) {name : String} {r : Record}
    (hr : f.pending.lookup name = some r) (hv : q.valid r = true)
    (ha : f.archive.lookup name = none) :
    ∃ f', Gives handle now (q.initializeFile name) f (.ok ()) f' ∧ Restarted f [name] f' := by
  have hread : ∀ {r' f'}, Gives handle now (if r.state = .running then
      atomicWrite .pending name { r with state := .pending } else pure ()) f r' f' →
      Gives handle now (q.initializeFile name) f r' f' := fun h =>
    gives_bind (gives_read hr hv) (gives_bind (gives_readIfPresent_none ha) h)
  by_cases hst : r.state = .running
  · refine ⟨f.write .pending name { r with state := .pending }, hread ?_, rfl, fun n => ?_⟩
    · rw [if_pos hst]
      exact gives_atomicWrite
    · by_cases hn : n = name
      · subst hn
        simp [hr, Record.restart, hst]
      · simp [hn]
  · refine ⟨f, hread ?_, rfl, fun n => ?_⟩
    · rw [if_neg hst]
      exact gives_pure
    · by_cases hn : n = name
      · subst hn
        simp [hr, Record.restart, hst]
      · simp [hn]

theorem Record.restart_restart (r : Record) : r.restart.restart = r.restart := by
  unfold Record.restart
  split <;> simp_all

theorem valid_restart (r : Record) : q.valid r.restart = q.valid r := by
  unfold Record.restart
  split <;> rfl

/-- The loop of `initialize`, over the names of pending records of which none is archived. -/
theorem gives_initializeFiles (now : Int) (names : List String)
    (hnames : ∀ n ∈ names, (∃ r, f.pending.lookup n = some r ∧ q.valid r = true) ∧
      f.archive.lookup n = none) :
    ∃ f', Gives handle now (q.initializeFiles names) f (.ok ()) f' ∧ Restarted f names f' := by
  induction names generalizing f with
  | nil => exact ⟨f, gives_pure, rfl, fun n => by simp⟩
  | cons name rest ih =>
    obtain ⟨⟨r, hr, hv⟩, ha⟩ := hnames name List.mem_cons_self
    obtain ⟨f₁, hgives, harchive, hpending⟩ := gives_initializeFile now hr hv ha
    have hrest : ∀ n ∈ rest, (∃ r, f₁.pending.lookup n = some r ∧ q.valid r = true) ∧
        f₁.archive.lookup n = none := by
      intro n hn
      obtain ⟨⟨x, hx, hxv⟩, hxa⟩ := hnames n (List.mem_cons_of_mem _ hn)
      refine ⟨?_, by rw [harchive]; exact hxa⟩
      rw [hpending, hx]
      split
      · exact ⟨x.restart, rfl, (valid_restart x).trans hxv⟩
      · exact ⟨x, rfl, hxv⟩
    obtain ⟨f₂, hgives₂, harchive₂, hpending₂⟩ := ih hrest
    refine ⟨f₂, gives_bind hgives hgives₂, harchive₂.trans harchive, fun n => ?_⟩
    rw [hpending₂, hpending]
    by_cases hname : n = name
    · subst hname
      simp only [List.mem_cons, true_or, if_true, hr, Option.map_some, Record.restart_restart,
        List.not_mem_nil, or_false, ite_self]
    · simp [hname]

theorem jobs_restart {id : String} (h : Fits q ids claims f) (harchive : f'.archive = f.archive)
    (hlookup : ∀ n, f'.pending.lookup n = (f.pending.lookup n).map Record.restart) :
    (q.jobs f id).map Entry.restart = q.jobs f' id := by
  have hrestart : ∀ x : Record, x.restart.id = x.id ∧ x.entry.restart = x.restart.entry := by
    intro x
    unfold Record.restart Entry.restart Record.entry
    split <;> exact ⟨rfl, rfl⟩
  cases hp : f.pending.lookup (q.queueKey id) with
  | some r =>
    have hp' := (hlookup (q.queueKey id)).trans (congrArg (Option.map Record.restart) hp)
    by_cases hid : r.id = id
    · rw [jobs_of_pending hp hid, jobs_of_pending hp' ((hrestart r).1.trans hid)]
      exact congrArg some (hrestart r).2
    · rw [jobs_of_other hp hid, jobs_of_other hp' fun heq => hid ((hrestart r).1.symm.trans heq)]
      rfl
  | none =>
    have hp' := (hlookup (q.queueKey id)).trans (congrArg (Option.map Record.restart) hp)
    have hsame : q.jobs f' id = q.jobs f id := by
      unfold Queue.jobs
      rw [hp', hp, harchive]
      rfl
    rw [hsame]
    cases hjob : q.jobs f id with
    | none => rfl
    | some e =>
      obtain ⟨d, r, hr, hid, rfl⟩ := exists_of_jobs hjob
      cases d with
      | pending => exact nomatch hp.symm.trans hr
      | archive => simp [Entry.restart, Record.entry, h.ended _ r hr]

theorem refined_initialize (h : Fits q ids claims f) :
    Refined q ids claims f ⟨.initializeQueue, now⟩ (q.step f ⟨.initializeQueue, now⟩) := by
  have hnames : ∀ n ∈ f.pending.keys.insertionSort (· ≤ ·),
      (∃ r, f.pending.lookup n = some r ∧ q.valid r = true) ∧ f.archive.lookup n = none := by
    intro n hn
    rw [List.mem_insertionSort] at hn
    obtain ⟨r, hr⟩ := Option.ne_none_iff_exists'.mp fun hnone => AList.lookup_eq_none.mp hnone hn
    exact ⟨⟨r, hr, (h.fit .pending n r hr).valid⟩,
      (h.settled n).resolve_left fun hnone => nomatch hnone.symm.trans hr⟩
  obtain ⟨f', hgives, harchive, hpending⟩ := gives_initializeFiles now _ hnames
  have hstep : q.step f ⟨.initializeQueue, now⟩ = (.reply .initialized, f') :=
    step_of_gives (r := .ok .initialized)
      (gives_bind (gives_bind (gives_effect rfl) hgives) gives_pure)
  have hlookup : ∀ n, f'.pending.lookup n = (f.pending.lookup n).map Record.restart := by
    intro n
    rw [hpending]
    split
    · rfl
    next hn =>
      rw [List.mem_insertionSort] at hn
      rw [AList.lookup_eq_none.mpr hn]
      rfl
  have hrestart : ∀ x : Record, x.restart.id = x.id ∧ (x.state ≠ .terminal →
      x.restart.state ≠ .terminal) ∧ (Fit q ids claims x → Fit q ids claims x.restart) := by
    intro x
    unfold Record.restart
    split
    · exact ⟨rfl, by simp, fun hx => ⟨hx.id, hx.body, hx.redelivery, hx.counted, hx.timed⟩⟩
    · exact ⟨rfl, id, id⟩
  rw [hstep]
  refine ⟨⟨fun d n r hr => ?_, fun d n r hr => ?_, fun n r hr => ?_, fun n r hr => ?_, fun n => ?_⟩,
    none, (fun h => nomatch h), ?_⟩
  · cases d with
    | archive => exact h.named .archive n r (show f.archive.lookup n = some r from harchive ▸ hr)
    | pending =>
      obtain ⟨x, hx, rfl⟩ := Option.map_eq_some_iff.mp ((hlookup n).symm.trans hr)
      rw [(hrestart x).1]
      exact h.named .pending n x hx
  · cases d with
    | archive => exact h.fit .archive n r (show f.archive.lookup n = some r from harchive ▸ hr)
    | pending =>
      obtain ⟨x, hx, rfl⟩ := Option.map_eq_some_iff.mp ((hlookup n).symm.trans hr)
      exact (hrestart x).2.2 (h.fit .pending n x hx)
  · obtain ⟨x, hx, rfl⟩ := Option.map_eq_some_iff.mp ((hlookup n).symm.trans hr)
    exact (hrestart x).2.1 (h.live n x hx)
  · exact h.ended n r (harchive ▸ hr)
  · unfold Files.Settled
    rw [hlookup, harchive, Option.map_eq_none_iff]
    exact h.settled n
  · refine congrArg (Prod.mk _) (funext fun id => ?_)
    exact jobs_restart h harchive hlookup

end Initialize

end Calls

/-! ## Every run -/

/-- The IDs of the jobs that are delivered. -/
def deliveredIds (inputs : List Timed) : Set String :=
  {id | ∃ timed ∈ inputs, ∃ input, timed.call = .enqueue input ∧ validInput input ∧ input.id = id}

/-- The number of claims. -/
def claimsIn (inputs : List Timed) : Nat := inputs.countP (·.call = .claim)

/-- The files, with the calls to come. -/
structure Ahead (q : Queue) (ids : Set String) (inputs : List Timed) (f : Files) : Prop where
  fits : Fits q ids (claimsIn inputs) f
  bounded : claimsIn inputs < 2 ^ 53
  times : ∀ timed ∈ inputs, IsTime timed.now
  delivered : ∀ timed ∈ inputs, ∀ input, timed.call = .enqueue input → validInput input →
    input.id ∈ ids

theorem Ahead.step {q : Queue} {ids : Set String} {timed : Timed} {rest : List Timed} {f : Files}
    (h : Ahead q ids (timed :: rest) f) (hq : q.Configured) (hkeys : Set.InjOn q.queueKey ids)
    (hempty : "" ∉ ids) :
    Ahead q ids rest (q.step f timed).2 ∧ ∃ pick, (q.jobs f).Allows timed pick ∧
      (q.jobs f).next q.retryDelayMs timed pick =
        ((q.step f timed).1, q.jobs (q.step f timed).2) := by
  obtain ⟨call, now⟩ := timed
  have htime := h.times _ List.mem_cons_self
  have hclaims : claimsIn (⟨call, now⟩ :: rest) =
      claimsIn rest + if call = .claim then 1 else 0 := by
    simp [claimsIn, List.countP_cons]
  have hstep : Refined q ids (claimsIn rest) f ⟨call, now⟩ (q.step f ⟨call, now⟩) := by
    have hfits := h.fits
    rw [hclaims] at hfits
    cases call with
    | initializeQueue => exact refined_initialize hfits
    | enqueue input =>
      refine refined_enqueue hfits hkeys (h.delivered _ List.mem_cons_self input rfl) htime ?_
      have hbounded := h.bounded
      rw [hclaims] at hbounded
      simpa using hbounded
    | claim => exact refined_claim hfits
    | finish id outcome => exact refined_finish hfits hempty hq htime
  refine ⟨⟨hstep.1, ?_, (List.forall_mem_cons.mp h.times).2,
    (List.forall_mem_cons.mp h.delivered).2⟩, hstep.2⟩
  have hbounded := h.bounded
  omega

/-- Every run of the queue on files with fewer than `2 ^ 53` claims is one of the abstract queue. -/
theorem files_refine {q : Queue} (hq : q.Configured) {inputs : List Timed}
    (htimes : ∀ timed ∈ inputs, IsTime timed.now)
    (hkeys : Set.InjOn q.queueKey (deliveredIds inputs)) (hclaims : claimsIn inputs < 2 ^ 53) :
    (Jobs.spec q.retryDelayMs).Runs (fun _ => none) inputs
      ((outputs q.step {} inputs).map fun o => (o.1, q.jobs o.2)) := by
  have hempty : "" ∉ deliveredIds inputs := by
    rintro ⟨timed, -, input, -, hinput, hid⟩
    simp [validInput, hid] at hinput
  have hinit : Ahead q (deliveredIds inputs) inputs {} := by
    refine ⟨⟨fun d n r hr => ?_, fun d n r hr => ?_, fun n r hr => ?_, fun n r hr => ?_,
      fun n => Or.inl (by simp)⟩, hclaims, htimes, fun timed ht input hcall hinput =>
        ⟨timed, ht, input, hcall, hinput, rfl⟩⟩
    · cases d <;> simp [Files.dir] at hr
    · cases d <;> simp [Files.dir] at hr
    · simp at hr
    · simp at hr
  exact Spec.runs_of_steps (A := Jobs.spec q.retryDelayMs) (I := Ahead q (deliveredIds inputs))
    (fun f timed rest h => h.step hq hkeys hempty) inputs {} hinit

/-- **The two queues are one.** Every run of either queue is one of the abstract queue, which gives
each answer and each change of a job but for the job that a `claim` takes. -/
theorem queues_refine (q : Queue) (hq : q.Configured) (inputs : List Timed)
    (htimes : ∀ timed ∈ inputs, IsTime timed.now)
    (hkeys : Set.InjOn q.queueKey (deliveredIds inputs)) (hclaims : claimsIn inputs < 2 ^ 53) :
    (Jobs.spec q.retryDelayMs).Runs (fun _ => none) inputs
        ((outputs q.step {} inputs).map fun o => (o.1, q.jobs o.2)) ∧
      (Jobs.spec q.retryDelayMs).Runs (fun _ => none) inputs
        ((outputs (Memory.step q.retryDelayMs) {} inputs).map fun o => (o.1, o.2.jobs)) :=
  ⟨files_refine hq htimes hkeys hclaims, Memory.memory_refines q.retryDelayMs inputs⟩

section Example

/-- A job that is delivered, claimed and to be tried again. -/
def retriedJob : List Timed :=
  [⟨.enqueue (exampleInput [1]), 0⟩, ⟨.claim, 0⟩, ⟨.finish "job" .retry, 0⟩]

theorem queues_refine_retried : claimsIn retriedJob = 1 ∧
      (Jobs.spec exampleQueue.retryDelayMs).Runs (fun _ => none) retriedJob
        ((outputs exampleQueue.step {} retriedJob).map fun o => (o.1, exampleQueue.jobs o.2)) ∧
      (Jobs.spec exampleQueue.retryDelayMs).Runs (fun _ => none) retriedJob
        ((outputs (Memory.step exampleQueue.retryDelayMs) {} retriedJob).map fun o =>
          (o.1, o.2.jobs)) := by
  have hids : ∀ id ∈ deliveredIds retriedJob, id = "job" := by
    rintro id ⟨timed, ht, input, hcall, -, rfl⟩
    simp only [retriedJob, List.mem_cons, List.not_mem_nil, or_false] at ht
    rcases ht with rfl | rfl | rfl
    · obtain rfl := Call.enqueue.inj hcall
      rfl
    · cases hcall
    · cases hcall
  refine ⟨by decide, queues_refine exampleQueue ⟨by decide, by decide⟩ retriedJob
    (fun timed ht => ?_) (fun id hid id' hid' _ => (hids id hid).trans (hids id' hid').symm)
    (by decide)⟩
  simp only [retriedJob, List.mem_cons, List.not_mem_nil, or_false] at ht
  rcases ht with rfl | rfl | rfl <;> exact ⟨by decide, by decide⟩

def claimRound : List Timed := [⟨.claim, 0⟩, ⟨.initializeQueue, 0⟩]

/-- A job that is delivered once and claimed `n` times. -/
def claimedJob (n : Nat) : List Timed :=
  ⟨.enqueue (exampleInput [1]), 0⟩ :: (List.replicate n claimRound).flatten

theorem claimedJob_succ (n : Nat) : claimedJob (n + 1) = claimedJob n ++ claimRound := by
  simp [claimedJob, List.replicate_succ']

def claimedRecord (state : State) (n : Nat) : Record where
  id := "job"
  deploymentId := "deployment"
  jobFingerprint := String.ofList (List.replicate 64 'a')
  body := [1]
  bodySha256 := exampleQueue.sha256 [1]
  state := state
  attempts := n
  nextAttemptAt := 0

def jobFile : String := exampleQueue.queueKey "job"

def claimedFiles (state : State) (n : Nat) : Files :=
  ({} : Files).write .pending jobFile (claimedRecord state n)

variable {state : State} {n : Nat}

theorem valid_claimedRecord : exampleQueue.valid (claimedRecord state n) = true ↔ n < 2 ^ 53 := by
  simp only [Queue.valid, claimedRecord, Option.map_none, decide_true, Bool.and_true]
  simp [isSafeInteger]
  omega

theorem lookup_claimedFiles :
    (claimedFiles state n).pending.lookup jobFile = some (claimedRecord state n) := by
  simp [claimedFiles]

theorem write_claimedFiles (state state' : State) (n n' : Nat) :
    (claimedFiles state n).write .pending jobFile (claimedRecord state' n') =
      claimedFiles state' n' := by
  simp [claimedFiles, Files.write]

theorem step_claim_claimedFiles (hn : n < 2 ^ 53) :
    (exampleQueue.step (claimedFiles .pending n) ⟨.claim, 0⟩).2 =
      claimedFiles .running (n + 1) := by
  have hloop : Gives handle 0 (exampleQueue.claimLoop 0
      ((claimedFiles .pending n).pending.keys.insertionSort (· ≤ ·))) (claimedFiles .pending n)
      (.ok (some (claimedRecord .pending n).job)) (claimedFiles .running (n + 1)) := by
    refine gives_bind (gives_read lookup_claimedFiles (valid_claimedRecord.mpr hn)) ?_
    rw [← write_claimedFiles .pending .running n (n + 1)]
    exact gives_bind gives_atomicWrite gives_pure
  rw [gives_claim hloop]

/-- A restart of the queue, while the record of the job can be read. -/
theorem step_restart_claimedFiles (hn : n < 2 ^ 53) :
    (exampleQueue.step (claimedFiles .running n) ⟨.initializeQueue, 0⟩).2 =
      claimedFiles .pending n := by
  have hfile : Gives handle 0 (exampleQueue.initializeFile jobFile) (claimedFiles .running n)
      (.ok ()) (claimedFiles .pending n) := by
    refine gives_bind (gives_read lookup_claimedFiles (valid_claimedRecord.mpr hn)) ?_
    refine gives_bind (gives_readIfPresent_none rfl) ?_
    rw [← write_claimedFiles .running .pending n n]
    exact gives_atomicWrite
  have hcall : Gives handle 0 (Call.initializeQueue.program exampleQueue) (claimedFiles .running n)
      (.ok .initialized) (claimedFiles .pending n) :=
    gives_bind (gives_bind (gives_effect rfl) (gives_bind hfile gives_pure)) gives_pure
  rw [step_of_gives hcall]

/-- A restart of the queue when the attempts of the job are no safe integer any more. -/
theorem step_restart_exhausted (hn : ¬ n < 2 ^ 53) :
    (exampleQueue.step (claimedFiles .running n) ⟨.initializeQueue, 0⟩).1 = .rejected := by
  have hread : Gives handle 0 (exampleQueue.readRecord .pending jobFile)
      (claimedFiles .running n) (.error "invalid persisted compiler job")
      (claimedFiles .running n) := by
    have hlookup : ((claimedFiles .running n).dir .pending).lookup jobFile =
      some (claimedRecord .running n) := lookup_claimedFiles
    refine gives_bind_error (gives_bind (gives_effect (x := some (claimedRecord .running n))
      (congrArg (fun x => some (x, claimedFiles .running n)) hlookup)) ?_)
    show Gives handle 0 (if exampleQueue.valid (claimedRecord .running n) then
      pure (some (claimedRecord .running n)) else throw _) _ _ _
    rw [if_neg (mt valid_claimedRecord.mp hn)]
    exact gives_throw
  have hcall : Gives handle 0 (Call.initializeQueue.program exampleQueue) (claimedFiles .running n)
      (.error "invalid persisted compiler job") (claimedFiles .running n) :=
    gives_bind_error (gives_bind (gives_effect rfl) (gives_bind_error (gives_bind_error hread)))
  rw [step_of_gives hcall]
  rfl

theorem after_claimedJob (hn : n < 2 ^ 53) :
    after exampleQueue.step {} (claimedJob n) = claimedFiles .pending n := by
  induction n with
  | zero =>
    have hfresh : Gives handle 0 (exampleQueue.enqueue (exampleInput [1])) {} (.ok false) _ :=
      gives_enqueue_fresh (by decide) rfl rfl
    have hnew : exampleQueue.newRecord (exampleInput [1]) 0 = claimedRecord .pending 0 := by
      simp [Queue.newRecord, claimedRecord, exampleInput]
    have hkey : exampleQueue.queueKey (exampleInput [1]).id = jobFile := rfl
    rw [claimedJob, List.replicate_zero, List.flatten_nil, after_cons, after_nil,
      step_enqueue hfresh, hnew, hkey, claimedFiles]
  | succ n ih =>
    rw [claimedJob_succ, after_append, ih (by omega)]
    rw [claimRound, after_cons, after_cons, after_nil, step_claim_claimedFiles (by omega),
      step_restart_claimedFiles hn]

def claimedMemory (n : Nat) : Memory where
  pending := [{
    id := "job", deploymentId := "deployment"
    jobFingerprint := String.ofList (List.replicate 64 'a'), body := [1], state := .pending
    attempts := n, nextAttemptAt := 0 }]

theorem after_claimedJob_memory (n : Nat) :
    after (Memory.step exampleQueue.retryDelayMs) {} (claimedJob n) = claimedMemory n := by
  induction n with
  | zero => rfl
  | succ n ih =>
    rw [claimedJob_succ, after_append, ih]
    rfl

/-- After `2 ^ 53` claims of one job, the queue on files can no longer be started, and the queue in
memory can. -/
theorem claims_exhausted :
    (outputs exampleQueue.step {} (claimedJob (2 ^ 53))).getLast?.map (·.1) = some .rejected ∧
      (outputs (Memory.step exampleQueue.retryDelayMs) {} (claimedJob (2 ^ 53))).getLast?.map
      (·.1) = some (.reply .initialized) := by
  have hsplit : claimedJob (2 ^ 53) =
      (claimedJob (2 ^ 53 - 1) ++ [⟨.claim, 0⟩]) ++ [⟨.initializeQueue, 0⟩] := by
    rw [List.append_assoc]
    exact claimedJob_succ (2 ^ 53 - 1)
  rw [hsplit, getLast?_outputs, getLast?_outputs, after_append, after_append,
    after_claimedJob (by decide), after_claimedJob_memory, after_cons, after_nil,
    step_claim_claimedFiles (by decide)]
  exact ⟨congrArg some (step_restart_exhausted (by decide)), rfl⟩

end Example

end SharedNode.Compiler.JobQueue
