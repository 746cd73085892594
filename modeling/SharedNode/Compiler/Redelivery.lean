import SharedNode.Compiler.QueueContract

/-!
# Redelivered bodies

Whether a claim of the queue (`compiler/src/job-queue.mjs`) returns the body delivered last. A body
that is delivered while its job runs is kept beside the body that was claimed, and takes its place
only when the job is retried: an `initialize` before that resets the record to the older body
(`stale_body_after_restart`). Where no `initialize` finds such a record, every claim returns the
body of the last delivery (`claims_latest_body`).
-/

namespace SharedNode.Compiler.JobQueue

open Effect Text Prog

/-- The input of an `enqueue` that completed: it returned, or was cut after its write. -/
def Happened.delivered : Happened → Option Input
  | ⟨.enqueue input, some (.ok _), _⟩ | ⟨.enqueue input, none, true⟩ => some input
  | _ => none

/-- The body of the last completed `enqueue` of `id`. -/
def latestBody (id : String) : List Happened → Option Bytes
  | [] => none
  | h :: before =>
    match h.delivered with
    | some input => if input.id = id then some input.body else latestBody id before
    | none => latestBody id before

/-- The records that count: a pending record whose job is not archived. -/
def Live (f : Files) (name : String) (r : Record) : Prop :=
  f.pending.lookup name = some r ∧ f.archive.lookup name = none

/-- No running job has a redelivered body beside the one that was claimed. -/
def NoRedelivery (f : Files) : Prop :=
  ∀ name r, Live f name r → r.state = .running → r.redeliveryBody = none

/-- Every `initialize` of the history starts without such a job. -/
def Calm (q : Queue) (events : List Event) : Prop :=
  ∀ before times after, events = before ++ ⟨.initializeQueue, times⟩ :: after →
    NoRedelivery (Machine.run q before).files

/-- The record holds the body delivered last, beside the claimed one only while the job runs. -/
structure Current (before : List Happened) (r : Record) : Prop where
  latest : latestBody r.id before = some (r.redeliveryBody.getD r.body)
  waiting : r.state ≠ .running → r.redeliveryBody = none

def AllCurrent (f : Files) (before : List Happened) : Prop :=
  ∀ name r, Live f name r → Current before r

section Step

variable {q : Queue} {f f' : Files} {before : List Happened}

variable {h : Happened} {input : Input} {name : String}

theorem latestBody_skip (hd : h.delivered = none) (id : String) :
    latestBody id (h :: before) = latestBody id before := by
  simp only [latestBody, hd]

theorem latestBody_other (hd : h.delivered = some input)
    {id : String} (hne : input.id ≠ id) : latestBody id (h :: before) = latestBody id before := by
  simp only [latestBody, hd, if_neg hne]

theorem latestBody_head (hd : h.delivered = some input) :
    latestBody input.id (h :: before) = some input.body := by
  simp only [latestBody, hd, if_true]

theorem AllCurrent.skip (hc : AllCurrent f before) (hd : h.delivered = none) :
    AllCurrent f (h :: before) := fun name r hr =>
  ⟨(latestBody_skip hd _).trans (hc name r hr).latest, (hc name r hr).waiting⟩

/-- A write to `pending` keeps every live record current if the new one is. -/
theorem AllCurrent.write {r' : Record} (hr' : f.archive.lookup name = none → Current before r')
    (hc : ∀ n r, n ≠ name → Live f n r → Current before r) :
    AllCurrent (f.write .pending name r') before := by
  rintro n r ⟨hr, ha⟩
  by_cases hn : n = name
  · subst hn
    obtain rfl : r' = r := by simpa using hr
    exact hr' ha
  · exact hc n r hn ⟨by simpa [hn] using hr, ha⟩

theorem Put.current {r : Record} (hput : Put q input f r)
    (hd : h.delivered = some input) (harchive : f.archive.lookup (q.queueKey input.id) = none)
    (hc : AllCurrent f before) : Current (h :: before) r := by
  have hid : ∀ {r : Record}, r.identity = input.identity → r.id = input.id :=
    fun h => congrArg Identity.id h
  cases hput with
  | fresh now hnone => exact ⟨latestBody_head hd, fun _ => rfl⟩
  | @replace r now hr hid' hst =>
    have hnone : r.redeliveryBody = none := (hc _ r ⟨hr, harchive⟩).waiting hst
    refine ⟨?_, fun _ => hnone⟩
    show latestBody r.id _ = some (r.redeliveryBody.getD input.body)
    rw [hid hid', latestBody_head hd, hnone, Option.getD_none]
  | @redeliver r hr hid' hst =>
    refine ⟨?_, fun h => absurd hst h⟩
    show latestBody r.id _ = some input.body
    rw [hid hid', latestBody_head hd]

theorem Tidied.noRedelivery (h : Tidied f name f') (hn : NoRedelivery f) : NoRedelivery f' := by
  rintro n r ⟨hr, ha⟩ hst
  by_cases hname : n = name
  · subst hname
    cases h with
    | dropped => simp at hr
    | @reset r' hr' ha' hst' =>
      obtain rfl : { r' with state := .pending } = r := by simpa using hr
      cases hst
  · cases h <;> exact hn n r ⟨by simpa [hname] using hr, ha⟩ hst

theorem Tidied.allCurrent (h : Tidied f name f') (hn : NoRedelivery f)
    (hc : AllCurrent f before) : AllCurrent f' before := by
  cases h with
  | dropped hr ha hid =>
    rintro n r ⟨hr, ha⟩
    by_cases hname : n = name
    · simp [hname] at hr
    · exact hc n r ⟨by simpa [hname] using hr, ha⟩
  | @reset r hr ha hst =>
    refine AllCurrent.write (fun _ => ?_) fun n r _ hr => hc n r hr
    exact ⟨(hc name r ⟨hr, ha⟩).latest, fun _ => hn name r ⟨hr, ha⟩ hst⟩

theorem tidy_allCurrent (h : Tidy f f') (hn : NoRedelivery f) (hc : AllCurrent f before) :
    AllCurrent f' before := by
  suffices NoRedelivery f' ∧ AllCurrent f' before from this.2
  induction h with
  | refl => exact ⟨hn, hc⟩
  | tail _ hstep ih =>
    obtain ⟨name, hstep⟩ := hstep
    exact ⟨hstep.noRedelivery ih.1, hstep.allCurrent ih.1 ih.2⟩

theorem Makes.allCurrent (hm : Makes q f h f') (hinit : h.call = .initializeQueue →
      NoRedelivery f) (hnamed : ∀ n r, f.pending.lookup n = some r → q.queueKey r.id = n)
    (hc : AllCurrent f before) : AllCurrent f' (h :: before) := by
  -- a record of another name is of another job
  have hother : ∀ {input : Input}, h.delivered = some input → ∀ n r,
      n ≠ q.queueKey input.id → Live f n r → Current (h :: before) r := by
    intro input hd n r hn hr
    refine ⟨(latestBody_other hd fun hid => hn ?_).trans (hc n r hr).latest, (hc n r hr).waiting⟩
    rw [hid]
    exact (hnamed n r hr.1).symm
  cases hm with
  | @failed call => exact hc.skip (by cases call <;> rfl)
  | @cut call w hw =>
    refine hc.skip ?_
    cases call with
    | enqueue input => rw [hw input rfl]; rfl
    | _ => rfl
  | @found input _ _ a ha hid =>
    rintro n r ⟨hr, hnone⟩
    refine hother rfl n r (fun hn => ?_) ⟨hr, hnone⟩
    cases hnone.symm.trans (hn ▸ ha)
  | @enqueued input reply w _ r hr hreply =>
    have hd : (⟨.enqueue input, reply, w⟩ : Happened).delivered = some input := by
      rcases hreply with ⟨rfl, rfl⟩ | ⟨b, rfl⟩ <;> rfl
    obtain ⟨harchive, hput, rfl⟩ := hr
    exact AllCurrent.write (hput.current hd · hc) (hother hd)
  | idle => exact hc.skip rfl
  | @claimed _ _ _ name r hr =>
    obtain ⟨hr, -, rfl⟩ := hr
    refine AllCurrent.skip (AllCurrent.write (fun ha => ?_) fun n r _ hr => hc n r hr) rfl
    exact ⟨(hc name r ⟨hr, ha⟩).latest, fun h => absurd rfl h⟩
  | @finished id _ _ _ _ r hr hf =>
    refine AllCurrent.skip ?_ rfl
    cases hf with
    | retried now =>
      refine AllCurrent.write (fun ha => ?_) fun n r _ hr => hc n r hr
      exact ⟨(hc _ r ⟨hr.record, ha⟩).latest, fun _ => rfl⟩
    | archived =>
      rintro n r ⟨hr, ha⟩
      have hn : n ≠ q.queueKey id := fun hn => absurd ha (by simp [hn])
      exact hc n r ⟨hr, by simpa [hn] using ha⟩
    | removed =>
      rintro n r ⟨hr, ha⟩
      have hn : n ≠ q.queueKey id := fun hn => absurd ha (by simp [hn])
      exact hc n r ⟨by simpa [hn] using hr, by simpa [hn] using ha⟩
  | tidied ht => exact tidy_allCurrent ht (hinit rfl) (hc.skip rfl)

end Step

/-- A claim returns the body of a record that waits, which is the one delivered last. -/
theorem QueueInv.claims_latest {q : Queue} {m : Machine} (hinv : QueueInv q m)
    (hc : AllCurrent m.files m.history) {h : Happened} {f' : Files} (hm : Makes q m.files h f')
    (hcall : m.up = false → h.call = .initializeQueue) {job : Job} (hjob : h.job = some job) :
    latestBody job.id m.history = some job.body := by
  obtain ⟨name, r, ⟨hr, hwait, -⟩, rfl⟩ := hm.claimed_record hjob
  have hne : h.call ≠ .initializeQueue := by simp [Happened.call_of_job hjob]
  have hnone : m.files.archive.lookup name = none :=
    (hinv.settled_of_call hcall hne name).resolve_left fun hn => absurd (hn.symm.trans hr) (by simp)
  have hcur := hc name r ⟨hr, hnone⟩
  calc latestBody r.id m.history = some (r.redeliveryBody.getD r.body) := hcur.latest
    _ = some r.body := by rw [hcur.waiting hwait, Option.getD_none]

theorem allCurrent_run (q : Queue) (events : List Event) (hcalm : Calm q events) :
    AllCurrent (Machine.run q events).files (Machine.run q events).history ∧
      Always (fun h before => ∀ job, h.job = some job → latestBody job.id before = some job.body)
        (Machine.run q events).history := by
  induction events using List.reverseRecOn with
  | nil => exact ⟨fun name r hr => absurd hr.1 (by simp [Machine.run]), trivial⟩
  | append_singleton events ev ih =>
    obtain ⟨hc, hclaims⟩ := ih fun before times after heq =>
      hcalm before times (after ++ [ev]) (by rw [heq, List.append_assoc, List.cons_append])
    have hinv := queueInv_run q events
    rw [run_append, List.foldl_cons, List.foldl_nil]
    rcases step_cases q (Machine.run q events) ev with ⟨-, heq⟩ | ⟨h, f', hcall, hup, hm, heq⟩
    · rw [heq]
      exact ⟨hc, hclaims⟩
    · rw [heq]
      refine ⟨hm.allCurrent (fun hi => ?_) hinv.named hc, fun job hjob => ?_, hclaims⟩
      · obtain ⟨call, times⟩ := ev
        obtain rfl : call = .initializeQueue := hcall.symm.trans hi
        exact hcalm events times [] rfl
      · exact hinv.claims_latest hc hm (fun hdown => hcall.trans (hup hdown)) hjob

/-- In a history in which no `initialize` finds a running job with a redelivered body, every claim
of a job returns the body of the last `enqueue` of it that completed. -/
theorem claims_latest_body (q : Queue) (events : List Event) (hcalm : Calm q events) :
    Always (fun h before => ∀ job, h.job = some job → latestBody job.id before = some job.body)
      (Machine.run q events).history :=
  (allCurrent_run q events hcalm).2

/-- A queue that is not restarted keeps every body delivered while a job runs. -/
theorem calm_of_started (q : Queue) (start : Event) {rest : List Event}
    (hrest : ∀ ev ∈ rest, ev.call ≠ .initializeQueue) : Calm q (start :: rest) := by
  intro before times after heq
  cases before with
  | nil => exact fun name r hr => absurd hr.1 (by simp [Machine.run])
  | cons ev before =>
    obtain ⟨-, rfl⟩ := List.cons.inj heq
    exact absurd rfl (hrest ⟨.initializeQueue, times⟩ (by simp))

section Example

/-- The digest of some bytes as the queue writes it. -/
@[irreducible] def hexDigest (bytes : Bytes) : String :=
  String.ofList ((sha256 bytes).map fun b => Char.ofNat b.toNat)

def exampleQueue : Queue where
  queueKey id := hexDigest (lit id) ++ ".json"
  sha256 := hexDigest

/-- The delivery of one job with a given body. -/
def exampleInput (body : Bytes) : Input :=
  ⟨"job", "deployment", String.ofList (List.replicate 64 'a'), body⟩

def exampleEvent (time : Int) (call : Call) : Event := ⟨call, List.replicate 8 time⟩

/-- A job that gets a second body while it runs, and is then retried. -/
def exampleRetry : List Event :=
  [exampleEvent 0 .initializeQueue, exampleEvent 0 (.enqueue (exampleInput [1])),
    exampleEvent 0 .claim, exampleEvent 0 (.enqueue (exampleInput [2])),
    exampleEvent 0 (.finish "job" .retry), exampleEvent 1000 .claim]

theorem claims_latest_body_retry : Calm exampleQueue exampleRetry ∧
    (Machine.run exampleQueue exampleRetry).history.head?.bind Happened.job =
      some ⟨"job", "deployment", [2], 2⟩ ∧
    Always (fun h before => ∀ job, h.job = some job → latestBody job.id before = some job.body)
      (Machine.run exampleQueue exampleRetry).history := by
  have hcalm : Calm exampleQueue exampleRetry := calm_of_started _ _ (by decide)
  exact ⟨hcalm, by decide +kernel, claims_latest_body exampleQueue exampleRetry hcalm⟩

/-- A job that gets a second body while it runs, before a restart. -/
def exampleRestart : List Event :=
  [exampleEvent 0 .initializeQueue, exampleEvent 0 (.enqueue (exampleInput [1])),
    exampleEvent 0 .claim, exampleEvent 0 (.enqueue (exampleInput [2])),
    exampleEvent 0 .initializeQueue, exampleEvent 0 .claim]

/-- The claim after the restart returns the older of the two bodies. -/
theorem stale_body_after_restart :
    (Machine.run exampleQueue exampleRestart).history.head?.bind Happened.job =
        some ⟨"job", "deployment", [1], 2⟩ ∧
      latestBody "job" (Machine.run exampleQueue exampleRestart).history.tail = some [2] := by
  decide +kernel

end Example

end SharedNode.Compiler.JobQueue
