import Mathlib.Data.List.Nodup
import Mathlib.Logic.Function.Basic
import SharedNode.Effect.Refinement
import SharedNode.Compiler.Queue

/-!
# The job queue in memory

`MemoryCompilerJobQueue` of `compiler/src/job-queue.mjs`, the queue of the worker's tests, and the
abstract queue that it and the one on files are meant to be.

* `Jobs` is the abstract queue: what is known of each job. A call answers and changes it by a
  function (`Jobs.next`), but for the job a `claim` returns, which may be any that is eligible
  (`Jobs.Allows`).
* `Memory` is the queue in memory. A `Map` is the list of its records in the order of insertion; a
  record is changed in place.

A call is made at one time: every reading of the clock in it is the same. Of an error it is told
whether it is an idempotency conflict.
-/

namespace SharedNode.Compiler.JobQueue

open Effect Text

/-! ## The abstract queue -/

/-- What the abstract queue keeps of a job. -/
structure Entry where
  deploymentId : String
  jobFingerprint : String
  body : Bytes
  redelivery : Option Bytes
  state : State
  attempts : Int
  nextAttemptAt : Int
  deriving DecidableEq

/-- What a caller sees of a call. -/
inductive Answer where
  | reply (r : Reply)
  | conflict
  | rejected
  deriving DecidableEq

/-- What a caller is told of the outcome of a call. -/
def answerOf : Except String Reply → Answer
  | .ok r => .reply r
  | .error err => if err = "compiler queue idempotency conflict" then .conflict else .rejected

/-- The abstract queue: its jobs by ID. -/
abbrev Jobs := String → Option Entry

namespace Entry

def fresh (input : Input) (now : Int) : Entry :=
  ⟨input.deploymentId, input.jobFingerprint, input.body, none, .pending, 0, now⟩

/-- A job that is delivered again. -/
def deliver (e : Entry) (body : Bytes) (now : Int) : Entry :=
  match e.state with
  | .terminal => e
  | .running => { e with redelivery := some body }
  | .pending | .retry => { e with body, state := .pending, nextAttemptAt := now }

def claim (e : Entry) : Entry := { e with state := .running, attempts := e.attempts + 1 }

def finish (delay : Int) (e : Entry) (now : Int) : Outcome → Entry
  | .terminal => { e with state := .terminal }
  | .retry =>
    { e with
      body := e.redelivery.getD e.body
      redelivery := none
      state := .retry
      nextAttemptAt := now + retryDelay delay e.attempts }

/-- A job when the queue is started. -/
def restart (e : Entry) : Entry := if e.state = .running then { e with state := .pending } else e

end Entry

/-- A call and the time it is made at. -/
structure Timed where
  call : Call
  now : Int

namespace Jobs

/-- A job that a `claim` may return. -/
def Eligible (s : Jobs) (now : Int) (id : String) : Prop :=
  ∃ e, s id = some e ∧ e.state ≠ .running ∧ e.state ≠ .terminal ∧ e.nextAttemptAt ≤ now

/-- A `claim` takes an eligible job if there is one. -/
def Allows (s : Jobs) (timed : Timed) (pick : Option String) : Prop :=
  timed.call = .claim → match pick with
    | some id => s.Eligible timed.now id
    | none => ∀ id, ¬ s.Eligible timed.now id

/-- The answer to a call and the jobs after it, where a `claim` takes the job `pick`. -/
def next (delay : Int) (s : Jobs) (timed : Timed) (pick : Option String) : Answer × Jobs :=
  match timed.call with
  | .initializeQueue => (.reply .initialized, fun id => (s id).map Entry.restart)
  | .enqueue input =>
    if ¬ validInput input then (.rejected, s)
    else
      match s input.id with
      | none => (.reply (.enqueued false),
          Function.update s input.id (some (.fresh input timed.now)))
      | some e =>
        if ¬ (e.deploymentId = input.deploymentId ∧ e.jobFingerprint = input.jobFingerprint) then
          (.conflict, s)
        else (.reply (.enqueued true),
          Function.update s input.id (some (e.deliver input.body timed.now)))
  | .claim =>
    match pick.bind fun id => (s id).map (id, ·) with
    | none => (.reply (.claimed none), s)
    | some (id, e) => (.reply (.claimed (some ⟨id, e.deploymentId, e.body, e.attempts + 1⟩)),
        Function.update s id (some e.claim))
  | .finish id outcome =>
    match s id with
    | none => (.rejected, s)
    | some e =>
      if e.state ≠ .running then (.rejected, s)
      else (.reply .finished, Function.update s id (some (e.finish delay timed.now outcome)))

/-- The abstract queue with a given `retryDelayMs`. -/
def spec (delay : Int) : Spec Timed Answer (Option String) Jobs := ⟨Allows, next delay⟩

section Next

variable {delay now : Int} {s : Jobs} {pick : Option String} {input : Input} {id : String}
  {e : Entry}

theorem next_enqueue_invalid (hinput : ¬ validInput input) :
    s.next delay ⟨.enqueue input, now⟩ pick = (.rejected, s) := by
  simp only [next, if_pos hinput]

theorem next_enqueue_fresh (hinput : validInput input) (hs : s input.id = none) :
    s.next delay ⟨.enqueue input, now⟩ pick =
      (.reply (.enqueued false), Function.update s input.id (some (.fresh input now))) := by
  simp only [next, if_neg (not_not.mpr hinput), hs]

theorem next_enqueue_conflict (hinput : validInput input) (hs : s input.id = some e)
    (he : ¬ (e.deploymentId = input.deploymentId ∧ e.jobFingerprint = input.jobFingerprint)) :
    s.next delay ⟨.enqueue input, now⟩ pick = (.conflict, s) := by
  simp only [next, if_neg (not_not.mpr hinput), hs, if_pos he]

theorem next_enqueue_deliver (hinput : validInput input) (hs : s input.id = some e)
    (he : e.deploymentId = input.deploymentId ∧ e.jobFingerprint = input.jobFingerprint) :
    s.next delay ⟨.enqueue input, now⟩ pick = (.reply (.enqueued true),
      Function.update s input.id (some (e.deliver input.body now))) := by
  simp only [next, if_neg (not_not.mpr hinput), hs, if_neg (not_not.mpr he)]

theorem next_enqueue_ended (hinput : validInput input) (hs : s input.id = some e)
    (he : e.deploymentId = input.deploymentId ∧ e.jobFingerprint = input.jobFingerprint)
    (hended : e.state = .terminal) :
    s.next delay ⟨.enqueue input, now⟩ pick = (.reply (.enqueued true), s) := by
  have hdeliver : e.deliver input.body now = e := by simp only [Entry.deliver, hended]
  rw [next_enqueue_deliver hinput hs he, hdeliver, ← hs, Function.update_eq_self]

theorem next_claim (hs : s id = some e) : s.next delay ⟨.claim, now⟩ (some id) =
      (.reply (.claimed (some ⟨id, e.deploymentId, e.body, e.attempts + 1⟩)),
        Function.update s id (some e.claim)) := by
  simp only [next, Option.bind_some, hs, Option.map_some]

theorem next_finish_rejected (hs : ∀ e, s id = some e → e.state ≠ .running) {outcome : Outcome} :
    s.next delay ⟨.finish id outcome, now⟩ pick = (.rejected, s) := by
  cases hid : s id with
  | none => simp only [next, hid]
  | some e => simp only [next, hid, if_pos (hs e hid)]

theorem next_finish (hs : s id = some e) (he : e.state = .running) {outcome : Outcome} :
    s.next delay ⟨.finish id outcome, now⟩ pick = (.reply .finished,
      Function.update s id (some (e.finish delay now outcome))) := by
  simp only [next, hs, if_neg (not_not.mpr he)]

end Next

end Jobs

/-! ## The queue in memory -/

/-- A record of `MemoryCompilerJobQueue`. -/
structure MemoryRecord where
  id : String
  deploymentId : String
  jobFingerprint : String
  body : Bytes
  redeliveryBody : Option Bytes := none
  state : State
  attempts : Int
  nextAttemptAt : Int
  deriving DecidableEq

namespace MemoryRecord

def identity (r : MemoryRecord) : Identity := ⟨r.id, r.deploymentId, r.jobFingerprint⟩

def fresh (input : Input) (now : Int) : MemoryRecord where
  id := input.id
  deploymentId := input.deploymentId
  jobFingerprint := input.jobFingerprint
  body := input.body
  state := .pending
  attempts := 0
  nextAttemptAt := now

/-- A body put in place of one that is still to be claimed. -/
def replace (r : MemoryRecord) (body : Bytes) (now : Int) : MemoryRecord :=
  { r with body, state := .pending, nextAttemptAt := now }

/-- A body put beside that of a running job. -/
def redeliver (r : MemoryRecord) (body : Bytes) : MemoryRecord :=
  { r with redeliveryBody := some body }

def claim (r : MemoryRecord) : MemoryRecord :=
  { r with state := .running, attempts := r.attempts + 1 }

/-- A record whose job is to be tried again. -/
def retry (retryDelayMs : Int) (r : MemoryRecord) (now : Int) : MemoryRecord :=
  { r with
    body := r.redeliveryBody.getD r.body
    redeliveryBody := none
    state := .retry
    nextAttemptAt := now + retryDelay retryDelayMs r.attempts }

def restart (r : MemoryRecord) : MemoryRecord :=
  if r.state = .running then { r with state := .pending } else r

def entry (r : MemoryRecord) : Entry :=
  ⟨r.deploymentId, r.jobFingerprint, r.body, r.redeliveryBody, r.state, r.attempts, r.nextAttemptAt⟩

end MemoryRecord

/-- The two maps of `MemoryCompilerJobQueue`. -/
structure Memory where
  pending : List MemoryRecord := []
  archive : List MemoryRecord := []

namespace Memory

/-- `Map.get`. -/
def get (records : List MemoryRecord) (id : String) : Option MemoryRecord :=
  records.find? (·.id = id)

/-- The record of its id is changed in place. -/
def put (records : List MemoryRecord) (r : MemoryRecord) : List MemoryRecord :=
  records.map fun x => if x.id = r.id then r else x

def initializeQueue (m : Memory) : Memory :=
  { m with pending := m.pending.map MemoryRecord.restart }

def enqueue (m : Memory) (input : Input) (now : Int) : Except String Bool × Memory :=
  if ¬ validInput input then (.error "invalid compiler queue job", m)
  else
    match get m.archive input.id with
    | some archived =>
      if archived.identity ≠ input.identity then
        (.error "compiler queue idempotency conflict", m)
      else (.ok true, m)
    | none =>
      match get m.pending input.id with
      | some existing =>
        if existing.identity ≠ input.identity then
          (.error "compiler queue idempotency conflict", m)
        else if existing.state = .running then
          (.ok true, { m with pending := put m.pending (existing.redeliver input.body) })
        else (.ok true, { m with pending := put m.pending (existing.replace input.body now) })
      | none => (.ok false, { m with pending := m.pending ++ [.fresh input now] })

/-- The loop of `claim`: the record it takes, and the records then. -/
def claimLoop (now : Int) : List MemoryRecord → Option (MemoryRecord × List MemoryRecord)
  | [] => none
  | r :: rest =>
    if r.state = .running ∨ now < r.nextAttemptAt then
      (claimLoop now rest).map fun (taken, rest) => (taken, r :: rest)
    else some (r.claim, r.claim :: rest)

def claim (m : Memory) (now : Int) : Option Job × Memory :=
  match claimLoop now m.pending with
  | none => (none, m)
  | some (taken, pending) =>
    (some ⟨taken.id, taken.deploymentId, taken.body, taken.attempts⟩, { m with pending })

def finish (retryDelayMs : Int) (m : Memory) (id : String) (outcome : Outcome) (now : Int) :
    Except String Unit × Memory :=
  match get m.pending id with
  | none => (.error "compiler queue state conflict", m)
  | some record =>
    if record.state ≠ .running then (.error "compiler queue state conflict", m)
    else
      match outcome with
      | .terminal =>
        (.ok (),
          { pending := m.pending.filter (·.id ≠ id)
            archive := m.archive ++ [{ record with state := .terminal }] })
      | .retry => (.ok (), { m with pending := put m.pending (record.retry retryDelayMs now) })

def step (retryDelayMs : Int) (m : Memory) (timed : Timed) : Answer × Memory :=
  match timed.call with
  | .initializeQueue => (.reply .initialized, m.initializeQueue)
  | .enqueue input =>
    let r := m.enqueue input timed.now
    (answerOf (r.1.map .enqueued), r.2)
  | .claim =>
    let r := m.claim timed.now
    (.reply (.claimed r.1), r.2)
  | .finish id outcome =>
    let r := m.finish retryDelayMs id outcome timed.now
    (answerOf (r.1.map fun _ => .finished), r.2)

/-! ## Its maps -/

section Maps

variable {records : List MemoryRecord} {id : String} {r : MemoryRecord}

theorem mem_of_get (h : get records id = some r) : r ∈ records ∧ r.id = id := by
  refine ⟨List.mem_of_find?_eq_some h, ?_⟩
  simpa using List.find?_some h

theorem get_map (f : MemoryRecord → MemoryRecord) (hf : ∀ x, (f x).id = x.id) :
    get (records.map f) id = (get records id).map f := by
  unfold get
  rw [List.find?_map]
  congr 2
  funext x
  simp only [Function.comp_apply, hf]

theorem ids_map (f : MemoryRecord → MemoryRecord) (hf : ∀ x, (f x).id = x.id) :
    (records.map f).map (·.id) = records.map (·.id) := by
  rw [List.map_map]
  exact List.map_congr_left fun x _ => hf x

theorem get_put : get (put records r) id =
    if id = r.id then (get records id).map fun _ => r else get records id := by
  unfold put
  rw [get_map _ fun x => by split <;> simp_all]
  cases hget : get records id with
  | none => simp
  | some x =>
    obtain rfl := (mem_of_get hget).2
    by_cases h : x.id = r.id <;> simp [h]

theorem put_cons {x : MemoryRecord} :
    put (x :: records) r = (if x.id = r.id then r else x) :: put records r := rfl

theorem put_of_not_mem (h : r.id ∉ records.map (·.id)) : put records r = records := by
  have hsame : ∀ x ∈ records, (if x.id = r.id then r else x) = x := by
    intro x hx
    have hne : ¬ x.id = r.id := fun heq => h (List.mem_map.mpr ⟨x, hx, heq⟩)
    exact if_neg hne
  exact (List.map_congr_left hsame).trans (List.map_id' records)

theorem get_of_mem (hdistinct : (records.map (·.id)).Nodup) (hr : r ∈ records) :
    get records r.id = some r := by
  cases hget : get records r.id with
  | none => exact absurd (List.find?_eq_none.mp hget r hr) (by simp)
  | some x =>
    obtain ⟨hx, hid⟩ := mem_of_get hget
    rw [List.inj_on_of_nodup_map hdistinct hx hr hid]

theorem get_append : get (records ++ [r]) id =
    (get records id).or (if r.id = id then some r else none) := by
  unfold get
  rw [List.find?_append]
  congr 1
  simp only [List.find?_singleton, decide_eq_true_eq]

theorem get_filter {x : String} : get (records.filter (·.id ≠ x)) id =
    if id = x then none else get records id := by
  unfold get
  rw [List.find?_filter]
  split
  next h => exact List.find?_eq_none.mpr fun y _ => by simp [h]
  next h =>
    congr 1
    funext y
    by_cases hy : y.id = id <;> simp [hy, h]

end Maps

/-! ## Its refinement -/

def jobs (m : Memory) : Jobs := fun id =>
  ((get m.pending id).or (get m.archive id)).map MemoryRecord.entry

/-- The invariant: an id is in one of the maps, once in `pending`, and the state says in which. -/
structure Inv (m : Memory) : Prop where
  distinct : (m.pending.map (·.id)).Nodup
  live : ∀ r ∈ m.pending, r.state ≠ .terminal
  ended : ∀ r ∈ m.archive, r.state = .terminal
  settled : ∀ id, get m.pending id = none ∨ get m.archive id = none

section Jobs

variable {m : Memory} {id : String} {r : MemoryRecord}

theorem jobs_of_pending (h : get m.pending id = some r) : m.jobs id = some r.entry := by
  simp [jobs, h]

theorem jobs_of_archive (hm : m.Inv) (h : get m.archive id = some r) :
    m.jobs id = some r.entry := by
  have hnone : get m.pending id = none := (hm.settled id).resolve_right (by simp [h])
  simp [jobs, hnone, h]

theorem jobs_eq_none (hp : get m.pending id = none) (ha : get m.archive id = none) :
    m.jobs id = none := by simp [jobs, hp, ha]

theorem jobs_put (h : get m.pending r.id ≠ none) :
    ({ m with pending := put m.pending r } : Memory).jobs =
      Function.update m.jobs r.id (some r.entry) := by
  funext id
  obtain ⟨x, hx⟩ := Option.ne_none_iff_exists'.mp h
  by_cases hid : id = r.id
  · subst hid
    simp [jobs, get_put, hx]
  · simp [jobs, get_put, hid]

theorem Inv.put (hm : m.Inv) (hstate : r.state ≠ .terminal) (h : get m.pending r.id ≠ none) :
    Inv { m with pending := put m.pending r } where
  distinct := by
    have hids : (Memory.put m.pending r).map (·.id) = m.pending.map (·.id) :=
      ids_map _ fun x => by split <;> simp_all
    rw [hids]
    exact hm.distinct
  live x hx := by
    obtain ⟨y, hy, rfl⟩ := List.mem_map.mp hx
    split
    · exact hstate
    · exact hm.live y hy
  ended := hm.ended
  settled id := by
    by_cases hid : id = r.id
    · subst hid
      exact Or.inr ((hm.settled _).resolve_left h)
    · simpa [get_put, hid] using hm.settled id

end Jobs

/-- What one step of the queue in memory is: one of the abstract queue. -/
def Refines (delay : Int) (m : Memory) (timed : Timed) (result : Answer × Memory) : Prop :=
  result.2.Inv ∧ ∃ pick, m.jobs.Allows timed pick ∧
    m.jobs.next delay timed pick = (result.1, result.2.jobs)

section Refinement

variable {delay : Int} {m : Memory}

theorem refines_initialize (hm : m.Inv) (now : Int) :
    m.Refines delay ⟨.initializeQueue, now⟩ (m.step delay ⟨.initializeQueue, now⟩) := by
  have hid : ∀ x : MemoryRecord, x.restart.id = x.id := by
    intro x
    unfold MemoryRecord.restart
    split <;> rfl
  have hstate : ∀ x : MemoryRecord, x.state ≠ .terminal → x.restart.state ≠ .terminal := by
    intro x hx
    unfold MemoryRecord.restart
    split
    · simp
    · exact hx
  refine ⟨⟨?_, fun r hr => ?_, hm.ended, fun id => ?_⟩, none, (fun h => nomatch h), ?_⟩
  · show ((m.pending.map MemoryRecord.restart).map (·.id)).Nodup
    rw [ids_map _ hid]
    exact hm.distinct
  · obtain ⟨x, hx, rfl⟩ := List.mem_map.mp hr
    exact hstate x (hm.live x hx)
  · rcases hm.settled id with h | h
    · exact Or.inl ((get_map _ hid).trans (by rw [h]; rfl))
    · exact Or.inr h
  · refine congrArg (Prod.mk _) (funext fun id => ?_)
    show (m.jobs id).map Entry.restart = m.initializeQueue.jobs id
    cases hp : get m.pending id with
    | some r =>
      have hr : get m.initializeQueue.pending id = some r.restart :=
        (get_map _ hid).trans (by rw [hp]; rfl)
      rw [jobs_of_pending hp, jobs_of_pending hr]
      simp only [Option.map_some, Entry.restart, MemoryRecord.restart, MemoryRecord.entry]
      split <;> rfl
    | none =>
      have hr : get m.initializeQueue.pending id = none :=
        (get_map _ hid).trans (by rw [hp]; rfl)
      have hsame : m.initializeQueue.jobs id = m.jobs id := by
        unfold jobs
        rw [hr, hp]
        rfl
      rw [hsame]
      cases ha : get m.archive id with
      | none => rw [jobs_eq_none hp ha]; rfl
      | some a =>
        have hended := hm.ended a (mem_of_get ha).1
        rw [jobs_of_archive hm ha]
        simp [Entry.restart, MemoryRecord.entry, hended]

/-- A pending record is changed as the abstract queue changes its job. -/
theorem refines_put {timed : Timed} {answer : Answer} {pick : Option String} (hm : m.Inv)
    (r : MemoryRecord) (hr : get m.pending r.id ≠ none) (hstate : r.state ≠ .terminal)
    (hpick : m.jobs.Allows timed pick) (hnext : m.jobs.next delay timed pick =
      (answer, Function.update m.jobs r.id (some r.entry))) :
    m.Refines delay timed (answer, { m with pending := put m.pending r }) :=
  ⟨hm.put hstate hr, pick, hpick, hnext.trans (congrArg (Prod.mk _) (jobs_put hr).symm)⟩

theorem identity_iff {r : MemoryRecord} {input : Input} (hid : r.id = input.id) :
    r.identity = input.identity ↔ r.entry.deploymentId = input.deploymentId ∧
      r.entry.jobFingerprint = input.jobFingerprint := by
  simp [MemoryRecord.identity, Input.identity, MemoryRecord.entry, hid]

theorem refines_enqueue (hm : m.Inv) (input : Input) (now : Int) :
    m.Refines delay ⟨.enqueue input, now⟩ (m.step delay ⟨.enqueue input, now⟩) := by
  have hpick : m.jobs.Allows ⟨.enqueue input, now⟩ none := fun h => nomatch h
  simp only [step, enqueue]
  split
  next hinput => exact ⟨hm, none, hpick, Jobs.next_enqueue_invalid hinput⟩
  next hinput =>
  rw [not_not] at hinput
  split
  next a ha =>
    have hjob := jobs_of_archive hm ha
    obtain ⟨hmem, hid⟩ := mem_of_get ha
    split
    next hne =>
      exact ⟨hm, none, hpick, Jobs.next_enqueue_conflict hinput hjob
        (mt (identity_iff hid).mpr hne)⟩
    next heq =>
      exact ⟨hm, none, hpick, Jobs.next_enqueue_ended hinput hjob
        ((identity_iff hid).mp (not_not.mp heq)) (hm.ended a hmem)⟩
  next ha =>
  split
  next r hr =>
    have hjob := jobs_of_pending hr
    obtain ⟨hmem, hid⟩ := mem_of_get hr
    have hsome : get m.pending r.id ≠ none := by rw [hid, hr]; simp
    split
    next hne =>
      exact ⟨hm, none, hpick, Jobs.next_enqueue_conflict hinput hjob
        (mt (identity_iff hid).mpr hne)⟩
    next heq =>
    have hsame := (identity_iff hid).mp (not_not.mp heq)
    split
    next hst =>
      refine refines_put hm (r.redeliver input.body) hsome (hm.live r hmem) hpick ?_
      rw [Jobs.next_enqueue_deliver hinput hjob hsame]
      simp only [Entry.deliver, MemoryRecord.entry, MemoryRecord.redeliver, hst, hid]
      rfl
    next hst =>
      refine refines_put hm (r.replace input.body now) hsome (by simp [MemoryRecord.replace])
        hpick ?_
      rw [Jobs.next_enqueue_deliver hinput hjob hsame]
      have hlive := hm.live r hmem
      cases hstate : r.state <;>
        simp_all [Entry.deliver, MemoryRecord.entry, MemoryRecord.replace, answerOf, Except.map]
  next hp =>
    have hget : ∀ id, get (m.pending ++ [.fresh input now]) id =
        if id = input.id then some (.fresh input now) else get m.pending id := by
      intro id
      rw [get_append]
      by_cases hid : id = input.id
      · subst hid
        simp [hp, MemoryRecord.fresh]
      · have hne : ¬ (MemoryRecord.fresh input now).id = id := fun h => hid h.symm
        simp [hid, hne]
    refine ⟨⟨?_, fun r hr => ?_, hm.ended, fun id => ?_⟩, none, hpick, ?_⟩
    · have hnew : ∀ r ∈ m.pending, ¬ r.id = input.id := fun r hr => by
        simpa using List.find?_eq_none.mp hp r hr
      simpa [List.nodup_append, MemoryRecord.fresh] using ⟨hm.distinct, hnew⟩
    · rcases List.mem_append.mp hr with hr | hr
      · exact hm.live r hr
      · rw [List.mem_singleton.mp hr]
        simp [MemoryRecord.fresh]
    · simp only [hget]
      split
      next hid => exact Or.inr (hid ▸ ha)
      · exact hm.settled id
    · rw [Jobs.next_enqueue_fresh hinput (jobs_eq_none hp ha)]
      refine congrArg (Prod.mk _) (funext fun id => ?_)
      by_cases hid : id = input.id
      · subst hid
        simp only [jobs, hget, if_true, Function.update_self]
        rfl
      · simp [jobs, hget, hid]

theorem claimLoop_none {now : Int} {records : List MemoryRecord}
    (h : claimLoop now records = none) :
    ∀ r ∈ records, r.state = .running ∨ now < r.nextAttemptAt := by
  induction records with
  | nil => simp
  | cons r rest ih =>
    rw [claimLoop] at h
    split at h
    next hr =>
      intro x hx
      rcases List.mem_cons.mp hx with rfl | hx
      · exact hr
      · exact ih (by simpa using h) x hx
    · cases h

theorem claimLoop_some {now : Int} {records : List MemoryRecord} {taken : MemoryRecord}
    {records' : List MemoryRecord} (hdistinct : (records.map (·.id)).Nodup)
    (h : claimLoop now records = some (taken, records')) :
    ∃ r ∈ records, r.state ≠ .running ∧ r.nextAttemptAt ≤ now ∧ taken = r.claim ∧
      records' = put records taken := by
  induction records generalizing records' with
  | nil => cases h
  | cons r rest ih =>
    rw [List.map_cons, List.nodup_cons] at hdistinct
    rw [claimLoop] at h
    split at h
    next hr =>
      obtain ⟨⟨taken', rest'⟩, hrest, heq⟩ := Option.map_eq_some_iff.mp h
      obtain ⟨rfl, rfl⟩ := Prod.mk.inj heq
      obtain ⟨x, hx, hstate, htime, rfl, rfl⟩ := ih hdistinct.2 hrest
      refine ⟨x, List.mem_cons_of_mem _ hx, hstate, htime, rfl, ?_⟩
      have hne : r.id ≠ x.id := fun heq => hdistinct.1 (heq ▸ List.mem_map_of_mem hx)
      rw [put_cons, if_neg (show ¬ r.id = x.claim.id from hne)]
    next hr =>
      cases h
      rw [not_or, not_lt] at hr
      refine ⟨r, List.mem_cons_self, hr.1, hr.2, rfl, ?_⟩
      have hself : r.id = r.claim.id := rfl
      rw [put_cons, if_pos hself, put_of_not_mem (hself ▸ hdistinct.1)]

theorem refines_claim (hm : m.Inv) (now : Int) :
    m.Refines delay ⟨.claim, now⟩ (m.step delay ⟨.claim, now⟩) := by
  simp only [step, claim]
  split
  next hnone =>
    refine ⟨hm, none, fun _ id => ?_, rfl⟩
    rintro ⟨e, he, hrunning, hterminal, htime⟩
    cases hp : get m.pending id with
    | some r =>
      rw [jobs_of_pending hp] at he
      cases he
      rcases claimLoop_none hnone r (mem_of_get hp).1 with h | h
      · exact hrunning h
      · exact absurd htime (not_le.mpr h)
    | none =>
      cases ha : get m.archive id with
      | none =>
        rw [jobs_eq_none hp ha] at he
        cases he
      | some a =>
        rw [jobs_of_archive hm ha] at he
        cases he
        exact hterminal (hm.ended a (mem_of_get ha).1)
  next taken pending hsome =>
    obtain ⟨r, hmem, hrunning, htime, rfl, rfl⟩ := claimLoop_some hm.distinct hsome
    have hr := get_of_mem hm.distinct hmem
    have hjob := jobs_of_pending hr
    have hpick : m.jobs.Allows ⟨.claim, now⟩ (some r.id) :=
      fun _ => ⟨r.entry, hjob, hrunning, hm.live r hmem, htime⟩
    exact refines_put hm r.claim (by simp [MemoryRecord.claim, hr]) (by simp [MemoryRecord.claim])
      hpick (Jobs.next_claim hjob)

theorem refines_finish (hm : m.Inv) (id : String) (outcome : Outcome) (now : Int) :
    m.Refines delay ⟨.finish id outcome, now⟩ (m.step delay ⟨.finish id outcome, now⟩) := by
  have hpick : m.jobs.Allows ⟨.finish id outcome, now⟩ none := fun h => nomatch h
  simp only [step, finish]
  split
  next hp =>
    refine ⟨hm, none, hpick, Jobs.next_finish_rejected fun e he => ?_⟩
    cases ha : get m.archive id with
    | none =>
      rw [jobs_eq_none hp ha] at he
      cases he
    | some a =>
      rw [jobs_of_archive hm ha] at he
      cases he
      simp [MemoryRecord.entry, hm.ended a (mem_of_get ha).1]
  next r hr =>
  have hjob := jobs_of_pending hr
  obtain ⟨hmem, rfl⟩ := mem_of_get hr
  split
  next hst =>
    refine ⟨hm, none, hpick, Jobs.next_finish_rejected fun e he => ?_⟩
    obtain rfl := Option.mem_unique hjob he
    exact hst
  next hst =>
  rw [not_not] at hst
  cases outcome with
  | retry =>
    refine refines_put hm (r.retry delay now) (by simp [MemoryRecord.retry, hr])
      (by simp [MemoryRecord.retry]) hpick ?_
    exact Jobs.next_finish hjob hst
  | terminal =>
    have harchive : ∀ id, get (m.archive ++ [{ r with state := .terminal }]) id =
        (get m.archive id).or (if r.id = id then some { r with state := .terminal } else none) :=
      fun id => get_append
    refine ⟨⟨?_, fun x hx => ?_, fun x hx => ?_, fun id => ?_⟩, none, hpick, ?_⟩
    · exact hm.distinct.sublist (List.filter_sublist.map _)
    · exact hm.live x (List.mem_of_mem_filter hx)
    · rcases List.mem_append.mp hx with hx | hx
      · exact hm.ended x hx
      · rw [List.mem_singleton.mp hx]
    · rw [get_filter, harchive]
      by_cases hid : id = r.id
      · exact Or.inl (if_pos hid)
      · rw [if_neg hid, if_neg (Ne.symm hid), Option.or_none]
        exact hm.settled id
    · rw [Jobs.next_finish hjob hst]
      refine congrArg (Prod.mk _) (funext fun id => ?_)
      simp only [jobs, get_filter, harchive]
      by_cases hid : id = r.id
      · subst hid
        have hnone := (hm.settled r.id).resolve_left (by simp [hr])
        simp only [if_true, Option.none_or, hnone, Function.update_self]
        rfl
      · simp [hid, Ne.symm hid, jobs]

/-- Every run of the queue in memory is one of the abstract queue. -/
theorem memory_refines (delay : Int) (inputs : List Timed) :
    (Jobs.spec delay).Runs (fun _ => none) inputs
      ((outputs (step delay) {} inputs).map fun o => (o.1, o.2.jobs)) := by
  have hinit : Inv {} :=
    ⟨List.nodup_nil, (fun _ h => nomatch h), (fun _ h => nomatch h), fun _ => Or.inl rfl⟩
  have hsteps : ∀ (m : Memory) (timed : Timed) (_ : List Timed), m.Inv →
      m.Refines delay timed (m.step delay timed) := by
    intro m timed _ hm
    obtain ⟨call, now⟩ := timed
    cases call with
    | initializeQueue => exact refines_initialize hm now
    | enqueue input => exact refines_enqueue hm input now
    | claim => exact refines_claim hm now
    | finish id outcome => exact refines_finish hm id outcome now
  exact Spec.runs_of_steps (A := Jobs.spec delay) (I := fun _ m => Inv m) hsteps inputs {} hinit

end Refinement

end Memory

end SharedNode.Compiler.JobQueue
