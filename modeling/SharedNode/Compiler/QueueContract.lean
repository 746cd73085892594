import Mathlib.Data.List.Induction
import SharedNode.Compiler.QueueCalls

/-!
# What the job queue keeps

The guarantees of the queue (`compiler/src/job-queue.mjs`) over every history of calls with crashes
between any two file effects (`Contract`, `queue_contract`): a job that was accepted stays recorded,
under one identity; a job that is archived is not claimed again; a claimed job is not claimed a
second time before its `finish`; and the attempts of a job count up. `Evolves` is what all calls
have in common, and the invariant of a history (`QueueInv`) follows from it.
-/

namespace SharedNode.Compiler.JobQueue

open Effect Text Prog

variable {i : Identity} {id : String}

/-! ## How the files change -/

/-- What no call undoes: the archive only grows, a pending record stays or is archived, its identity
never changes and its attempts never drop, and a record that is new has the name of its job. -/
structure Evolves (q : Queue) (f f' : Files) : Prop where
  archived : ∀ n a, f.archive.lookup n = some a → f'.archive.lookup n = some a
  kept : ∀ n r, f.pending.lookup n = some r →
    (∃ r', f'.pending.lookup n = some r' ∧ r'.identity = r.identity ∧ r.attempts ≤ r'.attempts) ∨
      ∃ a, f'.archive.lookup n = some a ∧ a.identity = r.identity
  named : ∀ n r', f'.pending.lookup n = some r' →
    q.queueKey r'.id = n ∨ ∃ r, f.pending.lookup n = some r ∧ r.id = r'.id

namespace Evolves

variable {q : Queue} {f f' f'' : Files} {name : String}

theorem refl (f : Files) : Evolves q f f where
  archived _ _ ha := ha
  kept _ r hr := Or.inl ⟨r, hr, rfl, le_rfl⟩
  named _ r hr := Or.inr ⟨r, hr, rfl⟩

theorem trans (h : Evolves q f f') (h' : Evolves q f' f'') : Evolves q f f'' where
  archived n a ha := h'.archived n a (h.archived n a ha)
  kept n r hr := by
    rcases h.kept n r hr with ⟨r', hr', hid, hatt⟩ | ⟨a, ha, hid⟩
    · rcases h'.kept n r' hr' with ⟨r'', hr'', hid', hatt'⟩ | ⟨a, ha, hid'⟩
      · exact Or.inl ⟨r'', hr'', hid'.trans hid, hatt.trans hatt'⟩
      · exact Or.inr ⟨a, ha, hid'.trans hid⟩
    · exact Or.inr ⟨a, h'.archived n a ha, hid⟩
  named n r'' hr'' := by
    rcases h'.named n r'' hr'' with hkey | ⟨r', hr', hid'⟩
    · exact Or.inl hkey
    · rw [← hid']
      exact h.named n r' hr'

theorem write {r' : Record} (hnew : f.pending.lookup name = none → q.queueKey r'.id = name)
    (hold : ∀ r, f.pending.lookup name = some r →
      r'.identity = r.identity ∧ r.attempts ≤ r'.attempts) :
    Evolves q f (f.write .pending name r') where
  archived _ _ ha := ha
  kept n r hr := by
    by_cases hn : n = name
    · subst hn
      exact Or.inl ⟨r', by simp, hold r hr⟩
    · exact Or.inl ⟨r, by simpa [hn] using hr, rfl, le_rfl⟩
  named n r hr := by
    by_cases hn : n = name
    · subst hn
      obtain rfl : r' = r := by simpa using hr
      cases hl : f.pending.lookup n with
      | none => exact Or.inl (hnew hl)
      | some r => exact Or.inr ⟨r, rfl, (congrArg Identity.id (hold r hl).1).symm⟩
    · exact Or.inr ⟨r, by simpa [hn] using hr, rfl⟩

theorem archive {a : Record} (hnone : f.archive.lookup name = none) :
    Evolves q f (f.write .archive name a) where
  archived n b hb := by
    by_cases hn : n = name
    · subst hn
      cases hnone.symm.trans hb
    · simpa [hn] using hb
  kept _ r hr := Or.inl ⟨r, hr, rfl, le_rfl⟩
  named _ r hr := Or.inr ⟨r, hr, rfl⟩

theorem remove {a : Record} (ha : f.archive.lookup name = some a)
    (hid : ∀ r, f.pending.lookup name = some r → a.identity = r.identity) :
    Evolves q f (f.remove .pending name) where
  archived _ _ hb := hb
  kept n r hr := by
    by_cases hn : n = name
    · subst hn
      exact Or.inr ⟨a, ha, hid r hr⟩
    · exact Or.inl ⟨r, by simpa [hn] using hr, rfl, le_rfl⟩
  named n r hr := by
    by_cases hn : n = name
    · subst hn
      simp at hr
    · exact Or.inr ⟨r, by simpa [hn] using hr, rfl⟩

theorem rewrite {r r' : Record} (hr : f.pending.lookup name = some r)
    (hid : r'.identity = r.identity) (hatt : r.attempts ≤ r'.attempts) :
    Evolves q f (f.write .pending name r') := by
  refine write (fun hnone => absurd (hnone.symm.trans hr) (by simp)) fun r₁ hr₁ => ?_
  obtain rfl : r = r₁ := Option.mem_unique hr hr₁
  exact ⟨hid, hatt⟩

end Evolves

variable {q : Queue} {f f' : Files} {input : Input} {r : Record} {h : Happened} {m : Machine}

theorem Tidied.evolves {name : String} (h : Tidied f name f') : Evolves q f f' := by
  cases h with
  | @dropped r a hr ha hid =>
    refine Evolves.remove ha fun r' hr' => ?_
    obtain rfl : r = r' := Option.mem_unique hr hr'
    exact hid
  | reset hr ha hst => exact Evolves.rewrite hr rfl le_rfl

theorem tidy_evolves (h : Tidy f f') : Evolves q f f' := by
  induction h with
  | refl => exact Evolves.refl f
  | tail _ hstep ih =>
    obtain ⟨name, hstep⟩ := hstep
    exact ih.trans hstep.evolves

theorem Enqueued.evolves (h : Enqueued q input f f' r) : Evolves q f f' := by
  obtain ⟨-, hput, rfl⟩ := h
  cases hput with
  | fresh now hnone =>
    exact Evolves.write (fun _ => rfl) fun r hr => absurd (hnone.symm.trans hr) (by simp)
  | replace now hr hid hst => exact Evolves.rewrite hr rfl le_rfl
  | redeliver hr hid hst => exact Evolves.rewrite hr rfl le_rfl

theorem Claimed.evolves {name : String} (h : Claimed f f' name r) : Evolves q f f' := by
  obtain ⟨hr, -, rfl⟩ := h
  exact Evolves.rewrite hr rfl (Int.le_add_one le_rfl)

theorem Finished.evolves (hr : Running q id f r) (hs : f.Settled (q.queueKey id))
    (h : Finished q id f r f') : Evolves q f f' := by
  have hnone : f.archive.lookup (q.queueKey id) = none :=
    hs.resolve_left fun h => absurd (h.symm.trans hr.record) (by simp)
  cases h with
  | archived => exact Evolves.archive hnone
  | removed =>
    refine (Evolves.archive hnone).trans
      (Evolves.remove (a := { r with state := .terminal }) (by simp) fun r' hr' => ?_)
    obtain rfl : r = r' := Option.mem_unique hr.record hr'
    rfl
  | retried now => exact Evolves.rewrite hr.record rfl le_rfl

/-- Every call lets the files evolve; a `finish` relies on no name being in both directories. -/
theorem Makes.evolves (hm : Makes q f h f')
    (hs : h.call ≠ .initializeQueue → ∀ n, f.Settled n) : Evolves q f f' := by
  cases hm with
  | failed | cut | found | idle => exact Evolves.refl f
  | enqueued hr => exact hr.evolves
  | claimed hr => exact hr.evolves
  | finished hr hf => exact hf.evolves hr (hs (by simp) _)
  | tidied ht => exact tidy_evolves ht

/-! ## What a history says -/

/-- The input of an `enqueue` that returned. -/
def Happened.accepted : Happened → Option Input
  | ⟨.enqueue input, some (.ok _), _⟩ => some input
  | _ => none

/-- The job a `claim` returned. -/
def Happened.job : Happened → Option Job
  | ⟨.claim, some (.ok (.claimed job)), _⟩ => job
  | _ => none

theorem Happened.call_of_job {job : Job} (hjob : h.job = some job) : h.call = .claim := by
  obtain ⟨call, reply, w⟩ := h
  cases call with
  | claim => rfl
  | _ => simp [Happened.job] at hjob

/-- The call ends a claim of `id`: its `finish` returned, or the queue stopped or was started. -/
def Happened.ends (id : String) : Happened → Bool
  | ⟨.initializeQueue, _, _⟩ | ⟨_, none, _⟩ => true
  | ⟨.finish id' _, some (.ok _), _⟩ => id' = id
  | _ => false

/-- `id` was claimed, and the claim was not ended since. -/
def Busy (id : String) : List Happened → Prop :=
  Since (fun h _ => h.job.map Job.id = some id) (fun h => h.ends id = true)

/-- A job is recorded in `pending` or `archive`. -/
def Recorded (q : Queue) (f : Files) (i : Identity) : Prop :=
  ∃ r, (f.pending.lookup (q.queueKey i.id) = some r ∨ f.archive.lookup (q.queueKey i.id) = some r) ∧
    r.identity = i

def Archived (q : Queue) (f : Files) (id : String) : Prop :=
  ∃ a, f.archive.lookup (q.queueKey id) = some a ∧ a.id = id

/-- A job that was claimed is archived, or its record counts the claim. -/
def Taken (q : Queue) (f : Files) (job : Job) : Prop :=
  Archived q f job.id ∨
    ∃ r, f.pending.lookup (q.queueKey job.id) = some r ∧ r.id = job.id ∧ job.attempts ≤ r.attempts

section Evolution

variable {q : Queue} {f f' : Files}

theorem Recorded.evolves (h : Recorded q f i) (he : Evolves q f f') : Recorded q f' i := by
  obtain ⟨r, hr | ha, rfl⟩ := h
  · rcases he.kept _ r hr with ⟨r', hr', hid, -⟩ | ⟨a, ha, hid⟩
    · exact ⟨r', Or.inl hr', hid⟩
    · exact ⟨a, Or.inr ha, hid⟩
  · exact ⟨r, Or.inr (he.archived _ r ha), rfl⟩

theorem Archived.evolves (h : Archived q f id) (he : Evolves q f f') : Archived q f' id := by
  obtain ⟨a, ha, hid⟩ := h
  exact ⟨a, he.archived _ a ha, hid⟩

theorem Taken.evolves {job : Job} (h : Taken q f job) (he : Evolves q f f') : Taken q f' job := by
  rcases h with ha | ⟨r, hr, hid, hatt⟩
  · exact Or.inl (ha.evolves he)
  · rcases he.kept _ r hr with ⟨r', hr', hid', hatt'⟩ | ⟨a, ha, hid'⟩
    · exact Or.inr ⟨r', hr', (congrArg Identity.id hid').trans hid, hatt.trans hatt'⟩
    · exact Or.inl ⟨a, ha, (congrArg Identity.id hid').trans hid⟩

end Evolution

/-! ## The invariant -/

structure QueueInv (q : Queue) (m : Machine) : Prop where
  named : ∀ n r, m.files.pending.lookup n = some r → q.queueKey r.id = n
  settled : m.up = true → ∀ n, m.files.Settled n
  recorded : ∀ h ∈ m.history, ∀ input, h.accepted = some input →
    Recorded q m.files input.identity
  taken : ∀ h ∈ m.history, ∀ job, h.job = some job → Taken q m.files job
  running : m.up = true → ∀ id, Busy id m.history → ∃ r, Running q id m.files r

section Step

variable {q : Queue} {f f' : Files} {h : Happened}

theorem Makes.settled (hm : Makes q f h f') (hs : h.call ≠ .initializeQueue → ∀ n, f.Settled n)
    (hup : h.leavesUp = true) (n : String) : f'.Settled n := by
  cases hm with
  | @failed call err w =>
    by_cases hcall : call = .initializeQueue
    · simp [Happened.leavesUp, hcall, Except.isOk, Except.toBool] at hup
    · exact hs hcall n
  | cut hw => simp [Happened.leavesUp] at hup
  | found ha hid => exact hs (by simp) n
  | idle => exact hs (by simp) n
  | @enqueued input _ _ _ _ hr =>
    obtain ⟨hnone, -, rfl⟩ := hr
    by_cases hn : n = q.queueKey input.id
    · exact Or.inr (hn ▸ hnone)
    · simpa [Files.Settled, hn] using hs (by simp) n
  | @claimed _ _ _ name _ hr =>
    obtain ⟨hr, -, rfl⟩ := hr
    have hsn := hs (by simp) n
    by_cases hn : n = name
    · subst hn
      exact Or.inr (hsn.resolve_left fun h => absurd (h.symm.trans hr) (by simp))
    · simpa [Files.Settled, hn] using hsn
  | @finished id _ _ _ _ r hr hf hreply =>
    have hsn := hs (by simp) n
    rcases hreply with rfl | ⟨-, hsettled⟩
    · simp [Happened.leavesUp] at hup
    by_cases hn : n = q.queueKey id
    · subst hn
      exact hsettled (hsn.resolve_left fun h => absurd (h.symm.trans hr.record) (by simp))
    · cases hf <;> simpa [Files.Settled, hn] using hsn
  | tidied ht hsettled => exact hsettled (by simpa [Happened.leavesUp] using hup) n

theorem Makes.recorded (hm : Makes q f h f') {input : Input} (hacc : h.accepted = some input) :
    Recorded q f' input.identity := by
  cases hm with
  | failed | cut | idle => simp [Happened.accepted] at hacc
  | found ha hid =>
    cases hacc
    exact ⟨_, Or.inr ha, hid⟩
  | @enqueued input' reply w _ r hr hreply =>
    rcases hreply with ⟨rfl, rfl⟩ | ⟨b, rfl⟩
    · simp [Happened.accepted] at hacc
    cases hacc
    obtain ⟨-, hput, rfl⟩ := hr
    refine ⟨r, Or.inl (by simp [Input.identity]), ?_⟩
    cases hput with
    | fresh now hnone => rfl
    | replace now hr hid hst => exact hid
    | redeliver hr hid hst => exact hid
  | claimed | finished | tidied => simp [Happened.accepted] at hacc

theorem Makes.claimed_record (hm : Makes q f h f') {job : Job} (hjob : h.job = some job) :
    ∃ name r, Claimed f f' name r ∧ job = r.job := by
  cases hm with
  | failed | cut | found | idle => simp [Happened.job] at hjob
  | enqueued hr hreply =>
    rcases hreply with ⟨rfl, rfl⟩ | ⟨b, rfl⟩ <;> simp [Happened.job] at hjob
  | claimed hr hreply =>
    rcases hreply with rfl | rfl
    · simp [Happened.job] at hjob
    · exact ⟨_, _, hr, (Option.some.inj hjob).symm⟩
  | finished hr hf hreply => rcases hreply with rfl | ⟨rfl, -⟩ <;> simp [Happened.job] at hjob
  | tidied ht hs => simp [Happened.job] at hjob

theorem Makes.running (hm : Makes q f h f') {r : Record} (hrun : Running q id f r)
    (hend : h.ends id = false) : ∃ r', Running q id f' r' := by
  obtain ⟨hl, hid, hst⟩ := hrun
  have hkept : f'.pending.lookup (q.queueKey id) = f.pending.lookup (q.queueKey id) →
      ∃ r', Running q id f' r' := fun heq => ⟨r, heq.trans hl, hid, hst⟩
  cases hm with
  | failed | found | idle => exact hkept rfl
  | @cut call w hw => exact absurd hend (by cases call <;> simp [Happened.ends])
  | @enqueued input _ _ _ r' hr hreply =>
    obtain ⟨-, hput, rfl⟩ := hr
    by_cases hkey : q.queueKey id = q.queueKey input.id
    · rw [hkey] at hl
      cases hput with
      | fresh now hnone => cases hnone.symm.trans hl
      | replace now hr hid' hst' =>
        obtain rfl := Option.mem_unique hr hl
        exact absurd hst hst'
      | redeliver hr hid' hst' =>
        obtain rfl := Option.mem_unique hr hl
        exact ⟨Queue.Record.redeliver q _ input.body, by simp [hkey], hid, hst⟩
    · exact hkept (by simp [hkey])
  | @claimed _ _ _ name r' hr hreply =>
    obtain ⟨hr, hwait, rfl⟩ := hr
    by_cases hkey : q.queueKey id = name
    · obtain rfl := Option.some.inj (hr.symm.trans (hkey ▸ hl))
      exact absurd hst hwait
    · exact hkept (by simp [hkey])
  | @finished id' _ _ _ _ r' hr hf hreply =>
    rcases hreply with rfl | ⟨rfl, -⟩
    · simp [Happened.ends] at hend
    by_cases hkey : q.queueKey id = q.queueKey id'
    · obtain rfl := Option.some.inj (hr.record.symm.trans (hkey ▸ hl))
      simp [Happened.ends, ← hr.id, hid] at hend
    · exact hkept (by cases hf <;> simp [hkey])
  | tidied ht hs => simp [Happened.ends] at hend

end Step

theorem QueueInv.empty (q : Queue) : QueueInv q {} where
  named n r hr := absurd hr (by simp)
  settled hup := absurd hup (by simp)
  recorded h hh := absurd hh List.not_mem_nil
  taken h hh := absurd hh List.not_mem_nil
  running hup := absurd hup (by simp)

/-- A call made of a queue that keeps the invariant finds no name in both directories. -/
theorem QueueInv.settled_of_call (hinv : QueueInv q m) {call : Call}
    (hcall : m.up = false → call = .initializeQueue) (hne : call ≠ .initializeQueue) (n : String) :
    m.files.Settled n :=
  hinv.settled (by by_contra h; exact hne (hcall (Bool.not_eq_true _ ▸ h))) n

theorem QueueInv.makes (hinv : QueueInv q m)
    (hm : Makes q m.files h f') (hcall : m.up = false → h.call = .initializeQueue) :
    QueueInv q ⟨f', h.leavesUp, h :: m.history⟩ := by
  have hs := fun hne => hinv.settled_of_call hcall hne
  have he : Evolves q m.files f' := hm.evolves hs
  have hnamed : ∀ n r, f'.pending.lookup n = some r → q.queueKey r.id = n := by
    intro n r' hr'
    rcases he.named n r' hr' with hkey | ⟨r, hr, hid⟩
    · exact hkey
    · rw [← hid]
      exact hinv.named n r hr
  refine ⟨hnamed, hm.settled hs, ?_, ?_, ?_⟩
  · intro g hg input hacc
    rcases List.mem_cons.mp hg with rfl | hg
    · exact hm.recorded hacc
    · exact (hinv.recorded g hg input hacc).evolves he
  · intro g hg job hjob
    rcases List.mem_cons.mp hg with rfl | hg
    · obtain ⟨name, r, ⟨hr, -, rfl⟩, rfl⟩ := hm.claimed_record hjob
      have hname : q.queueKey r.id = name := hinv.named name r hr
      exact Or.inr ⟨Queue.Record.claim r, by simp [Record.job, hname], rfl, le_rfl⟩
    · exact (hinv.taken g hg job hjob).evolves he
  · rintro hup id (hjob | ⟨hend, hbusy⟩)
    · obtain ⟨job, hjob, hid⟩ := Option.map_eq_some_iff.mp hjob
      obtain ⟨name, r, ⟨hr, -, rfl⟩, rfl⟩ := hm.claimed_record hjob
      obtain rfl : q.queueKey id = name := hid ▸ hinv.named name r hr
      exact ⟨Queue.Record.claim r, by simp, hid, rfl⟩
    · have hne : h.call ≠ .initializeQueue := by
        intro hc
        obtain ⟨call, reply, w⟩ := h
        subst hc
        exact hend rfl
      have hup' : m.up = true := by by_contra hn; exact hne (hcall (Bool.not_eq_true _ ▸ hn))
      obtain ⟨r, hr⟩ := hinv.running hup' id hbusy
      exact hm.running hr (Bool.not_eq_true _ ▸ hend)

theorem QueueInv.step (hinv : QueueInv q m) (ev : Event) : QueueInv q (m.step q ev) := by
  rcases step_cases q m ev with ⟨-, heq⟩ | ⟨h, f', hc, hcall, hm, heq⟩
  · rwa [heq]
  · rw [heq]
    exact hinv.makes hm fun hup => hc.trans (hcall hup)

theorem queueInv_run (q : Queue) (events : List Event) : QueueInv q (Machine.run q events) := by
  induction events using List.reverseRecOn with
  | nil => exact QueueInv.empty q
  | append_singleton events ev ih =>
    rw [Machine.run, List.foldl_concat]
    exact ih.step ev

/-! ## The guarantees -/

/-- A job that is claimed was not archived, is not busy, and its attempts exceed those of every
claim before. -/
structure Claimable (q : Queue) (f : Files) (job : Job) (before : List Happened) : Prop where
  archived : ¬ Archived q f job.id
  idle : ¬ Busy job.id before
  attempts : ∀ g ∈ before, ∀ prev, g.job = some prev → prev.id = job.id →
    prev.attempts < job.attempts

theorem QueueInv.claimable (hinv : QueueInv q m) (hup : m.up = true)
    (hm : Makes q m.files h f') {job : Job} (hjob : h.job = some job) :
    Claimable q m.files job m.history := by
  obtain ⟨name, r, ⟨hr, hwait, -⟩, rfl⟩ := hm.claimed_record hjob
  obtain rfl : q.queueKey r.id = name := hinv.named name r hr
  have hnone : m.files.archive.lookup (q.queueKey r.id) = none :=
    (hinv.settled hup _).resolve_left fun h => absurd (h.symm.trans hr) (by simp)
  have harchived : ¬ Archived q m.files r.id := by
    rintro ⟨a, ha, -⟩
    cases hnone.symm.trans ha
  refine ⟨harchived, fun hbusy => ?_, fun g hg prev hprev hid => ?_⟩
  · obtain ⟨r', hr', -, hst⟩ := hinv.running hup r.id hbusy
    obtain rfl := Option.mem_unique hr hr'
    exact hwait hst
  · have hid' : prev.id = r.id := hid
    rcases hinv.taken g hg prev hprev with ha | ⟨r', hr', -, hatt⟩
    · exact absurd (hid' ▸ ha) harchived
    · rw [hid'] at hr'
      obtain rfl := Option.mem_unique hr hr'
      exact Int.lt_add_one_of_le hatt

/-- A step adds at most one call to the history, and lets the files evolve. -/
theorem QueueInv.step_history (hinv : QueueInv q m) (ev : Event) :
    Evolves q m.files (m.step q ev).files ∧ ((m.step q ev).history = m.history ∨
      ∃ h, (m.step q ev).history = h :: m.history ∧
        ∀ job, h.job = some job → Claimable q m.files job m.history) := by
  rcases step_cases q m ev with ⟨-, heq⟩ | ⟨h, f', hc, hcall, hm, heq⟩
  · rw [heq]
    exact ⟨Evolves.refl _, Or.inl rfl⟩
  · rw [heq]
    have hcall' : m.up = false → h.call = .initializeQueue := fun hup => hc.trans (hcall hup)
    refine ⟨hm.evolves fun hne => hinv.settled_of_call hcall' hne,
      Or.inr ⟨h, rfl, fun job hjob => ?_⟩⟩
    refine hinv.claimable ?_ hm hjob
    by_contra hdown
    exact absurd ((Happened.call_of_job hjob).symm.trans (hcall' (Bool.not_eq_true _ ▸ hdown)))
      (by simp)

theorem run_append (q : Queue) (events more : List Event) :
    Machine.run q (events ++ more) = more.foldl (Machine.step q) (Machine.run q events) :=
  List.foldl_append

theorem always_claimable (q : Queue) (events : List Event) :
    Always (fun h before => ∀ job, h.job = some job → ∃ f, Claimable q f job before)
      (Machine.run q events).history := by
  induction events using List.reverseRecOn with
  | nil => trivial
  | append_singleton events ev ih =>
    rw [run_append]
    obtain ⟨-, heq | ⟨h, heq, hclaim⟩⟩ := (queueInv_run q events).step_history ev
    · rw [List.foldl_cons, List.foldl_nil, heq]
      exact ih
    · rw [List.foldl_cons, List.foldl_nil, heq]
      exact ⟨fun job hjob => ⟨_, hclaim job hjob⟩, ih⟩

theorem archived_run (q : Queue) (events more : List Event)
    (ha : Archived q (Machine.run q events).files id) :
    Archived q (Machine.run q (events ++ more)).files id ∧
      ∃ new, (Machine.run q (events ++ more)).history = new ++ (Machine.run q events).history ∧
        ∀ h ∈ new, h.job.map Job.id ≠ some id := by
  induction more using List.reverseRecOn with
  | nil =>
    rw [List.append_nil]
    exact ⟨ha, [], rfl, fun h hh => absurd hh List.not_mem_nil⟩
  | append_singleton more ev ih =>
    obtain ⟨ha', new, hnew, hfree⟩ := ih
    rw [← List.append_assoc, run_append, List.foldl_cons, List.foldl_nil]
    obtain ⟨he, heq | ⟨h, heq, hclaim⟩⟩ := (queueInv_run q (events ++ more)).step_history ev
    · exact ⟨ha'.evolves he, new, heq.trans hnew, hfree⟩
    · refine ⟨ha'.evolves he, h :: new, by rw [heq, hnew, List.cons_append], ?_⟩
      intro g hg
      rcases List.mem_cons.mp hg with rfl | hg
      · intro hid
        obtain ⟨job, hjob, rfl⟩ := Option.map_eq_some_iff.mp hid
        exact (hclaim job hjob).archived ha'
      · exact hfree g hg

/-- An `enqueue` of a recorded job under another identity fails and changes nothing. -/
theorem Makes.rejected {reply : Option (Except String Reply)} {w : Bool} (hs : ∀ n, f.Settled n)
    (hrec : Recorded q f i) (hid : i.id = input.id) (hne : i ≠ input.identity)
    (hm : Makes q f ⟨.enqueue input, reply, w⟩ f') : f' = f ∧ ∀ r, reply ≠ some (.ok r) := by
  obtain ⟨r, hr, rfl⟩ := hrec
  rw [hid] at hr
  cases hm with
  | failed => exact ⟨rfl, by simp⟩
  | cut hw => exact ⟨rfl, by simp⟩
  | @found _ _ _ a ha hida =>
    rcases hr with hr | hr
    · rcases hs (q.queueKey input.id) with h | h
      · cases h.symm.trans hr
      · cases h.symm.trans ha
    · obtain rfl := Option.mem_unique hr ha
      exact absurd hida hne
  | enqueued hput =>
    obtain ⟨hnone, hput, -⟩ := hput
    have hr := hr.resolve_right fun h => absurd (hnone.symm.trans h) (by simp)
    cases hput with
    | fresh now h => cases h.symm.trans hr
    | replace now hr' hid' hst =>
      obtain rfl := Option.mem_unique hr hr'
      exact absurd hid' hne
    | redeliver hr' hid' hst =>
      obtain rfl := Option.mem_unique hr hr'
      exact absurd hid' hne

theorem QueueInv.step_rejected (hinv : QueueInv q m) (hup : m.up = true)
    (hrec : Recorded q m.files i) (hid : i.id = input.id) (hne : i ≠ input.identity)
    (times : List Int) :
    ∃ reply w, m.step q ⟨.enqueue input, times⟩ =
        { m with up := reply.isSome, history := ⟨.enqueue input, reply, w⟩ :: m.history } ∧
      (∀ r, reply ≠ some (.ok r)) ∧ (5 ≤ times.length → reply.isSome) := by
  cases hrun : run handle ((Call.enqueue input).program q).run times m.files [] with
  | mk reply rest =>
    obtain ⟨f', t⟩ := rest
    obtain ⟨rfl, hreply⟩ := (makes_of_run hrun).rejected (hinv.settled hup) hrec hid hne
    refine ⟨reply, t.any isWrite, ?_, hreply, fun hlen => ?_⟩
    · simp [Machine.step, hup, hrun]
    · have hwithin : Within 5 ((Call.enqueue input).program q).run :=
        Within.bind (m := 0) (enqueue_within q input) fun _ => trivial
      have hsome := run_of_within handle_isSome hwithin hlen (s := m.files) (t := [])
      rwa [hrun] at hsome

/-- The guarantees of a queue after a history of calls and crashes. -/
structure Contract (q : Queue) (events : List Event) : Prop where
  /-- A job whose `enqueue` returned stays recorded, under the same id, deployment and fingerprint.
  -/
  recorded : ∀ h ∈ (Machine.run q events).history, ∀ input, h.accepted = some input →
    Recorded q (Machine.run q events).files input.identity
  /-- An `enqueue` of a recorded id with another deployment or fingerprint leaves the files as they
  are and does not succeed; unless a crash cuts it, it fails. -/
  rejected : ∀ i input times, (Machine.run q events).up = true →
    Recorded q (Machine.run q events).files i → i.id = input.id → i ≠ input.identity →
      ∃ reply w, Machine.run q (events ++ [⟨.enqueue input, times⟩]) =
          { Machine.run q events with
            up := reply.isSome
            history := ⟨.enqueue input, reply, w⟩ :: (Machine.run q events).history } ∧
        (∀ r, reply ≠ some (.ok r)) ∧ (5 ≤ times.length → reply.isSome)
  /-- A job that is archived is not returned by a later `claim`. -/
  archived : ∀ more id, Archived q (Machine.run q events).files id →
    ∀ new, (Machine.run q (events ++ more)).history = new ++ (Machine.run q events).history →
      ∀ h ∈ new, h.job.map Job.id ≠ some id
  /-- No `claim` returns a job between a claim of it and its `finish` or a crash. -/
  exclusive : Always (fun h before => ∀ job, h.job = some job → ¬ Busy job.id before)
    (Machine.run q events).history
  /-- The attempts of a job increase from claim to claim. -/
  increasing : Always (fun h before => ∀ job, h.job = some job → ∀ g ∈ before, ∀ prev,
    g.job = some prev → prev.id = job.id → prev.attempts < job.attempts)
      (Machine.run q events).history

theorem queue_contract (q : Queue) (events : List Event) : Contract q events where
  recorded := (queueInv_run q events).recorded
  rejected i input times hup hrec hid hne := by
    rw [run_append, List.foldl_cons, List.foldl_nil]
    exact (queueInv_run q events).step_rejected hup hrec hid hne times
  archived more id ha new hnew := by
    obtain ⟨-, new', hnew', hfree⟩ := archived_run q events more ha
    obtain rfl := List.append_cancel_right (hnew.symm.trans hnew')
    exact hfree
  exclusive := always_iff.mpr fun after h before heq job hjob =>
    have ⟨_, hclaim⟩ := always_iff.mp (always_claimable q events) after h before heq job hjob
    hclaim.idle
  increasing := always_iff.mpr fun after h before heq job hjob =>
    have ⟨_, hclaim⟩ := always_iff.mp (always_claimable q events) after h before heq job hjob
    hclaim.attempts

end SharedNode.Compiler.JobQueue
