import SharedNode.Agent.State

/-!
# Failed writes of the command store

A mutation of `FileStore` (`internal/agent/state.go`) changes the maps in memory and then rewrites
`commands.json`; when the rewrite fails the change stays in memory. `Commit` keeps the pointer to
the sync result it is given, and `Daemon.Process` (`internal/agent/daemon.go`) writes the command
and its lease through that pointer; the file has neither. A run of a store is a sequence of
mutations, each with the outcome of its rewrite, of such writes, and of restarts, each of which
reads the file again.

`Faithful` is what a caller would like of such a run: a mutation that returned an error might as
well not have been made, and what a read has returned is returned until a successful mutation
replaces it, restarts included.
-/

namespace SharedNode.Agent

open ControlPlane

variable {entry : Entry} {m : Mutation} {id : String}

/-! ## Runs of a store -/

/-- The calls of a store that write. -/
inductive Mutation where
  | setActive (serviceID : String) (active : ActiveAssignment)
  | commit (commandID serviceID : String) (result : CommandResult)
      (active : Option ActiveAssignment)
  | setLease (commandID : String) (lease : CommandLease)
  | clearLease (commandID : String)
  deriving DecidableEq, Repr

/-- The change of the maps in memory. -/
def Mutation.apply : Mutation → FileState → FileState
  | setActive svc a, s => s.setActive svc a
  | commit id svc r a, s => s.commit id svc r a
  | setLease id l, s => s.setLease id l
  | clearLease id, s => s.clearLease id

/-- What happens to a store: a mutation, with the error its rewrite of the file returns, a write of
`Process` through the pointer to a stored sync result, or a new process that opens the file. -/
inductive StoreEvent where
  | call (m : Mutation) (write : Option String)
  | stamp (commandID : String) (lease : CommandLease)
  | restart
  deriving DecidableEq, Repr

/-- What a read of a result or of an active entry returns. -/
inductive Entry where
  | result (commandID : String) (result : CommandResult)
  | active (serviceID : String) (active : ActiveAssignment)
  deriving DecidableEq, Repr

/-- A read of the state returns the entry. -/
def FileState.Returns (s : FileState) : Entry → Prop
  | .result id r => s.results id = some r
  | .active svc a => s.active svc = some a

/-- The mutation writes the place of the entry. -/
def Mutation.Writes : Mutation → Entry → Prop
  | setActive svc _, .active svc' _ => svc = svc'
  | commit id _ _ _, .result id' _ => id = id'
  | commit _ svc _ _, .active svc' _ => svc = svc'
  | _, _ => False

/-- A successful mutation of the place of the entry. -/
def StoreEvent.Replaces : StoreEvent → Entry → Prop
  | call m none, entry => m.Writes entry
  | _, _ => False

namespace FileStore

/-- The store after an event. -/
def step (s : FileStore) : StoreEvent → FileStore
  | .call m write => s.mutate m.apply write
  | .stamp id lease => { s with mem := s.mem.stamp id lease }
  | .restart => s.reload

/-- The store after a run. -/
def after (s : FileStore) (events : List StoreEvent) : FileStore := events.foldl step s

@[simp] theorem after_cons (s : FileStore) (e : StoreEvent) (events : List StoreEvent) :
    s.after (e :: events) = (s.step e).after events := rfl

theorem after_append (s : FileStore) (events later : List StoreEvent) :
    s.after (events ++ later) = (s.after events).after later := List.foldl_append

/-- `NewFileStore` on a file with these maps. -/
def opened (file : FileState) : FileStore := ⟨file.persisted, file.persisted⟩

end FileStore

/-- Two states that every read tells alike. -/
def FileState.Alike (s t : FileState) : Prop := s.results = t.results ∧ s.active = t.active

/-- What a caller would like of a run. -/
structure Faithful (s : FileStore) (events : List StoreEvent) : Prop where
  /-- Without a mutation that failed, every later read returns the same. -/
  undone : ∀ before m err later, before ++ .call m (some err) :: later <+: events →
    (s.after (before ++ .call m (some err) :: later)).mem.Alike (s.after (before ++ later)).mem
  /-- What a read returns is returned until a successful mutation replaces it. -/
  kept : ∀ before later entry, before ++ later <+: events → (s.after before).mem.Returns entry →
    (∀ e ∈ later, ¬ e.Replaces entry) → (s.after (before ++ later)).mem.Returns entry

/-! ## When a run is faithful -/

/-- A mutation that fails writes what is stored, a result that is committed names no command and no
lease in its sync result, and a write through the pointer to one finds both as it writes them. -/
def StoreEvent.Harmless (s : FileState) : StoreEvent → Prop
  | call (.setActive svc a) (some _) => s.active svc = some a
  | call (.commit id svc r a) (some _) => s.results id = some r ∧ s.active svc = a
  | call (.commit _ _ r _) none => ∀ sync ∈ r.sync, sync.commandID = "" ∧ sync.lease = {}
  | stamp id lease => ∀ r ∈ s.results id, ∀ sync ∈ r.sync, sync.commandID = id ∧ sync.lease = lease
  | _ => True

/-- Every event of a run is harmless in the state it comes to. -/
def HarmlessRun (s : FileStore) (events : List StoreEvent) : Prop :=
  ∀ before e later, events = before ++ e :: later → e.Harmless (s.after before).mem

/-- The file says the same as memory, and memory has nothing the file drops. -/
structure UpToDate (s : FileStore) : Prop where
  disk : s.disk.Alike s.mem
  plain : ∀ id r, s.mem.results id = some r → r.persisted = r

namespace FileState

variable {s t : FileState}

theorem Alike.symm (h : s.Alike t) : t.Alike s := ⟨h.1.symm, h.2.symm⟩

theorem Alike.trans {u : FileState} (h : s.Alike t) (h' : t.Alike u) : s.Alike u :=
  ⟨h.1.trans h'.1, h.2.trans h'.2⟩

/-- A mutation of the results and active entries depends on nothing else. -/
theorem Alike.apply (h : s.Alike t) (m : Mutation) : (m.apply s).Alike (m.apply t) := by
  obtain ⟨hr, ha⟩ := h
  cases m <;> simp [Mutation.apply, Alike, hr, ha]

theorem Alike.persisted (h : ∀ id r, s.results id = some r → r.persisted = r) :
    s.persisted.Alike s := by
  refine ⟨funext fun id => ?_, rfl⟩
  cases hr : s.results id with
  | none => simp [hr]
  | some r => simp [hr, h id r hr]

theorem returns_congr (h : s.Alike t) : s.Returns entry ↔ t.Returns entry := by
  cases entry <;> simp [Returns, h.1, h.2]

theorem returns_apply (h : s.Returns entry) (hm : ¬ m.Writes entry) :
    (m.apply s).Returns entry := by
  cases m with
  | setActive svc a =>
    cases entry with
    | result id r => exact h
    | active svc' a' => exact (Function.update_of_ne (Ne.symm hm) _ _).trans h
  | commit id svc r a =>
    cases entry with
    | result id' r' => exact (Function.update_of_ne (Ne.symm hm) _ _).trans h
    | active svc' a' => exact (Function.update_of_ne (Ne.symm hm) _ _).trans h
  | setLease id l => cases entry <;> exact h
  | clearLease id => cases entry <;> exact h

end FileState

variable {e : StoreEvent} {s : FileStore} {events : List StoreEvent}

namespace StoreEvent

theorem harmless_congr {s t : FileState} (h : s.Alike t) (he : e.Harmless s) : e.Harmless t := by
  obtain ⟨hresults, hactive⟩ := h
  cases e with
  | restart => trivial
  | stamp id lease => exact fun r hr => he r (hresults ▸ hr)
  | call m write =>
    cases write with
    | some err => cases m <;> simp_all [Harmless]
    | none => cases m <;> exact he

/-- A harmless mutation that fails changes no read. -/
theorem Harmless.alike {s : FileState} {err : String} (h : (call m (some err)).Harmless s) :
    (m.apply s).Alike s := by
  cases m with
  | setActive svc a => exact ⟨rfl, Function.update_eq_self_iff.mpr (Eq.symm h)⟩
  | commit id svc r a =>
    exact ⟨Function.update_eq_self_iff.mpr h.1.symm, Function.update_eq_self_iff.mpr h.2.symm⟩
  | setLease | clearLease => exact ⟨rfl, rfl⟩

/-- A harmless commit is of a result that the file has as a whole. -/
theorem Harmless.persisted {s : FileState} {svc : String} {r : CommandResult}
    {a : Option ActiveAssignment} (h : (call (.commit id svc r a) none).Harmless s) :
    r.persisted = r := by
  obtain ⟨status, code, message, sync⟩ := r
  cases sync with
  | none => rfl
  | some sync =>
    obtain ⟨hcommand, hlease⟩ := h sync rfl
    cases sync
    subst hcommand hlease
    rfl

/-- A harmless write through the pointer changes no read. -/
theorem Harmless.stamp_alike {s : FileState} {lease : CommandLease}
    (h : (stamp id lease).Harmless s) : (s.stamp id lease).Alike s := by
  refine ⟨Function.update_eq_self_iff.mpr ?_, rfl⟩
  cases hr : s.results id with
  | none => rfl
  | some r =>
    have hsync := h r hr
    obtain ⟨status, code, message, sync⟩ := r
    cases sync with
    | none => rfl
    | some sync =>
      obtain ⟨rfl, rfl⟩ := hsync sync rfl
      rfl

end StoreEvent

/-- What a harmless event does to the reads of a store that is up to date. -/
theorem UpToDate.step_mem (hs : UpToDate s) (he : e.Harmless s.mem) :
    (s.step e).mem.Alike (match e with | .call m none => m.apply s.mem | _ => s.mem) := by
  cases e with
  | restart => exact hs.disk
  | stamp id lease => exact he.stamp_alike
  | call m write =>
    cases write with
    | some err => exact he.alike
    | none => exact ⟨rfl, rfl⟩

theorem UpToDate.plain_apply (hs : UpToDate s) (he : (StoreEvent.call m none).Harmless s.mem)
    {r : CommandResult} (h : (m.apply s.mem).results id = some r) : r.persisted = r := by
  cases m with
  | setActive svc a => exact hs.plain id r h
  | setLease i l => exact hs.plain id r h
  | clearLease i => exact hs.plain id r h
  | commit i svc r' a =>
    have hr : Function.update s.mem.results i (some r') id = some r := h
    by_cases hi : id = i
    · subst hi
      rw [Function.update_self] at hr
      exact Option.some.inj hr ▸ he.persisted
    · exact hs.plain id r (by rwa [Function.update_of_ne hi] at hr)

/-- A state in memory that reads the same is as up to date. -/
theorem UpToDate.congr {mem : FileState} (hs : UpToDate s) (h : mem.Alike s.mem) :
    UpToDate { s with mem := mem } :=
  ⟨hs.disk.trans h.symm, fun id r hr => hs.plain id r (h.1 ▸ hr)⟩

theorem UpToDate.step (hs : UpToDate s) (he : e.Harmless s.mem) : UpToDate (s.step e) := by
  cases e with
  | restart => exact ⟨⟨rfl, rfl⟩, fun id r h => hs.plain id r (by rw [← hs.disk.1]; exact h)⟩
  | stamp id lease => exact hs.congr he.stamp_alike
  | call m write =>
    cases write with
    | some err => exact hs.congr he.alike
    | none => exact ⟨.persisted fun _ _ => hs.plain_apply he, fun _ _ => hs.plain_apply he⟩

theorem upToDate_opened (file : FileState) : UpToDate (.opened file) := by
  refine ⟨⟨rfl, rfl⟩, fun id r h => ?_⟩
  obtain ⟨r', -, rfl⟩ := Option.map_eq_some_iff.mp h
  exact CommandResult.persisted_persisted r'

/-! ## Whole runs -/

theorem HarmlessRun.head (h : HarmlessRun s (e :: events)) : e.Harmless s.mem := h [] e events rfl

theorem HarmlessRun.tail (h : HarmlessRun s (e :: events)) : HarmlessRun (s.step e) events :=
  fun before e' later heq => h (e :: before) e' later (by rw [heq]; rfl)

theorem harmlessRun_nil (s : FileStore) : HarmlessRun s [] :=
  fun before e later h => absurd h (by simp)

theorem HarmlessRun.cons
    (he : e.Harmless s.mem) (h : HarmlessRun (s.step e) events) : HarmlessRun s (e :: events) := by
  intro before e' later heq
  cases before with
  | nil =>
    obtain ⟨rfl, -⟩ := List.cons.inj heq
    exact he
  | cons e'' before =>
    obtain ⟨rfl, htail⟩ := List.cons.inj heq
    exact h before e' later htail

theorem HarmlessRun.of_prefix {events' : List StoreEvent}
    (h : HarmlessRun s events) (hp : events' <+: events) : HarmlessRun s events' := by
  obtain ⟨rest, rfl⟩ := hp
  exact fun before e later heq => h before e (later ++ rest) (by rw [heq]; simp)

theorem HarmlessRun.drop {later : List StoreEvent}
    (h : HarmlessRun s (events ++ later)) : HarmlessRun (s.after events) later := by
  induction events generalizing s with
  | nil => exact h
  | cons e events ih => exact ih h.tail

theorem UpToDate.after (hs : UpToDate s)
    (h : HarmlessRun s events) : UpToDate (s.after events) := by
  induction events generalizing s with
  | nil => exact hs
  | cons e events ih => exact ih (hs.step h.head) h.tail

/-- Two up-to-date stores that read alike read alike after the same harmless run. -/
theorem UpToDate.alike_after {t : FileStore} (hs : UpToDate s) (ht : UpToDate t)
    (hst : s.mem.Alike t.mem) (h : HarmlessRun s events) :
    (s.after events).mem.Alike (t.after events).mem := by
  induction events generalizing s t with
  | nil => exact hst
  | cons e events ih =>
    have he : e.Harmless t.mem := StoreEvent.harmless_congr hst h.head
    refine ih (hs.step h.head) (ht.step he) ?_ h.tail
    refine (hs.step_mem h.head).trans (FileState.Alike.trans ?_ (ht.step_mem he).symm)
    cases e with
    | restart | stamp => exact hst
    | call m write =>
      cases write with
      | some err => exact hst
      | none => exact hst.apply m

/-- An entry is returned until a successful mutation replaces it. -/
theorem UpToDate.returns_after (hs : UpToDate s) (hr : s.mem.Returns entry)
    (h : HarmlessRun s events) (hno : ∀ e ∈ events, ¬ e.Replaces entry) :
    (s.after events).mem.Returns entry := by
  induction events generalizing s with
  | nil => exact hr
  | cons e events ih =>
    refine ih (hs.step h.head) ?_ h.tail fun e' he' => hno e' (List.mem_cons_of_mem e he')
    refine (FileState.returns_congr (hs.step_mem h.head)).mpr ?_
    cases e with
    | restart | stamp => exact hr
    | call m write =>
      cases write with
      | some err => exact hr
      | none => exact FileState.returns_apply hr (hno _ List.mem_cons_self)

/-- **Harmless runs are faithful.** -/
theorem faithful_of_harmless (file : FileState) (events : List StoreEvent)
    (h : HarmlessRun (.opened file) events) : Faithful (.opened file) events where
  undone before m err later hp := by
    have hrun := h.of_prefix hp
    have hbefore : HarmlessRun (.opened file) before := hrun.of_prefix (List.prefix_append _ _)
    have hs := (upToDate_opened file).after hbefore
    have hlater := HarmlessRun.drop hrun
    rw [FileStore.after_append, FileStore.after_append, FileStore.after_cons]
    exact (hs.step hlater.head).alike_after hs (hs.step_mem hlater.head) hlater.tail
  kept before later entry hp hr hno := by
    have hrun := h.of_prefix hp
    have hs := (upToDate_opened file).after (hrun.of_prefix (List.prefix_append _ _))
    rw [FileStore.after_append]
    exact hs.returns_after hr (HarmlessRun.drop hrun) hno

/-- A sync that is committed, an entry and a lease that are not written, and a restart. -/
theorem faithful_of_harmless_lease : Faithful (.opened {})
      [.call (.commit "c" "s" { status := .stoppedAndSynced, sync := some { revision := 1 } }
          (some ⟨"a", .stopped, true⟩)) none,
        .call (.setActive "s" ⟨"a", .stopped, true⟩) (some "disk full"),
        .call (.setLease "c" ⟨"t", 2, ""⟩) (some "disk full"), .stamp "d" ⟨"t", 2, ""⟩,
          .restart] := by
  refine faithful_of_harmless {} _ (.cons ?_ (.cons rfl (.cons trivial (.cons ?_ (.cons trivial
    (harmlessRun_nil _))))))
  · rintro _ ⟨⟩
    exact ⟨rfl, rfl⟩
  · rintro _ ⟨⟩

/-- An active entry that is not written. -/
def failedStart : StoreEvent :=
  .call (.setActive "s" ⟨"a", .starting, false⟩) (some "disk full")

/-- **A failed write shows.** It is read although it returned an error, a restart takes it back,
and a later write of something else makes it durable. -/
theorem failed_write_visible : ¬ Faithful (.opened {}) [failedStart, .restart] ∧
      ((FileStore.opened {}).after [failedStart]).mem.active "s" = some ⟨"a", .starting, false⟩ ∧
      ((FileStore.opened {}).after [failedStart, .restart]).mem.active "s" = none ∧
      ((FileStore.opened {}).after
        [failedStart, .call (.clearLease "c") none, .restart]).mem.active "s" =
          some ⟨"a", .starting, false⟩ := by
  refine ⟨fun h => ?_, rfl, rfl, rfl⟩
  have hread := h.undone [] (.setActive "s" ⟨"a", .starting, false⟩) "disk full" []
    (List.prefix_append [failedStart] [.restart])
  exact absurd (congrFun hread.2 "s") (by decide)

end SharedNode.Agent
