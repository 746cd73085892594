import SharedNode.Agent.Node

/-!
# What a call changes

One lemma for each part of the node, over every call of `internal/agent`: the active entries
(`handle_active`), the stored results (`handle_results`), the state file (`handle_saved`), the
workspaces (`handle_tree`), the drafts and the publications. Proofs about the agent use these and
never open `handle` again.

`Env.Durable` is the assumption that every write of the command store succeeds; with runs cut at
any call it says that a write succeeds or the agent crashes.
-/

namespace SharedNode.Agent

open ControlPlane Effect

/-- Every store write made during the call succeeds, the renewal goroutine's among them. -/
def Env.Durable (e : Env) : Prop :=
  e.write = none ∧ ∀ lease write, e.renewal = .renewed lease write → write = none

variable {op : Op} {e : Env} {w w' : World} {x : Ans op} {svc id : String} {r : CommandResult}
  {P : FileState → Prop}

theorem handle_eq_some : handle op e w = some (x, w') ↔
      (w.background e.renewal).blocked e op = false ∧
        x = (w.background e.renewal).reply e op ∧ w' = (w.background e.renewal).after e op := by
  simp only [handle]
  cases hb : (w.background e.renewal).blocked e op with
  | true => simp
  | false =>
    simp only [Bool.false_eq_true, if_false, Option.some.injEq, Prod.mk.injEq, true_and]
    exact ⟨fun h => ⟨h.1.symm, h.2.symm⟩, fun h => ⟨h.1.symm, h.2.symm⟩⟩

/-! ## The renewal goroutine -/

namespace World

theorem background_eq (w : World) (r : Renewal) :
    ∃ store lease, w.background r = { w with store, lease } ∧
      store.mem.active = w.store.mem.active ∧ store.mem.results = w.store.mem.results ∧
      ((∀ l write, r = .renewed l write → write = none) → w.store.Saved → store.Saved) := by
  cases r with
  | quiet => exact ⟨w.store, w.lease, rfl, rfl, rfl, fun _ h => h⟩
  | renewed lease write =>
    cases hr : w.lease.renewing with
    | none => exact ⟨w.store, w.lease, by simp only [background, hr], rfl, rfl, fun _ h => h⟩
    | some id =>
      refine ⟨w.store.mutate (·.setLease id lease) write, _, by simp only [background, hr]; rfl,
        by simp, by simp, fun h _ => ?_⟩
      rw [h lease write rfl]
      exact FileStore.Saved.mutate w.store _
  | lost =>
    cases hr : w.lease.renewing with
    | none => exact ⟨w.store, w.lease, by simp only [background, hr], rfl, rfl, fun _ h => h⟩
    | some id =>
      exact ⟨w.store, ⟨none, w.lease.lease, true⟩, by simp only [background, hr], rfl, rfl,
        fun _ h => h⟩

@[simp] theorem background_active (w : World) (r : Renewal) :
    (w.background r).store.mem.active = w.store.mem.active := by
  obtain ⟨store, lease, hb, ha, -⟩ := w.background_eq r
  rw [hb]
  exact ha

@[simp] theorem background_results (w : World) (r : Renewal) :
    (w.background r).store.mem.results = w.store.mem.results := by
  obtain ⟨store, lease, hb, -, hr, -⟩ := w.background_eq r
  rw [hb]
  exact hr

theorem background_saved {w : World} {e : Env} (he : e.Durable) (h : w.store.Saved) :
    (w.background e.renewal).store.Saved := by
  obtain ⟨store, lease, hb, -, -, hs⟩ := w.background_eq e.renewal
  rw [hb]
  exact hs he.2 h

@[simp] theorem background_mutex (w : World) (r : Renewal) : (w.background r).mutex = w.mutex := by
  obtain ⟨store, lease, hb, -⟩ := w.background_eq r
  rw [hb]

@[simp] theorem background_tree (w : World) (r : Renewal) : (w.background r).tree = w.tree := by
  obtain ⟨store, lease, hb, -⟩ := w.background_eq r
  rw [hb]

@[simp] theorem background_drafts (w : World) (r : Renewal) :
    (w.background r).drafts = w.drafts := by
  obtain ⟨store, lease, hb, -⟩ := w.background_eq r
  rw [hb]

@[simp] theorem background_published (w : World) (r : Renewal) :
    (w.background r).published = w.published := by
  obtain ⟨store, lease, hb, -⟩ := w.background_eq r
  rw [hb]

/-! ## The workspace calls leave the store and the mutexes alone -/

@[simp] theorem leave_apart (w : World) (svc : String) (l : Left) :
    (w.leave svc l).store = w.store ∧ (w.leave svc l).mutex = w.mutex := by
  cases l <;> exact ⟨rfl, rfl⟩

@[simp] theorem restore_apart (w : World) (c : Command) (o : RestoreOutcome) :
    (w.restore c o).2.store = w.store ∧ (w.restore c o).2.mutex = w.mutex := by
  cases o with
  | ok path => exact ⟨rfl, rfl⟩
  | failed err l => exact leave_apart w c.serviceID l

@[simp] theorem release_apart (w : World) (c : Command) (o : ReleaseOutcome) :
    (w.release c o).2.store = w.store ∧ (w.release c o).2.mutex = w.mutex := by
  cases o with
  | ok => exact ⟨rfl, rfl⟩
  | failed err l => exact leave_apart w c.serviceID l

@[simp] theorem publish_apart (w : World) (c : Command) (d : Draft) (o : SyncOutcome) :
    (w.publish c d o).2.store = w.store ∧ (w.publish c d o).2.mutex = w.mutex := by
  cases o with
  | ok size sha => exact ⟨rfl, rfl⟩
  | failed err stage => cases stage <;> exact ⟨rfl, rfl⟩

@[simp] theorem sync_apart (w : World) (c : Command) (lost : Bool) (o : SyncOutcome) :
    (w.sync c lost o).2.store = w.store ∧ (w.sync c lost o).2.mutex = w.mutex := by
  unfold sync
  split
  · exact ⟨rfl, rfl⟩
  · exact ⟨rfl, rfl⟩
  · split
    · exact ⟨rfl, rfl⟩
    · exact publish_apart _ c _ o

@[simp] theorem leave_lease (w : World) (svc : String) (l : Left) :
    (w.leave svc l).lease = w.lease := by
  cases l <;> rfl

@[simp] theorem publish_lease (w : World) (c : Command) (d : Draft) (o : SyncOutcome) :
    (w.publish c d o).2.lease = w.lease := by
  cases o with
  | ok size sha => rfl
  | failed err stage => cases stage <;> rfl

/-- Only the start and the end of the renewal touch the lease of the command. -/
theorem after_lease (w : World) (e : Env) {op : Op} (hstart : ∀ id l, op ≠ .renewLease id l)
    (hstop : op ≠ .stopRenewal) : (w.after e op).lease = w.lease := by
  cases op with
  | renewLease id l => exact absurd rfl (hstart id l)
  | stopRenewal => exact absurd rfl hstop
  | restore c =>
    simp only [after, restore]
    split
    · rfl
    · exact leave_lease w c.serviceID _
  | release c =>
    simp only [after, release]
    split <;> exact leave_lease w c.serviceID _
  | sync c =>
    simp only [after, sync]
    split
    · rfl
    · rfl
    · split
      · rfl
      · exact publish_lease _ c _ _
  | lockFile svc =>
    simp only [after]
    split <;> rfl
  | _ => rfl

end World

/-! ## The store -/

def Op.onActive : Op → (String → Option ActiveAssignment) → String → Option ActiveAssignment
  | .setActive svc a, m => Function.update m svc (some a)
  | .commit _ svc _ a, m => Function.update m svc a
  | _, m => m

def Op.onResults : Op → (String → Option CommandResult) → String → Option CommandResult
  | .commit id _ r _, m => Function.update m id (some r)
  | .stamp id l, m => ({ results := m : FileState }.stamp id l).results
  | _, m => m

theorem handle_active (h : handle op e w = some (x, w')) :
    w'.store.mem.active = op.onActive w.store.mem.active := by
  rw [(handle_eq_some.mp h).2.2]
  cases op with
  | lockFile svc => cases hl : e.lock <;> simp [World.after, hl, Op.onActive]
  | _ => simp [World.after, Op.onActive]

theorem handle_results (h : handle op e w = some (x, w')) :
    w'.store.mem.results = op.onResults w.store.mem.results := by
  rw [(handle_eq_some.mp h).2.2]
  cases op with
  | lockFile svc => cases hl : e.lock <;> simp [World.after, hl, Op.onResults]
  | stamp id l => simp [World.after, Op.onResults, FileState.stamp]
  | _ => simp [World.after, Op.onResults]

/-- An active entry after a call was there before, or the call wrote it. -/
theorem handle_entry (h : handle op e w = some (x, w')) {a : ActiveAssignment}
    (ha : w'.store.mem.active svc = some a) :
    w.store.mem.active svc = some a ∨ op = .setActive svc a ∨
      ∃ id r, op = .commit id svc r (some a) := by
  rw [handle_active h] at ha
  cases op with
  | setActive s b =>
    by_cases hs : svc = s
    · subst hs
      obtain rfl : b = a := by simpa [Op.onActive] using ha
      exact Or.inr (Or.inl rfl)
    · rw [Op.onActive, Function.update_of_ne hs] at ha
      exact Or.inl ha
  | commit id s r b =>
    by_cases hs : svc = s
    · subst hs
      obtain rfl : b = some a := by simpa [Op.onActive] using ha
      exact Or.inr (Or.inr ⟨id, r, rfl⟩)
    · rw [Op.onActive, Function.update_of_ne hs] at ha
      exact Or.inl ha
  | _ => exact Or.inl ha

/-- A stored result after a call was there before, up to a stamp, or the call committed it. -/
theorem handle_stored (h : handle op e w = some (x, w')) (hr : w'.store.mem.results id = some r) :
    (∃ r₀, w.store.mem.results id = some r₀ ∧ r.persisted = r₀.persisted) ∨
      ∃ svc a, op = .commit id svc r a := by
  rw [handle_results h] at hr
  cases op with
  | commit i s r' b =>
    by_cases hi : id = i
    · subst hi
      obtain rfl : r' = r := by simpa [Op.onResults] using hr
      exact Or.inr ⟨s, b, rfl⟩
    · rw [Op.onResults, Function.update_of_ne hi] at hr
      exact Or.inl ⟨r, hr, rfl⟩
  | stamp i l =>
    by_cases hi : id = i
    · subst hi
      simp only [Op.onResults, FileState.stamp, Function.update_self, Option.map_eq_some_iff] at hr
      obtain ⟨r₀, h₀, rfl⟩ := hr
      refine Or.inl ⟨r₀, h₀, ?_⟩
      cases r₀ with
      | mk status code message sync => cases sync <;> rfl
    · simp only [Op.onResults, FileState.stamp, Function.update_of_ne hi] at hr
      exact Or.inl ⟨r, hr, rfl⟩
  | _ => exact Or.inl ⟨r, hr, rfl⟩

/-- Only a commit of the command changes the persisted fields of its stored result. -/
theorem handle_results_same (h : handle op e w = some (x, w'))
    (hop : ∀ svc r a, op ≠ .commit id svc r a) :
    (w'.store.mem.results id).map CommandResult.persisted =
      (w.store.mem.results id).map CommandResult.persisted := by
  rw [handle_results h]
  cases op with
  | commit i s r' b =>
    by_cases hi : id = i
    · subst hi
      exact absurd rfl (hop s r' b)
    · rw [Op.onResults, Function.update_of_ne hi]
  | stamp i l => exact congrFun (congrArg FileState.results (FileState.stamp_persisted _ i l)) id
  | _ => rfl

/-- A stored result survives every call but a commit, up to a stamp. -/
theorem handle_results_kept
    (h : handle op e w = some (x, w')) (hop : ∀ id svc r a, op ≠ .commit id svc r a)
    (hr : w.store.mem.results id = some r) :
    ∃ r', w'.store.mem.results id = some r' ∧ r'.persisted = r.persisted := by
  have hsame := handle_results_same h (hop id)
  rw [hr, Option.map_some] at hsame
  exact Option.map_eq_some_iff.mp hsame

theorem handle_saved (he : e.Durable)
    (h : handle op e w = some (x, w')) (hw : w.store.Saved) : w'.store.Saved := by
  rw [(handle_eq_some.mp h).2.2]
  have hb : (w.background e.renewal).store.Saved := World.background_saved he hw
  cases op with
  | lockFile svc => cases hl : e.lock <;> simpa [World.after, hl] using hb
  | stamp id l =>
    show (w.background e.renewal).store.disk = _
    rw [show (w.background e.renewal).store.disk = _ from hb]
    exact (FileState.stamp_persisted _ id l).symm
  | setActive svc a | commit id svc r a | setLease id l | clearLease id =>
    simp only [World.after, he.1]
    exact FileStore.Saved.mutate _ _
  | _ => simpa [World.after] using hb

theorem handle_setActive_reply {a : ActiveAssignment}
    {x : Except String Unit} (he : e.Durable) (h : handle (.setActive svc a) e w = some (x, w')) :
    x = .ok () := by
  rw [(handle_eq_some.mp h).2.1]
  simp only [World.reply, he.1, outcome]

theorem handle_commit_reply {a : Option ActiveAssignment} {x : Except String Unit} (he : e.Durable)
    (h : handle (.commit id svc r a) e w = some (x, w')) : x = .ok () := by
  rw [(handle_eq_some.mp h).2.1]
  simp only [World.reply, he.1, outcome]

theorem handle_active_reply {x : Option ActiveAssignment}
    (h : handle (.active svc) e w = some (x, w')) : x = w.store.mem.active svc := by
  rw [(handle_eq_some.mp h).2.1]
  simp [World.reply]

theorem handle_result_reply {x : Option CommandResult}
    (h : handle (.result id) e w = some (x, w')) : x = w.store.mem.results id := by
  rw [(handle_eq_some.mp h).2.1]
  simp [World.reply]

/-! ## The mutexes -/

def Op.onMutex : Op → (String → Bool) → String → Bool
  | .lockService svc, m => Function.update m svc true
  | .unlockService svc, m => Function.update m svc false
  | _, m => m

theorem handle_mutex (h : handle op e w = some (x, w')) : w'.mutex = op.onMutex w.mutex := by
  rw [(handle_eq_some.mp h).2.2]
  cases op with
  | lockFile svc => cases hl : e.lock <;> simp [World.after, hl, Op.onMutex]
  | _ => simp [World.after, Op.onMutex]

theorem handle_lockService {x : Unit}
    (h : handle (.lockService svc) e w = some (x, w')) : w.mutex svc = false := by
  simpa [World.blocked] using (handle_eq_some.mp h).1

/-! ## The file under failing writes -/

/-- A condition on a store's contents that leases and unpersisted fields do not matter for. -/
def Durably (P : FileState → Prop) : Prop :=
  ∀ s s' : FileState, s'.active = s.active →
    (∀ id, (s'.results id).map CommandResult.persisted =
      (s.results id).map CommandResult.persisted) →
    P s → P s'

theorem Durably.persisted (hP : Durably P) {s : FileState} (h : P s) : P s.persisted :=
  hP s s.persisted rfl (fun id => by cases hr : s.results id <;> simp [hr]) h

/-- The file after a mutation is the old one or the image of memory. -/
theorem FileStore.mutate_disk (hP : Durably P) {s : FileStore}
    {f : FileState → FileState} {write : Option String} (hd : P s.disk) (hm : P (f s.mem)) :
    P (s.mutate f write).disk := by
  cases write with
  | none => exact hP.persisted hm
  | some err => exact hd

theorem World.background_disk (hP : Durably P) (r : Renewal)
    (hm : P w.store.mem) (hd : P w.store.disk) : P (w.background r).store.disk := by
  cases r with
  | quiet => exact hd
  | renewed lease write =>
    cases hr : w.lease.renewing with
    | none => simpa only [background, hr] using hd
    | some id =>
      simp only [background, hr]
      exact FileStore.mutate_disk hP hd (hP w.store.mem _ rfl (fun _ => rfl) hm)
  | lost => cases hr : w.lease.renewing <;> simpa only [background, hr] using hd

/-- Whatever the writes do, the file satisfies what memory satisfied before or after the call. -/
theorem handle_disk (hP : Durably P) (h : handle op e w = some (x, w')) (hm : P w.store.mem)
    (hd : P w.store.disk) (hm' : P w'.store.mem) : P w'.store.disk := by
  rw [(handle_eq_some.mp h).2.2] at hm' ⊢
  have hb := World.background_disk hP e.renewal hm hd
  cases op with
  | lockFile svc => cases hl : e.lock <;> simpa [World.after, hl] using hb
  | setActive svc a | commit id svc r a | setLease id l | clearLease id =>
    exact FileStore.mutate_disk hP hb (by simpa [World.after] using hm')
  | _ => simpa [World.after] using hb

/-! ## Workspaces, drafts and publications -/

namespace World

theorem leave_tree (w : World) (svc : String) (l : Left) {s : String} (hs : s ≠ svc) :
    (w.leave svc l).tree s = w.tree s := by
  cases l with
  | kept => rfl
  | gone => exact Function.update_of_ne hs _ _
  | other => exact Function.update_of_ne hs _ _

@[simp] theorem leave_drafts (w : World) (svc : String) (l : Left) :
    (w.leave svc l).drafts = w.drafts := by
  cases l <;> rfl

@[simp] theorem leave_published (w : World) (svc : String) (l : Left) :
    (w.leave svc l).published = w.published := by
  cases l <;> rfl

@[simp] theorem publish_tree (w : World) (c : Command) (d : Draft) (o : SyncOutcome) :
    (w.publish c d o).2.tree = w.tree := by
  cases o with
  | ok size sha => rfl
  | failed err stage => cases stage <;> rfl

theorem publish_published (w : World) (c : Command) (d : Draft) (o : SyncOutcome) {p : Publication}
    (hp : p ∈ (w.publish c d o).2.published) : p ∈ w.published ∨ p = ⟨c, d.source⟩ := by
  cases o with
  | ok size sha => exact (List.mem_cons.mp hp).symm
  | failed err stage =>
    cases stage with
    | published => exact (List.mem_cons.mp hp).symm
    | _ => exact Or.inl hp

theorem publish_drafts (w : World) (c : Command) (d : Draft) (o : SyncOutcome) {k : String}
    {d' : Draft} (hd : (w.publish c d o).2.drafts k = some d') : w.drafts k = some d' := by
  cases o with
  | ok size sha =>
    by_cases hk : k = stagingName c
    · subst hk
      simp [publish] at hd
    · simpa [publish, Function.update_of_ne hk] using hd
  | failed err stage => cases stage <;> exact hd

/-- The workspace of a service after a sync: untouched, or there if it was missing. -/
theorem sync_tree (w : World) (c : Command) (lost : Bool) (o : SyncOutcome) (svc : String) :
    (w.sync c lost o).2.tree svc = w.tree svc ∨
      (svc = c.serviceID ∧ (w.sync c lost o).2.tree svc = some ((w.tree svc).getD .fresh)) := by
  have hens : (w.ensureTree c.serviceID).tree svc = w.tree svc ∨
      (svc = c.serviceID ∧
        (w.ensureTree c.serviceID).tree svc = some ((w.tree svc).getD .fresh)) := by
    by_cases hs : svc = c.serviceID
    · subst hs
      exact Or.inr ⟨rfl, by simp [ensureTree, setTree]⟩
    · exact Or.inl (Function.update_of_ne hs _ _)
  unfold sync
  split
  · exact Or.inl rfl
  · exact hens
  · split
    · exact hens
    · rw [publish_tree]
      exact hens

/-- The draft a sync goes on with is a staged one of the same command, or built from the
workspace. -/
theorem loadDraft_eq {w : World} {c : Command} {lost : Bool} {d : Draft}
    (h : w.loadDraft c lost = .ok d) :
    d = draftOf c d.source ∧
      (w.drafts (stagingName c) = some d ∨ d.source = (w.tree c.serviceID).getD .fresh) := by
  unfold loadDraft at h
  split at h
  next d' hd' =>
    split at h
    next hmatch =>
      obtain rfl : d' = d := by simpa using h
      refine ⟨hmatch, Or.inl ?_⟩
      cases lost with
      | true => cases hd'
      | false => simpa using hd'
    next => cases h
  next =>
    obtain rfl : _ = d := by simpa using h
    exact ⟨rfl, Or.inr rfl⟩

/-- The drafts and publications a sync adds come from the draft it goes on with. -/
theorem sync_adds (w : World) (c : Command) (lost : Bool) (o : SyncOutcome) :
    ∃ d : Draft, (d = draftOf c d.source ∧ (w.drafts (stagingName c) = some d ∨
        d.source = (w.tree c.serviceID).getD .fresh)) ∧
      (∀ k d', (w.sync c lost o).2.drafts k = some d' → w.drafts k = some d' ∨ d' = d) ∧
      (∀ p ∈ (w.sync c lost o).2.published, p ∈ w.published ∨ p = ⟨c, d.source⟩) := by
  have htree : ((w.ensureTree c.serviceID).tree c.serviceID).getD .fresh =
      (w.tree c.serviceID).getD .fresh := by simp [ensureTree, setTree]
  have hnone : ∃ d : Draft, d = draftOf c d.source ∧ (w.drafts (stagingName c) = some d ∨
      d.source = (w.tree c.serviceID).getD .fresh) :=
    ⟨draftOf c ((w.tree c.serviceID).getD .fresh), rfl, Or.inr rfl⟩
  unfold sync
  split
  · obtain ⟨d, hd⟩ := hnone
    exact ⟨d, hd, fun _ _ h => Or.inl h, fun _ h => Or.inl h⟩
  · obtain ⟨d, hd⟩ := hnone
    exact ⟨d, hd, fun _ _ h => Or.inl h, fun _ h => Or.inl h⟩
  · split
    · obtain ⟨d, hd⟩ := hnone
      exact ⟨d, hd, fun _ _ h => Or.inl h, fun _ h => Or.inl h⟩
    next d hload =>
      obtain ⟨hof, hsrc⟩ := loadDraft_eq hload
      rw [htree] at hsrc
      refine ⟨d, ⟨hof, hsrc⟩, fun k d' hk => ?_,
        fun p hp => publish_published ((w.ensureTree c.serviceID).stage c d) c d _ hp⟩
      have hk' : Function.update w.drafts (stagingName c) (some d) k = some d' :=
        publish_drafts ((w.ensureTree c.serviceID).stage c d) c d _ hk
      by_cases hks : k = stagingName c
      · subst hks
        exact Or.inr (by simpa using hk'.symm)
      · rw [Function.update_of_ne hks] at hk'
        exact Or.inl hk'

end World

/-- The workspace of a service changes by a restore, a release or a sync of that service only, and
a sync only creates a missing one. -/
theorem handle_tree (h : handle op e w = some (x, w')) (svc : String) :
    w'.tree svc = w.tree svc ∨ (∃ c, op = .restore c ∧ c.serviceID = svc) ∨
      (∃ c, op = .release c ∧ c.serviceID = svc) ∨
      ∃ c, op = .sync c ∧ c.serviceID = svc ∧ w'.tree svc = some ((w.tree svc).getD .fresh) := by
  rw [(handle_eq_some.mp h).2.2, ← World.background_tree w e.renewal]
  generalize w.background e.renewal = v
  cases op with
  | restore c =>
    by_cases hs : svc = c.serviceID
    · exact Or.inr (Or.inl ⟨c, rfl, hs.symm⟩)
    · left
      cases hr : e.restore with
      | ok path =>
        simp only [World.after, hr, World.restore]
        exact Function.update_of_ne hs _ _
      | failed err l =>
        simp only [World.after, hr, World.restore]
        exact World.leave_tree v _ l hs
  | release c =>
    by_cases hs : svc = c.serviceID
    · exact Or.inr (Or.inr (Or.inl ⟨c, rfl, hs.symm⟩))
    · left
      cases hr : e.release with
      | ok =>
        simp only [World.after, hr, World.release]
        exact World.leave_tree v _ _ hs
      | failed err l =>
        simp only [World.after, hr, World.release]
        exact World.leave_tree v _ l hs
  | sync c =>
    rcases World.sync_tree v c e.draftLost e.sync svc with hsame | ⟨rfl, hnew⟩
    · exact Or.inl hsame
    · exact Or.inr (Or.inr (Or.inr ⟨c, rfl, rfl, hnew⟩))
  | lockFile s => cases hl : e.lock <;> simp [World.after, hl]
  | _ => exact Or.inl rfl

/-- A successful restore leaves the workspace of the command's assignment and revision. -/
theorem handle_restore_ok {c : Command} {path : String}
    (h : handle (.restore c) e w = some (.ok path, w')) :
    w'.tree c.serviceID = some (.restored c.assignmentID c.workspace.revision) := by
  obtain ⟨-, hx, rfl⟩ := handle_eq_some.mp h
  cases hr : e.restore with
  | ok p => simp [World.after, hr, World.restore, World.setTree]
  | failed err l => simp [World.reply, hr, World.restore] at hx

/-- The drafts and publications after a call: those before it, and what a sync adds. -/
theorem handle_adds (h : handle op e w = some (x, w')) :
    (w'.drafts = w.drafts ∧ w'.published = w.published) ∨ ∃ c d, op = .sync c ∧
      (d = World.draftOf c d.source ∧ (w.drafts (World.stagingName c) = some d ∨
        d.source = (w.tree c.serviceID).getD .fresh)) ∧
      (∀ k d', w'.drafts k = some d' → w.drafts k = some d' ∨ d' = d) ∧
      (∀ p ∈ w'.published, p ∈ w.published ∨ p = ⟨c, d.source⟩) := by
  rw [(handle_eq_some.mp h).2.2, ← World.background_tree w e.renewal,
    ← World.background_drafts w e.renewal, ← World.background_published w e.renewal]
  generalize w.background e.renewal = v
  cases op with
  | restore c =>
    left
    cases hr : e.restore <;> simp [World.after, hr, World.restore, World.setTree]
  | release c =>
    left
    cases hr : e.release <;> simp [World.after, hr, World.release]
  | sync c =>
    obtain ⟨d, hd⟩ := World.sync_adds v c e.draftLost e.sync
    exact Or.inr ⟨c, d, rfl, hd⟩
  | lockFile s => cases hl : e.lock <;> simp [World.after, hl]
  | _ => exact Or.inl ⟨rfl, rfl⟩

end SharedNode.Agent
