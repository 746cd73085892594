import SharedNode.Effect.History
import SharedNode.Workspace.Reach

/-!
# The manifest is published last

`Sync` (`internal/workspace/workspace.go`) uploads the archives of its draft in batches and then the
manifest that refers to them. The manifest must not be there before its blobs are: every `PUT` of a
run is one of an archive, made before the publish grant is requested, or the manifest's, made after
each archive was uploaded, found in the store with the right bytes, or left out by the control
plane.

* `syncDraft_silent`: the part of `Sync` that finds or makes the draft sends nothing.
* `justified_uploadArchive`, `justified_uploadBatches`: the retries and the batches leave every
  archive settled.
-/

namespace SharedNode.Workspace

open Text ControlPlane Storage Effect

variable {grants response : List Grant} {t : Trace Op Answer} {blob : WorkspaceBlob}

/-! ## Rules -/

section Rules

variable {α : Type} {may : Trace Op Answer → Op → Prop} {φ : Op → Prop} {t : Trace Op Answer}
  {Q : α → Trace Op Answer → Prop}

theorem justified_check {r : Except String α} (h : ∀ a, r = .ok a → Q a t) :
    Justified may φ (check r) Q t := ⟨Grows.refl φ t, h⟩

theorem justified_describing {text : String} {p : M α} (hp : Justified may φ p Q t) :
    Justified may φ (describing text p) Q t := by
  refine Follows.bind (Follows.mono (fun r t' hr => ?_) hp)
  cases r with
  | ok a => exact hr
  | error err => exact ⟨hr.1, fun _ heq => nomatch heq⟩

theorem justified_guard {c : Prop} {_ : Decidable c} {err : String} {f : Unit → M α}
    (h : ¬ c → Justified may φ (f ()) Q t) :
    Justified may φ (if c then throw err >>= f else f ()) Q t := by
  by_cases hc : c
  · rw [if_pos hc]
    exact justified_throw
  · rw [if_neg hc]
    exact h hc

theorem justified_retried (hsleep : ∀ t n, may t (.sleep n) ∧ φ (.sleep n))
    {giveUp : String → String} {body : Nat → M (Except String α)}
    (hbody : ∀ n t', Grows φ t t' →
      Justified may φ (body n) (fun r t'' => ∀ a, r = .ok a → Q a t'') t') (left attempt : Nat) :
    Justified may φ (retried giveUp body left attempt) Q t := by
  suffices hfrom : ∀ t', Grows φ t t' → Justified may φ (retried giveUp body left attempt) Q t' from
    hfrom t (Grows.refl φ t)
  induction left generalizing attempt with
  | zero => exact fun _ _ => justified_throw
  | succ left ih =>
    intro t₁ h₁
    refine justified_bind (justified_mono (fun r t₂ h₂ hr _ => ?_) (hbody attempt t₁ h₁))
    cases r with
    | ok a => exact justified_pure (hr a rfl)
    | error err =>
      refine justified_guard fun _ => ?_
      refine justified_bind (justified_request (hsleep t₂ _).1 (hsleep t₂ _).2 fun _ h₃ => ?_)
      exact ih _ _ ((h₁.trans h₂).trans h₃)

end Rules

/-! ## What the history shows -/

def Matches (blob : WorkspaceBlob) (bytes : Bytes) : Prop :=
  (bytes.length : Int) = blob.compressedSize ∧ sha256 bytes = blob.sha256

/-- The blob was uploaded, or the object that was there instead was downloaded and compared with
it. -/
def Uploaded (blob : WorkspaceBlob) (t : Trace Op Answer) : Prop :=
  (∃ bytes, ⟨.put blob.key bytes, .ok .created⟩ ∈ t ∧ Matches blob bytes) ∨
  ∃ sent bytes, ⟨.put blob.key sent, .ok .alreadyExists⟩ ∈ t ∧ ⟨.get blob.key, .ok bytes⟩ ∈ t ∧
    Matches blob bytes

section Settled

variable (draft : SyncDescriptor)

/-- The control plane was asked for grants to upload the blob and others, and gave none for it. -/
def Ungranted (blob : WorkspaceBlob) (t : Trace Op Answer) : Prop :=
  ∃ keys response, blob.key ∈ keys ∧
    ⟨.grants (.sync draft.manifest draft.manifestSHA keys), .ok response⟩ ∈ t ∧
    ∀ grant ∈ response, ¬ (grant.key = blob.key ∧ grant.method = .put)

/-- Nothing is left to do for the blob. -/
def Settled (blob : WorkspaceBlob) (t : Trace Op Answer) : Prop :=
  Uploaded blob t ∨ Ungranted draft blob t

theorem Settled.grows {draft : SyncDescriptor} {t' : Trace Op Answer} {φ : Op → Prop}
    (h : Settled draft blob t) (hg : Grows φ t t') : Settled draft blob t' := by
  rcases h with (⟨bytes, hput, hm⟩ | ⟨sent, bytes, hput, hget, hm⟩) | ⟨keys, response, hk, hc, hno⟩
  · exact Or.inl (Or.inl ⟨bytes, hg.mem hput, hm⟩)
  · exact Or.inl (Or.inr ⟨sent, bytes, hg.mem hput, hg.mem hget, hm⟩)
  · exact Or.inr ⟨keys, response, hk, hg.mem hc, hno⟩

/-- The archives to upload. -/
def SyncDescriptor.locals : List Archive := draft.archives.filter fun archive => archive.path ≠ []

/-- The call asks for the grant to publish a manifest. -/
def Op.isPublication : Op → Bool
  | .grants (.publish _ _) => true
  | _ => false

/-- The grant to publish was requested. -/
def Requested (t : Trace Op Answer) : Prop := Once (fun c => c.1.isPublication) t

/-- The order of the `PUT`s: before the publish grant is requested they are for archives, after it
for the manifest, with every archive settled. -/
def InOrder (manifestKey : Bytes) (t : Trace Op Answer) : Op → Prop
  | .put key bytes =>
    (¬ Requested t ∧ ∃ archive ∈ draft.locals, key = archive.descriptor.key) ∨
    (Requested t ∧ key = manifestKey ∧ bytes = marshal draft.manifest ∧
      ∀ archive ∈ draft.locals, Settled draft archive.descriptor t)
  | _ => True

end Settled

/-! ## Uploads -/

/-- The grants that pass are those of the response, for keys that were asked for. -/
theorem grantsByKeySubset_ok {allowed : List Bytes} {method : Method} {result : List Grant}
    (h : grantsByKeySubset allowed method response result = .ok grants) :
    grants = result ++ response ∧ ∀ grant ∈ response, grant.key ∈ allowed := by
  induction response generalizing result with
  | nil =>
    refine ⟨?_, fun _ h => absurd h List.not_mem_nil⟩
    simpa [grantsByKeySubset] using (Except.ok.inj h).symm
  | cons grant rest ih =>
    unfold grantsByKeySubset at h
    split at h
    · cases h
    split at h
    · cases h
    next hallowed =>
      split at h
      · cases h
      · obtain ⟨heq, hrest⟩ := ih h
        refine ⟨by simpa using heq, List.forall_mem_cons.mpr ⟨by simpa using hallowed, hrest⟩⟩

theorem key_of_oneGrant {key : Bytes} {method : Method} {grant : Grant}
    (h : oneGrant response key method = .ok grant) : grant.key = key := by
  unfold oneGrant grantsByKey at h
  cases hgrants : grantsByKeySubset [key] method response [] with
  | error err =>
    rw [hgrants] at h
    cases h
  | ok grants =>
    obtain ⟨heq, hkeys⟩ := grantsByKeySubset_ok hgrants
    subst heq
    rw [hgrants] at h
    simp only [bind, Except.bind, List.length_singleton, pure, Except.pure] at h
    by_cases hlength : grants.length ≠ 1
    · rw [if_pos hlength] at h
      cases h
    · rw [if_neg hlength] at h
      obtain ⟨only, rfl⟩ := List.length_eq_one_iff.mp (not_not.mp hlength)
      have hkey : only.key = key := by simpa using hkeys
      cases h
      simp [grantFor, hkey]

theorem settled_of_find {draft : SyncDescriptor} {keys : List Bytes} (hkey : blob.key ∈ keys)
    (hcall : ⟨.grants (.sync draft.manifest draft.manifestSHA keys), .ok response⟩ ∈ t)
    (hgrants : grantsByKeySubset keys .put response [] = .ok grants)
    (hnone : (grants.find? fun grant => grant.key = blob.key) = none) : Settled draft blob t := by
  rw [(grantsByKeySubset_ok hgrants).1, List.nil_append] at hnone
  refine Or.inr ⟨keys, response, hkey, hcall, fun grant hgrant hput => ?_⟩
  exact List.find?_eq_none.mp hnone grant hgrant (decide_eq_true hput.1)

/-- `Upload` ends well only with the bytes of the descriptor in the store. -/
theorem justified_upload {may : Trace Op Answer → Op → Prop} {φ : Op → Prop} {bytes : Bytes}
    (hput : ∀ sent, sent = bytes ∨ blob.compressedSize < bytes.length → may t (.put blob.key sent))
    (hget : ∀ t', may t' (.get blob.key)) (hφ : φ (.get blob.key) ∧ ∀ sent, φ (.put blob.key sent))
    (grant : Grant) :
    Justified may φ (upload grant blob.key bytes blob.compressedSize blob.sha256)
      (fun _ t' => Uploaded blob t') t := by
  unfold upload
  refine justified_guard fun _ => ?_
  refine justified_bind (justified_check fun _ _ _ => ?_)
  by_cases hlong : blob.compressedSize < bytes.length
  · rw [if_pos hlong]
    have hcut : Justified may φ
      (attempt (ask (.put blob.key (bytes.take blob.compressedSize.toNat)))) (fun _ _ => True) t :=
      justified_mono (fun _ _ _ _ => trivial) (justified_attempt (Q := fun _ _ => True)
        (justified_request (hput _ (Or.inr hlong)) (hφ.2 _) fun _ => trivial))
    exact justified_bind (justified_mono (fun _ _ _ _ _ => justified_throw) hcut)
  rw [if_neg hlong]
  refine justified_guard fun hshort => ?_
  refine justified_bind (justified_request (hput _ (Or.inl rfl)) (hφ.2 _) fun reply _ => ?_)
  cases reply with
  | alreadyExists =>
    refine justified_bind (justified_request (hget _) hφ.1 fun body _ => ?_)
    split
    · exact justified_throw
    next hsame =>
      refine justified_pure (Or.inr ⟨bytes, body, by simp, by simp, ?_⟩)
      simpa [Matches, not_or] using hsame
  | created =>
    dsimp only
    split
    · exact justified_throw
    next hsame =>
      exact justified_pure (Or.inl ⟨bytes, by simp, by omega, by simpa using hsame⟩)

section Uploads

variable {draft : SyncDescriptor} {manifestKey : Bytes} {archive : Archive} {t : Trace Op Answer}

/-- Any call but the one for the publish grant. -/
abbrev beforeRequest (op : Op) : Prop := op.isPublication = false

theorem not_requested {t' : Trace Op Answer} (h : ¬ Requested t) (hg : Grows beforeRequest t t') :
    ¬ Requested t' := fun hr =>
  h (hg.once (fun _ hno hyes => Bool.false_ne_true (hno.symm.trans hyes)) hr)

theorem justified_uploadArchive (harchive : archive ∈ draft.locals) (ht : ¬ Requested t)
    (grant : Grant) :
    Justified (InOrder draft manifestKey) beforeRequest
      (uploadArchiveWithRefresh draft.manifest draft.manifestSHA archive grant)
      (fun _ t' => Settled draft archive.descriptor t') t := by
  refine justified_retried (fun _ _ => ⟨trivial, rfl⟩) (fun n t₁ h₁ => ?_) _ _
  have hread : ∀ t₂, Justified (InOrder draft manifestKey) beforeRequest
      (readFile (pathOf archive.path)) (fun _ _ => True) t₂ := by
    intro t₂
    refine justified_bind (justified_request trivial rfl fun r _ => ?_)
    cases r with
    | none => exact justified_throw
    | some bytes => exact justified_pure trivial
  refine justified_bind
    (justified_mono (fun bytes t₂ h₂ _ _ => ?_) (justified_describing (hread t₁)))
  have hupload : ∀ (grant : Grant) (t₃ : Trace Op Answer), Grows beforeRequest t₂ t₃ →
      Justified (InOrder draft manifestKey) beforeRequest (attempt (upload grant
        archive.descriptor.key bytes archive.descriptor.compressedSize archive.descriptor.sha256))
        (fun r t' => ∀ a, r = .ok a → Settled draft archive.descriptor t') t₃ := by
    intro grant t₃ h₃
    have ht₃ := not_requested ht ((h₁.trans h₂).trans h₃)
    have hkind : beforeRequest (.get archive.descriptor.key) ∧
        ∀ sent, beforeRequest (.put archive.descriptor.key sent) := ⟨rfl, fun _ => rfl⟩
    exact justified_attempt (justified_mono (fun _ _ _ h => Or.inl h) (justified_upload
      (fun _ _ => Or.inl ⟨ht₃, archive, harchive, rfl⟩) (fun _ => trivial) hkind grant))
  by_cases hn : n = 0
  · rw [if_pos hn]
    exact hupload grant t₂ (Grows.refl _ _)
  · rw [if_neg hn]
    -- A later attempt asks for a fresh grant.
    refine justified_bind (justified_describing (justified_request trivial rfl
      fun response h₃ => ?_))
    refine justified_bind (justified_check fun grants hgrants _ => ?_)
    refine justified_bind (justified_pure fun _ => ?_)
    dsimp only
    split
    next hnone =>
      refine justified_pure fun _ _ => settled_of_find (List.mem_singleton_self _) ?_ hgrants hnone
      exact List.mem_cons_self
    next grant' _ => exact hupload grant' _ h₃

theorem justified_uploadArchives {keys : List Bytes}
    (hgrants : grantsByKeySubset keys .put response [] = .ok grants) (batch : List Archive)
    (hbatch : ∀ archive ∈ batch, archive ∈ draft.locals ∧ archive.descriptor.key ∈ keys)
    (ht : ¬ Requested t)
    (hcall : ⟨.grants (.sync draft.manifest draft.manifestSHA keys), .ok response⟩ ∈ t) :
    Justified (InOrder draft manifestKey) beforeRequest
      (uploadArchives draft.manifest draft.manifestSHA grants batch)
      (fun _ t' => ∀ archive ∈ batch, Settled draft archive.descriptor t') t := by
  induction batch generalizing t with
  | nil => exact justified_pure fun _ h => absurd h List.not_mem_nil
  | cons archive rest ih =>
    obtain ⟨hlocal, hkey⟩ := hbatch archive List.mem_cons_self
    have hrest : ∀ t₁, Grows beforeRequest t t₁ → Settled draft archive.descriptor t₁ →
        Justified (InOrder draft manifestKey) beforeRequest
          (uploadArchives draft.manifest draft.manifestSHA grants rest)
          (fun _ t' => ∀ other ∈ archive :: rest, Settled draft other.descriptor t') t₁ := by
      intro t₁ h₁ hsettled
      refine justified_mono (fun _ t₂ h₂ hall => List.forall_mem_cons.mpr ⟨hsettled.grows h₂, hall⟩)
        (ih (List.forall_mem_cons.mp hbatch).2 (not_requested ht h₁)
          (h₁.mem hcall))
    unfold uploadArchives
    split
    next hnone => exact hrest t (Grows.refl _ _) (settled_of_find hkey hcall hgrants hnone)
    next grant _ =>
      exact justified_bind (justified_mono (fun _ t₁ _ hsettled h₁ => hrest t₁ h₁ hsettled)
        (justified_uploadArchive hlocal ht grant))

theorem justified_uploadBatches (groups : List (List Archive))
    (hgroups : ∀ group ∈ groups, ∀ archive ∈ group, archive ∈ draft.locals) (ht : ¬ Requested t) :
    Justified (InOrder draft manifestKey) beforeRequest
      (uploadBatches draft.manifest draft.manifestSHA groups)
      (fun _ t' => ∀ archive ∈ groups.flatten, Settled draft archive.descriptor t') t := by
  induction groups generalizing t with
  | nil => exact justified_pure fun _ h => absurd h List.not_mem_nil
  | cons group rest ih =>
    refine justified_bind
      (justified_describing (justified_request trivial rfl fun response h₁ => ?_))
    refine justified_bind (justified_check fun grants hgrants _ => ?_)
    have hgroup : ∀ archive ∈ group, archive ∈ draft.locals ∧
        archive.descriptor.key ∈ group.map (·.descriptor.key) := fun archive h =>
      ⟨hgroups group List.mem_cons_self archive h, List.mem_map_of_mem h⟩
    refine justified_bind (justified_mono (fun _ t₂ _ hsettled h₂ => ?_)
      (justified_uploadArchives hgrants group hgroup (not_requested ht h₁) List.mem_cons_self))
    refine justified_mono (fun _ t₃ h₃ hall archive harchive => ?_)
      (ih (List.forall_mem_cons.mp hgroups).2 (not_requested ht (h₁.trans h₂)))
    rcases List.mem_append.mp harchive with h | h
    · exact (hsettled archive h).grows h₃
    · exact hall archive h

theorem flatten_batches {α : Type} (n : Nat) (l : List α) (h : l.length ≤ n) :
    (batches n l).flatten = l := by
  induction n generalizing l with
  | zero => simp [batches, List.length_eq_zero_iff.mp (Nat.le_zero.mp h)]
  | succ n ih =>
    unfold batches
    split
    next hempty => simp [List.isEmpty_iff.mp hempty]
    next hne =>
      rw [List.flatten_cons, ih _ (by rw [List.length_drop, restoreGrantBatch]; omega),
        List.take_append_drop]

end Uploads

/-! ## From the draft on -/

abbrev silent (op : Op) : Prop := op.isExchange = false

theorem inOrder_of_silent {draft : SyncDescriptor} {manifestKey : Bytes}
    (t : Trace Op Answer) (op : Op) (h : silent op) : InOrder draft manifestKey t op := by
  cases op with
  | put key bytes => exact absurd h (by simp [Op.isExchange])
  | _ => trivial

theorem inside_top (p : Path) : Inside [[]] p := ⟨[], List.mem_singleton_self _, List.nil_prefix⟩

theorem silent_of_offline {α : Type} {ψ : α → Prop} {p : M α}
    (hp : Confined (Op.Offline [[]] fun _ => True) p ψ) : Confined silent p fun _ => True :=
  hp.mono (fun _ h => h.2) fun _ _ => trivial

theorem justified_publish (m : Manager) (stagingBase : Path) (command : Command) (revision : Int)
    (draft : SyncDescriptor) (ht : ¬ Requested t) :
    Justified (InOrder draft (manifestKey (lit command.workspace.objectPrefix) revision))
      (fun _ => True) (m.publish stagingBase command revision draft) (fun _ _ => True) t := by
  unfold Manager.publish
  refine justified_guard fun _ => ?_
  have huploads : Justified
      (InOrder draft (manifestKey (lit command.workspace.objectPrefix) revision)) beforeRequest
      (uploadBatches draft.manifest draft.manifestSHA (batches draft.locals.length draft.locals)) _
        t :=
    justified_uploadBatches _ (fun group hg archive ha =>
      (flatten_batches _ _ le_rfl ▸ List.mem_flatten.mpr ⟨group, hg, ha⟩ :)) ht
  refine justified_bind (justified_mono (fun _ t₁ _ h₁ _ => ?_)
    (justified_widen (fun _ _ => trivial) huploads))
  rw [flatten_batches _ _ le_rfl] at h₁
  refine justified_bind
    (justified_describing (justified_request trivial trivial fun response h₂ => ?_))
  refine justified_bind (justified_check fun grant hgrant _ => ?_)
  have hput : ∀ t₃, Grows (fun _ => True) (⟨.grants (.publish draft.manifest draft.manifestSHA),
        .ok response⟩ :: t₁) t₃ →
      InOrder draft (manifestKey (lit command.workspace.objectPrefix) revision) t₃
        (.put grant.key (marshal draft.manifest)) := fun t₃ h₃ =>
    Or.inr ⟨⟨_, h₃.mem List.mem_cons_self, rfl⟩, key_of_oneGrant hgrant, rfl, fun archive ha =>
      (h₁.2 archive ha).grows (h₂.trans h₃)⟩
  have hmanifest : ∀ t₃, Grows (fun _ => True)
    (⟨.grants (.publish draft.manifest draft.manifestSHA),
        .ok response⟩ :: t₁) t₃ → Justified
      (InOrder draft (manifestKey (lit command.workspace.objectPrefix) revision)) (fun _ => True)
      (upload grant grant.key (marshal draft.manifest) (marshal draft.manifest).length
        draft.manifestSHA) (fun _ _ => True) t₃ := by
    intro t₃ h₃
    let blob : WorkspaceBlob := { key := grant.key, sha256 := draft.manifestSHA,
                                  compressedSize := (marshal draft.manifest).length }
    have hsent : ∀ sent, sent = marshal draft.manifest ∨
        blob.compressedSize < (marshal draft.manifest).length →
        InOrder draft (manifestKey (lit command.workspace.objectPrefix) revision) t₃
          (.put blob.key sent) := by
      intro sent hsent
      obtain rfl := hsent.resolve_right (lt_irrefl _)
      exact hput t₃ h₃
    exact justified_mono (fun _ _ _ _ => trivial)
      (justified_upload hsent (fun _ => trivial) ⟨trivial, fun _ => trivial⟩ grant)
  refine justified_bind (justified_mono (fun _ t₃ _ _ h₃ => ?_) (justified_describing
    (justified_retried (Q := fun _ _ => True) (fun _ _ => ⟨trivial, trivial⟩)
      (fun n t₃ h₃ => justified_mono (fun _ _ _ _ _ _ => trivial)
        (justified_attempt (hmanifest t₃ h₃))) _ _)))
  have hrest : Confined silent (do
      ask (.remember (lit command.serviceID) draft.manifest)
      m.persistRestored command.serviceID draft.manifest
      describing "remove completed sync staging" (ask (.removeAll stagingBase))) fun _ => True := by
    refine confined_asked rfl fun _ => ?_
    refine (silent_of_offline (persistRestored_offline _
      ⟨inside_top _, trivial, inside_top _, trivial⟩)).bind fun _ _ => ?_
    exact confined_describing (confined_ask rfl)
  exact justified_mono (fun _ _ _ _ => trivial) (justified_widen (fun _ _ => trivial)
    (hrest.justified inOrder_of_silent))

/-! ## The draft -/

section Silent

variable (m : Manager) (command : Command)

theorem newDraft_silent (stagingBase workspacePath : Path) (start : Bytes) (revision : Int) :
    Confined silent (m.newDraft stagingBase workspacePath start command revision) fun _ =>
      True := by
  refine confined_described rfl fun _ => ?_
  refine confined_described rfl fun _ => ?_
  refine (silent_of_offline (collectFiles_offline (inside_top _))).bind fun found _ => ?_
  refine (silent_of_offline (previousManifest_offline (inside_top _))).bind fun previous _ => ?_
  refine (silent_of_offline
    (buildManifest_offline start revision previous _ (inside_top _) (fun _ _ => trivial) _
    fun _ _ => inside_top _)).bind fun built _ => ?_
  exact (confined_describing
    (silent_of_offline (saveJSON_offline _ (inside_top _) trivial (inside_top _)
    trivial))).bind fun _ _ => confined_pure trivial

theorem loadSyncDescriptor_silent (stagingBase : Path) (revision : Int) :
    Confined silent (loadSyncDescriptor stagingBase command revision) fun _ => True := by
  refine confined_described rfl fun data => ?_
  cases data with
  | none => exact confined_pure trivial
  | some data =>
    dsimp only
    split
    · exact confined_throw
    · refine confined_checked fun _ => ?_
      exact (silent_of_offline (verifyArchives_offline _ _ fun _ _ =>
        Or.inr (inside_top _))).bind fun _ _ => confined_pure trivial

/-- Up to the draft nothing is asked of the control plane or the store. -/
theorem syncDraft_silent : Confined silent (m.syncDraft command) fun _ => True := by
  unfold Manager.syncDraft
  refine confined_guard fun _ => ?_
  refine confined_guard fun _ => ?_
  refine confined_checked fun start => ?_
  refine confined_checked fun workspacePath => ?_
  refine confined_described rfl fun found => ?_
  split
  on_goal 1 =>
    refine confined_described rfl fun _ => ?_
    refine confined_described rfl fun _ => ?_
  -- with or without a workspace that had to be made, the sync goes on
  all_goals
    refine confined_described rfl fun _ => ?_
    refine (loadSyncDescriptor_silent command _ _).bind fun loaded _ => ?_
    cases loaded with
    | some draft => exact confined_pure trivial
    | none => exact newDraft_silent m command _ _ _ _

end Silent

/-! ## Every run -/

theorem always_silent {may : Trace Op Answer → Op → Prop} (hmay : ∀ t op, silent op → may t op)
    (h : ∀ c ∈ t, silent c.1) : Always (fun c before => may before c.1) t := by
  induction t with
  | nil => trivial
  | cons c t ih =>
    exact ⟨hmay t c.1 (h c List.mem_cons_self), ih (List.forall_mem_cons.mp h).2⟩

theorem not_requested_of_silent (h : ∀ c ∈ t, silent c.1) : ¬ Requested t := by
  rintro ⟨⟨op, x⟩, hc, hop⟩
  have hsilent := h _ hc
  cases op with
  | grants request => exact absurd hsilent (by simp [Op.isExchange])
  | _ => simp [Op.isPublication] at hop

/-- **The manifest is published last.** Whatever the handler of the calls answers, each `PUT` of a
run of `Sync` is in the order of the draft that this run made or found. -/
theorem manifest_put_last {Env σ : Type} (h : Handler Op Answer Env σ) (m : Manager)
    (command : Command) (choices : List Env) (s : σ) :
    Always (fun c before => ∀ key bytes, c.1 = .put key bytes →
      ∃ draft, (run h (m.syncDraft command).run choices s []).1 = some (.ok draft) ∧
        ((¬ Requested before ∧ ∃ archive ∈ draft.locals, key = archive.descriptor.key) ∨
          (Requested before ∧ bytes = marshal draft.manifest ∧
            key = manifestKey (lit command.workspace.objectPrefix)
              (int64 (command.workspace.revision + 1)) ∧
            ∀ archive ∈ draft.locals, Settled draft archive.descriptor before)))
      (run h (m.sync command).run choices s []).2.2 := by
  have hsilent : ∀ c ∈ (run h (m.syncDraft command).run choices s []).2.2, silent c.1 :=
    fun c hc => ((syncDraft_silent m command).run_mem choices s c hc).resolve_right List.not_mem_nil
  have hnothing : ∀ P : Trace Op Answer → Bytes → Bytes → Prop,
      Always (fun c before => ∀ key bytes, c.1 = .put key bytes → P before key bytes)
        (run h (m.syncDraft command).run choices s []).2.2 := by
    intro P
    have hputs : ∀ (before : Trace Op Answer) (op : Op), silent op →
        ∀ key bytes, op = .put key bytes → P before key bytes := by
      rintro before op hop key bytes rfl
      exact Bool.noConfusion hop
    exact always_silent hputs hsilent
  rw [Manager.sync, run_bind_ok]
  generalize run h (m.syncDraft command).run choices s [] = first at hsilent hnothing ⊢
  obtain ⟨value, s', t'⟩ := first
  match value with
  | none => exact hnothing _
  | some (.error err) => exact hnothing _
  | some (.ok draft) =>
    have hfrom : Justified (InOrder draft (manifestKey (lit command.workspace.objectPrefix)
        (int64 (command.workspace.revision + 1)))) (fun _ => True) (m.syncFrom command draft)
        (fun _ _ => True) t' :=
      justified_bind (justified_mono (fun _ _ _ _ _ => justified_pure trivial)
        (justified_publish m _ command _ draft (not_requested_of_silent hsilent)))
    have hall := justified_run (h := h) hfrom (choices.drop (t'.length - 0)) s'
      (always_silent inOrder_of_silent hsilent)
    refine always_iff.mpr fun after c before heq key bytes hput => ⟨draft, rfl, ?_⟩
    have horder := always_iff.mp hall after c before heq
    rw [hput] at horder
    exact horder.imp_right fun ⟨hrequested, hkey, hbytes, hsettled⟩ =>
      ⟨hrequested, hbytes, hkey, hsettled⟩

end SharedNode.Workspace
