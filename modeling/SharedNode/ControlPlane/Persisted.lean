import SharedNode.ControlPlane.Client
import SharedNode.Text.Cut

/-!
# The credential file

`readCredential` of `internal/controlplane/client.go`, with the form that older agents wrote, and
what `setCredential` leaves for it, for every failure of the steps that store a credential.

`setCredential` writes a temporary file and renames it. In

  `if _, err := file.Write(append(persisted, '\n')); err == nil { err = file.Chmod(0o600) }`

the error belongs to the scope of the `if`, so a write that fails is not noticed: what has arrived
is renamed over the credential, and the call succeeds.
-/

namespace SharedNode.Enrollment

open Text Effect Prog

namespace Client

/-! ## Reading -/

/-- `json.Unmarshal` of the credential file. -/
def decodePersisted (data : Bytes) : Option Credential :=
  (parse data).bind (readFields false credentialFields {})

/-- A file that holds a credential alone. -/
def readLegacy (nodeID data : Bytes) : Except String Credential :=
  if ¬ validateCredential nodeID (trimSpace data) then
    .error "control-plane credential does not belong to this node"
  else .ok { credential := trimSpace data }

/-- `readCredential`, with what the file holds. -/
def readCredential (nodeID : Bytes) (file : Option Bytes) : Except String Credential :=
  match file with
  | none => .ok {}
  | some data =>
    match decodePersisted data with
    | none => readLegacy nodeID data
    | some c =>
      if c.credential = [] then readLegacy nodeID data
      else if ¬ validateCredential nodeID c.credential then
        .error "control-plane credential does not belong to this node"
      else if (parseTime c.expiresAt).isNone then
        .error "control-plane credential expiry is invalid"
      else .ok c

theorem persistedText_eq (c : Credential) : persistedText c = renderObject
    ([(lit "credential", c.credential), (lit "expiresAt", c.expiresAt)].map
      fun m => (m.1, quote m.2)) := rfl

theorem persisted_eq (c : Credential) : persisted c = persistedText c ++ [0x0a] := rfl

/-- The text is read as what it says, with or without its last byte. -/
theorem decodePersisted_text (c : Credential) {space : Bytes} (hspace : skipSpace space = []) :
    decodePersisted (persistedText c ++ space) =
      some ⟨sanitize c.credential, sanitize c.expiresAt⟩ := by
  rw [decodePersisted, persistedText_eq, parse_object_append _ hspace]
  rfl

/-- A part of the text that ends before its brace is no document. -/
theorem decodePersisted_cut {c : Credential} {k : Nat} (hk : k < (persistedText c).length) :
    decodePersisted ((persistedText c).take k) = none := by
  have hrest : (persistedText c).drop k ≠ [] := fun hnil =>
    absurd (List.drop_eq_nil_iff.mp hnil) (Nat.not_le.mpr hk)
  rw [decodePersisted, parse_cut ((persistedText_eq c).symm.trans
    (List.take_append_drop k (persistedText c)).symm) hrest, Option.bind_none]

section ReadBack

variable {nodeID : Bytes} {c : Credential}

theorem eq_of_readLegacy {data : Bytes} (h : readLegacy nodeID data = .ok c) :
    c.expiresAt = [] := by
  unfold readLegacy at h
  split at h
  · cases h
  · rw [← Except.ok.inj h]

theorem readLegacy_ne {data : Bytes} (hexpiry : (parseTime c.expiresAt).isSome) :
    readLegacy nodeID data ≠ .ok c := by
  intro h
  rw [eq_of_readLegacy h] at hexpiry
  exact absurd hexpiry (by decide)

theorem ne_nil_of_validateCredential (h : validateCredential nodeID c.credential = true) :
    c.credential ≠ [] := by
  intro hnil
  rw [hnil, validateCredential, Bool.and_eq_true] at h
  have hlead := (List.isPrefixOf_iff_prefix.mp h.1).length_le
  have hdot : (lit ".").length = 1 := rfl
  rw [List.length_append, List.length_nil] at hlead
  omega

/-- A credential whose text arrived is read back if it has no invalid bytes. -/
theorem readCredential_text_iff (hvalid : validateCredential nodeID c.credential = true)
    (hexpiry : (parseTime c.expiresAt).isSome) {space : Bytes} (hspace : skipSpace space = []) :
    readCredential nodeID (some (persistedText c ++ space)) = .ok c ↔
      ValidUtf8 c.credential ∧ ValidUtf8 c.expiresAt := by
  have hne := ne_nil_of_validateCredential hvalid
  simp only [readCredential, decodePersisted_text c hspace]
  constructor
  · intro h
    split at h
    · exact absurd h (readLegacy_ne hexpiry)
    · split at h
      · cases h
      · split at h
        · cases h
        · have hcredential := congrArg Credential.credential (Except.ok.inj h)
          have hexpires := congrArg Credential.expiresAt (Except.ok.inj h)
          exact ⟨valid_of_length (congrArg List.length hcredential),
            valid_of_length (congrArg List.length hexpires)⟩
  · rintro ⟨hcredential, hexpires⟩
    rw [sanitize_of_valid hcredential, sanitize_of_valid hexpires, if_neg hne,
      if_neg (by simp [hvalid]),
      if_neg (by rw [Option.isNone_iff_eq_none]; exact Option.isSome_iff_ne_none.mp hexpiry)]

theorem readCredential_cut_ne (hexpiry : (parseTime c.expiresAt).isSome) {k : Nat}
    (hk : k < (persistedText c).length) :
    readCredential nodeID (some ((persistedText c).take k)) ≠ .ok c := by
  simp only [readCredential, decodePersisted_cut hk]
  exact readLegacy_ne hexpiry

end ReadBack

/-! ## Storing -/

/-- A step that stores a credential changes nothing but the temporary file, unless it renames it. -/
theorem store_frame {w : World} {e : Choice} {step : FileStep} (h : step ≠ .rename) :
    (w.store e step).2.file = w.file ∧ (w.store e step).2.issued = w.issued := by
  unfold World.store
  cases e.file step with
  | some err => cases step <;> exact ⟨rfl, rfl⟩
  | none =>
    cases step with
    | rename => exact absurd rfl h
    | _ => exact ⟨rfl, rfl⟩

/-- The end of a call: the credential is the new one and its file the temporary one, or nothing has
changed. -/
def Committed (c : Credential) (w : World) (r : Outcome Unit) (w' : World) : Prop :=
  match r with
  | .ok () => w'.issued = c ∧ w'.file = w.temporary
  | .error _ => w'.issued = w.issued ∧ w'.file = w.file

section Run

variable {c : Credential} {w w' : World} {es : List Choice} {r : Outcome Unit} {t t' : Trace Op Ans}

theorem exists_of_run_step {step : FileStep} {k : Except String Unit → M (Outcome Unit)}
    (h : run handle ((ask (.file step)).bind k) es w t = (some r, w', t')) :
    ∃ e rest u, es = e :: rest ∧
      run handle (k (w.store e step).1) rest (w.store e step).2 u = (some r, w', t') := by
  obtain ⟨e, rest, x, w₁, hes, hx, hrun⟩ := exists_of_run_call h
  obtain ⟨rfl, rfl⟩ := Prod.mk.inj (Option.some.inj hx)
  exact ⟨e, rest, _, hes, hrun⟩

theorem committed_of_remove {err : String}
    (h : run handle ((ask (.file .remove)).bind fun _ => (fail err : M (Outcome Unit))) es w t =
      (some r, w', t')) (v : World) (hfile : w.file = v.file) (hissued : w.issued = v.issued) :
    Committed c v r w' := by
  obtain ⟨e, rest, u, -, hrun⟩ := exists_of_run_step h
  obtain ⟨rfl, rfl, -⟩ : (.error (.other err)) = r ∧ (w.store e .remove).2 = w' ∧ _ := by
    simpa [run] using hrun
  have hframe := @store_frame w e .remove (by decide)
  exact ⟨hframe.2.trans hissued, hframe.1.trans hfile⟩

theorem committed_of_commit (h : run handle (commit c) es w t = (some r, w', t')) :
    Committed c w r w' := by
  obtain ⟨e, rest, u, -, h⟩ := exists_of_run_step h
  have hframe := @store_frame w e .close (by decide)
  have htemporary : (w.store e .close).2.temporary = w.temporary := by
    unfold World.store
    cases e.file .close <;> rfl
  revert h
  cases (w.store e .close).1 with
  | error err => exact fun h => committed_of_remove h w hframe.1 hframe.2
  | ok done =>
    intro h
    obtain ⟨e₂, rest₂, u₂, -, h⟩ := exists_of_run_step h
    cases hfault : e₂.file .rename with
    | some err =>
      simp only [World.store, hfault] at h
      exact committed_of_remove h w hframe.1 hframe.2
    | none =>
      simp only [World.store, hfault] at h
      obtain ⟨e₃, rest₃, x, w₃, -, hassign, h⟩ := exists_of_run_call h
      cases hassign
      obtain ⟨rfl, rfl, -⟩ : Except.ok () = r ∧ _ = w' ∧ _ := by
        simpa [run] using h
      exact ⟨rfl, htemporary⟩

/-- What a write leaves of the text. -/
def arrived (c : Credential) (e : Choice) : Bytes :=
  if (e.file (.write (persisted c))).isSome then (persisted c).take e.written else persisted c

theorem store_write (w : World) (e : Choice) (c : Credential) :
    (w.store e (.write (persisted c))).2 = { w with temporary := some (arrived c e) } := by
  unfold World.store arrived
  cases e.file (.write (persisted c)) <;> rfl

theorem committed_of_written {p : M (Except String Unit)}
    (hp : p = ask (.file .chmod) ∨ ∃ err, p = ret (.error err))
    (h : run handle (p.bind fun _ => commit c) es w t = (some r, w', t')) : Committed c w r w' := by
  rcases hp with rfl | ⟨err, rfl⟩
  · obtain ⟨e, rest, u, -, hchmod⟩ := exists_of_run_step h
    have hsame : (w.store e .chmod).2 = w := by
      unfold World.store
      cases e.file .chmod <;> rfl
    rw [hsame] at hchmod
    exact committed_of_commit hchmod
  · exact committed_of_commit h

/-- A call that returns: it has stored what the write left, or changed nothing. The write is the
fourth step. -/
def Returned (nodeID : Bytes) (c : Credential) (w : World) (es : List Choice) (r : Outcome Unit)
    (w' : World) : Prop :=
  match r with
  | .ok () => validateCredential nodeID c.credential = true ∧ (parseTime c.expiresAt).isSome ∧
      w'.issued = c ∧ ∃ e, es[3]? = some e ∧ w'.file = some (arrived c e)
  | .error _ => w'.issued = w.issued ∧ w'.file = w.file

theorem returned_of_fail {nodeID : Bytes} {err : String} {v : World}
    (h : run handle (fail err) es v t = (some r, w', t')) (hfile : v.file = w.file)
    (hissued : v.issued = w.issued) (before : List Choice) : Returned nodeID c w before r w' := by
  obtain ⟨rfl, rfl, -⟩ : (.error (.other err)) = r ∧ v = w' ∧ _ := by
    simpa [run] using h
  exact ⟨hissued, hfile⟩

theorem returned_of_run {nodeID : Bytes}
    (h : run handle (setCredential nodeID c) es w t = (some r, w', t')) :
    Returned nodeID c w es r w' := by
  unfold setCredential at h
  split at h
  · exact returned_of_fail h rfl rfl es
  rename_i hvalid
  split at h
  · exact returned_of_fail h rfl rfl es
  rename_i expiry hexpiry
  obtain ⟨e₀, rest, now, w₀, rfl, hnow, h⟩ := exists_of_run_call h
  cases hnow
  rw [ret_bind] at h
  split at h
  · exact returned_of_fail h rfl rfl _
  obtain ⟨e₁, rest, u, rfl, hmade⟩ := exists_of_run_step h
  have hmkdir := @store_frame w e₁ .mkdirAll (by decide)
  revert hmade
  cases (w.store e₁ .mkdirAll).1 with
  | error err => exact fun hmade => returned_of_fail hmade hmkdir.1 hmkdir.2 _
  | ok done =>
    intro hmade
    obtain ⟨e₂, rest, u, rfl, hcreated⟩ := exists_of_run_step hmade
    have hcreate := @store_frame (w.store e₁ .mkdirAll).2 e₂ .create (by decide)
    have hfile := hcreate.1.trans hmkdir.1
    have hissued := hcreate.2.trans hmkdir.2
    revert hcreated
    cases ((w.store e₁ .mkdirAll).2.store e₂ .create).1 with
    | error err => exact fun hcreated => returned_of_fail hcreated hfile hissued _
    | ok done =>
      intro hcreated
      obtain ⟨e₃, rest, u, rfl, hwritten⟩ := exists_of_run_step hcreated
      rw [store_write] at hwritten
      have hend := committed_of_written (by split <;> simp) hwritten
      cases r with
      | error err => exact ⟨hend.1.trans hissued, hend.2.trans hfile⟩
      | ok done => exact ⟨by simpa using hvalid, by rw [hexpiry]; rfl, hend.1, e₃, rfl, hend.2⟩

end Run

/-- All but the last byte of the text arrive. -/
def Choice.keeps (c : Credential) (e : Choice) : Prop :=
  e.file (.write (persisted c)) = none ∨ (persisted c).length ≤ e.written + 1

/-- What a write left is read back if no more than the last byte is missing. -/
theorem readCredential_arrived_iff {nodeID : Bytes} {c : Credential} {e : Choice}
    (hvalid : validateCredential nodeID c.credential = true)
    (hexpiry : (parseTime c.expiresAt).isSome) :
    readCredential nodeID (some (arrived c e)) = .ok c ↔
      ValidUtf8 c.credential ∧ ValidUtf8 c.expiresAt ∧ Choice.keeps c e := by
  have hwhole := readCredential_text_iff hvalid hexpiry (show skipSpace [0x0a] = [] from rfl)
  have hlength : (persisted c).length = (persistedText c).length + 1 := by
    rw [persisted_eq, List.length_append, List.length_singleton]
  rw [← persisted_eq] at hwhole
  unfold arrived Choice.keeps
  cases hfault : e.file (.write (persisted c)) with
  | none => simpa using hwhole
  | some err =>
    simp only [Option.isSome_some, if_true, reduceCtorEq, false_or]
    by_cases hk : e.written < (persistedText c).length
    · have hcut := @readCredential_cut_ne nodeID c hexpiry e.written hk
      have htake : (persisted c).take e.written = (persistedText c).take e.written := by
        rw [persisted_eq, List.take_append_of_le_length (Nat.le_of_lt hk)]
      rw [htake]
      exact iff_of_false hcut fun h => absurd h.2.2 (by omega)
    · have hkeeps : (persisted c).length ≤ e.written + 1 := by omega
      simp only [hkeeps, and_true]
      by_cases hend : e.written = (persistedText c).length
      · have htext := readCredential_text_iff hvalid hexpiry (show skipSpace [] = [] from rfl)
        rw [List.append_nil] at htext
        rwa [persisted_eq, hend, List.take_left]
      · rwa [List.take_of_length_le (by omega)]

/-- For every failure of every step: a call that returns an error has changed neither the credential
in use nor what is read after a restart. After one that succeeds the credential in use is the new
one, and it is what is read after a restart exactly if it is valid UTF-8 and at most the last byte
of its text, a line feed, has not been written. -/
theorem setCredential_stores_iff {nodeID : Bytes} {c : Credential} {w w' : World}
    {es : List Choice} {r : Outcome Unit} {t : Trace Op Ans}
    (h : run handle (setCredential nodeID c) es w [] = (some r, w', t)) :
    (r = .ok () → w'.issued = c ∧ (readCredential nodeID w'.file = .ok c ↔
      ValidUtf8 c.credential ∧ ValidUtf8 c.expiresAt ∧ ∀ e ∈ es[3]?, Choice.keeps c e)) ∧
    (∀ err, r = .error err →
      w'.issued = w.issued ∧ readCredential nodeID w'.file = readCredential nodeID w.file) := by
  have hend := returned_of_run h
  constructor
  · rintro rfl
    obtain ⟨hvalid, hexpiry, hissued, e, he, hfile⟩ := hend
    refine ⟨hissued, ?_⟩
    rw [hfile, he, readCredential_arrived_iff hvalid hexpiry]
    simp
  · rintro err rfl
    exact ⟨hend.1, by rw [hend.2]⟩

namespace Sample

def stored : Credential := ⟨lit "n.k", lit "2026-08-01T00:00:00Z"⟩

/-- A step that fails if it is the write of the credential, after one byte. -/
def stops : Choice where
  file := fun step => if step =
    .write (persisted stored) then some "no space left on device" else none
  written := 1

/-- A call whose fourth step is `write`. -/
def calls (write : Choice) : List Choice := [{}, {}, {}, write, {}, {}, {}, {}]

/-- The outcome of a call, the credential in use, and the one that a restart finds. -/
def afterwards (write : Choice) : Outcome Unit × Credential × Except String Credential :=
  match run handle (setCredential (lit "n") stored) (calls write) {} [] with
  | (r, w, _) => (r.getD (.error (.other "")), w.issued, readCredential (lit "n") w.file)

end Sample

/-- A call whose steps succeed, and what is read afterwards. -/
theorem setCredential_stores_iff_sample :
    ∃ w t, run handle (setCredential (lit "n") Sample.stored) (Sample.calls {}) {} [] =
        (some (.ok ()), w, t) ∧
      w.issued = Sample.stored ∧ readCredential (lit "n") w.file = .ok Sample.stored := by
  have hok : (run handle (setCredential (lit "n") Sample.stored) (Sample.calls {}) {} []).1 =
      some (.ok ()) := by decide +kernel
  generalize hrun : run handle (setCredential (lit "n") Sample.stored) (Sample.calls {}) {} [] = out
    at hok
  obtain ⟨r, w, t⟩ := out
  obtain rfl : r = some (.ok ()) := hok
  have hstored := (setCredential_stores_iff hrun).1 rfl
  refine ⟨w, t, rfl, hstored.1, hstored.2.mpr ⟨?_, ?_, ?_⟩⟩
  · exact valid_ascii rfl
  · exact valid_ascii rfl
  · intro e he
    obtain rfl : ({} : Choice) = e := Option.some.inj he
    exact Or.inl rfl

/-- The write of a credential stops after one byte: the call succeeds, and after a restart the node
has no credential. -/
theorem partial_write_stored : Sample.afterwards Sample.stops = (.ok (), Sample.stored,
      .error "control-plane credential does not belong to this node") := by
  decide +kernel

end Client

end SharedNode.Enrollment
