import SharedNode.Compiler.ReplayStore
import SharedNode.Effect.Fallible

/-!
# A replay store whose file system fails

`consume` of `FilesystemReplayStore` (`compiler/src/service-identity.mjs`) with every call to the
file system, each of which may fail. What is caught where decides what a failure costs: an expired
entry that cannot be read is passed over, a failure before the entry is created goes to the caller,
and from `open(path, "wx")` on every error but `EEXIST` is answered by removing `path`.

The last rule takes for granted that `path` is a file of this call. It is not when `open` itself
fails: the file that is removed is then the entry of an earlier call.
-/

namespace SharedNode.Identity.Faults

open Text Effect

variable {e : Choice} {r : Except String Unit} {file : Nat} {w w' : World}

/-! ## Calls -/

/-- The calls to the file system. -/
inductive Op where
  | mkdir
  | stat
  | readdir
  | openRead (name : Bytes)
  | readFile (file : Nat)
  | rm (name : Bytes)
  /-- `open(path, "wx")`. -/
  | create (name : Bytes)
  | writeFile (file : Nat) (data : Bytes)
  | sync (file : Nat)
  | close (file : Nat)
  | openDirectory
  | syncDirectory
  | closeDirectory
  deriving DecidableEq, Repr

/-- The answer to a call that succeeds; `stat` says whether the directory is one and private. -/
abbrev Reply : Op → Type
  | .stat => Bool
  | .readdir => List Bytes
  | .openRead _ => Nat
  | .readFile _ => Bytes
  | .create _ => Nat
  | _ => Unit

/-- The choices of the outside for one call: the code with which it fails, if it does, how much of a
failed write arrives, and where a new file is listed. -/
structure Choice where
  fault : Option String := none
  part : Nat := 0
  place : Nat := 0

/-- A call that succeeds, or that fails because of what the directory holds. -/
def answer (w : World) (e : Choice) : (op : Op) → Except String (Reply op) × World
  | .mkdir => (.ok (), w)
  | .stat => (.ok w.isPrivate, w)
  | .readdir => (.ok (w.directory.entries.map (·.1)), w)
  | .openRead name =>
    match w.directory.lookup name with
    | some file => (.ok file, w)
    | none => (.error "ENOENT", w)
  | .readFile file => (.ok (w.directory.read file), w)
  | .rm name => (.ok (), { w with directory := w.directory.remove name })
  | .create name =>
    match w.directory.lookup name with
    | some _ => (.error "EEXIST", w)
    | none =>
      (.ok w.directory.contents.length, { w with directory := w.directory.create e.place name })
  | .writeFile file data => (.ok (), { w with directory := w.directory.write file data })
  | .sync _ => (.ok (), w)
  | .close _ => (.ok (), w)
  | .openDirectory => (.ok (), w)
  | .syncDirectory => (.ok (), w)
  | .closeDirectory => (.ok (), w)

/-- What a call that fails leaves: part of a write has arrived. -/
def torn (w : World) (e : Choice) : Op → World
  | .writeFile file data => { w with directory := w.directory.write file (data.take e.part) }
  | _ => w

def handle : Handler Op (fun op => Except String (Reply op)) Choice World := fun op e w =>
  some (match e.fault with
    | some code => (.error code, torn w e op)
    | none => answer w e op)

/-- A program over these calls; its errors are codes. -/
abbrev F := Fallible Op fun op => Except String (Reply op)

abbrev ask (op : Op) : F (Reply op) := request op

/-! ## The store -/

/-- One round of `#removeExpired`; whatever fails in it is ignored. -/
def removeIfExpired (name : Bytes) (now : Int) : F Unit :=
  if ¬ isEntryName name then pure ()
  else do
    let _ ← attempt do
      let file ← ask (.openRead name)
      let text ← ask (.readFile file)
      ask (.close file)
      if expired text now then ask (.rm name) else pure ()
    pure ()

def removeExpired : List Bytes → Int → F Unit
  | [], _ => pure ()
  | name :: rest, now => do
    removeIfExpired name now
    removeExpired rest now

/-- Whether there is room for an entry, after a removal if need be. -/
def makeRoom (maxEntries : Nat) (now : Int) : F Bool := do
  let entries ← ask .readdir
  if maxEntries ≤ entries.length then
    removeExpired (entries.take 1024) now
    let left ← ask .readdir
    pure (decide (left.length < maxEntries))
  else pure true

/-- The handler of the errors of `record`. -/
def rescue (name : Bytes) (code : String) : F Bool :=
  if code = "EEXIST" then pure false
  else do
    let _ ← attempt (ask (.rm name))
    throw "replay_store_rejected"

/-- Writes the entry that was created. -/
def store (file : Nat) (expiresAt : Int) : F Unit := do
  ask (.writeFile file (entryText expiresAt))
  ask (.sync file)
  ask (.close file)

/-- Makes the directory durable; an error of `close` is the one that is thrown. -/
def syncDirectory : F Unit := do
  ask .openDirectory
  let synced ← attempt (ask .syncDirectory)
  ask .closeDirectory
  match synced with
  | .ok () => pure ()
  | .error code => throw code

/-- Creates the entry. A handle that is still open is closed at the end. -/
def record (name : Bytes) (expiresAt : Int) : F Bool := do
  match ← attempt (ask (.create name)) with
  | .error code => rescue name code
  | .ok file =>
    match ← attempt (store file expiresAt) with
    | .error code => deferred (ask (.close file)) (rescue name code)
    | .ok () =>
      match ← attempt syncDirectory with
      | .error code => rescue name code
      | .ok () => pure true

/-- The arguments of `consume`. -/
structure Use where
  maxEntries : Nat
  key : JsString
  expiresAt : Int
  now : Int

/-- The name of the entry of a key. -/
def Use.entry (u : Use) : Bytes := sha256 (encode u.key)

def consume (u : Use) : F Bool :=
  if 512 < u.key.length ∨ ¬ isSafeInteger u.expiresAt ∨ ¬ isSafeInteger u.now ∨
      u.expiresAt ≤ u.now then throw "replay_store_rejected"
  else do
    ask .mkdir
    let isPrivate ← ask .stat
    if ¬ isPrivate then throw "replay_store_rejected"
    else
      let room ← makeRoom u.maxEntries u.now
      if room then record u.entry u.expiresAt else pure false

/-! ## Entries -/

/-- The directory holds an entry with this expiry under this name. -/
def Recorded (w : World) (name : Bytes) (t : Int) : Prop :=
  ∃ file, w.directory.lookup name = some file ∧ w.directory.read file = entryText t

/-- What was recorded and has not expired is still recorded. -/
def Kept (w₀ : World) (now : Int) (w : World) : Prop :=
  ∀ name t, Recorded w₀ name t → now < t → Recorded w name t

/-- The calls that were made, with their answers. -/
abbrev Record := Trace Op fun op => Except String (Reply op)

/-- `open` was answered with another error than `EEXIST`. -/
def Refused (name : Bytes) (t : Record) : Prop :=
  ∃ code, code ≠ "EEXIST" ∧ ⟨.create name, .error code⟩ ∈ t

/-- The file was removed. -/
def Removed (name : Bytes) (t : Record) : Prop := ⟨.rm name, .ok ()⟩ ∈ t

/-- Every run that returns ends in `Q` of its outcome. -/
abbrev After {α : Type} (p : F α) (Q : Except String α → World × Record → Prop)
    (s : World × Record) : Prop :=
  Ends (recording handle) (fun _ => True) (fun _ => True) p Q s

section Calls

variable {α : Type} {s s' : World × Record} {op : Op}

theorem after_request {Q : Except String (Reply op) → World × Record → Prop}
    (hQ : ∀ (e : Choice) r w, handle op e s.1 = some (r, w) → Q r (w, ⟨op, r⟩ :: s.2)) :
    After (request op) Q s := by
  refine ends_request trivial fun e r s' _ hx => ?_
  obtain ⟨w, t⟩ := s'
  obtain ⟨hr, rfl⟩ : handle op e s.1 = some (r, w) ∧ t = ⟨op, r⟩ :: s.2 := recording_eq_some hx
  exact hQ e r w hr

theorem handle_cases {r : Except String (Reply op)} (hx : handle op e w = some (r, w')) :
    (∃ code, r = .error code ∧ w' = torn w e op) ∨ answer w e op = (r, w') := by
  have heq := Option.some.inj hx
  cases hfault : e.fault with
  | some code =>
    rw [hfault] at heq
    obtain ⟨hr, hw⟩ := Prod.mk.inj heq
    exact .inl ⟨code, hr.symm, hw.symm⟩
  | none =>
    rw [hfault] at heq
    exact .inr heq

/-- The calls that change nothing. -/
def Quiet : Op → Prop
  | .rm _ => False
  | .create _ => False
  | .writeFile _ _ => False
  | _ => True

theorem handle_quiet (hop : Quiet op) {r : Except String (Reply op)}
    (hx : handle op e w = some (r, w')) : w' = w := by
  rcases handle_cases hx with ⟨code, -, rfl⟩ | hanswer
  · cases op with
    | writeFile => exact hop.elim
    | _ => rfl
  · have hw : (answer w e op).2 = w' := congrArg Prod.snd hanswer
    rw [← hw]
    cases op with
    | openRead name => simp only [answer]; split <;> rfl
    | rm | create | writeFile => exact hop.elim
    | _ => rfl

end Calls

/-! ## Before the entry is created -/

/-- Nothing that counts has happened: no entry was created, what has not expired is in place and was
not removed. -/
structure Untouched (w₀ : World) (now : Int) (s : World × Record) : Prop where
  kept : Kept w₀ now s.1
  fresh : ∀ name r, (⟨.create name, r⟩ : Call Op _) ∉ s.2
  spared : ∀ name t, Recorded w₀ name t → now < t → ¬ Removed name s.2

section Untouched

variable {w₀ : World} {now : Int} {s : World × Record} {op : Op}

theorem Untouched.start : Untouched w₀ now (w₀, []) :=
  ⟨fun _ _ h _ => h, fun _ _ => List.not_mem_nil, fun _ _ _ _ => List.not_mem_nil⟩

theorem Untouched.quiet (hs : Untouched w₀ now s) (hop : Quiet op)
    (r : Except String (Reply op)) : Untouched w₀ now (s.1, ⟨op, r⟩ :: s.2) := by
  refine ⟨hs.kept, fun name r' hmem => ?_, fun name t hrecorded ht hmem => ?_⟩
  · rcases List.mem_cons.mp hmem with heq | hmem
    · obtain ⟨rfl, -⟩ := Sigma.mk.inj heq
      exact hop
    · exact hs.fresh name r' hmem
  · rcases List.mem_cons.mp hmem with heq | hmem
    · obtain ⟨rfl, -⟩ := Sigma.mk.inj heq
      exact hop
    · exact hs.spared name t hrecorded ht hmem

theorem after_quiet {α : Type} (op : Op) (hop : Quiet op) (hs : Untouched w₀ now s)
    {f : Reply op → F α} {Q : Except String α → World × Record → Prop}
    (herr : ∀ code s', Untouched w₀ now s' → Q (.error code) s')
    (hok : ∀ (e : Choice) x t, handle op e s.1 = some (.ok x, s.1) →
      Untouched w₀ now (s.1, t) → After (f x) Q (s.1, t)) :
    After (ask op >>= f) Q s := by
  refine ends_bind (after_request fun e r w hx => ?_)
  obtain rfl := handle_quiet hop hx
  cases r with
  | error code => exact herr code _ (hs.quiet hop (.error code))
  | ok x => exact hok e x _ hx (hs.quiet hop (.ok x))

variable {name : Bytes} {e : Choice} {w w' : World}

theorem eq_of_openRead (hx : handle (.openRead name) e w = some (.ok file, w')) :
    w.directory.lookup name = some file := by
  rcases handle_cases hx with ⟨code, hr, -⟩ | hanswer
  · cases hr
  · simp only [answer] at hanswer
    split at hanswer
    next file' hlookup =>
      rw [hlookup, Except.ok.inj (Prod.mk.inj hanswer).1]
    next => exact nomatch (Prod.mk.inj hanswer).1

theorem eq_of_readFile {text : Bytes} (hx : handle (.readFile file) e w = some (.ok text, w')) :
    w.directory.read file = text := by
  rcases handle_cases hx with ⟨code, hr, -⟩ | hanswer
  · cases hr
  · exact Except.ok.inj (Prod.mk.inj hanswer).1

theorem rm_cases (hx : handle (.rm name) e w = some (r, w')) : (∃ code, r = .error code ∧ w' = w) ∨
      r = .ok () ∧ w' = { w with directory := w.directory.remove name } := by
  rcases handle_cases hx with ⟨code, hr, hw⟩ | hanswer
  · exact .inl ⟨code, hr, hw⟩
  · obtain ⟨hr, hw⟩ := Prod.mk.inj hanswer
    exact .inr ⟨hr.symm, hw.symm⟩

theorem recorded_remove {other : Bytes} {t : Int} (h : Recorded w other t)
    (hne : other ≠ name) : Recorded { w with directory := w.directory.remove name } other t := by
  obtain ⟨file, hlookup, hread⟩ := h
  refine ⟨file, ?_, hread⟩
  rw [Directory.lookup_remove, if_neg hne, hlookup]

/-- The removal of a name whose entry has expired, if it has one. -/
theorem Untouched.rm (hs : Untouched w₀ now s) (hexpired : ∀ t, Recorded w₀ name t → t ≤ now)
    (hx : handle (.rm name) e s.1 = some (r, w)) : Untouched w₀ now (w, ⟨.rm name, r⟩ :: s.2) := by
  have hne : ∀ {other t}, Recorded w₀ other t → now < t → other ≠ name := by
    rintro other t hrecorded ht rfl
    exact absurd (hexpired t hrecorded) (by omega)
  refine ⟨fun other t hrecorded ht => ?_, fun other r' hmem => ?_,
    fun other t hrecorded ht hmem => ?_⟩
  · rcases rm_cases hx with ⟨code, -, rfl⟩ | ⟨-, rfl⟩
    · exact hs.kept other t hrecorded ht
    · exact recorded_remove (hs.kept other t hrecorded ht) (hne hrecorded ht)
  · rcases List.mem_cons.mp hmem with heq | hmem
    · exact nomatch (Sigma.mk.inj heq).1
    · exact hs.fresh other r' hmem
  · rcases List.mem_cons.mp hmem with heq | hmem
    · exact hne hrecorded ht (Op.rm.inj (Sigma.mk.inj heq).1)
    · exact hs.spared other t hrecorded ht hmem

theorem after_removeIfExpired (hs : Untouched w₀ now s) (name : Bytes) :
    After (removeIfExpired name now) (fun r s' => r = .ok () ∧ Untouched w₀ now s') s := by
  unfold removeIfExpired
  split
  · exact ends_pure ⟨rfl, hs⟩
  · suffices hround : After (do
        let file ← ask (.openRead name)
        let text ← ask (.readFile file)
        ask (.close file)
        if expired text now then ask (.rm name) else pure ()) (fun _ => Untouched w₀ now) s from
      ends_bind (ends_attempt (ends_mono (fun _ _ h => ends_pure ⟨rfl, h⟩) hround))
    refine after_quiet (.openRead name) trivial hs (fun _ _ h => h) fun _ file _ hopen hs₁ => ?_
    refine after_quiet (.readFile file) trivial hs₁ (fun _ _ h => h) fun _ text _ hread hs₂ => ?_
    refine after_quiet (.close file) trivial hs₂ (fun _ _ h => h) fun _ _ _ _ hs₃ => ?_
    by_cases hpast : expired text now = true
    · rw [if_pos hpast]
      refine after_request fun e r w hx => hs₃.rm (fun t hrecorded => ?_) hx
      by_contra hlt
      -- The entry that was read is the one that is recorded.
      obtain ⟨file', hlookup, htext⟩ := hs.kept name t hrecorded (by omega)
      obtain rfl := Option.some.inj (hlookup.symm.trans (eq_of_openRead hopen))
      rw [← eq_of_readFile hread, htext] at hpast
      exact hlt (le_of_expired hpast)
    · rw [if_neg hpast]
      exact ends_pure hs₃

theorem after_removeExpired (names : List Bytes) (hs : Untouched w₀ now s) :
    After (removeExpired names now) (fun r s' => r = .ok () ∧ Untouched w₀ now s') s := by
  induction names generalizing s with
  | nil => exact ends_pure ⟨rfl, hs⟩
  | cons name rest ih =>
    refine ends_bind (ends_mono (fun r s' h => ?_) (after_removeIfExpired hs name))
    obtain ⟨rfl, hs'⟩ := h
    exact ih hs'

theorem after_makeRoom (maxEntries : Nat) (hs : Untouched w₀ now s) :
    After (makeRoom maxEntries now) (fun _ => Untouched w₀ now) s := by
  refine after_quiet .readdir trivial hs (fun _ _ h => h) fun _ entries _ _ hs₁ => ?_
  split
  · refine ends_bind (ends_mono (fun r s' h => ?_) (after_removeExpired _ hs₁))
    obtain ⟨rfl, hs₂⟩ := h
    exact after_quiet .readdir trivial hs₂ (fun _ _ h => h) fun _ _ _ _ hs₃ => ends_pure hs₃
  · exact ends_pure hs₁

end Untouched

/-! ## From then on -/

theorem create_cases {name : Bytes} {r : Except String Nat}
    (hx : handle (.create name) e w = some (r, w')) :
    (∃ code, r = .error code ∧ w' = w) ∨
      w.directory.lookup name = none ∧ r = .ok w.directory.contents.length ∧
        w' = { w with directory := w.directory.create e.place name } := by
  rcases handle_cases hx with ⟨code, hr, hw⟩ | hanswer
  · exact .inl ⟨code, hr, hw⟩
  · simp only [answer] at hanswer
    split at hanswer
    next =>
      obtain ⟨hr, hw⟩ := Prod.mk.inj hanswer
      exact .inl ⟨_, hr.symm, hw.symm⟩
    next hlookup =>
      obtain ⟨hr, hw⟩ := Prod.mk.inj hanswer
      exact .inr ⟨hlookup, hr.symm, hw.symm⟩

theorem write_cases {data : Bytes} (hx : handle (.writeFile file data) e w = some (r, w')) :
    ∃ written, w' = { w with directory := w.directory.write file written } ∧
      (r = .ok () → written = data) := by
  rcases handle_cases hx with ⟨code, rfl, hw⟩ | hanswer
  · exact ⟨data.take e.part, hw, fun h => nomatch h⟩
  · exact ⟨data, (congrArg Prod.snd hanswer).symm, fun _ => rfl⟩

/-- The call has a file of its own under its name; what has not expired is elsewhere. -/
structure Own (w₀ : World) (now : Int) (name : Bytes) (file : Nat) (s : World × Record) : Prop where
  mine : s.1.directory.lookup name = some file
  apart : ∀ other t, Recorded w₀ other t → now < t → other ≠ name ∧
    ∃ file', file' ≠ file ∧ s.1.directory.lookup other = some file' ∧
      s.1.directory.read file' = entryText t
  opened : ¬ Refused name s.2

section Own

variable {w₀ : World} {now : Int} {name : Bytes} {file : Nat} {s : World × Record} {op : Op}

theorem Own.kept (hs : Own w₀ now name file s) : Kept w₀ now s.1 := fun other t hrecorded ht =>
  let ⟨_, file', _, hlookup, hread⟩ := hs.apart other t hrecorded ht
  ⟨file', hlookup, hread⟩

theorem not_refused_cons {t : Record} (ht : ¬ Refused name t) {r : Except String (Reply op)}
    (hop : op ≠ .create name) : ¬ Refused name (⟨op, r⟩ :: t) := by
  rintro ⟨code, hcode, hmem⟩
  rcases List.mem_cons.mp hmem with heq | hmem
  · exact hop (Sigma.mk.inj heq).1.symm
  · exact ht ⟨code, hcode, hmem⟩

theorem Own.quiet (hs : Own w₀ now name file s) (hop : Quiet op) (r : Except String (Reply op)) :
    Own w₀ now name file (s.1, ⟨op, r⟩ :: s.2) := by
  refine ⟨hs.mine, hs.apart, not_refused_cons hs.opened ?_⟩
  rintro rfl
  exact hop

theorem own_ask (op : Op) (hop : Quiet op) (hs : Own w₀ now name file s)
    {Q : Except String (Reply op) → World × Record → Prop}
    (hQ : ∀ r t, Own w₀ now name file (s.1, t) → Q r (s.1, t)) : After (ask op) Q s := by
  refine after_request fun e r w hx => ?_
  obtain rfl := handle_quiet hop hx
  exact hQ r _ (hs.quiet hop r)

theorem own_quiet {α : Type} (op : Op) (hop : Quiet op) (hs : Own w₀ now name file s)
    {f : Reply op → F α} {Q : Except String α → World × Record → Prop}
    (herr : ∀ code t, Own w₀ now name file (s.1, t) → Q (.error code) (s.1, t))
    (hok : ∀ x t, Own w₀ now name file (s.1, t) → After (f x) Q (s.1, t)) :
    After (ask op >>= f) Q s := by
  refine ends_bind (own_ask op hop hs fun r t hs' => ?_)
  cases r with
  | error code => exact herr code t hs'
  | ok x => exact hok x t hs'

theorem Own.write (hs : Own w₀ now name file s) {data : Bytes}
    (hx : handle (.writeFile file data) e s.1 = some (r, w)) :
    Own w₀ now name file (w, ⟨.writeFile file data, r⟩ :: s.2) ∧
      (r = .ok () → w.directory.read file = data) := by
  obtain ⟨written, rfl, hwritten⟩ := write_cases hx
  refine ⟨⟨hs.mine, fun other t hrecorded ht => ?_, not_refused_cons hs.opened (by simp)⟩,
    fun hr => ?_⟩
  · obtain ⟨hne, file', hfile, hlookup, hread⟩ := hs.apart other t hrecorded ht
    exact ⟨hne, file', hfile, hlookup, (Directory.read_write_ne hfile.symm _).trans hread⟩
  · exact (Directory.read_write_self (Directory.lookup_lt hs.mine) _).trans (hwritten hr)

theorem after_store (hs : Own w₀ now name file s) (expiresAt : Int) :
    After (store file expiresAt) (fun r s' => Own w₀ now name file s' ∧
      (r = .ok () → s'.1.directory.read file = entryText expiresAt)) s := by
  refine ends_bind (after_request fun e r w hx => ?_)
  obtain ⟨hs₁, hread⟩ := hs.write hx
  cases r with
  | error code => exact ⟨hs₁, fun h => nomatch h⟩
  | ok done =>
    refine own_quiet (.sync file) trivial hs₁ (fun _ _ h => ⟨h, fun h => nomatch h⟩)
      fun _ _ hs₂ => ?_
    exact own_ask (.close file) trivial hs₂ fun _ _ hs₃ => ⟨hs₃, fun _ => hread rfl⟩

theorem after_syncDirectory (hs : Own w₀ now name file s) :
    After syncDirectory (fun _ s' => Own w₀ now name file s' ∧ s'.1 = s.1) s := by
  refine own_quiet .openDirectory trivial hs (fun _ _ h => ⟨h, rfl⟩) fun _ _ hs₁ => ?_
  refine ends_bind (ends_attempt (own_ask .syncDirectory trivial hs₁ fun r _ hs₂ => ?_))
  refine own_quiet .closeDirectory trivial hs₂ (fun _ _ h => ⟨h, rfl⟩) fun _ _ hs₃ => ?_
  cases r with
  | ok done => exact ends_pure ⟨hs₃, rfl⟩
  | error code => exact ends_throw ⟨hs₃, rfl⟩

theorem after_rescue (hs : Own w₀ now name file s) (code : String) : After (rescue name code)
      (fun r s' => r ≠ .ok true ∧ Kept w₀ now s'.1 ∧ ¬ Refused name s'.2) s := by
  unfold rescue
  split
  · exact ends_pure ⟨nofun, hs.kept, hs.opened⟩
  · refine ends_bind (ends_attempt (after_request fun e r w hx => ?_))
    refine ends_throw ⟨nofun, ?_, not_refused_cons hs.opened (by simp)⟩
    rcases rm_cases hx with ⟨code, -, rfl⟩ | ⟨-, rfl⟩
    · exact hs.kept
    · exact fun other t hrecorded ht =>
        recorded_remove (hs.kept other t hrecorded ht) (hs.apart other t hrecorded ht).1

end Own

/-! ## A call -/

/-- The outside does not refuse to open a name that has an entry, to then remove it. -/
def Spared (w₀ : World) (now : Int) (name : Bytes) (t : Record) : Prop :=
  ∀ expiry, Recorded w₀ name expiry → now < expiry → ¬ (Refused name t ∧ Removed name t)

structure Left (w₀ : World) (now : Int) (name : Bytes) (expiresAt : Int) (r : Except String Bool)
    (s : World × Record) : Prop where
  rejected : r ≠ .ok true → (Kept w₀ now s.1 ↔ Spared w₀ now name s.2)
  accepted : r = .ok true → Recorded s.1 name expiresAt ∧
    ∀ expiry, Recorded w₀ name expiry → expiry ≤ now

section Call

variable {w₀ : World} {now : Int} {name : Bytes} {expiresAt : Int} {s : World × Record}

theorem left_of_kept {r : Except String Bool} (hr : r ≠ .ok true) (hkept : Kept w₀ now s.1)
    (hopened : ¬ Refused name s.2) : Left w₀ now name expiresAt r s :=
  ⟨fun _ => ⟨fun _ _ _ _ h => hopened h.1, fun _ => hkept⟩, fun h => absurd h hr⟩

theorem Untouched.left (hs : Untouched w₀ now s) {r : Except String Bool} (hr : r ≠ .ok true) :
    Left w₀ now name expiresAt r s :=
  left_of_kept hr hs.kept fun ⟨_, _, hmem⟩ => hs.fresh _ _ hmem

/-- A name that cannot be opened is removed, whoever has an entry there. -/
theorem after_refused (hs : Untouched w₀ now s) (code : String) :
    After (rescue name code) (Left w₀ now name expiresAt)
      (s.1, ⟨.create name, .error code⟩ :: s.2) := by
  unfold rescue
  split
  next hcode =>
    refine ends_pure (left_of_kept (fun h => nomatch h) hs.kept ?_)
    rintro ⟨code', hcode', hmem⟩
    rcases List.mem_cons.mp hmem with heq | hmem
    · obtain rfl : code' = code := Except.error.inj (eq_of_heq (Sigma.mk.inj heq).2)
      exact hcode' hcode
    · exact hs.fresh _ _ hmem
  next hcode =>
    refine ends_bind (ends_attempt (after_request fun e r w hx => ?_))
    refine ends_throw ⟨fun _ => ?_, fun h => nomatch h⟩
    have hrefused : Refused name (⟨.rm name, r⟩ :: ⟨.create name, .error code⟩ :: s.2) :=
      ⟨code, hcode, .tail _ (.head _)⟩
    rcases rm_cases hx with ⟨code', rfl, rfl⟩ | ⟨rfl, rfl⟩
    · refine ⟨fun _ expiry hrecorded ht h => ?_, fun _ => hs.kept⟩
      rcases List.mem_cons.mp h.2 with heq | hmem
      · exact nomatch eq_of_heq (Sigma.mk.inj heq).2
      · rcases List.mem_cons.mp hmem with heq | hmem
        · exact nomatch (Sigma.mk.inj heq).1
        · exact hs.spared name expiry hrecorded ht hmem
    · constructor
      · intro hkept expiry hrecorded ht
        obtain ⟨file, hlookup, -⟩ := hkept name expiry hrecorded ht
        rw [Directory.lookup_remove, if_pos rfl] at hlookup
        cases hlookup
      · intro hspared other expiry hrecorded ht
        refine recorded_remove (hs.kept other expiry hrecorded ht) ?_
        rintro rfl
        exact hspared expiry hrecorded ht ⟨hrefused, .head _⟩

theorem after_record (hs : Untouched w₀ now s) :
    After (record name expiresAt) (Left w₀ now name expiresAt) s := by
  refine ends_bind (ends_attempt (after_request fun e r w hx => ?_))
  rcases create_cases hx with ⟨code, rfl, rfl⟩ | ⟨hfree, rfl, rfl⟩
  · exact after_refused hs code
  · have hown : Own w₀ now name s.1.directory.contents.length
        ({ s.1 with directory := s.1.directory.create e.place name },
          ⟨.create name, .ok s.1.directory.contents.length⟩ :: s.2) := by
      refine ⟨?_, fun other t hrecorded ht => ?_, ?_⟩
      · rw [Directory.lookup_create hfree, if_pos rfl]
      · obtain ⟨file', hlookup, hread⟩ := hs.kept other t hrecorded ht
        have hlt := Directory.lookup_lt hlookup
        have hne : other ≠ name := by
          rintro rfl
          exact nomatch hfree.symm.trans hlookup
        refine ⟨hne, file', Nat.ne_of_lt hlt, ?_, (Directory.read_create_of_lt hlt).trans hread⟩
        rw [Directory.lookup_create hfree, if_neg hne, hlookup]
      · rintro ⟨code, -, hmem⟩
        rcases List.mem_cons.mp hmem with heq | hmem
        · exact nomatch eq_of_heq (Sigma.mk.inj heq).2
        · exact hs.fresh _ _ hmem
    have hexpired : ∀ expiry, Recorded w₀ name expiry → expiry ≤ now := by
      intro expiry hrecorded
      by_contra hlt
      exact (hown.apart name expiry hrecorded (by omega)).1 rfl
    have hrescue : ∀ {s' : World × Record} (code : String),
        Own w₀ now name s.1.directory.contents.length s' →
        After (rescue name code) (Left w₀ now name expiresAt) s' := fun code hs' =>
      ends_mono (fun _ _ ⟨hr, hkept, hopened⟩ => left_of_kept hr hkept hopened)
        (after_rescue hs' code)
    refine ends_bind (ends_attempt (ends_mono (fun r s₁ h => ?_) (after_store hown expiresAt)))
    obtain ⟨hs₁, hread⟩ := h
    cases r with
    | error code =>
      refine ends_deferred (ends_mono (fun r s₂ h => ?_) (after_rescue hs₁ code))
      obtain ⟨hr, hkept, hopened⟩ := h
      refine after_request fun e r' w hx => ?_
      obtain rfl := handle_quiet (show Quiet (.close _) from trivial) hx
      exact left_of_kept hr hkept (not_refused_cons hopened (by simp))
    | ok done =>
      refine ends_bind (ends_attempt (ends_mono (fun r s₂ h => ?_) (after_syncDirectory hs₁)))
      obtain ⟨hs₂, hsame⟩ := h
      cases r with
      | error code => exact hrescue code hs₂
      | ok done =>
        refine ends_pure ⟨fun h => absurd rfl h, fun _ => ⟨⟨_, hs₂.mine, ?_⟩, hexpired⟩⟩
        rw [hsame, hread rfl]

theorem after_consume (u : Use) (w : World) :
    After (consume u) (Left w u.now u.entry u.expiresAt) (w, []) := by
  have hs : Untouched w u.now (w, []) := .start
  unfold consume
  split
  · exact ends_throw (hs.left fun h => nomatch h)
  · refine after_quiet .mkdir trivial hs (fun _ _ h => h.left fun h => nomatch h)
      fun _ _ _ _ hs₁ => ?_
    refine after_quiet .stat trivial hs₁ (fun _ _ h => h.left fun h => nomatch h)
      fun _ isPrivate _ _ hs₂ => ?_
    split
    · exact ends_throw (hs₂.left fun h => nomatch h)
    · refine ends_bind (ends_mono (fun r s' hs' => ?_) (after_makeRoom u.maxEntries hs₂))
      cases r with
      | error code => exact hs'.left fun h => nomatch h
      | ok room =>
        show After (if room = true then record u.entry u.expiresAt else pure false) _ s'
        split
        · exact after_record hs'
        · exact ends_pure (hs'.left fun h => nomatch Except.ok.inj h)

end Call

theorem not_accepted_of_recorded {u : Use} {expiry : Int} (hrecorded : Recorded w u.entry expiry)
    (hnow : u.now < expiry) (es : List Choice) :
    (run handle (consume u).run es w []).1 ≠ some (.ok true) := by
  intro hr
  have hleft := ends_run_recording (after_consume u w) es hr
  exact absurd ((hleft.accepted rfl).2 expiry hrecorded) (by omega)

/-- A call that throws or returns `false` leaves every entry that has not expired in place, so that
no later call accepts its nonce before the expiry, exactly if `open` was not answered with another
error than `EEXIST`, and the removal that follows with success, while the name had such an entry. -/
theorem entries_kept_iff (w : World) (u : Use) (es : List Choice) {r : Except String Bool}
    {w' : World} {t : Record} (hrun : run handle (consume u).run es w [] = (some r, w', t))
    (hr : r ≠ .ok true) :
    (∀ name expiry, Recorded w name expiry → u.now < expiry →
      Recorded w' name expiry ∧ ∀ later : Use, later.entry = name → later.now < expiry →
        ∀ es', (run handle (consume later).run es' w' []).1 ≠ some (.ok true)) ↔
      ∀ expiry, Recorded w u.entry expiry → u.now < expiry →
        ¬ (Refused u.entry t ∧ Removed u.entry t) := by
  have hleft := ends_run_recording (after_consume u w) es (congrArg Prod.fst hrun)
  rw [hrun] at hleft
  refine Iff.trans ⟨fun h name expiry hrecorded ht => (h name expiry hrecorded ht).1,
    fun hkept name expiry hrecorded ht => ?_⟩ (hleft.rejected hr)
  have hstill := hkept name expiry hrecorded ht
  refine ⟨hstill, fun later hlater hnow es' => ?_⟩
  exact not_accepted_of_recorded (hlater.symm ▸ hstill) hnow es'

/-! ## A replay -/

/-- A nonce that can be used for a second. -/
def sampleUse : Use := { maxEntries := 8, key := js "key:nonce", expiresAt := 2000, now := 1000 }

def sampleWorld : World :=
  { directory := ⟨[(sampleUse.entry, 0)], [entryText 2000], by simp⟩ }

def removals (t : Record) : Bool :=
  t.any fun c => match c with
    | ⟨.rm _, .ok ()⟩ => true
    | _ => false

theorem not_removed_of_removals {t : Record} (h : removals t = false) (name : Bytes) :
    ¬ Removed name t := fun hmem =>
  absurd (List.any_eq_true.mpr ⟨_, hmem, rfl⟩) (by rw [← removals, h]; exact Bool.false_ne_true)

/-- A replay that is turned down leaves the nonce recorded. -/
theorem entries_kept_iff_replayed :
    let replay := run handle (consume sampleUse).run (List.replicate 4 {}) sampleWorld []
    replay.1 = some (.ok false) ∧ Recorded sampleWorld sampleUse.entry 2000 ∧
      Recorded replay.2.1 sampleUse.entry 2000 := by
  have hfalse : (run handle (consume sampleUse).run (List.replicate 4 {}) sampleWorld []).1 =
      some (.ok false) := by
    decide +kernel
  have hrecorded : Recorded sampleWorld sampleUse.entry 2000 := by
    refine ⟨0, ?_, rfl⟩
    simp [Directory.lookup, sampleWorld]
  have hnone : removals (run handle (consume sampleUse).run (List.replicate 4 {})
      sampleWorld []).2.2 = false := by
    decide +kernel
  refine ⟨hfalse, hrecorded, ?_⟩
  generalize hrun : run handle (consume sampleUse).run (List.replicate 4 {}) sampleWorld [] = out
    at hfalse hnone ⊢
  obtain ⟨r, w', t⟩ := out
  obtain rfl : r = some (.ok false) := hfalse
  have hkept := (entries_kept_iff sampleWorld sampleUse (List.replicate 4 {}) hrun
    (by simp)).mpr
    fun _ _ _ h => not_removed_of_removals hnone _ h.2
  exact (hkept _ 2000 hrecorded (by decide)).1

/-- A nonce is accepted; it is replayed while no more files can be opened; it is accepted again,
before its expiry. -/
theorem failed_open_forgets :
    let first := run handle (consume sampleUse).run (List.replicate 10 {}) {} []
    let replay := run handle (consume sampleUse).run
      ([{}, {}, {}, { fault := some "EMFILE" }, {}]) first.2.1 []
    let again := run handle (consume sampleUse).run (List.replicate 10 {}) replay.2.1 []
    first.1 = some (.ok true) ∧ replay.1 = some (.error "replay_store_rejected") ∧
      again.1 = some (.ok true) := by
  decide +kernel

end SharedNode.Identity.Faults
