import SharedNode.Effect.Staged
import SharedNode.Text.Json
import SharedNode.Text.Sha256
import SharedNode.Text.Utf16

/-!
# Signed requests and the replay store

Model of `compiler/src/service-identity.mjs`: `verifyIncoming` of a workload identity over a
`FilesystemReplayStore`, whose directory is shared by the worker replicas. An accepted request is
recorded in a file that is created exclusively, named after its nonce and holding its expiry; when
the directory is full, the entries that have expired are removed. The calls of any number of
replicas are interleaved (`Pool`); a common clock may advance before every step.

A handle belongs to the file it was opened for, so files have numbers of their own and a name can be
given to a new file (`Directory`). What is proved holds for whatever an identity takes as a
signature (`ServiceIdentity`). Left out: the bytes that `sign` sends, and `Ed25519ServiceIdentity`,
which is another such identity.
-/

namespace SharedNode.Identity

open Text Effect Prog

/-! ## The directory -/

/-- Names of files, in the order in which they are listed, and what the files hold. A file that has
lost its name is still there for those who have it open. -/
structure Directory where
  entries : List (Bytes × Nat)
  contents : List Bytes
  bound : ∀ x ∈ entries, x.2 < contents.length

namespace Directory

def empty : Directory := ⟨[], [], fun _ h => absurd h List.not_mem_nil⟩

def lookup (d : Directory) (name : Bytes) : Option Nat :=
  (d.entries.find? fun x => x.1 == name).map (·.2)

def read (d : Directory) (file : Nat) : Bytes := d.contents.getD file []

/-- A new, empty file, listed at some place. -/
def create (d : Directory) (place : Nat) (name : Bytes) : Directory where
  entries := d.entries.take place ++ (name, d.contents.length) :: d.entries.drop place
  contents := d.contents ++ [[]]
  bound := by
    intro x hx
    rw [List.length_append, List.length_singleton]
    rcases List.mem_append.mp hx with hx | hx
    · exact Nat.lt_succ_of_lt (d.bound x (List.mem_of_mem_take hx))
    · rcases List.mem_cons.mp hx with rfl | hx
      · exact Nat.lt_succ_self _
      · exact Nat.lt_succ_of_lt (d.bound x (List.mem_of_mem_drop hx))

def write (d : Directory) (file : Nat) (data : Bytes) : Directory where
  entries := d.entries
  contents := d.contents.set file data
  bound := by
    intro x hx
    rw [List.length_set]
    exact d.bound x hx

def remove (d : Directory) (name : Bytes) : Directory where
  entries := d.entries.filter fun x => x.1 ≠ name
  contents := d.contents
  bound := fun x hx => d.bound x (List.mem_of_mem_filter hx)

end Directory

/-! ## Calls -/

/-- The calls of the identity and its store. -/
inductive Op where
  | clock
  /-- `initialize`: whether the directory is there and private. -/
  | prepare
  | readdir
  | openRead (name : Bytes)
  | readFile (file : Nat)
  | rm (name : Bytes)
  /-- `open(path, "wx")`. -/
  | create (name : Bytes)
  | writeFile (file : Nat) (data : Bytes)
  | sync
  deriving DecidableEq, Repr

/-- The answers; `none` stands for `ENOENT` and `EEXIST`. -/
abbrev Ans : Op → Type
  | .clock => Int
  | .prepare => Bool
  | .readdir => List Bytes
  | .openRead _ => Option Nat
  | .readFile _ => Bytes
  | .create _ => Option Nat
  | .rm _ => Unit
  | .writeFile _ _ => Unit
  | .sync => Unit

/-- The clock and the directory the replicas share. -/
structure World where
  clock : Int := 0
  directory : Directory := .empty
  isPrivate : Bool := true

/-- The choices of the outside for one call: how far the clock has moved, and where a new file is
listed. -/
structure Choice where
  tick : Nat := 0
  place : Nat := 0

/-- The world when a call takes effect. -/
def World.after (w : World) (e : Choice) : World := { w with clock := w.clock + e.tick }

def World.perform (w : World) (e : Choice) : (op : Op) → Ans op × World
  | .clock => (w.clock, w)
  | .prepare => (w.isPrivate, w)
  | .readdir => (w.directory.entries.map (·.1), w)
  | .openRead name => (w.directory.lookup name, w)
  | .readFile file => (w.directory.read file, w)
  | .rm name => ((), { w with directory := w.directory.remove name })
  | .create name =>
    match w.directory.lookup name with
    | some _ => (none, w)
    | none =>
      (some w.directory.contents.length,
        { w with directory := w.directory.create e.place name })
  | .writeFile file data => ((), { w with directory := w.directory.write file data })
  | .sync => ((), w)

def handle : Handler Op Ans Choice World := fun op e w => some ((w.after e).perform e op)

abbrev M := Prog Op Ans

abbrev ask (op : Op) : M (Ans op) := perform op

/-! ## The store -/

/-- A number that matches `[1-9]\d{0,15}`. -/
def decimal (s : Bytes) : Option Nat :=
  match s with
  | b :: rest => if b ≠ 0x30 && rest.length ≤ 15 then parseDigits s else none
  | [] => none

/-- Bytes read as ASCII: the highest bit of each is cleared. -/
def ascii (s : Bytes) : Bytes := s.map (· &&& 0x7f)

def entryText (expiresAt : Int) : Bytes := formatInt expiresAt ++ [0x0a]

def expired (text : Bytes) (now : Int) : Bool :=
  (ascii text).getLast? = some 0x0a &&
    (decimal (ascii text).dropLast).any fun (n : Nat) => decide ((n : Int) ≤ now)

/-- The name of an entry matches `[a-f0-9]{64}`. -/
def isEntryName (name : Bytes) : Bool :=
  name.length = 64 && name.all fun b => isDigit b || (0x61 ≤ b && b ≤ 0x66)

/-- One round of `#removeExpired`. -/
def removeIfExpired (name : Bytes) (now : Int) : M Unit :=
  if ¬ isEntryName name then ret ()
  else do
    let file ← ask (.openRead name)
    match file with
    | none => ret ()
    | some file =>
      let text ← ask (.readFile file)
      if expired text now then ask (.rm name) else ret ()

def removeExpired : List Bytes → Int → M Unit
  | [], _ => ret ()
  | name :: rest, now => do
    let _ ← removeIfExpired name now
    removeExpired rest now

/-- Whether there is room for an entry, after a removal if need be. -/
def makeRoom (maxEntries : Nat) (now : Int) : M Bool := do
  let entries ← ask .readdir
  if maxEntries ≤ entries.length then
    let _ ← removeExpired (entries.take 1024) now
    let left ← ask .readdir
    ret (decide (left.length < maxEntries))
  else ret true

/-- Creates the entry; `false` if there is one. -/
def record (name : Bytes) (expiresAt : Int) : M Bool := do
  let file ← ask (.create name)
  match file with
  | none => ret false
  | some file =>
    let _ ← ask (.writeFile file (entryText expiresAt))
    let _ ← ask .sync
    ret true

/-- The codes of a `ServiceIdentityError`. -/
inductive Rejection where
  | requestIdentityRejected
  | requestReplayed
  | replayStoreRejected
  deriving DecidableEq, Repr

def consume (maxEntries : Nat) (key : JsString) (expiresAt now : Int) : M (Except Rejection Bool) :=
  if 512 < key.length ∨ ¬ isSafeInteger expiresAt ∨ ¬ isSafeInteger now ∨ expiresAt ≤ now then
    ret (.error .replayStoreRejected)
  else do
    let isPrivate ← ask .prepare
    if ¬ isPrivate then ret (.error .replayStoreRejected)
    else
      let room ← makeRoom maxEntries now
      if room then
        let recorded ← record (sha256 (encode key)) expiresAt
        ret (.ok recorded)
      else ret (.ok false)

/-! ## The identities -/

/-- A signed request. -/
structure Request where
  method : JsString
  target : JsString
  body : Bytes
  timestamp : Option JsString
  nonce : Option JsString
  authorization : Option JsString
  deriving DecidableEq, Repr

/-- The parts of a request that are signed. -/
def Request.signed (r : Request) :
    JsString × JsString × Bytes × Option JsString × Option JsString :=
  (r.method, r.target, r.body, r.timestamp, r.nonce)

/-- `parseTimestamp`; `none` for `NaN`. -/
def parseTimestamp (value : Option JsString) : Option Int :=
  value.bind fun s => (decimal (encode s)).bind fun n =>
    if isSafeInteger n then some (n : Int) else none

/-- The nonce matches `[A-Za-z0-9_-]{16,128}`. -/
def validNonce (s : JsString) : Bool :=
  16 ≤ s.length && s.length ≤ 128 && s.all fun u =>
    (0x30 ≤ u && u ≤ 0x39) || (0x41 ≤ u && u ≤ 0x5a) || (0x61 ≤ u && u ≤ 0x7a) || u =
      0x2d || u = 0x5f

def validateSignedRequest (r : Request) (timestamp : Option Int) (now maxAgeMs : Int) : Bool :=
  !r.method.isEmpty && r.method.all (fun u => 0x41 ≤ u && u ≤ 0x5a) &&
    r.target.head? = some 0x2f && r.target.length ≤ 2048 && validNonce (r.nonce.getD []) &&
    isSafeInteger now &&
    timestamp.any fun t => !(0 < maxAgeMs && maxAgeMs < (now - t).natAbs)

def signedPayload (r : Request) (timestamp : Int) : Bytes :=
  encode r.method ++ [0x0a] ++ encode r.target ++ [0x0a] ++ formatInt timestamp ++ [0x0a] ++
    encode (r.nonce.getD []) ++ [0x0a] ++ sha256 r.body

/-- The number of a digit of `base64url`. -/
def sextet (u : UInt16) : Option Nat :=
  if 0x41 ≤ u && u ≤ 0x5a then some (u.toNat - 0x41)
  else if 0x61 ≤ u && u ≤ 0x7a then some (u.toNat - 0x61 + 26)
  else if 0x30 ≤ u && u ≤ 0x39 then some (u.toNat - 0x30 + 52)
  else if u = 0x2d || u = 0x2b then some 62
  else if u = 0x5f || u = 0x2f then some 63
  else none

def sextetBytes : List Nat → Bytes
  | a :: b :: c :: d :: rest =>
    [4 * a + b / 16, b % 16 * 16 + c / 4, c % 4 * 64 + d].map UInt8.ofNat ++ sextetBytes rest
  | [a, b, c] => [4 * a + b / 16, b % 16 * 16 + c / 4].map UInt8.ofNat
  | [a, b] => [UInt8.ofNat (4 * a + b / 16)]
  | _ => []

/-- `Buffer.from(s, "base64url")`, which skips other characters and stops at padding. -/
def base64url (s : JsString) : Bytes := sextetBytes ((s.takeWhile (· ≠ 0x3d)).filterMap sextet)

/-- The signature in an `authorization` header. -/
def parseAuthorization (value : Option JsString) (keyId : JsString) : Option Bytes :=
  value.bind fun v =>
    let lead := js "HMAC " ++ keyId ++ js ":"
    if lead.isPrefixOf v then
      let signature := base64url (v.drop lead.length)
      if signature.length = 32 then some signature else none
    else none

/-- A workload identity: the key it accepts, how old a request may be, and whether a request with a
timestamp is signed by the key. -/
structure ServiceIdentity where
  keyId : JsString
  maxAgeMs : Int
  authentic : Request → Int → Bool

/-- `HmacServiceIdentity`. -/
def hmacServiceIdentity (keyId : JsString) (key : Bytes) (maxAgeMs : Int) : ServiceIdentity where
  keyId := keyId
  maxAgeMs := maxAgeMs
  authentic := fun r timestamp =>
    parseAuthorization r.authorization keyId = some (hmacSha256 key (signedPayload r timestamp))

def Request.key (id : ServiceIdentity) (r : Request) : JsString :=
  id.keyId ++ js ":" ++ r.nonce.getD []

def Request.expiry (id : ServiceIdentity) (r : Request) : Option Int :=
  (parseTimestamp r.timestamp).map (· + id.maxAgeMs)

def verifyIncoming (id : ServiceIdentity) (maxEntries : Nat) (r : Request) :
    M (Except Rejection Unit) := do
  let now ← ask .clock
  if ¬ validateSignedRequest r (parseTimestamp r.timestamp) now id.maxAgeMs then
    ret (.error .requestIdentityRejected)
  else
    match parseTimestamp r.timestamp with
    | none => ret (.error .requestIdentityRejected)
    | some timestamp =>
      if ¬ id.authentic r timestamp then ret (.error .requestIdentityRejected)
      else
        let accepted ← consume maxEntries (r.key id) (timestamp + id.maxAgeMs) now
        match accepted with
        | .error err => ret (.error err)
        | .ok true => ret (.ok ())
        | .ok false => ret (.error .requestReplayed)

/-! ## Replicas -/

/-- A call of `verifyIncoming` on a replica. -/
structure Incoming where
  maxEntries : Nat
  request : Request
  deriving DecidableEq, Repr

/-- The calls under way and those that have returned. -/
abbrev Replicas := Pool Op Ans World Incoming fun _ => Except Rejection Unit

abbrev Incoming.code (id : ServiceIdentity) (τ : Incoming) : M (Except Rejection Unit) :=
  verifyIncoming id τ.maxEntries τ.request

/-- The replicas after a schedule. A replica that stops leaves the directory as it is. -/
def Replicas.run (id : ServiceIdentity) (w : World) (actions : List (Action Choice Incoming)) :
    Replicas :=
  actions.foldl (Pool.act handle (Incoming.code id) fun w => w) ⟨w, []⟩

/-- The request a call has accepted. -/
def Replicas.accepted (p : Replicas) (i : Nat) : Option Request :=
  match p.threads[i]? with
  | some ⟨τ, some (.ret (.ok ()))⟩ => some τ.request
  | _ => none

/-! ## Entries -/

theorem ascii_eq_self {s : Bytes} (h : ∀ b ∈ s, b < 0x80) : ascii s = s := by
  refine (List.map_congr_left fun b hb => ?_).trans (List.map_id s)
  refine UInt8.toNat_inj.mp ?_
  have hlt : b.toNat < 2 ^ 7 := UInt8.lt_iff_toNat_lt.mp (h b hb)
  exact Nat.and_two_pow_sub_one_of_lt_two_pow hlt

theorem ascii_entryText (expiresAt : Int) : ascii (entryText expiresAt) = entryText expiresAt := by
  refine ascii_eq_self fun b hb => ?_
  rcases List.mem_append.mp hb with hb | hb
  · exact ascii_formatInt hb
  · rw [List.mem_singleton.mp hb]
    decide

theorem eq_of_decimal_formatInt {n : Int} {m : Nat} (h : decimal (formatInt n) = some m) :
    n = m := by
  have hparse : parseDigits (formatInt n) = some m := by
    unfold decimal at h
    split at h
    · split at h
      · assumption
      · cases h
    · cases h
  by_cases hneg : n < 0
  · -- A sign is not a digit.
    rw [formatInt, if_pos hneg] at hparse
    cases hparse
  · rw [formatInt, if_neg hneg, parseDigits_formatNat] at hparse
    cases hparse
    omega

theorem le_of_expired {expiresAt now : Int} (h : expired (entryText expiresAt) now = true) :
    expiresAt ≤ now := by
  rw [expired, ascii_entryText, Bool.and_eq_true, entryText, List.dropLast_concat,
    Option.any_eq_true] at h
  obtain ⟨-, m, hm, hle⟩ := h
  rw [eq_of_decimal_formatInt hm]
  exact of_decide_eq_true hle

theorem not_expired_nil (now : Int) : expired [] now = false := by
  simp [expired, ascii]

namespace Directory

variable {d : Directory} {name : Bytes} {file : Nat}

theorem lookup_lt (h : d.lookup name = some file) : file < d.contents.length := by
  obtain ⟨x, hx, rfl⟩ := Option.map_eq_some_iff.mp h
  exact d.bound x (List.mem_of_find?_eq_some hx)

theorem lookup_create (h : d.lookup name = none) (place : Nat)
    (other : Bytes) : (d.create place name).lookup other =
      if other = name then some d.contents.length else d.lookup other := by
  have hsplit : ∀ p : Bytes × Nat → Bool, d.entries.find? p =
      ((d.entries.take place).find? p).or ((d.entries.drop place).find? p) := by
    intro p
    rw [← List.find?_append, List.take_append_drop]
  simp only [lookup, create, List.find?_append, List.find?_cons]
  by_cases heq : other = name
  · subst heq
    rw [lookup, Option.map_eq_none_iff, hsplit, Option.or_eq_none_iff] at h
    rw [if_pos rfl, h.1]
    simp
  · have hne : (name == other) = false := beq_false_of_ne (Ne.symm heq)
    rw [if_neg heq, hne, hsplit]

theorem lookup_remove (d : Directory) (name other : Bytes) :
    (d.remove name).lookup other = if other = name then none else d.lookup other := by
  simp only [lookup, remove, List.find?_filter]
  by_cases heq : other = name
  · subst heq
    rw [if_pos rfl, Option.map_eq_none_iff, List.find?_eq_none]
    simp
  · rw [if_neg heq]
    congr 2
    funext x
    by_cases hx : x.1 = other
    · simp [hx, heq]
    · simp [hx]

theorem read_create_of_lt {place : Nat}
    (h : file < d.contents.length) : (d.create place name).read file = d.read file := by
  simp only [read, create, List.getD_eq_getElem?_getD, List.getElem?_append_left h]

theorem read_create_new (d : Directory) (place : Nat) (name : Bytes) :
    (d.create place name).read d.contents.length = [] := by
  simp [read, create]

theorem read_write_self (h : file < d.contents.length) (data : Bytes) :
    (d.write file data).read file = data := by
  simp [read, write, List.getD_eq_getElem?_getD, List.getElem?_set_self h]

theorem read_write_ne {other : Nat} (h : file ≠ other) (data : Bytes) :
    (d.write file data).read other = d.read other := by
  simp [read, write, List.getD_eq_getElem?_getD, List.getElem?_set_ne h]

end Directory

/-! ## The protocol of a call -/

/-- How far a call has come: it has not created an entry, has created it, has written it. -/
inductive Stage where
  | before
  | created (file : Nat)
  | recorded (file : Nat)
  deriving DecidableEq, Repr

def Stage.file : Stage → Option Nat
  | before => none
  | created file => some file
  | recorded file => some file

def Request.entry (id : ServiceIdentity) (r : Request) : Bytes := sha256 (encode (r.key id))

/-- The calls that fit: one entry is created, under the name of the request, and then holds its
expiry. -/
def Fits (id : ServiceIdentity) (r : Request) : Stage → Op → Prop
  | .before, .create name => name = r.entry id ∧ (r.expiry id).isSome
  | .before, .writeFile _ _ => False
  | .before, _ => True
  | .created file, op => ∃ t, r.expiry id = some t ∧ op = .writeFile file (entryText t)
  | .recorded _, op => op = .sync

def Stage.next : Stage → (op : Op) → Ans op → Stage
  | before, .create _, some file => created file
  | created file, _, _ => recorded file
  | st, _, _ => st

def protocol (id : ServiceIdentity) (τ : Incoming) : Protocol Op Ans Stage :=
  ⟨Fits id τ.request, Stage.next⟩

/-- A request is accepted when its entry is written. -/
def Outcome (_ : Incoming) (v : Except Rejection Unit) (st : Stage) : Prop :=
  v = .ok () → ∃ file, st = .recorded file

section Follows

variable {id : ServiceIdentity} {τ : Incoming} {α : Type}

theorem follows_removeExpired (names : List Bytes) (now : Int) :
    Follows (protocol id τ) (removeExpired names now) (fun _ st => st = .before) .before := by
  induction names with
  | nil => exact rfl
  | cons name rest ih =>
    refine Follows.bind (Follows.mono (fun _ st (hst : st = .before) => hst ▸ ih) ?_)
    unfold removeIfExpired
    split
    · exact rfl
    · refine ⟨trivial, fun file => ?_⟩
      cases file with
      | none => exact rfl
      | some file =>
        refine ⟨trivial, fun text => ?_⟩
        simp only [ret_bind]
        split
        · exact ⟨trivial, fun _ => rfl⟩
        · exact rfl

theorem follows_makeRoom (maxEntries : Nat) (now : Int) :
    Follows (protocol id τ) (makeRoom maxEntries now) (fun _ st => st = .before) .before := by
  refine ⟨trivial, fun entries => ?_⟩
  simp only [ret_bind]
  split
  · refine Follows.bind (Follows.mono (fun _ st (hst : st = .before) => ?_)
      (follows_removeExpired _ now))
    subst hst
    exact ⟨trivial, fun _ => rfl⟩
  · exact rfl

theorem follows_record {t : Int} (ht : τ.request.expiry id = some t) :
    Follows (protocol id τ) (record (τ.request.entry id) t)
      (fun recorded st => recorded = true → ∃ file, st = .recorded file) .before := by
  refine ⟨⟨rfl, by rw [ht]; rfl⟩, fun file => ?_⟩
  cases file with
  | none => exact fun h => nomatch h
  | some file => exact ⟨⟨t, ht, rfl⟩, fun _ => ⟨rfl, fun _ _ => ⟨file, rfl⟩⟩⟩

theorem follows_consume {t now : Int} (ht : τ.request.expiry id = some t) :
    Follows (protocol id τ) (consume τ.maxEntries (τ.request.key id) t now)
      (fun r st => r = .ok true → ∃ file, st = .recorded file) .before := by
  unfold consume
  split
  · exact fun h => nomatch h
  · refine ⟨trivial, fun isPrivate => ?_⟩
    simp only [ret_bind]
    split
    · exact fun h => nomatch h
    · refine Follows.bind (Follows.mono (fun room st (hst : st = .before) => ?_)
        (follows_makeRoom τ.maxEntries now))
      subst hst
      cases room with
      | false => exact fun h => nomatch h
      | true =>
        refine Follows.bind (Follows.mono (fun recorded st hst => ?_) (follows_record ht))
        exact fun h => hst (Except.ok.inj h)

theorem follows_verifyIncoming (τ : Incoming) :
    Follows (protocol id τ) (τ.code id) (Outcome τ) .before := by
  refine ⟨trivial, fun now => ?_⟩
  simp only [ret_bind]
  split
  · exact fun h => nomatch h
  · cases htimestamp : parseTimestamp τ.request.timestamp with
    | none => exact fun h => nomatch h
    | some timestamp =>
      dsimp only
      split
      · exact fun h => nomatch h
      · have ht : τ.request.expiry id = some (timestamp + id.maxAgeMs) := by
          rw [Request.expiry, htimestamp, Option.map_some]
        refine Follows.bind (Follows.mono (fun r st hst => ?_) (follows_consume ht))
        match r with
        | .error err | .ok false => exact fun h => nomatch h
        | .ok true => exact fun _ => hst rfl

end Follows

/-! ## The invariant -/

/-- When a call is timely: an entry is created before the request expires, and a name is taken away
only from a file that says it has expired. -/
def Timely (id : ServiceIdentity) (w : World) (τ : Incoming) (op : Op) (e : Choice) : Prop :=
  match op with
  | .create _ => ∀ t ∈ τ.request.expiry id, w.clock + e.tick < t
  | .rm name => ∀ file ∈ w.directory.lookup name,
      expired (w.directory.read file) (w.clock + e.tick) = true
  | _ => True

instance Timely.decidable (id : ServiceIdentity) (w : World) (τ : Incoming) (op : Op) (e : Choice) :
    Decidable (Timely id w τ op e) :=
  match op with
  | .create _ => inferInstanceAs (Decidable (∀ t ∈ τ.request.expiry id, w.clock + e.tick < t))
  | .rm name => inferInstanceAs (Decidable (∀ file ∈ w.directory.lookup name,
      expired (w.directory.read file) (w.clock + e.tick) = true))
  | .clock | .prepare | .readdir | .openRead _ | .readFile _ | .writeFile _ _ | .sync =>
    instDecidableTrue

def Holds (parts : List (Incoming × Stage)) (i : Nat) (τ : Incoming) (st : Stage) (file : Nat) :
    Prop := parts[i]? = some (τ, st) ∧ st.file = some file

/-- The stages of the calls and the directory: every call has a file of its own, which is empty
until it is written; until a request expires its entry stays in place; and no two calls have created
an entry for one request. -/
structure Coherent (id : ServiceIdentity) (parts : List (Incoming × Stage)) (w : World) : Prop where
  bound : ∀ {i τ st file}, Holds parts i τ st file → file < w.directory.contents.length
  distinct : ∀ {i j τ τ' st st' file}, Holds parts i τ st file → Holds parts j τ' st' file → i = j
  blank : ∀ {i τ file}, Holds parts i τ (.created file) file → w.directory.read file = []
  kept : ∀ {i τ st file t}, Holds parts i τ st file → τ.request.expiry id = some t →
    t ≤ w.clock ∨ w.directory.lookup (τ.request.entry id) = some file ∧
      (st = .recorded file → w.directory.read file = entryText t)
  once : ∀ {i j τ τ' st st' file file'}, Holds parts i τ st file → Holds parts j τ' st' file' →
    τ.request.signed = τ'.request.signed → i = j

theorem getElem?_set_cases {α : Type} {l : List α} {i j : Nat} {a b : α}
    (h : (l.set i a)[j]? = some b) : (i = j ∧ a = b) ∨ (i ≠ j ∧ l[j]? = some b) := by
  by_cases hij : i = j
  · subst hij
    have hlt : i < l.length := by
      have := (List.getElem?_eq_some_iff.mp h).1
      rwa [List.length_set] at this
    rw [List.getElem?_set_self hlt] at h
    exact Or.inl ⟨rfl, Option.some.inj h⟩
  · rw [List.getElem?_set_ne hij] at h
    exact Or.inr ⟨hij, h⟩

theorem set_self {α : Type} {l : List α} {i : Nat} {a : α} (h : l[i]? = some a) :
    l.set i a = l := by
  refine List.ext_getElem? fun j => ?_
  by_cases hij : i = j
  · subst hij
    rw [List.getElem?_set_self (List.getElem?_eq_some_iff.mp h).1, h]
  · rw [List.getElem?_set_ne hij]

section Invariant

variable {id : ServiceIdentity} {parts : List (Incoming × Stage)} {w : World} {i : Nat}
  {τ : Incoming}

theorem Coherent.tick (hw : Coherent id parts w) (e : Choice) : Coherent id parts (w.after e) where
  bound := hw.bound
  distinct := hw.distinct
  blank := hw.blank
  kept := fun hholds ht => (hw.kept hholds ht).imp_left fun hle =>
    Int.le_trans hle (Int.le_add_of_nonneg_right (Int.natCast_nonneg _))
  once := hw.once

/-- Requests with the same signed part are recorded in one place and expire together. -/
theorem entry_eq_of_signed {r r' : Request} (h : r.signed = r'.signed) :
    r.entry id = r'.entry id ∧ r.expiry id = r'.expiry id := by
  simp only [Request.signed, Prod.mk.injEq] at h
  obtain ⟨-, -, -, htimestamp, hnonce⟩ := h
  simp only [Request.entry, Request.key, Request.expiry, htimestamp, hnonce, and_self]

theorem Coherent.create (hw : Coherent id parts w)
    (hnone : w.directory.lookup (τ.request.entry id) = none) {t : Int}
    (ht : τ.request.expiry id = some t) (htimely : w.clock < t) (place : Nat) :
    Coherent id (parts.set i (τ, .created w.directory.contents.length))
      { w with directory := w.directory.create place (τ.request.entry id) } := by
  -- What a call holds now it held before, or it is the new file.
  have hcases : ∀ {j τ' st' file}, Holds (parts.set i (τ, .created w.directory.contents.length)) j
      τ' st' file → (i = j ∧ τ = τ' ∧ st' = .created file ∧ file = w.directory.contents.length) ∨
        (i ≠ j ∧ Holds parts j τ' st' file) := by
    rintro j τ' st' file ⟨hj, hfile⟩
    rcases getElem?_set_cases hj with ⟨hij, heq⟩ | ⟨hij, hj⟩
    · obtain ⟨rfl, rfl⟩ := Prod.mk.inj heq
      cases hfile
      exact Or.inl ⟨hij, rfl, rfl, rfl⟩
    · exact Or.inr ⟨hij, hj, hfile⟩
  constructor
  · intro j τ' st' file hj
    simp only [Directory.create, List.length_append, List.length_singleton]
    rcases hcases hj with ⟨-, -, -, rfl⟩ | ⟨-, hj⟩
    · exact Nat.lt_succ_self _
    · exact Nat.lt_succ_of_lt (hw.bound hj)
  · intro j j' τ' τ'' st' st'' file hj hj'
    rcases hcases hj with ⟨hij, -, -, hfile⟩ | ⟨-, hj⟩ <;>
      rcases hcases hj' with ⟨hij', -, -, hfile'⟩ | ⟨-, hj'⟩
    · exact hij.symm.trans hij'
    · exact absurd (hw.bound hj') (by omega)
    · exact absurd (hw.bound hj) (by omega)
    · exact hw.distinct hj hj'
  · intro j τ' file hj
    rcases hcases hj with ⟨-, -, -, rfl⟩ | ⟨-, hj⟩
    · exact Directory.read_create_new ..
    · exact (Directory.read_create_of_lt (hw.bound hj)).trans (hw.blank hj)
  · intro j τ' st' file t' hj ht'
    rcases hcases hj with ⟨-, rfl, rfl, rfl⟩ | ⟨-, hj⟩
    · refine Or.inr ⟨?_, fun h => nomatch h⟩
      rw [Directory.lookup_create hnone, if_pos rfl]
    · refine (hw.kept hj ht').imp_right fun ⟨hlookup, hread⟩ => ⟨?_, fun hst => ?_⟩
      · rw [Directory.lookup_create hnone, if_neg, hlookup]
        intro heq
        rw [heq, hnone] at hlookup
        cases hlookup
      · exact (Directory.read_create_of_lt (hw.bound hj)).trans (hread hst)
  · -- A call that had created an entry for the request would still have it in place.
    have hfirst : ∀ {j τ' st' file}, Holds parts j τ' st' file →
        τ.request.signed ≠ τ'.request.signed := by
      intro j τ' st' file hj hsigned
      obtain ⟨hentry, hexpiry⟩ : τ.request.entry id = τ'.request.entry id ∧
          τ.request.expiry id = τ'.request.expiry id := entry_eq_of_signed hsigned
      rcases hw.kept hj (hexpiry ▸ ht) with hle | ⟨hlookup, -⟩
      · omega
      · rw [← hentry, hnone] at hlookup
        cases hlookup
    intro j j' τ' τ'' st' st'' file file' hj hj' hsigned
    rcases hcases hj with ⟨hij, rfl, -, -⟩ | ⟨-, hj⟩ <;>
      rcases hcases hj' with ⟨hij', rfl, -, -⟩ | ⟨-, hj'⟩
    · exact hij.symm.trans hij'
    · exact absurd hsigned (hfirst hj')
    · exact absurd hsigned.symm (hfirst hj)
    · exact hw.once hj hj' hsigned

theorem Coherent.write (hw : Coherent id parts w) {file : Nat}
    (hi : parts[i]? = some (τ, .created file)) {t : Int} (ht : τ.request.expiry id = some t) :
    Coherent id (parts.set i (τ, .recorded file))
      { w with directory := w.directory.write file (entryText t) } := by
  have hold : Holds parts i τ (.created file) file := ⟨hi, rfl⟩
  have hcases : ∀ {j τ' st' file'}, Holds (parts.set i (τ, .recorded file)) j τ' st' file' →
      (i = j ∧ τ = τ' ∧ file' = file) ∨ (i ≠ j ∧ file ≠ file' ∧ Holds parts j τ' st' file') := by
    rintro j τ' st' file' ⟨hj, hfile⟩
    rcases getElem?_set_cases hj with ⟨hij, heq⟩ | ⟨hij, hj⟩
    · obtain ⟨rfl, rfl⟩ := Prod.mk.inj heq
      exact Or.inl ⟨hij, rfl, (Option.some.inj hfile).symm⟩
    · refine Or.inr ⟨hij, ?_, hj, hfile⟩
      rintro rfl
      exact hij (hw.distinct hold ⟨hj, hfile⟩)
  constructor
  · intro j τ' st' file' hj
    simp only [Directory.write, List.length_set]
    rcases hcases hj with ⟨-, -, rfl⟩ | ⟨-, -, hj⟩
    · exact hw.bound hold
    · exact hw.bound hj
  · intro j j' τ' τ'' st' st'' file' hj hj'
    rcases hcases hj with ⟨hij, -, rfl⟩ | ⟨-, hne, hj⟩ <;>
      rcases hcases hj' with ⟨hij', -, heq⟩ | ⟨-, hne', hj'⟩
    · exact hij.symm.trans hij'
    · exact absurd rfl hne'
    · exact absurd heq.symm hne
    · exact hw.distinct hj hj'
  · intro j τ' file' hj
    rcases hcases hj with ⟨rfl, -, -⟩ | ⟨-, hne, hj⟩
    · rcases getElem?_set_cases hj.1 with ⟨-, heq⟩ | ⟨hne, -⟩
      · exact nomatch (Prod.mk.inj heq).2
      · exact absurd rfl hne
    · exact (Directory.read_write_ne hne _).trans (hw.blank hj)
  · intro j τ' st' file' t' hj ht'
    rcases hcases hj with ⟨-, rfl, rfl⟩ | ⟨-, hne, hj⟩
    · refine (hw.kept hold ht').imp_right fun ⟨hlookup, _⟩ => ⟨hlookup, fun _ => ?_⟩
      obtain rfl := Option.some.inj (ht.symm.trans ht')
      exact Directory.read_write_self (hw.bound hold) _
    · refine (hw.kept hj ht').imp_right fun ⟨hlookup, hread⟩ => ⟨hlookup, fun hst => ?_⟩
      exact (Directory.read_write_ne hne _).trans (hread hst)
  · intro j j' τ' τ'' st' st'' file' file'' hj hj' hsigned
    rcases hcases hj with ⟨hij, rfl, -⟩ | ⟨-, -, hold₁⟩ <;>
      rcases hcases hj' with ⟨hij', rfl, -⟩ | ⟨-, -, hold₂⟩
    · exact hij.symm.trans hij'
    · exact hij.symm.trans (hw.once hold hold₂ hsigned)
    · exact (hw.once hold₁ hold hsigned).trans hij'
    · exact hw.once hold₁ hold₂ hsigned

theorem Coherent.remove (hw : Coherent id parts w) {name : Bytes}
    (hexpired : ∀ file, w.directory.lookup name = some file →
      expired (w.directory.read file) w.clock = true) :
    Coherent id parts { w with directory := w.directory.remove name } where
  bound := hw.bound
  distinct := hw.distinct
  blank := hw.blank
  kept := by
    intro j τ' st file t hj ht
    rcases hw.kept hj ht with hle | ⟨hlookup, hread⟩
    · exact Or.inl hle
    by_cases hname : τ'.request.entry id = name
    · have htext := hexpired file (hname ▸ hlookup)
      obtain ⟨hstage, hfile⟩ := hj
      cases st with
      | before => cases hfile
      | created file' =>
        cases hfile
        rw [hw.blank ⟨hstage, rfl⟩, not_expired_nil] at htext
        cases htext
      | recorded file' =>
        cases hfile
        rw [hread rfl] at htext
        exact Or.inl (le_of_expired htext)
    · refine Or.inr ⟨?_, hread⟩
      rw [Directory.lookup_remove, if_neg hname, hlookup]
  once := hw.once

theorem Coherent.spawn (hw : Coherent id parts w) (τ : Incoming) :
    Coherent id (parts ++ [(τ, .before)]) w := by
  have hcases : ∀ {j τ' st file}, Holds (parts ++ [(τ, .before)]) j τ' st file →
      Holds parts j τ' st file := by
    rintro j τ' st file ⟨hj, hfile⟩
    by_cases hlt : j < parts.length
    · rw [List.getElem?_append_left hlt] at hj
      exact ⟨hj, hfile⟩
    · rw [List.getElem?_append_right (by omega)] at hj
      have hnew := List.mem_of_getElem? hj
      obtain ⟨-, rfl⟩ := Prod.mk.inj (List.mem_singleton.mp hnew)
      cases hfile
  exact ⟨fun hi => hw.bound (hcases hi), fun hi hj => hw.distinct (hcases hi) (hcases hj),
    fun hi => hw.blank (hcases hi), fun hi => hw.kept (hcases hi),
    fun hi hj => hw.once (hcases hi) (hcases hj)⟩

theorem coherent_nil (w : World) : Coherent id [] w := by
  have hnone : ∀ {i τ st file}, ¬ Holds [] i τ st file := fun h => nomatch h.1
  exact ⟨fun h => absurd h hnone, fun h => absurd h hnone, fun h => absurd h hnone,
    fun h => absurd h hnone, fun h => absurd h hnone⟩

theorem Coherent.call (hw : Coherent id parts w) {st : Stage} {op : Op} {e : Choice} {x : Ans op}
    {w' : World} (hi : parts[i]? = some (τ, st)) (hfits : (protocol id τ).fits st op)
    (htimely : Timely id w τ op e) (hx : handle op e w = some (x, w')) :
    Coherent id (parts.set i (τ, (protocol id τ).next st op x)) w' := by
  have hafter := hw.tick e
  obtain ⟨rfl, rfl⟩ : ((w.after e).perform e op).1 = x ∧ ((w.after e).perform e op).2 = w' :=
    Prod.mk.inj (Option.some.inj hx)
  have hsame : Coherent id (parts.set i (τ, st)) (w.after e) := (set_self hi).symm ▸ hafter
  cases st with
  | before =>
    cases op with
    | create name =>
      obtain ⟨rfl, hexpires⟩ := hfits
      obtain ⟨t, ht⟩ := Option.isSome_iff_exists.mp hexpires
      cases hlookup : (w.after e).directory.lookup (τ.request.entry id) with
      | some file =>
        simp only [World.perform, hlookup]
        exact hsame
      | none =>
        simp only [World.perform, hlookup]
        exact hafter.create hlookup ht (htimely t ht) e.place
    | writeFile file data => exact hfits.elim
    | rm name =>
      change Coherent id (parts.set i (τ, .before)) _
      rw [set_self hi]
      exact hafter.remove htimely
    | clock | prepare | readdir | openRead | readFile | sync => exact hsame
  | created file =>
    obtain ⟨t, ht, rfl⟩ := hfits
    exact hafter.write hi ht
  | recorded file =>
    obtain rfl := hfits
    exact hsame

end Invariant

theorem holds_of_accepted {id : ServiceIdentity} {p : Replicas} {parts : List (Incoming × Stage)}
    (hplaced : Pool.Placed (protocol id) Outcome p parts) {i : Nat} {r : Request}
    (h : p.accepted i = some r) : ∃ τ file, τ.request = r ∧
      Holds parts i τ (.recorded file) file := by
  unfold Replicas.accepted at h
  split at h
  next τ hi =>
    obtain ⟨st, hst, hreturned⟩ := hplaced.returned hi
    obtain ⟨file, rfl⟩ := hreturned rfl
    exact ⟨τ, file, Option.some.inj h, hst, rfl⟩
  next => cases h

/-- Over any schedule whose calls are timely, no signed request is accepted twice. -/
theorem accepted_at_most_once (id : ServiceIdentity) (w : World)
    (actions : List (Action Choice Incoming))
    (htimely : Pool.Along handle (Incoming.code id) (fun w => w) (Timely id) (⟨w, []⟩ : Replicas)
      actions) {i j : Nat} {r r' : Request} (hi : (Replicas.run id w actions).accepted i = some r)
    (hj : (Replicas.run id w actions).accepted j = some r') (hsigned : r.signed = r'.signed) :
    i = j := by
  have hstart : Pool.Placed (protocol id) Outcome (⟨w, []⟩ : Replicas) [] :=
    ⟨rfl, fun h => nomatch h⟩
  obtain ⟨parts, hplaced, hcoherent⟩ := Pool.staged_run (G := Timely id) (J := Coherent id)
    follows_verifyIncoming (fun parts w τ hw => hw.spawn τ) (fun _ _ hw => hw)
    (fun parts w i τ st op e x w' hw hi hfits htimely hx => hw.call hi hfits htimely hx) htimely
    hstart (coherent_nil w)
  obtain ⟨τ, file, rfl, hholds⟩ := holds_of_accepted hplaced hi
  obtain ⟨τ', file', rfl, hholds'⟩ := holds_of_accepted hplaced hj
  exact hcoherent.once hholds hholds' hsigned

/-! ## Three calls on a full directory -/

def sampleIdentity : ServiceIdentity :=
  hmacServiceIdentity (js "key") (lit "0123456789abcdef0123456789abcdef") 60000

def sampleRequest : Request where
  method := js "POST"
  target := js "/jobs"
  body := []
  timestamp := some (js "1000000")
  nonce := some (js "nonce-of-request")
  authorization := some (js "HMAC key:35vHwzKzFrOAm_IxkXqpVuqU409azs376UJr-BWsJU4")

def laterRequest : Request :=
  { sampleRequest with
    timestamp := some (js "1060000")
    nonce := some (js "another-nonce---")
    authorization := some (js "HMAC key:ybe_UigS-_Nn-0CInci-sn1TcYPTTLDeRI0wdBRHjVE") }

/-- Three calls on a store of one entry. Calls number 0 and 1 are for one request. The first has
looked at the directory when the second records the request; then the request expires. -/
def sampleSchedule : List (Action Choice Incoming) :=
  [.spawn ⟨1, sampleRequest⟩, .spawn ⟨1, sampleRequest⟩, .spawn ⟨1, laterRequest⟩] ++
  List.replicate 3 (.step 0 {}) ++ List.replicate 6 (.step 1 {})

/-- Calls number 0 and 1, both in time: whichever call accepts the request is number 1. -/
theorem accepted_at_most_once_timely :
    (Replicas.run sampleIdentity { clock := 1000000 } (sampleSchedule ++ [.step 0 {}])).accepted 1 =
      some sampleRequest ∧
    ∀ (j : Nat) (r : Request),
      (Replicas.run sampleIdentity { clock := 1000000 } (sampleSchedule ++ [.step 0 {}])).accepted
        j = some r → sampleRequest.signed = r.signed → 1 = j := by
  have htimely : Pool.Along handle (Incoming.code sampleIdentity) (fun w => w)
      (Timely sampleIdentity) (⟨{ clock := 1000000 }, []⟩ : Replicas)
      (sampleSchedule ++ [.step 0 {}]) := by
    decide +kernel
  have hfirst : (Replicas.run sampleIdentity { clock := 1000000 }
      (sampleSchedule ++ [.step 0 {}])).accepted 1 =
        some sampleRequest := by
    decide +kernel
  exact ⟨hfirst, fun j r => accepted_at_most_once sampleIdentity _ _ htimely hfirst⟩

/-- Number 2 comes when the request has expired and removes its entry; number 0 then records the
request again. -/
theorem second_acceptance :
    let p := Replicas.run sampleIdentity { clock := 1000000 }
      (sampleSchedule ++ [.step 2 { tick := 60000 }] ++ List.replicate 5 (.step 2 {}) ++
        List.replicate 3 (.step 0 {}))
    p.accepted 0 = some sampleRequest ∧
      p.accepted 1 = some sampleRequest := by
  constructor
  · decide +kernel
  · decide +kernel

end SharedNode.Identity
