import SharedNode.Compiler.Catalog
import SharedNode.Text.Time

/-!
# Envelopes of compiler jobs

Model of `consume`, `parseEnvelope` and `parseQueuedEnvelope` (`compiler/src/http-worker.mjs`) and
of `validateCompilerJob` (`compiler/src/compiler.mjs`), on the value of the JSON body. A body is
read twice: when it is accepted, at the time `now`, and before every attempt of its job, at the time
it was issued. An envelope may be issued up to a minute in the future, and it has to expire after
`now`; that it expires after it was issued is not asked.
-/

namespace SharedNode.Compiler.Envelope

open Text JsValue Compiler.Catalog

/-- What the engine provides: `JSON.parse` of the decoded body, and `Date.parse` in milliseconds of
a value that may be undefined; `none` when they throw or give no number. -/
structure Engine where
  parseJson : Bytes → Option JsValue
  dateParse : Option JsValue → Option Int

/-- The response to a request that is refused. -/
structure HttpWorkerError where
  status : Nat
  code : String
  deriving DecidableEq, Repr

/-! ## Checks -/

def validId (v : Option JsValue) : Bool :=
  (asString v).any fun s =>
    decide (0 < s.length) && decide (s.length ≤ 255) && s.all fun u => 0x20 ≤ u && u ≠ 0x7f

/-- `validateCompilerJob`. -/
def validJob (job : Option JsValue) : Bool :=
  let frozen := get job "frozenManifest"
  let archive := get frozen "archive"
  let start := js "shared-hosting/" ++ textOf (get job "accountId") ++ js "/" ++
    textOf (get job "serviceId") ++ js "/"
  keysAre ["accountId", "serviceId", "deploymentId", "compilerRequestId", "manifestSha256",
      "expectedContentKey", "frozenManifest"] job &&
    isText validKeySegment (get job "accountId") && isText validKeySegment (get job "serviceId") &&
    isText validKeySegment (get job "deploymentId") &&
    isText validSHA256 (get job "manifestSha256") &&
    isText validKeySegment (get job "compilerRequestId") &&
    asString (get frozen "sourceFormat") = some (js "xmcl_server_bundle") &&
    isText validSHA256 (get archive "sha256") &&
    isCount 1 maxBundleBytes (get archive "sizeBytes") &&
    isText validKeySegment (get frozen "importId") &&
    asString (get archive "key") = some (start ++ js "compiler-inputs/" ++
      textOf (get frozen "importId") ++ js ".xmcl-server-bundle") &&
    asString (get job "expectedContentKey") = some (start ++ js "compiler-content/" ++
      textOf (get job "manifestSha256") ++ js ".tar.zst")

def maxEnvelopeLifetimeMs : Int := 5 * 60 * 1000

def validMessageLifetime (E : Engine) (issuedAt expiresAt : Option JsValue) (now : Int) : Bool :=
  match E.dateParse issuedAt, E.dateParse expiresAt with
  | some issued, some expires =>
    isSafeInteger issued && isSafeInteger expires && issued ≤ now + 60000 && now < expires &&
      expires - issued ≤ maxEnvelopeLifetimeMs
  | _, _ => false

/-- `parseEnvelope`, the checks that do not depend on the time. -/
def isEnvelope (v : Option JsValue) : Bool :=
  keysAre ["schemaVersion", "requestId", "issuedAt", "expiresAt", "job", "grants"] v &&
    asNumber (get v "schemaVersion") = some (lit "1") && validId (get v "requestId") &&
    isObject (get v "job") && isObject (get v "grants") &&
    asString (get v "requestId") = asString (get (get v "job") "compilerRequestId") &&
    asString (get (get v "grants") "compilerRequestId") = asString (get v "requestId") &&
    validJob (get v "job")

def parseEnvelope (E : Engine) (body : Bytes) (now : Int) : Except HttpWorkerError JsValue :=
  match E.parseJson body with
  | none => .error ⟨400, "invalid_request"⟩
  | some envelope =>
    if isEnvelope (some envelope) && validMessageLifetime E (get (some envelope) "issuedAt")
        (get (some envelope) "expiresAt") now then .ok envelope
    else .error ⟨400, "invalid_request"⟩

/-- `parseQueuedEnvelope`. It reads no clock. -/
def parseQueuedEnvelope (E : Engine) (body : Bytes) : Except String JsValue :=
  match E.parseJson body with
  | none => .error "invalid_persisted_job"
  | some value =>
    match E.dateParse (get (some value) "issuedAt") with
    | none => .error "invalid_persisted_job"
    | some issuedAt =>
      if ¬ isSafeInteger issuedAt then .error "invalid_persisted_job"
      else
        match parseEnvelope E body issuedAt with
        | .ok envelope => .ok envelope
        | .error _ => .error "invalid_persisted_job"

/-! ## Accepting a body -/

/-- A request, with what the authenticator says of it and what the queue answers to its body: the
code of an error, or nothing. -/
structure Request where
  ready : Bool := true
  post : Bool := true
  authentic : Bool := true
  enqueued : Option String := none
  body : Bytes

/-- `CompilerHttpWorker.consume` at the time `now`. -/
def consume (E : Engine) (request : Request) (now : Int) : Except HttpWorkerError JsValue :=
  if !request.ready then .error ⟨503, "compiler_unavailable"⟩
  else if !request.post then .error ⟨400, "invalid_request"⟩
  else if !request.authentic then .error ⟨401, "request_unauthorized"⟩
  else
    match parseEnvelope E request.body now with
    | .error err => .error err
    | .ok envelope =>
      match request.enqueued with
      | none => .ok envelope
      | some code =>
        if code = "idempotency_conflict" then .error ⟨409, "idempotency_conflict"⟩
        else .error ⟨500, "compiler_failed"⟩

variable {E : Engine} {request : Request} {now : Int} {envelope : JsValue}

theorem parseEnvelope_eq_ok {body : Bytes} :
    parseEnvelope E body now = .ok envelope ↔ E.parseJson body = some envelope ∧
      isEnvelope (some envelope) = true ∧ validMessageLifetime E (get (some envelope) "issuedAt")
        (get (some envelope) "expiresAt") now = true := by
  unfold parseEnvelope
  cases hjson : E.parseJson body with
  | none => simp
  | some value =>
    by_cases hvalid : (isEnvelope (some value) && validMessageLifetime E
        (get (some value) "issuedAt") (get (some value) "expiresAt") now) = true
    · simp only [if_pos hvalid, Except.ok.injEq, Option.some.injEq]
      rw [Bool.and_eq_true] at hvalid
      exact ⟨fun heq => ⟨heq, heq ▸ hvalid⟩, fun h => h.1⟩
    · simp only [if_neg hvalid, Option.some.injEq]
      rw [Bool.and_eq_true] at hvalid
      exact ⟨fun heq => (nomatch heq), fun h => absurd (h.1 ▸ h.2) hvalid⟩

theorem parseEnvelope_of_consume (h : consume E request now = .ok envelope) :
    parseEnvelope E request.body now = .ok envelope := by
  unfold consume at h
  split at h
  · cases h
  split at h
  · cases h
  split at h
  · cases h
  cases hparse : parseEnvelope E request.body now with
  | error err =>
    rw [hparse] at h
    cases h
  | ok value =>
    rw [hparse] at h
    cases hqueue : request.enqueued with
    | none =>
      rw [hqueue] at h
      exact h
    | some code =>
      simp only [hqueue] at h
      split at h <;> cases h

theorem times_of_lifetime {issuedAt expiresAt : Option JsValue}
    (h : validMessageLifetime E issuedAt expiresAt now = true) :
    ∃ issued expires, E.dateParse issuedAt = some issued ∧ E.dateParse expiresAt = some expires ∧
      isSafeInteger issued = true ∧ isSafeInteger expires = true ∧ issued ≤ now + 60000 ∧
      now < expires ∧ expires - issued ≤ maxEnvelopeLifetimeMs := by
  unfold validMessageLifetime at h
  cases hissued : E.dateParse issuedAt with
  | none => simp [hissued] at h
  | some issued =>
    cases hexpires : E.dateParse expiresAt with
    | none => simp [hissued, hexpires] at h
    | some expires =>
      simp only [hissued, hexpires, Bool.and_eq_true, decide_eq_true_eq] at h
      obtain ⟨⟨⟨⟨hsafe, hsafe'⟩, hfuture⟩, halive⟩, hshort⟩ := h
      exact ⟨issued, expires, rfl, rfl, hsafe, hsafe', hfuture, halive, hshort⟩

/-- A body that was accepted at some time is read again, at any time, if and only if its envelope
expires after it was issued. -/
theorem parseQueuedEnvelope_iff (h : consume E request now = .ok envelope) :
    parseQueuedEnvelope E request.body = .ok envelope ↔
      ∀ issued expires, E.dateParse (get (some envelope) "issuedAt") = some issued →
        E.dateParse (get (some envelope) "expiresAt") = some expires → issued < expires := by
  obtain ⟨hjson, hshape, hlifetime⟩ := parseEnvelope_eq_ok.mp (parseEnvelope_of_consume h)
  obtain ⟨issued, expires, hissued, hexpires, hsafe, hsafe', -, -, hshort⟩ :=
    times_of_lifetime hlifetime
  -- At the time of the issue only the second comparison can fail.
  have hagain : validMessageLifetime E (get (some envelope) "issuedAt")
      (get (some envelope) "expiresAt") issued = decide (issued < expires) := by
    have hminute : issued ≤ issued + 60000 := by omega
    simp only [validMessageLifetime, hissued, hexpires, hsafe, hsafe', hminute, hshort, decide_true,
      Bool.true_and, Bool.and_true]
  have hqueued : parseQueuedEnvelope E request.body =
      match parseEnvelope E request.body issued with
      | .ok envelope => .ok envelope
      | .error _ => .error "invalid_persisted_job" := by
    simp only [parseQueuedEnvelope, hjson, hissued, hsafe, not_true_eq_false, if_false]
  have hparse : parseEnvelope E request.body issued = .ok envelope ↔ issued < expires := by
    rw [parseEnvelope_eq_ok, hagain, decide_eq_true_eq]
    exact ⟨fun hp => hp.2.2, fun hlt => ⟨hjson, hshape, hlt⟩⟩
  rw [hqueued]
  constructor
  · intro hok issued' expires' hissued' hexpires'
    obtain rfl : issued = issued' := Option.mem_unique hissued hissued'
    obtain rfl : expires = expires' := Option.mem_unique hexpires hexpires'
    refine hparse.mp ?_
    cases hp : parseEnvelope E request.body issued with
    | ok value => rw [hp] at hok; exact congrArg Except.ok (Except.ok.inj hok)
    | error err => rw [hp] at hok; cases hok
  · intro hlt
    rw [hparse.mpr (hlt issued expires hissued hexpires)]

/-! ## Two envelopes -/

namespace Sample

def job : JsValue :=
  object [("accountId", ascii "a"), ("serviceId", ascii "s"), ("deploymentId", ascii "d"),
    ("compilerRequestId", ascii "r"), ("manifestSha256", .str zeroSHA256),
    ("expectedContentKey", ascii ("shared-hosting/a/s/compiler-content/" ++
      "0000000000000000000000000000000000000000000000000000000000000000.tar.zst")),
    ("frozenManifest", object [("sourceFormat", ascii "xmcl_server_bundle"),
      ("importId", ascii "i"), ("archive", object [("sha256", .str zeroSHA256),
        ("sizeBytes", number "1"),
        ("key", ascii "shared-hosting/a/s/compiler-inputs/i.xmcl-server-bundle")])])]

def message (issuedAt expiresAt : String) : JsValue :=
  object [("schemaVersion", number "1"), ("requestId", ascii "r"), ("issuedAt", ascii issuedAt),
    ("expiresAt", ascii expiresAt), ("job", job),
    ("grants", object [("compilerRequestId", ascii "r")])]

def sound : JsValue := message "2024-01-01T00:00:10Z" "2024-01-01T00:00:50Z"

/-- An envelope that expires before it is issued. -/
def poison : JsValue := message "2024-01-01T00:00:50Z" "2024-01-01T00:00:10Z"

@[irreducible] def body (v : JsValue) : Bytes := encode (stringify v)

/-- An engine that knows the texts of the two envelopes. -/
def engine : Engine where
  parseJson bytes := [sound, poison].find? fun v => body v = bytes
  dateParse v := (asString v).bind fun s => (parseTime (encode s)).map (· / 10 ^ 6)

/-- The start of the minute in which they are issued. -/
def minute : Int := 1704067200000

theorem parse_sound : engine.parseJson (body sound) = some sound := by
  simp [engine]

theorem parse_poison : engine.parseJson (body poison) = some poison := by
  have hne : body sound ≠ body poison := by decide +kernel
  simp [engine, hne]

/-- A body with such an envelope is accepted if the dates allow it. -/
theorem consume_message {v : JsValue} (hjson : engine.parseJson (body v) = some v)
    (hshape : isEnvelope (some v) = true)
    (hlifetime : validMessageLifetime engine (get (some v) "issuedAt") (get (some v) "expiresAt")
      minute = true) : consume engine { body := body v } minute = .ok v := by
  have hparse : parseEnvelope engine (body v) minute = .ok v :=
    parseEnvelope_eq_ok.mpr ⟨hjson, hshape, hlifetime⟩
  simp only [consume, Bool.not_true, Bool.false_eq_true, if_false, hparse]

/-- The dates of the envelopes are ten and fifty seconds after the start of the minute. -/
theorem dates : engine.dateParse (get (some sound) "issuedAt") = some (minute + 10000) ∧
      engine.dateParse (get (some sound) "expiresAt") = some (minute + 50000) ∧
      engine.dateParse (get (some poison) "issuedAt") = some (minute + 50000) := by
  decide +kernel

end Sample

theorem parseQueuedEnvelope_iff_sample :
    consume Sample.engine { body := Sample.body Sample.sound } Sample.minute = .ok Sample.sound ∧
      parseQueuedEnvelope Sample.engine (Sample.body Sample.sound) = .ok Sample.sound := by
  have hconsume := Sample.consume_message Sample.parse_sound (by decide +kernel) (by decide +kernel)
  refine ⟨hconsume, (parseQueuedEnvelope_iff hconsume).mpr ?_⟩
  obtain ⟨hissuedAt, hexpiresAt, -⟩ := Sample.dates
  intro issued expires hissued hexpires
  rw [Option.mem_unique hissued hissuedAt,
    Option.mem_unique hexpires hexpiresAt]
  decide

/-- An envelope issued within the next minute that expires before: it is accepted, and every attempt
of its job fails before the job runs. -/
theorem poison_envelope :
    consume Sample.engine { body := Sample.body Sample.poison } Sample.minute = .ok Sample.poison ∧
      parseQueuedEnvelope Sample.engine (Sample.body Sample.poison) =
        .error "invalid_persisted_job" := by
  have hlifetime : validMessageLifetime Sample.engine (get (some Sample.poison) "issuedAt")
      (get (some Sample.poison) "expiresAt") (Sample.minute + 50000) = false := by
    decide +kernel
  have hsafe : isSafeInteger (Sample.minute + 50000) = true := by decide
  refine ⟨Sample.consume_message Sample.parse_poison (by decide +kernel) (by decide +kernel), ?_⟩
  simp only [parseQueuedEnvelope, parseEnvelope, Sample.parse_poison, Sample.dates.2.2, hsafe,
    hlifetime, Bool.and_false, Bool.false_eq_true, if_false, not_true_eq_false]

end SharedNode.Compiler.Envelope
