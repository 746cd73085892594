import SharedNode.Compiler.ReplayStore

/-!
# The replay cache in memory

Model of `InMemoryReplayCache` of `compiler/src/service-identity.mjs` and of `verifyIncoming` over
it. The cache is a `Map` from keys to expiries; a call first drops what has expired, and nothing is
awaited between reading the clock and recording the key, so that calls are served one after another.

Three comparisons have to meet. A request is fresh while `now - timestamp ≤ maxAgeMs`, it is
recorded until `timestamp + maxAgeMs`, and an entry is dropped once `expiry ≤ now`. They overlap in
one instant: at `now = timestamp + maxAgeMs` the request is still fresh and its entry is dropped.
-/

namespace SharedNode.Identity

open Text

/-! ## The cache -/

/-- `InMemoryReplayCache`: the entries of its `Map`, oldest first. -/
structure ReplayCache where
  maxEntries : Nat
  entries : List (JsString × Int) := []
  nodup : (entries.map (·.1)).Nodup := by simp

namespace ReplayCache

/-- The cache without the entries that have expired. -/
def purge (c : ReplayCache) (now : Int) : ReplayCache where
  maxEntries := c.maxEntries
  entries := c.entries.filter fun x => !decide (x.2 ≤ now)
  nodup := c.nodup.sublist (List.filter_sublist.map _)

/-- `this.entries.has`. -/
def has (c : ReplayCache) (key : JsString) : Bool := c.entries.any fun x => x.1 == key

theorem mem_keys_iff_has {c : ReplayCache} {key : JsString} :
    c.has key = true ↔ key ∈ c.entries.map (·.1) := by
  simp [has, List.any_eq_true]

/-- `this.entries.set`, for a key that is not there. -/
def add (c : ReplayCache) (key : JsString) (expiresAt : Int) (h : c.has key = false) :
    ReplayCache where
  maxEntries := c.maxEntries
  entries := c.entries ++ [(key, expiresAt)]
  nodup := by
    have hnot : key ∉ c.entries.map (·.1) := fun hkey =>
      absurd (mem_keys_iff_has.mpr hkey) (by rw [h]; exact Bool.false_ne_true)
    rw [List.map_append]
    refine List.nodup_append.mpr ⟨c.nodup, by simp, fun a ha b hb => ?_⟩
    rintro rfl
    have hkey : a = key := List.mem_singleton.mp hb
    exact hnot (hkey ▸ ha)

def consume (c : ReplayCache) (key : JsString) (expiresAt now : Int) :
    Except Rejection Bool × ReplayCache :=
  if ¬ isSafeInteger expiresAt ∨ ¬ isSafeInteger now then (.error .replayStoreRejected, c)
  else if h : (c.purge now).has key = false then
    if c.maxEntries ≤ (c.purge now).entries.length then (.ok false, c.purge now)
    else (.ok true, (c.purge now).add key expiresAt h)
  else (.ok false, c.purge now)

/-- `verifyIncoming` at the time `now`. -/
def verifyIncoming (id : ServiceIdentity) (c : ReplayCache) (now : Int) (r : Request) :
    Except Rejection Unit × ReplayCache :=
  if ¬ validateSignedRequest r (parseTimestamp r.timestamp) now id.maxAgeMs then
    (.error .requestIdentityRejected, c)
  else
    match parseTimestamp r.timestamp with
    | none => (.error .requestIdentityRejected, c)
    | some timestamp =>
      if ¬ id.authentic r timestamp then (.error .requestIdentityRejected, c)
      else
        match c.consume (r.key id) (timestamp + id.maxAgeMs) now with
        | (.error err, c') => (.error err, c')
        | (.ok true, c') => (.ok (), c')
        | (.ok false, c') => (.error .requestReplayed, c')

/-- The answers to requests that come at these times. -/
def serve (id : ServiceIdentity) : ReplayCache → List (Int × Request) → List (Except Rejection Unit)
  | _, [] => []
  | c, (now, r) :: rest =>
    (c.verifyIncoming id now r).1 :: serve id (c.verifyIncoming id now r).2 rest

/-! ## One request -/

variable {id : ServiceIdentity} {c : ReplayCache} {now : Int} {r r' : Request}

theorem consume_cases (c : ReplayCache) (key : JsString) (expiresAt now : Int) :
    (∃ err, c.consume key expiresAt now = (.error err, c)) ∨
      c.consume key expiresAt now = (.ok false, c.purge now) ∨
      ∃ h, c.consume key expiresAt now = (.ok true, (c.purge now).add key expiresAt h) := by
  unfold consume
  split
  · exact .inl ⟨_, rfl⟩
  · split
    next hfree =>
      split
      · exact .inr (.inl rfl)
      · exact .inr (.inr ⟨hfree, rfl⟩)
    next => exact .inr (.inl rfl)

/-- What a call does: it leaves the cache, purges it, or accepts the request and records it. -/
theorem verifyIncoming_cases (id : ServiceIdentity) (c : ReplayCache) (now : Int) (r : Request) :
    ((c.verifyIncoming id now r).1 ≠ .ok () ∧
        ((c.verifyIncoming id now r).2 = c ∨ (c.verifyIncoming id now r).2 = c.purge now)) ∨
      ∃ timestamp h, (c.verifyIncoming id now r).1 = .ok () ∧
        parseTimestamp r.timestamp = some timestamp ∧
        validateSignedRequest r (some timestamp) now id.maxAgeMs = true ∧
        (c.verifyIncoming id now r).2 =
          (c.purge now).add (r.key id) (timestamp + id.maxAgeMs) h := by
  unfold verifyIncoming
  split
  · exact .inl ⟨nofun, .inl rfl⟩
  next hvalid =>
    cases htimestamp : parseTimestamp r.timestamp with
    | none => exact .inl ⟨nofun, .inl rfl⟩
    | some timestamp =>
      rw [htimestamp, not_not] at hvalid
      dsimp only
      split
      · exact .inl ⟨nofun, .inl rfl⟩
      · rcases consume_cases c (r.key id) (timestamp + id.maxAgeMs) now with
          ⟨err, heq⟩ | heq | ⟨hfree, heq⟩
        · rw [heq]
          exact .inl ⟨nofun, .inl rfl⟩
        · rw [heq]
          exact .inl ⟨nofun, .inr rfl⟩
        · rw [heq]
          exact .inr ⟨timestamp, hfree, rfl, rfl, hvalid, rfl⟩

theorem le_expiry_of_valid {timestamp : Int} (hage : 0 < id.maxAgeMs)
    (h : validateSignedRequest r (some timestamp) now id.maxAgeMs = true) :
    now ≤ timestamp + id.maxAgeMs := by
  simp only [validateSignedRequest, Bool.and_eq_true, Option.any_some, Bool.not_eq_true',
    Bool.and_eq_false_iff, decide_eq_false_iff_not] at h
  omega

/-- The request cannot be accepted at a time after `now`: it is recorded, or it has expired. -/
def Settled (id : ServiceIdentity) (c : ReplayCache) (now : Int) (r : Request) : Prop :=
  ∃ expiry, r.expiry id = some expiry ∧ ((r.key id, expiry) ∈ c.entries ∨ expiry ≤ now)

theorem mem_purge {x : JsString × Int} (h : x ∈ c.entries) (hx : now < x.2) :
    x ∈ (c.purge now).entries := by
  refine List.mem_filter.mpr ⟨h, ?_⟩
  rw [decide_eq_false (by omega)]
  rfl

theorem Settled.purge {before : Int} (h : Settled id c before r) (hle : before ≤ now) :
    Settled id (c.purge now) now r := by
  obtain ⟨expiry, hexpiry, hentry⟩ := h
  refine ⟨expiry, hexpiry, ?_⟩
  by_cases hpast : expiry ≤ now
  · exact .inr hpast
  · exact .inl (mem_purge (hentry.resolve_right (by omega)) (by omega))

theorem Settled.step {before : Int} (h : Settled id c before r) (hle : before ≤ now)
    (r' : Request) : Settled id (c.verifyIncoming id now r').2 now r := by
  rcases verifyIncoming_cases id c now r' with ⟨-, heq | heq⟩ | ⟨timestamp, hfree, -, -, -, heq⟩
  · rw [heq]
    obtain ⟨expiry, hexpiry, hentry⟩ := h
    exact ⟨expiry, hexpiry, hentry.imp_right fun hpast => by omega⟩
  · rw [heq]
    exact h.purge hle
  · rw [heq]
    obtain ⟨expiry, hexpiry, hentry⟩ := h.purge hle
    exact ⟨expiry, hexpiry, hentry.imp_left fun hmem => List.mem_append_left _ hmem⟩

/-- A settled request is refused, unless it comes in the instant it expires. -/
theorem Settled.refused {before : Int} (h : Settled id c before r) (hle : before ≤ now)
    (hage : 0 < id.maxAgeMs) (hsigned : r.signed = r'.signed)
    (hinstant : r'.expiry id ≠ some now) : (c.verifyIncoming id now r').1 ≠ .ok () := by
  rcases verifyIncoming_cases id c now r' with ⟨hrefused, -⟩ |
    ⟨timestamp, hfree, -, htimestamp, hvalid, -⟩
  · exact hrefused
  · simp only [Request.signed, Prod.mk.injEq] at hsigned
    obtain ⟨-, -, -, hsame, hnonce⟩ := hsigned
    have hexpiry : r'.expiry id = some (timestamp + id.maxAgeMs) := by
      rw [Request.expiry, htimestamp, Option.map_some]
    have hbound := le_expiry_of_valid hage hvalid
    -- It is fresh and has not expired, so its entry outlives the purge.
    have hbefore : now < timestamp + id.maxAgeMs := by
      rcases Int.lt_or_eq_of_le hbound with hlt | heq
      · exact hlt
      · exact absurd (heq ▸ hexpiry) hinstant
    obtain ⟨expiry, hexpiry', hentry⟩ := h.purge hle
    rw [Request.expiry, hsame, ← Request.expiry, hexpiry] at hexpiry'
    cases hexpiry'
    have hmem := hentry.resolve_right (by omega)
    have hkey : r.key id = r'.key id := by simp only [Request.key, hnonce]
    have hhas : (c.purge now).has (r'.key id) = true :=
      mem_keys_iff_has.mpr (hkey ▸ List.mem_map_of_mem hmem)
    rw [hfree] at hhas
    cases hhas

theorem settled_of_accepted (h : (c.verifyIncoming id now r).1 = .ok ())
    (hsigned : r.signed = r'.signed) : Settled id (c.verifyIncoming id now r).2 now r' := by
  rcases verifyIncoming_cases id c now r with ⟨hrefused, -⟩ |
    ⟨timestamp, hfree, -, htimestamp, -, heq⟩
  · exact absurd h hrefused
  · simp only [Request.signed, Prod.mk.injEq] at hsigned
    obtain ⟨-, -, -, hsame, hnonce⟩ := hsigned
    refine ⟨timestamp + id.maxAgeMs, ?_, .inl ?_⟩
    · rw [Request.expiry, ← hsame, htimestamp, Option.map_some]
    · rw [heq, show r'.key id = r.key id by simp only [Request.key, hnonce]]
      exact List.mem_append_right _ List.mem_cons_self

/-! ## Any number of requests -/

/-- The clock does not go back. -/
abbrev Monotone (calls : List (Int × Request)) : Prop := calls.Pairwise fun a b => a.1 ≤ b.1

/-- No call is made in the instant its request expires. -/
abbrev OffExpiry (id : ServiceIdentity) (calls : List (Int × Request)) : Prop :=
  ∀ call ∈ calls, call.2.expiry id ≠ some call.1

theorem Settled.serve {calls : List (Int × Request)} {before : Int} (h : Settled id c before r)
    (hage : 0 < id.maxAgeMs) (hlater : ∀ call ∈ calls, before ≤ call.1) (hclock : Monotone calls)
    (hoff : OffExpiry id calls) {j : Nat} {call : Int × Request} (hj : calls[j]? = some call)
    (hsigned : r.signed = call.2.signed) : (c.serve id calls)[j]? ≠ some (.ok ()) := by
  induction calls generalizing c before j with
  | nil => cases hj
  | cons first rest ih =>
    obtain ⟨hfirst, hrest⟩ := List.pairwise_cons.mp hclock
    have hle := hlater first List.mem_cons_self
    cases j with
    | zero =>
      obtain rfl := Option.some.inj hj
      intro hok
      exact h.refused hle hage hsigned (hoff first List.mem_cons_self) (Option.some.inj hok)
    | succ j =>
      exact ih (h.step hle first.2) hfirst hrest
        (List.forall_mem_cons.mp hoff).2 hj

/-- Requests that come at times that do not decrease, none of them in the instant it expires: no
signed request is accepted twice, however old a request may be and however many entries there may
be. -/
theorem cache_accepts_once (id : ServiceIdentity) (hage : 0 < id.maxAgeMs) (maxEntries : Nat)
    {calls : List (Int × Request)} (hclock : Monotone calls) (hoff : OffExpiry id calls) {i j : Nat}
    {a b : Int × Request} (hi : calls[i]? = some a) (hj : calls[j]? = some b)
    (hsigned : a.2.signed = b.2.signed)
    (haccepted : (serve id { maxEntries } calls)[i]? = some (.ok ()))
    (haccepted' : (serve id { maxEntries } calls)[j]? = some (.ok ())) : i = j := by
  -- Over the calls that are left, from whatever the cache has become.
  suffices hlt : ∀ (c : ReplayCache) (calls : List (Int × Request)), Monotone calls →
      OffExpiry id calls → ∀ (i j : Nat) (a b : Int × Request), calls[i]? = some a →
      calls[j]? = some b → a.2.signed = b.2.signed → (c.serve id calls)[i]? = some (.ok ()) →
      i < j → (c.serve id calls)[j]? ≠ some (.ok ()) by
    rcases Nat.lt_trichotomy i j with h | h | h
    · exact absurd haccepted' (hlt _ _ hclock hoff i j a b hi hj hsigned haccepted h)
    · exact h
    · exact absurd haccepted (hlt _ _ hclock hoff j i b a hj hi hsigned.symm haccepted' h)
  intro c calls hclock hoff i j a b hi hj hsigned haccepted hij
  induction calls generalizing c i j with
  | nil => cases hi
  | cons first rest ih =>
    obtain ⟨hfirst, hrest⟩ := List.pairwise_cons.mp hclock
    have hoffRest : OffExpiry id rest := (List.forall_mem_cons.mp hoff).2
    cases j with
    | zero => exact absurd hij (Nat.not_lt_zero i)
    | succ j =>
      cases i with
      | zero =>
        cases hi
        have hsettled := settled_of_accepted (Option.some.inj haccepted) hsigned
        exact hsettled.serve hage hfirst hrest hoffRest hj rfl
      | succ i => exact ih _ hrest hoffRest i j hi hj haccepted (Nat.lt_of_succ_lt_succ hij)

/-- A request that comes at its time and again later: it is accepted, and then it is not. -/
theorem cache_accepts_once_sample :
    let calls := [((1000000 : Int), sampleRequest), (1030000, sampleRequest)]
    (serve sampleIdentity { maxEntries := 1 } calls)[0]? = some (.ok ()) ∧
      (serve sampleIdentity { maxEntries := 1 } calls)[1]? ≠ some (.ok ()) := by
  have hfirst : (serve sampleIdentity { maxEntries := 1 }
      [((1000000 : Int), sampleRequest), (1030000, sampleRequest)])[0]? = some (.ok ()) := by
    decide +kernel
  refine ⟨hfirst, fun hsecond => ?_⟩
  have honce := @cache_accepts_once sampleIdentity (by decide) 1
    [((1000000 : Int), sampleRequest), (1030000, sampleRequest)] (by decide)
      (by decide +kernel) 0 1 _ _
    rfl rfl rfl hfirst hsecond
  exact absurd honce (by decide)

/-- A request that comes twice in the instant it expires is accepted twice. -/
theorem accepted_twice_at_expiry : serve sampleIdentity { maxEntries := 1 }
      [(1060000, sampleRequest), (1060000, sampleRequest)] = [.ok (), .ok ()] := by
  decide +kernel

end ReplayCache

end SharedNode.Identity
