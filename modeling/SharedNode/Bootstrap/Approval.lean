import SharedNode.Bootstrap.Serial

/-!
# Host keys are approved before they are used

The bootstrap of a node (`internal/bootstraprunner/runner.go`) is sent over a connection that trusts
the host key of `known_hosts` and the fingerprint of `fingerprint`. Both come from a probe that
anybody on the way could have answered, so an operator approves the fingerprint first. The file
`approved` says that somebody has; `createOrResume` only asks whether it is there.

`exists` takes a `stat` that fails for a missing file. If that happens to `known_hosts` the host is
probed again, the two files are replaced, and the approval stays.
-/

namespace SharedNode.Bootstrap

open Text Effect Prog

/-- The fingerprint of a call of `Apply` has been approved, and its `known_hosts` are those of the
probe that gave the fingerprint. -/
structure Justified (h : Runner) (a : Application) (before : List Event) : Prop where
  approved : ∃ r, h.Approves r a.fingerprint ∧
    .stored (some r) .approved (line a.fingerprint) ∈ before
  probed : ∃ key, .probed key ∈ before ∧ key.fingerprint = a.fingerprint ∧
    a.knownHosts = some (line key.knownHosts)

/-- The `stat` of `known_hosts` does not fail. -/
def OthersBlind (name : FileName) : Prop := name ≠ .knownHosts

/-- The host key of a job belongs to one probe, and an approval to its fingerprint. -/
structure KeyBound (h : Runner) (w : World) : Prop where
  key : w.files (.final .knownHosts) = none ∧ w.files (.final .fingerprint) = none ∨
    ∃ key, .probed key ∈ w.log ∧ w.files (.final .knownHosts) = some (line key.knownHosts) ∧
      ∀ f ∈ w.files (.final .fingerprint), f = line key.fingerprint
  approved : w.files (.final .approved) ≠ none → ∃ f r, w.files (.final .fingerprint) = some f ∧
    h.Approves r (trimSpace f) ∧ .stored (some r) .approved (line (trimSpace f)) ∈ w.log
  fresh : ∀ r d before, w.log = .stored r .knownHosts d :: before →
    w.files (.final .fingerprint) = none
  applied : Always (fun e before => ∀ a, e = .applied a → Justified h a before) w.log

section KeyBound

variable {h : Runner} {w w' : World}

/-- Neither the files of the host key nor the calls of `Apply` have changed. -/
theorem KeyBound.of_eq (hw : KeyBound h w)
    (hknown : w'.files (.final .knownHosts) = w.files (.final .knownHosts))
    (hfingerprint : w'.files (.final .fingerprint) = w.files (.final .fingerprint))
    (happroved : w'.files (.final .approved) = w.files (.final .approved))
    (hlog : w'.log = w.log) : KeyBound h w' where
  key := by rw [hknown, hfingerprint, hlog]; exact hw.key
  approved := by rw [happroved, hfingerprint, hlog]; exact hw.approved
  fresh := by rw [hfingerprint, hlog]; exact hw.fresh
  applied := by rw [hlog]; exact hw.applied

/-- An event that is neither a call of `Apply` nor a new `known_hosts`. -/
theorem KeyBound.note (hw : KeyBound h w) {event : Event} (happlied : ∀ a, event ≠ .applied a)
    (hknown : ∀ r d, event ≠ .stored r .knownHosts d) : KeyBound h (w.note event) where
  key := hw.key.imp id fun ⟨key, hkey, hfiles⟩ => ⟨key, List.mem_cons_of_mem _ hkey, hfiles⟩
  approved := fun hne => by
    obtain ⟨f, r, hf, happroves, hstored⟩ := hw.approved hne
    exact ⟨f, r, hf, happroves, List.mem_cons_of_mem _ hstored⟩
  fresh := fun r d before hlog => absurd (List.cons.inj hlog).1 (hknown r d)
  applied := ⟨fun a ha => absurd ha (happlied a), hw.applied⟩

theorem KeyBound.store (hw : KeyBound h w) {name : FileName} (data : Bytes)
    (hname : name ≠ .knownHosts ∧ name ≠ .fingerprint ∧ name ≠ .approved) :
    KeyBound h (w.store name data) := by
  have hnote : KeyBound h (w.note (.stored w.holder name data)) :=
    hw.note (fun _ => nofun) fun r d heq => hname.1 (Event.stored.inj heq).2.1
  refine hnote.of_eq ?_ ?_ ?_ rfl
  · rw [World.store_final, if_neg hname.1.symm]
    rfl
  · rw [World.store_final, if_neg hname.2.1.symm]
    rfl
  · rw [World.store_final, if_neg hname.2.2.symm]
    rfl

/-- A job without `known_hosts` has no other file of the host key. -/
theorem KeyBound.none_of_unknown (hw : KeyBound h w) (hnone : w.files (.final .knownHosts) = none) :
    w.files (.final .fingerprint) = none ∧ w.files (.final .approved) = none := by
  have hfingerprint : w.files (.final .fingerprint) = none := by
    rcases hw.key with ⟨-, hnone'⟩ | ⟨key, -, hsome, -⟩
    · exact hnone'
    · exact absurd (hnone.symm.trans hsome) nofun
  refine ⟨hfingerprint, ?_⟩
  by_contra hne
  obtain ⟨f, r, hf, -⟩ := hw.approved hne
  exact absurd (hfingerprint.symm.trans hf) nofun

theorem KeyBound.write (hw : KeyBound h w) {name : FileName} {data : Bytes}
    (hwrites : Writes h OthersBlind w name data) : KeyBound h (w.store name data) := by
  cases hwrites with
  | request | digest | redacted | environment | applyError | completed =>
    exact hw.store _ (by decide)
  | @knownHosts r input key before hproceeds hunseen hlog =>
    have hnone := hunseen.resolve_right fun hblind => hblind rfl
    obtain ⟨hfingerprint, happroved⟩ := hw.none_of_unknown hnone
    refine ⟨Or.inr ⟨key, ?_, ?_, ?_⟩, ?_, ?_, ⟨fun a ha => (nomatch ha), hw.applied⟩⟩
    · rw [World.store_log, hlog]
      simp
    · rw [World.store_final, if_pos rfl]
    · rw [World.store_final, if_neg (by decide), hfingerprint]
      exact nofun
    · rw [World.store_final, if_neg (by decide)]
      exact fun hne => absurd happroved hne
    · intro _ _ _ _
      rw [World.store_final, if_neg (by decide), hfingerprint]
  | @fingerprint r input key before hproceeds hknown hlog =>
    have hnone := hw.fresh _ _ _ hlog
    refine ⟨Or.inr ⟨key, ?_, ?_, ?_⟩, ?_, ?_, ⟨fun a ha => (nomatch ha), hw.applied⟩⟩
    · rw [World.store_log, hlog]
      simp
    · rw [World.store_final, if_neg (by decide), hknown]
    · rw [World.store_final, if_pos rfl]
      rintro f ⟨⟩
      rfl
    · rw [World.store_final, if_neg (by decide)]
      intro hne
      obtain ⟨f, r, hf, -⟩ := hw.approved hne
      exact absurd (hnone.symm.trans hf) nofun
    · exact fun r d before hlog => nomatch hlog
  | @approved r fingerprint expected happroves hholder hfile hsame =>
    have hkey := hw.key
    refine ⟨?_, fun _ => ⟨expected, r, ?_, ?_, ?_⟩, fun _ _ _ hlog => (nomatch hlog),
      ⟨fun a ha => (nomatch ha), hw.applied⟩⟩
    · rw [World.store_final, World.store_final, if_neg (by decide), if_neg (by decide)]
      exact hkey.imp id fun ⟨key, hmem, hfiles⟩ => ⟨key, List.mem_cons_of_mem _ hmem, hfiles⟩
    · rw [World.store_final, if_neg (by decide), hfile]
    · rw [hsame]
      exact happroves
    · rw [World.store_log, hholder, hsame]
      exact List.mem_cons_self

theorem KeyBound.apply (hw : KeyBound h w) (happroved : w.Approved) {fingerprint : Bytes}
    (hfingerprint : w.files (.final .fingerprint) = some fingerprint) (address : Bytes)
    (failure : Option Bytes) :
    Justified h (w.application address (trimSpace fingerprint) failure) w.log := by
  obtain ⟨f, r, hf, happroves, hstored⟩ := hw.approved happroved.approved
  obtain rfl : fingerprint = f := Option.mem_unique hfingerprint hf
  refine ⟨⟨r, happroves, hstored⟩, ?_⟩
  rcases hw.key with ⟨hnone, -⟩ | ⟨key, hprobed, hknown, hsame⟩
  · exact absurd hnone happroved.knownHosts
  · refine ⟨key, hprobed, ?_, hknown⟩
    rw [hsame fingerprint hfingerprint]
    exact (trimSpace_fingerprint key).symm

/-- Every change keeps the host key bound to its probe and its approval. -/
theorem KeyBound.change (hw : KeyBound h w) (hchange : Change h OthersBlind w w') :
    KeyBound h w' := by
  cases hchange with
  | scratch | removeError | removeEnvironment => exact hw.of_eq rfl rfl rfl rfl
  | store hwrites _ => exact hw.write hwrites
  | probed | answered => exact hw.note (fun _ => nofun) fun _ _ => nofun
  | applied hproceeds happroved hfingerprint henvironment hscratch failure =>
    refine ⟨hw.key.imp id fun ⟨key, hmem, hfiles⟩ => ⟨key, List.mem_cons_of_mem _ hmem, hfiles⟩,
      fun hne => ?_, fun _ _ _ hlog => (nomatch hlog), ⟨fun a ha => ?_, hw.applied⟩⟩
    · obtain ⟨f, r, hf, happroves, hstored⟩ := hw.approved hne
      exact ⟨f, r, hf, happroves, List.mem_cons_of_mem _ hstored⟩
    · obtain rfl := Event.applied.inj ha
      exact hw.apply happroved hfingerprint _ _

theorem keyBound_invariant (h : Runner) : Invariant h OthersBlind (KeyBound h) where
  initially := ⟨Or.inl ⟨rfl, rfl⟩, fun hne => absurd rfl hne, fun _ _ _ => nofun, trivial⟩
  change := fun _ _ hw => hw.change
  lock := fun w r hw _ => by
    have hnote : KeyBound h (w.note (.began r)) := hw.note (fun _ => nofun) fun _ _ => nofun
    exact hnote.of_eq rfl rfl rfl rfl
  unlock := fun _ hw => hw.of_eq rfl rfl rfl rfl

end KeyBound

/-- In every run in which no `stat` of `known_hosts` fails, with any interleaving of calls, crashes
and other failures: whenever `Apply` was called, an approval of exactly its fingerprint, with the
approval secret and for this job, had been accepted before, and its `known_hosts` are those of an
earlier probe that gave this fingerprint. -/
theorem applied_key_approved (h : Runner) {actions : List (Action Choice Http)}
    (hfair : h.Fair OthersBlind actions) {a : Application} {after before : List Event}
    (hlog : (h.run actions).state.log = after ++ .applied a :: before) : Justified h a before :=
  always_iff.mp ((keyBound_invariant h).run hfair).applied after (.applied a) before hlog a rfl

/-! ## A `stat` that fails -/

section Reprobed

variable {h : Runner} {r ra : Http} {input : Request} {key other : HostKey}

def approvedJob (h : Runner) (r ra : Http) (input : Request) (key : HostKey) : World :=
  (((waiting r input key).begin ra).store .approved (line key.fingerprint)).answer
    (.status 200 h.job "approved")

/-- The job once the host was probed again. -/
def reprobedJob (h : Runner) (r ra : Http) (input : Request) (key other : HostKey) : World :=
  (((approvedJob h r ra input key).begin r).keyed other).answer (awaiting input)

/-- The outside of a job that is probed again although it has a host key. -/
def unseenKey (key : HostKey) : Choice where
  fails := fun op => op = .stat .knownHosts
  probe := .ok key

theorem returns_approvedJob (happroves : h.Approves ra key.fingerprint) :
    Returns {} (h.serveHTTP ra) (waiting r input key) (.status 200 h.job "approved")
      (approvedJob h r ra input key) :=
  returns_approve (fun _ hop => absurd hop Bool.false_ne_true) happroves rfl rfl
    (trimSpace_fingerprint key)

/-- The job after `Apply` with the key that was approved. -/
def completedJob (h : Runner) (r ra : Http) (input : Request) (key : HostKey) : World :=
  (((approvedJob h r ra input key).begin r).bootstrapped input
    (line key.fingerprint)).answer (.status 200 input.jobID "completed")

theorem accepts_of_stored {w : World}
    (hdigest : w.files (.final .digest) = some (line input.digest)) : w.Accepts input := by
  refine ⟨fun d hd => ?_, fun hnone => absurd (hdigest.symm.trans hnone) nofun⟩
  obtain rfl : line input.digest = d := Option.mem_unique hdigest hd
  exact trimSpace_line (sha256_all (by decide) _)

theorem returns_completedJob (hcreates : h.Creates r input) :
    Returns {} (h.serveHTTP r) (approvedJob h r ra input key)
      (.status 200 input.jobID "completed") (completedJob h r ra input key) := by
  have hworks : Works {} := fun _ hop => absurd hop Bool.false_ne_true
  refine returns_create hworks hcreates rfl (accepts_of_stored rfl) ?_
  refine returns_proceed hworks rfl ?_
  exact returns_applyBootstrap hworks rfl rfl

theorem returns_reprobedJob (hcreates : h.Creates r input) :
    Returns (unseenKey other) (h.serveHTTP r) (approvedJob h r ra input key) (awaiting input)
      (reprobedJob h r ra input key other) := by
  have hworks : Works (unseenKey other) := fun _ hop => ⟨.knownHosts, of_decide_eq_true hop⟩
  refine returns_create hworks hcreates rfl (accepts_of_stored rfl) ?_
  refine returns_proceed hworks rfl ?_
  exact returns_probeHost hworks rfl

/-- The job after `Apply`. -/
def appliedJob (h : Runner) (r ra : Http) (input : Request) (key other : HostKey) : World :=
  (((reprobedJob h r ra input key other).begin r).bootstrapped input
    (line other.fingerprint)).answer (.status 200 input.jobID "completed")

theorem returns_appliedJob (hcreates : h.Creates r input) :
    Returns {} (h.serveHTTP r) (reprobedJob h r ra input key other)
      (.status 200 input.jobID "completed") (appliedJob h r ra input key other) := by
  have hworks : Works {} := fun _ hop => absurd hop Bool.false_ne_true
  refine returns_create hworks hcreates rfl (accepts_of_stored rfl) ?_
  refine returns_proceed hworks rfl ?_
  exact returns_applyBootstrap hworks rfl rfl

/-- A create call, an approval, a create call that does not see the host key, and another one. -/
def reprobes (r ra : Http) (key other : HostKey) : List (Http × Choice) :=
  [(r, { probe := .ok key }), (ra, {}), (r, unseenKey other), (r, {})]

theorem serial_reprobes (hcreates : h.Creates r input) (happroves : h.Approves ra key.fingerprint) :
    Pool.serial handle h.serveHTTP (reprobes r ra key other) {} =
      some (appliedJob h r ra input key other) := by
  rw [reprobes, Pool.serial_cons (returns_waiting hcreates),
    Pool.serial_cons (returns_approvedJob happroves),
    Pool.serial_cons (returns_reprobedJob hcreates), Pool.serial_cons (returns_appliedJob hcreates)]
  rfl

end Reprobed

/-- The fingerprints that were approved, as they are stored. -/
def approvals (log : List Event) : List Bytes :=
  log.filterMap fun event =>
    match event with
    | .stored _ .approved data => some data
    | _ => none

theorem mem_approvals {log : List Event} {r : Option Http} {data : Bytes}
    (h : .stored r .approved data ∈ log) : data ∈ approvals log :=
  List.mem_filterMap.mpr ⟨_, h, rfl⟩

/-- The `stat` of `known_hosts` fails once after the key of the node was approved: the node is
probed again, another host answers, and `Apply` is called with a fingerprint that was not approved.
-/
theorem unapproved_key_applied : ∃ actions a after before, (Sample.runner.run actions).state.log =
      after ++ .applied a :: before ∧
      ∀ r, .stored r .approved (line a.fingerprint) ∉ before := by
  obtain ⟨actions, hactions, -⟩ : ∃ actions, (Sample.runner.run actions).state =
      appliedJob Sample.runner Sample.create Sample.approve Sample.request Sample.key
        Sample.otherKey ∧ Sample.runner.Fair (fun _ => True) actions :=
    Pool.exists_schedule (fun _ _ _ _ _ _ _ => trivial)
      (serial_reprobes Sample.creates Sample.approves)
  refine ⟨actions, _, [_, _, _], _, (congrArg World.log hactions).trans rfl, fun r hmem => ?_⟩
  have happroved : line (trimSpace (line Sample.otherKey.fingerprint)) ∈
      [line Sample.key.fingerprint] := mem_approvals hmem
  exact absurd happroved (by decide)

/-- A job that is bootstrapped with the key that was approved. -/
theorem applied_key_approved_sample :
    ∃ actions a after before, Sample.runner.Fair OthersBlind actions ∧
      (Sample.runner.run actions).state.log = after ++ .applied a :: before ∧
      Justified Sample.runner a before := by
  have hserial : Pool.serial handle Sample.runner.serveHTTP
      [(Sample.create, { probe := .ok Sample.key }), (Sample.approve, {}), (Sample.create, {})] {} =
      some (completedJob Sample.runner Sample.create Sample.approve Sample.request Sample.key) := by
    rw [Pool.serial_cons (returns_waiting Sample.creates),
      Pool.serial_cons (returns_approvedJob Sample.approves),
      Pool.serial_cons (returns_completedJob Sample.creates)]
    rfl
  obtain ⟨actions, hactions, hfair⟩ : ∃ actions, (Sample.runner.run actions).state =
      completedJob Sample.runner Sample.create Sample.approve Sample.request Sample.key ∧
      Sample.runner.Fair OthersBlind actions :=
    Pool.exists_schedule (by simp [Sees]) hserial
  have hlog : (Sample.runner.run actions).state.log = [_, _, _] ++ .applied _ :: _ :=
    (congrArg World.log hactions).trans rfl
  exact ⟨actions, _, _, _, hfair, hlog, applied_key_approved Sample.runner hfair hlog⟩

end SharedNode.Bootstrap
