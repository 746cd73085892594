import SharedNode.Bootstrap.Changes
import SharedNode.Effect.Eval

/-!
# Calls one after another

What a call of the bootstrap runner (`internal/bootstraprunner/runner.go`) does when it is alone and
none of its calls fails but perhaps a `stat` (`Works`): the outcome of its programs (`Returns`) and
of the create and approve calls in the states a job can be in.
-/

namespace SharedNode.Bootstrap

open Text Effect Prog

variable {fingerprint : Bytes} {input : Request}

/-! ## Host keys -/

theorem isGraphic_of_isAlnum {b : UInt8} (h : isAlnum b = true) : isGraphic b = true := by
  simp only [isAlnum, Workspace.isLetterByte, isDigit, isGraphic, Bool.or_eq_true,
    Bool.and_eq_true, decide_eq_true_eq, UInt8.le_iff_toNat_le, UInt8.lt_iff_toNat_lt,
    UInt8.reduceToNat] at h ⊢
  omega

theorem isGraphic_fingerprint (key : HostKey) : key.fingerprint.all isGraphic = true := by
  have hvalid := key.valid
  simp only [isFingerprint, Bool.and_eq_true] at hvalid
  obtain ⟨⟨-, hlead⟩, hrest⟩ := hvalid
  obtain ⟨rest, hkey⟩ := List.isPrefixOf_iff_prefix.mp hlead
  rw [← hkey, List.drop_left' (by rfl)] at hrest
  rw [← hkey, List.all_append, Bool.and_eq_true]
  refine ⟨by decide, List.all_eq_true.mpr fun b hb => ?_⟩
  rcases Bool.or_eq_true_iff.mp (List.all_eq_true.mp hrest b hb) with halnum | hextra
  · exact isGraphic_of_isAlnum halnum
  · have hall : (lit "+/").all isGraphic = true := by decide
    exact List.all_eq_true.mp hall b (List.contains_iff_mem.mp hextra)

theorem trimSpace_fingerprint (key : HostKey) :
    trimSpace (line key.fingerprint) = key.fingerprint :=
  trimSpace_line (isGraphic_fingerprint key)

theorem decodeApproval_key (key : HostKey) :
    decodeApproval (approvalBody key.fingerprint) = some key.fingerprint := by
  have hascii : key.fingerprint.all (· < 0x80) = true := by
    refine List.all_eq_true.mpr fun b hb => ?_
    have hgraphic := List.all_eq_true.mp (isGraphic_fingerprint key) b hb
    simp only [isGraphic, Bool.and_eq_true, decide_eq_true_eq, UInt8.lt_iff_toNat_lt,
      UInt8.reduceToNat] at hgraphic ⊢
    omega
  refine decodeApproval_body (valid_ascii hascii) ?_
  have hlength : key.fingerprint.length = 50 := by
    have hvalid := key.valid
    simp only [isFingerprint, Bool.and_eq_true, decide_eq_true_eq] at hvalid
    exact hvalid.1.1
  have hquote := length_quote_le key.fingerprint
  have hname : (quote (lit "fingerprint")).length = 13 := by decide
  have hbody : (approvalBody key.fingerprint).length = (quote key.fingerprint).length + 16 := by
    show (0x7b :: (quote (lit "fingerprint") ++ 0x3a :: quote key.fingerprint ++ [0x7d])).length = _
    simp only [List.length_cons, List.length_append, List.length_nil, hname]
    omega
  omega

/-! ## Programs that are alone -/

/-- Nothing fails but perhaps a `stat`. -/
def Works (e : Choice) : Prop := ∀ op, e.fails op = true → ∃ name, op = .stat name

/-- A program of a call that is alone returns this. -/
def Returns {α : Type} (e : Choice) (p : M α) (w : World) (a : α) (w' : World) : Prop :=
  p.eval handle e w = (some a, w')

/-- What `exists` finds. -/
def Choice.finds (e : Choice) (w : World) (name : FileName) : Bool :=
  !e.fails (.stat name) && (w.files (.final name)).isSome

section Rules

variable {e : Choice} {w w₁ w₂ : World}

variable {α : Type} {reply : Reply} {name : FileName} {data : Bytes}

theorem returns_bind {β : Type} {p : M α} {f : α → M β} {a : α} {b : β} (hp : Returns e p w a w₁)
    (hf : Returns e (f a) w₁ b w₂) : Returns e (p.bind f) w b w₂ := by
  unfold Returns at hp hf ⊢
  rw [eval_bind, hp]
  exact hf

theorem returns_ask {op : Op} {x : Ans op} (hx : handle op e w = some (x, w₁)) :
    Returns e (ask op) w x w₁ := by
  show Prog.eval handle e (.call op ret) w = _
  rw [Prog.eval, hx]
  rfl

theorem returns_orReply {ε : Type} {step : M (Except ε α)} {reply' : Reply}
    {next : α → M Reply} {a : α} (hstep : Returns e step w (.ok a) w₁)
    (hnext : Returns e (next a) w₁ reply' w₂) : Returns e (orReply step reply next) w reply' w₂ :=
  returns_bind hstep hnext

theorem returns_exists (e : Choice) (w : World) (name : FileName) :
    Returns e (fileExists name) w (e.finds w name) w := by
  refine returns_bind (returns_ask rfl) ?_
  unfold Choice.finds
  cases e.fails (.stat name) <;> cases w.files (.final name) <;> rfl

theorem World.set_self {path : Path} {v : Option Bytes} (h : w.files path = v) :
    w.set path v = w := by
  have hfiles : (w.set path v).files = w.files := by
    funext p
    rw [World.set_files]
    split
    next heq => rw [heq, h]
    · rfl
  exact congrArg (fun f => (⟨f, w.holder, w.log⟩ : World)) hfiles

theorem returns_write (hwrite : e.fails (.writeFile name data) = false)
    (hchmod : e.fails (.chmod name) = false) (hrename : e.fails (.rename name) = false) :
    Returns e (writePrivate name data) w (.ok ()) (w.store name data) := by
  have hwritten : Returns e (ask (.writeFile name data)) w (.ok ())
      (w.set (.temporary name) (some data)) := by
    refine returns_ask ?_
    simp only [handle, hwrite]
    rfl
  have hchanged : Returns e (ask (.chmod name)) (w.set (.temporary name) (some data)) (.ok ())
      (w.set (.temporary name) (some data)) := by
    refine returns_ask ?_
    simp only [handle, hchmod]
    rfl
  have hrenamed : Returns e (ask (.rename name)) (w.set (.temporary name) (some data)) (.ok ())
      (w.store name data) := by
    refine returns_ask ?_
    have htemporary : (w.set (.temporary name) (some data)).files (.temporary name) =
        some data := by
      simp [World.set_files]
    simp only [handle, hrename, htemporary, World.set_temporary_store]
    rfl
  exact returns_bind hwritten (returns_bind hchanged hrenamed)

variable (hworks : Works e)

include hworks in
theorem Works.succeeds (op : Op) (hop : ∀ name, op ≠ .stat name) : e.fails op = false := by
  cases hfails : e.fails op with
  | false => rfl
  | true =>
    obtain ⟨name, heq⟩ := hworks op hfails
    exact absurd heq (hop name)

include hworks in
theorem returns_read (hdata : w.files (.final name) = some data) :
    Returns e (ask (.readFile name)) w (.ok data) w := by
  refine returns_ask ?_
  simp only [handle, hworks.succeeds (.readFile name) (by simp), hdata]
  rfl

include hworks in
theorem returns_writePrivate (name : FileName) (data : Bytes) :
    Returns e (writePrivate name data) w (.ok ()) (w.store name data) :=
  returns_write (hworks.succeeds (.writeFile name data) nofun) (hworks.succeeds (.chmod name) nofun)
    (hworks.succeeds (.rename name) nofun)

include hworks in
theorem returns_remove (name : FileName) :
    Returns e (removeIfThere name) w (.ok ()) (w.set (.final name) none) := by
  have hfails := hworks.succeeds (.remove name) nofun
  cases hfile : w.files (.final name) with
  | none =>
    have hremove : Returns e (ask (.remove name)) w (.error .notExist) w := by
      refine returns_ask ?_
      simp only [handle, hfails, hfile]
      rfl
    rw [World.set_self hfile]
    exact returns_bind hremove rfl
  | some data =>
    have hremove : Returns e (ask (.remove name)) w (.ok ()) (w.set (.final name) none) := by
      refine returns_ask ?_
      simp only [handle, hfails, hfile]
      rfl
    exact returns_bind hremove rfl

/-! ## Create calls -/

variable {r : Http} {input : Request}

/-- A completed job with its secrets removed. -/
def World.finished (w : World) (input : Request) : World :=
  (w.store .request input.redacted.canonical).set (.final .environment) none

include hworks in
theorem returns_finish : Returns e (finish input) w (.status 200 input.jobID "completed")
    (w.finished input) :=
  returns_orReply (returns_bind (returns_writePrivate hworks _ _) (returns_remove hworks _)) rfl

def World.keyed (w : World) (key : HostKey) : World :=
  ((w.note (.probed key)).store .knownHosts (line key.knownHosts)).store .fingerprint
    (line key.fingerprint)

include hworks in
theorem returns_probeHost {key : HostKey} (hprobe : e.probe = .ok key) :
    Returns e (probeHost input) w (awaiting input) (w.keyed key) := by
  have hasked : Returns e (ask (.probe input.address)) w (.ok key) (w.note (.probed key)) := by
    refine returns_ask ?_
    simp only [handle, hprobe]
  exact returns_orReply hasked (returns_orReply (returns_writePrivate hworks _ _)
    (returns_orReply (returns_writePrivate hworks _ _) rfl))

/-- `Apply` was called and has succeeded. -/
def World.applied (w : World) (input : Request) (fingerprint : Bytes) : World :=
  let w₁ := w.store .environment (renderEnvironment input)
  w₁.note (.applied (w₁.application input.address (trimSpace fingerprint) none))

/-- The bootstrap of an approved node. -/
def World.bootstrapped (w : World) (input : Request) (fingerprint : Bytes) : World :=
  ((((w.applied input fingerprint).set (.final .applyError) none).store .completed
    (lit "completed\n")).finished input)

include hworks in
theorem returns_applyBootstrap (hfailure : e.failure = none)
    (hfingerprint : w.files (.final .fingerprint) = some fingerprint) :
    Returns e (applyBootstrap input) w (.status 200 input.jobID "completed")
      (w.bootstrapped input fingerprint) := by
  have happlied : Returns e (ask (.apply input.address (trimSpace fingerprint)))
      (w.store .environment (renderEnvironment input)) (.ok ()) (w.applied input fingerprint) := by
    refine returns_ask ?_
    simp only [handle, hfailure]
    rfl
  refine returns_orReply (returns_read hworks hfingerprint) ?_
  refine returns_orReply (returns_writePrivate hworks _ _) ?_
  refine returns_bind happlied ?_
  refine returns_orReply (returns_remove hworks _) ?_
  exact returns_orReply (returns_writePrivate hworks _ _) (returns_finish hworks)

theorem returns_proceed
    (hworks : Works e) (hrequest : w.files (.final .request) = some input.canonical)
    (hnext : Returns e (if ¬ e.finds w .knownHosts then probeHost input
      else if ¬ e.finds w .approved then ret (awaiting input) else applyBootstrap input) w
        reply w₁) :
    Returns e (proceed input) w reply w₁ := by
  refine returns_orReply (returns_read hworks hrequest) ?_
  rw [if_neg (by simp)]
  refine returns_bind (returns_exists e w .knownHosts) ?_
  cases hknown : e.finds w .knownHosts with
  | false => simpa [hknown] using hnext
  | true =>
    refine returns_bind (returns_exists e w .approved) ?_
    simpa [hknown] using hnext

structure World.Accepts (w : World) (input : Request) : Prop where
  digest : ∀ d ∈ w.files (.final .digest), trimSpace d = input.digest
  request : w.files (.final .digest) = none →
    ∀ c ∈ w.files (.final .request), sha256 c = input.digest

def World.admitted (w : World) (input : Request) : World :=
  match w.files (.final .digest), w.files (.final .request) with
  | some _, _ => w
  | none, some _ => w.store .digest (line input.digest)
  | none, none => (w.store .request input.canonical).store .digest (line input.digest)

theorem returns_missing (hworks : Works e) (hnone : w.files (.final name) = none) :
    Returns e (ask (.readFile name)) w (.error .notExist) w := by
  refine returns_ask ?_
  simp only [handle, hworks.succeeds (.readFile name) (by simp), hnone]
  rfl

include hworks in
theorem returns_sameRequest {next : M Reply} (haccepts : w.Accepts input)
    (hnext : Returns e next (w.admitted input) reply w₁) :
    Returns e (sameRequest input next) w reply w₁ := by
  cases hdigest : w.files (.final .digest) with
  | some d =>
    have hsame := haccepts.digest d hdigest
    simp only [World.admitted, hdigest] at hnext
    refine returns_bind (returns_read hworks hdigest) ?_
    simpa [hsame] using hnext
  | none =>
    refine returns_bind (returns_missing hworks hdigest) ?_
    cases hrequest : w.files (.final .request) with
    | some c =>
      have hsame := haccepts.request hdigest c hrequest
      simp only [World.admitted, hdigest, hrequest] at hnext
      refine returns_bind (returns_read hworks hrequest) ?_
      have hrecord : Returns e (recordDigest input next) w reply w₁ :=
        returns_orReply (returns_writePrivate hworks _ _) hnext
      simpa [hsame] using hrecord
    | none =>
      simp only [World.admitted, hdigest, hrequest] at hnext
      refine returns_bind (returns_missing hworks hrequest) ?_
      exact returns_orReply (returns_writePrivate hworks _ _)
        (returns_orReply (returns_writePrivate hworks _ _) hnext)

include hworks in
theorem returns_resume (haccepts : w.Accepts input)
    (hnext : Returns e (if e.finds (w.admitted input) .completed then finish input
      else proceed input) (w.admitted input) reply w₁) :
    Returns e (resume input) w reply w₁ := by
  have hmade : Returns e (ask .mkdirAll) w (.ok ()) w := by
    refine returns_ask ?_
    simp only [handle, hworks.succeeds .mkdirAll (by simp)]
    rfl
  refine returns_orReply hmade (returns_sameRequest hworks haccepts ?_)
  refine returns_bind (returns_exists e _ .completed) ?_
  cases hfinds : e.finds (w.admitted input) .completed <;> simpa [hfinds] using hnext

theorem returns_locked {body : M Reply} (hfree : w.Free)
    (hbody : Returns e body (w.begin r) reply w₁) :
    Returns e (locked r body) w reply (w₁.answer reply) := by
  have hlock : Returns e (ask (.lock r)) w () (w.begin r) := by
    refine returns_ask ?_
    have hnone : w.holder = none := hfree
    simp only [handle, hnone]
    rfl
  refine returns_bind hlock (returns_bind hbody ?_)
  have hrespond : Returns e (ask (.respond reply)) w₁ () (w₁.note (.answered w₁.holder reply)) :=
    returns_ask rfl
  have hunlock : Returns e (ask .unlock) (w₁.note (.answered w₁.holder reply)) ()
    (w₁.answer reply) := returns_ask rfl
  exact returns_bind hrespond (returns_bind hunlock rfl)

end Rules

/-! ## Routes -/

section Routes

variable {h : Runner} {r : Http}

theorem serveHTTP_of_creates (hcreates : h.Creates r input) :
    h.serveHTTP r = locked r (resume input) := by
  simp only [Runner.serveHTTP, hcreates.route, if_true, Runner.guarded, hcreates.method, ne_eq,
    not_true_eq_false, if_false, hcreates.authorized, Runner.createOrResume, hcreates.decoded,
    hcreates.valid, hcreates.job]

theorem serveHTTP_of_approves (happroves : h.Approves r fingerprint) :
    h.serveHTTP r = locked r (approveHost h.job fingerprint) := by
  have hroute := happroves.route
  have hne : SharedNode.Workspace.trimStart r.path (lit "/v1/bootstrap-jobs") ≠ [] := by
    intro hnil
    rw [hnil] at hroute
    exact absurd hroute (by decide)
  simp only [Runner.serveHTTP, hne, if_false, hroute, if_true, Runner.guarded, happroves.method,
    ne_eq, not_true_eq_false, happroves.authorized, Runner.approve, happroves.job, happroves.valid,
    happroves.decoded]

variable {e : Choice} {w w₁ : World}

theorem returns_create {reply : Reply} (hworks : Works e) (hcreates : h.Creates r input)
    (hfree : w.Free) (haccepts : w.Accepts input)
    (hnext : Returns e (if e.finds ((w.begin r).admitted input) .completed then finish input
      else proceed input) ((w.begin r).admitted input) reply w₁) :
    Returns e (h.serveHTTP r) w reply (w₁.answer reply) := by
  rw [serveHTTP_of_creates hcreates]
  exact returns_locked hfree (returns_resume hworks ⟨haccepts.digest, haccepts.request⟩ hnext)

def waiting (r : Http) (input : Request) (key : HostKey) : World :=
  (((({} : World).begin r).admitted input).keyed key).answer (awaiting input)

theorem returns_waiting {key : HostKey} (hcreates : h.Creates r input) :
    Returns { probe := .ok key } (h.serveHTTP r) {} (awaiting input) (waiting r input key) := by
  have hworks : Works { probe := .ok key } := fun _ hop => absurd hop Bool.false_ne_true
  refine returns_create hworks hcreates rfl ⟨nofun, fun _ => nofun⟩ ?_
  refine returns_proceed hworks rfl ?_
  exact returns_probeHost hworks rfl

theorem returns_approve {expected : Bytes} (hworks : Works e) (happroves : h.Approves r fingerprint)
    (hfree : w.Free) (hfile : w.files (.final .fingerprint) = some expected)
    (hsame : trimSpace expected = fingerprint) :
    Returns e (h.serveHTTP r) w (.status 200 h.job "approved")
      (((w.begin r).store .approved (line fingerprint)).answer (.status 200 h.job "approved")) := by
  rw [serveHTTP_of_approves happroves]
  refine returns_locked hfree ?_
  have hfile' : (w.begin r).files (.final .fingerprint) = some expected := hfile
  refine returns_orReply (returns_read hworks hfile') ?_
  rw [if_neg (by simpa using hsame)]
  exact returns_orReply (returns_writePrivate hworks _ _) rfl

end Routes

/-! ## A job -/

namespace Sample

def lib : Library := ⟨fun address => address = lit "192.0.2.1", fun _ => true, some⟩

def runner : Runner :=
  ⟨lib, List.replicate 32 0x72, List.replicate 32 0x61, lit "j"⟩

def request : Request where
  jobID := lit "j"
  nodeID := lit "n"
  instanceID := lit "i"
  address := lit "192.0.2.1"
  enrollmentToken := List.replicate 32 0x74
  expectedProvider := ⟨lit "i", lit "p", lit "r", lit "z", lit "u", lit "f", lit "k"⟩
  config :=
    { releaseManifestURL := lit "https://a", releaseManifestSHA256 := List.replicate 64 0x61
      controlPlaneURL := lit "https://b", logicalRegion := lit "mow"
      objectStorageEndpoint := lit "https://c", workspaceVolumeGiB := 1, bootstrapTimeout := 60 }
  expectedCapacity := ⟨none, 1, 1, 1⟩

theorem request_checked : validate lib request = true ∧ request.canonical.length ≤ 32 * 1024 := by
  decide +kernel

theorem request_wellFormed : request.WellFormed := by
  have hascii {l : List Bytes} (h : (l.all fun s => s.all (· < 0x80)) = true) :
      ∀ s ∈ l, ValidUtf8 s := fun s hs => valid_ascii (List.all_eq_true.mp h s hs)
  refine ⟨hascii (by decide), hascii (by decide), hascii (by decide), nofun, ?_⟩
  simp only [List.forall_mem_cons, List.not_mem_nil, false_imp_iff, implies_true, and_true]
  decide

def create : Http where
  path := lit "/v1/bootstrap-jobs"
  authorization := lit "Bearer " ++ runner.secret
  body := request.canonical

theorem creates : runner.Creates create request where
  route := by decide
  method := rfl
  authorized := by decide
  decoded := decodeRequest_canonical request_wellFormed request_checked.2
  valid := request_checked.1
  job := rfl

def key : HostKey := ⟨lit "k", lit "SHA256:" ++ List.replicate 43 0x41, by decide⟩

/-- The key of another host that answers at the address of the node. -/
def otherKey : HostKey := ⟨lit "o", lit "SHA256:" ++ List.replicate 43 0x42, by decide⟩

def approve : Http where
  path := lit "/v1/bootstrap-jobs/j/approve"
  authorization := lit "Bearer " ++ runner.approvalSecret
  body := approvalBody key.fingerprint

theorem approves : runner.Approves approve key.fingerprint where
  route := by decide
  method := rfl
  authorized := by decide
  decoded := decodeApproval_key key
  job := by decide
  valid := by decide

end Sample

end SharedNode.Bootstrap
