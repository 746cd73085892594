import SharedNode.Bootstrap.Runner

/-!
# What a call can do to a job

`Change` lists every change that a call of the bootstrap runner
(`internal/bootstraprunner/runner.go`) can make to the directory of a job and its history, with what
is known in the state it is made in: a text that is written (`Writes`), a response (`Replies`), and
the other events. `blind` are the files whose `stat` may fail.

Every change is made by a call that holds the lock. `invariant` is the rule the results about the
runner rest on: what the changes, the lock and a crash keep holds in every interleaving of calls.
-/

namespace SharedNode.Bootstrap

open Text Effect Prog
open Workspace (hasSuffix trimStart trimEnd)

/-! ## Directories -/

namespace World

variable (w : World) (name other : FileName) (data : Bytes) (v : Option Bytes) (event : Event)

@[simp] theorem set_holder (path : Path) : (w.set path v).holder = w.holder := rfl

@[simp] theorem set_log (path : Path) : (w.set path v).log = w.log := rfl

@[simp] theorem note_files : (w.note event).files = w.files := rfl

@[simp] theorem note_holder : (w.note event).holder = w.holder := rfl

@[simp] theorem note_log : (w.note event).log = event :: w.log := rfl

@[simp] theorem store_holder : (w.store name data).holder = w.holder := rfl

@[simp] theorem store_log : (w.store name data).log = .stored w.holder name data :: w.log := rfl

@[simp] theorem set_temporary_final :
    (w.set (.temporary name) v).files (.final other) = w.files (.final other) := rfl

@[simp] theorem set_final_temporary :
    (w.set (.final name) v).files (.temporary other) = w.files (.temporary other) := rfl

theorem set_files (path path' : Path) :
    (w.set path v).files path' = if path' = path then v else w.files path' := rfl

theorem store_final : (w.store name data).files (.final other) =
      if other = name then some data else w.files (.final other) := by
  by_cases h : other = name <;> simp [store, set_files, h]

theorem store_temporary : (w.store name data).files (.temporary other) =
      if other = name then none else w.files (.temporary other) := by
  by_cases h : other = name <;> simp [store, set_files, h]

theorem set_temporary_store : (w.set (.temporary name) v).store name data = w.store name data := by
  have hfiles : ((w.set (.temporary name) v).store name data).files =
      (w.store name data).files := by
    funext path
    cases path with
    | final other => simp only [store_final, set_temporary_final]
    | temporary other =>
      simp only [store_temporary, set_files, Path.temporary.injEq]
      by_cases h : other = name <;> simp [h]
  exact congrArg (fun f => (⟨f, w.holder, .stored w.holder name data :: w.log⟩ : World)) hfiles

end World

/-! ## Calls -/

namespace Runner

variable (h : Runner)

structure Creates (r : Http) (input : Request) : Prop where
  route : trimStart r.path (lit "/v1/bootstrap-jobs") = []
  method : r.method = lit "POST"
  authorized : authorized r h.secret = true
  decoded : decodeRequest r.body = some input
  valid : validate h.lib input = true
  job : input.jobID = h.job

/-- An approval of a fingerprint for the job, with the approval secret. -/
structure Approves (r : Http) (fingerprint : Bytes) : Prop where
  route : hasSuffix (trimStart r.path (lit "/v1/bootstrap-jobs")) (lit "/approve") = true
  method : r.method = lit "POST"
  authorized : authorized r h.approvalSecret = true
  decoded : decodeApproval r.body = some fingerprint
  job : jobOf (trimStart r.path (lit "/v1/bootstrap-jobs")) (lit "/approve") = h.job
  valid : identifier h.job = true

end Runner

def World.Matches (w : World) (input : Request) : Prop :=
  ∃ d, w.files (.final .digest) = some d ∧ trimSpace d = input.digest

def World.Ready (w : World) (input : Request) : Prop :=
  w.Matches input ∧ w.files (.final .request) = some input.canonical

/-- The host key of the job is approved. -/
structure World.Approved (w : World) : Prop where
  knownHosts : w.files (.final .knownHosts) ≠ none
  approved : w.files (.final .approved) ≠ none
  fingerprint : w.files (.final .fingerprint) ≠ none

section Changes

variable (h : Runner) (blind : FileName → Prop)

/-- A file is missing, or was not seen. -/
def Unseen (w : World) (name : FileName) : Prop := w.files (.final name) = none ∨ blind name

/-- A create call is under way for a job that it does not take for completed. -/
structure Proceeds (w : World) (r : Http) (input : Request) : Prop where
  creates : h.Creates r input
  holder : w.holder = some r
  ready : w.Ready input
  unseen : Unseen blind w .completed

/-- A create call is under way for a completed job. -/
structure Finishes (w : World) (r : Http) (input : Request) : Prop where
  creates : h.Creates r input
  holder : w.holder = some r
  digest : w.Matches input
  completed : w.files (.final .completed) ≠ none

/-- The texts that the call that holds the lock may write. -/
inductive Writes (w : World) : FileName → Bytes → Prop
  | request {r input} (hcreates : h.Creates r input) (hholder : w.holder = some r)
      (hrequest : w.files (.final .request) = none) (hdigest : w.files (.final .digest) = none) :
      Writes w .request input.canonical
  | digest {r input existing} (hcreates : h.Creates r input) (hholder : w.holder = some r)
      (hdigest : w.files (.final .digest) = none)
      (hrequest : w.files (.final .request) = some existing)
      (hsame : sha256 existing = input.digest) : Writes w .digest (line input.digest)
  | redacted {r input} (hfinishes : Finishes h w r input) :
      Writes w .request input.redacted.canonical
  | knownHosts {r input key before} (hproceeds : Proceeds h blind w r input)
      (hunseen : Unseen blind w .knownHosts) (hlog : w.log = .probed key :: before) :
      Writes w .knownHosts (line key.knownHosts)
  | fingerprint {r input key before} (hproceeds : Proceeds h blind w r input)
      (hknown : w.files (.final .knownHosts) = some (line key.knownHosts))
      (hlog : w.log =
        .stored (some r) .knownHosts (line key.knownHosts) :: .probed key :: before) :
      Writes w .fingerprint (line key.fingerprint)
  | environment {r input} (hproceeds : Proceeds h blind w r input) (happroved : w.Approved) :
      Writes w .environment (renderEnvironment input)
  | applyError {r input a err before} (hproceeds : Proceeds h blind w r input)
      (hlog : w.log = .applied a :: before) (hfailure : a.failure = some err) :
      Writes w .applyError (line err)
  | completed {r input a before} (hproceeds : Proceeds h blind w r input) (happroved : w.Approved)
      (hlog : w.log = .applied a :: before) (hfailure : a.failure = none) (hcall : a.call = some r)
      (hscratch : w.files (.temporary .environment) = none) :
      Writes w .completed (lit "completed\n")
  | approved {r fingerprint expected} (happroves : h.Approves r fingerprint)
      (hholder : w.holder = some r) (hfile : w.files (.final .fingerprint) = some expected)
      (hsame : trimSpace expected = fingerprint) : Writes w .approved (line fingerprint)

/-- The responses that the call that holds the lock may give. -/
inductive Replies (w : World) : Reply → Prop
  | error (code : Nat) (text : String) : Replies w (.error code text)
  | completed {r input} (hfinishes : Finishes h w r input)
      (hrequest : w.files (.final .request) = some input.redacted.canonical)
      (henvironment : w.files (.final .environment) = none) :
      Replies w (.status 200 input.jobID "completed")
  | awaiting {r input} (hproceeds : Proceeds h blind w r input) :
      Replies w (Bootstrap.awaiting input)
  | approved {r fingerprint} (happroves : h.Approves r fingerprint) (hholder : w.holder = some r)
      (hfile : w.files (.final .approved) = some (line fingerprint)) :
      Replies w (.status 200 h.job "approved")

inductive Change (w : World) : World → Prop
  | scratch {name data} (hwrites : Writes h blind w name data) (n : Nat) :
      Change w (w.set (.temporary name) (some (data.take n)))
  | store {name data} (hwrites : Writes h blind w name data)
      (htemporary : w.files (.temporary name) = some data) : Change w (w.store name data)
  | probed {r input} (hproceeds : Proceeds h blind w r input)
      (hunseen : Unseen blind w .knownHosts) (key : HostKey) : Change w (w.note (.probed key))
  | applied {r input fingerprint} (hproceeds : Proceeds h blind w r input) (happroved : w.Approved)
      (hfingerprint : w.files (.final .fingerprint) = some fingerprint)
      (henvironment : w.files (.final .environment) = some (renderEnvironment input))
      (hscratch : w.files (.temporary .environment) = none) (failure : Option Bytes) :
      Change w (w.note (.applied (w.application input.address (trimSpace fingerprint) failure)))
  | removeError {r} (hholder : w.holder = some r) : Change w (w.set (.final .applyError) none)
  | removeEnvironment {r input} (hfinishes : Finishes h w r input)
      (hrequest : w.files (.final .request) = some input.redacted.canonical) :
      Change w (w.set (.final .environment) none)
  | answered {reply} (hreplies : Replies h blind w reply) :
      Change w (w.note (.answered w.holder reply))

end Changes

/-! ### What a change leaves alone -/

/-- The files that say how far a request has come are the same. -/
structure World.Agrees (w w' : World) : Prop where
  holder : w'.holder = w.holder
  request : w'.files (.final .request) = w.files (.final .request)
  digest : w'.files (.final .digest) = w.files (.final .digest)
  completed : w'.files (.final .completed) = w.files (.final .completed)

section Frame

variable {h : Runner} {blind : FileName → Prop} {w w' : World} {r : Http} {input : Request}

theorem World.Matches.of_eq (hw : w.Matches input)
    (hdigest : w'.files (.final .digest) = w.files (.final .digest)) : w'.Matches input := by
  obtain ⟨d, hd, hsame⟩ := hw
  exact ⟨d, hdigest.trans hd, hsame⟩

theorem Proceeds.of_agrees (hw : Proceeds h blind w r input) (ha : w.Agrees w') :
    Proceeds h blind w' r input where
  creates := hw.creates
  holder := ha.holder.trans hw.holder
  ready := ⟨hw.ready.1.of_eq ha.digest, ha.request.trans hw.ready.2⟩
  unseen := hw.unseen.imp (ha.completed.trans ·) id

theorem Finishes.of_eq (hw : Finishes h w r input) (hholder : w'.holder = w.holder)
    (hdigest : w'.files (.final .digest) = w.files (.final .digest))
    (hcompleted : w'.files (.final .completed) = w.files (.final .completed)) :
    Finishes h w' r input where
  creates := hw.creates
  holder := hholder.trans hw.holder
  digest := hw.digest.of_eq hdigest
  completed := hcompleted ▸ hw.completed

theorem World.Approved.of_eq (hw : w.Approved)
    (hknown : w'.files (.final .knownHosts) = w.files (.final .knownHosts))
    (happroved : w'.files (.final .approved) = w.files (.final .approved))
    (hfingerprint : w'.files (.final .fingerprint) = w.files (.final .fingerprint)) :
    w'.Approved :=
  ⟨hknown ▸ hw.knownHosts, happroved ▸ hw.approved, hfingerprint ▸ hw.fingerprint⟩

/-- What may be written may be written whatever its temporary file holds. -/
theorem Writes.set_temporary {name : FileName} {data : Bytes} (hw : Writes h blind w name data)
    (v : Option Bytes) : Writes h blind (w.set (.temporary name) v) name data := by
  have hagrees : w.Agrees (w.set (.temporary name) v) := ⟨rfl, rfl, rfl, rfl⟩
  cases hw with
  | request hcreates hholder hrequest hdigest => exact .request hcreates hholder hrequest hdigest
  | digest hcreates hholder hdigest hrequest hsame =>
    exact .digest hcreates hholder hdigest hrequest hsame
  | redacted hfinishes => exact .redacted (hfinishes.of_eq rfl rfl rfl)
  | knownHosts hproceeds hunseen hlog =>
    exact .knownHosts (hproceeds.of_agrees hagrees) hunseen hlog
  | fingerprint hproceeds hknown hlog =>
    exact .fingerprint (hproceeds.of_agrees hagrees) hknown hlog
  | environment hproceeds happroved =>
    exact .environment (hproceeds.of_agrees hagrees) (happroved.of_eq rfl rfl rfl)
  | applyError hproceeds hlog hfailure =>
    exact .applyError (hproceeds.of_agrees hagrees) hlog hfailure
  | completed hproceeds happroved hlog hfailure hcall hscratch =>
    exact .completed (hproceeds.of_agrees hagrees) (happroved.of_eq rfl rfl rfl) hlog hfailure hcall
      hscratch
  | approved happroves hholder hfile hsame => exact .approved happroves hholder hfile hsame

end Frame

/-! ## Programs -/

section Programs

variable (h : Runner) (blind : FileName → Prop) (C : World → Prop)

/-- A call of `stat` fails for the files of `blind` only. -/
def Sees (_ : World) (op : Op) (e : Choice) : Prop :=
  ∀ name, op = .stat name → e.fails op = true → blind name

/-- The condition within the calls that hold the lock. -/
def Within (w : World) : Prop := C w ∧ w.holder ≠ none

/-- What a call under the lock leaves for its response. -/
def Answers (reply : Reply) (w : World) : Prop := Within C w ∧ Replies h blind w reply

/-- A program of a call under the lock. -/
abbrev Keeps {α : Type} (p : M α) (Q : α → World → Prop) (w : World) : Prop :=
  Stays handle (Sees blind) (Within C) p Q w

variable {h blind C} {w : World}
variable (hchange : ∀ w w', C w → Change h blind w w' → C w')

theorem answers_error (hw : Within C w) (code : Nat) (text : String) :
    Answers h blind C (.error code text) w := ⟨hw, .error code text⟩

theorem keeps_orReply {ε α : Type} {step : M (Except ε α)} {reply : Reply} {next : α → M Reply}
    {Q : Reply → World → Prop}
    (hstep : Keeps blind C step (fun r w => match r with
        | .error _ => Q reply w
        | .ok a => Keeps blind C (next a) Q w) w) :
    Keeps blind C (orReply step reply next) Q w := by
  refine stays_bind (stays_mono (fun r w hr => ?_) hstep)
  cases r with
  | error err => exact hr
  | ok a => exact hr

theorem keeps_read {name : FileName} {code : Nat} {text : String} {next : Bytes → M Reply}
    (hw : Within C w)
    (hnext : ∀ data, w.files (.final name) = some data →
      Keeps blind C (next data) (Answers h blind C) w) :
    Keeps blind C (orReply (ask (.readFile name)) (.error code text) next)
      (Answers h blind C) w := by
  refine keeps_orReply ⟨hw, fun e x w' _ hx => ?_⟩
  cases hx
  cases hfile : w.files (.final name) with
  | none => cases e.fails (.readFile name) <;> exact answers_error hw code text
  | some data =>
    cases e.fails (.readFile name) with
    | true => exact answers_error hw code text
    | false => exact hnext data hfile

/-- `exists`: a file that is found is there, and one that is not found is unseen. -/
theorem keeps_exists {α : Type} {name : FileName} {f : Bool → M α} {Q : α → World → Prop}
    (hw : Within C w) (hfound : w.files (.final name) ≠ none → Keeps blind C (f true) Q w)
    (hmissing : Unseen blind w name → Keeps blind C (f false) Q w) :
    Keeps blind C ((fileExists name).bind f) Q w := by
  refine ⟨hw, fun e x w' hsees hx => ?_⟩
  cases hx
  cases hfails : e.fails (.stat name) with
  | true => exact hmissing (Or.inr (hsees name rfl hfails))
  | false =>
    cases hfile : w.files (.final name) with
    | none => exact hmissing (Or.inl hfile)
    | some data => exact hfound (by rw [hfile]; exact nofun)

include hchange in
/-- `writePrivate`: the file has the new text, or the failure is answered. -/
theorem keeps_writePrivate {name : FileName} {data : Bytes}
    {Q : Except FileError Unit → World → Prop}
    (hw : Within C w) (hwrites : Writes h blind w name data)
    (hok : Within C (w.store name data) → Q (.ok ()) (w.store name data))
    (herror : ∀ err w', Within C w' → w'.log = w.log → Q (.error err) w') :
    Keeps blind C (writePrivate name data) Q w := by
  have hscratch (n : Nat) : Within C (w.set (.temporary name) (some (data.take n))) :=
    ⟨hchange _ _ hw.1 (.scratch hwrites n), hw.2⟩
  have hwhole := hscratch data.length
  rw [List.take_length] at hwhole
  refine ⟨hw, fun e x w' _ hx => ?_⟩
  simp only [handle] at hx
  cases hfails : e.fails (.writeFile name data) with
  | true =>
    rw [hfails, if_pos rfl] at hx
    cases hx
    cases e.written with
    | none => exact herror _ _ hw rfl
    | some n => exact herror _ _ (hscratch n) rfl
  | false =>
    rw [hfails, if_neg (by decide)] at hx
    cases hx
    refine ⟨hwhole, fun e x w' _ hx => ?_⟩
    cases hx
    cases e.fails (.chmod name) with
    | true => exact herror _ _ hwhole rfl
    | false =>
      refine ⟨hwhole, fun e x w' _ hx => ?_⟩
      have htemporary : (w.set (.temporary name) (some data)).files (.temporary name) =
          some data := by
        simp [World.set_files]
      have hstore : Within C (w.store name data) := by
        have hstored := hchange _ _ hwhole.1 (.store (hwrites.set_temporary _) htemporary)
        rw [World.set_temporary_store] at hstored
        exact ⟨hstored, hw.2⟩
      simp only [handle, htemporary, World.set_temporary_store] at hx
      cases hfails : e.fails (.rename name) with
      | true =>
        rw [hfails, if_pos rfl] at hx
        cases hx
        exact herror _ _ hwhole rfl
      | false =>
        rw [hfails, if_neg (by decide)] at hx
        cases hx
        exact hok hstore

include hchange in
theorem keeps_write {name : FileName} {data : Bytes} {code : Nat} {text : String}
    {next : Unit → M Reply} (hw : Within C w) (hwrites : Writes h blind w name data)
    (hnext : Within C (w.store name data) →
      Keeps blind C (next ()) (Answers h blind C) (w.store name data)) :
    Keeps blind C (orReply (writePrivate name data) (.error code text) next)
      (Answers h blind C) w :=
  keeps_orReply (keeps_writePrivate hchange hw hwrites hnext fun _ _ hw' _ =>
    answers_error hw' code text)

theorem keeps_remove {name : FileName} {Q : Except FileError Unit → World → Prop} (hw : Within C w)
    (hgone : w.files (.final name) = none → Q (.ok ()) w)
    (hremoved : Q (.ok ()) (w.set (.final name) none)) (herror : Q (.error .other) w) :
    Keeps blind C (removeIfThere name) Q w := by
  refine ⟨hw, fun e x w' _ hx => ?_⟩
  simp only [handle] at hx
  cases hfails : e.fails (.remove name) with
  | true =>
    rw [hfails, if_pos rfl] at hx
    cases hx
    exact herror
  | false =>
    rw [hfails, if_neg (by decide)] at hx
    cases hfile : w.files (.final name) with
    | none =>
      rw [hfile] at hx
      cases hx
      exact hgone hfile
    | some data =>
      rw [hfile] at hx
      cases hx
      exact hremoved

variable {r : Http} {input : Request}

include hchange in
theorem keeps_finish (hw : Within C w) (hfinishes : Finishes h w r input) :
    Keeps blind C (finish input) (Answers h blind C) w := by
  refine keeps_orReply (stays_bind (keeps_writePrivate hchange hw (.redacted hfinishes) ?_ ?_))
  · intro hw'
    have hrequest : (w.store .request input.redacted.canonical).files (.final .request) =
        some input.redacted.canonical := by rw [World.store_final, if_pos rfl]
    have hfinishes' : Finishes h (w.store .request input.redacted.canonical) r input :=
      hfinishes.of_eq rfl rfl rfl
    refine keeps_remove hw' (fun hgone => ?_) ?_ (answers_error hw' _ _)
    · exact ⟨hw', .completed hfinishes' hrequest hgone⟩
    · refine ⟨⟨hchange _ _ hw'.1 (.removeEnvironment hfinishes' hrequest), hw'.2⟩, ?_⟩
      exact .completed (hfinishes'.of_eq rfl rfl rfl) hrequest rfl
  · exact fun err w' hw' _ => answers_error hw' _ _

variable (hproceeds : Proceeds h blind w r input)

include hchange hproceeds in
theorem keeps_probeHost (hw : Within C w) (hunseen : Unseen blind w .knownHosts) :
    Keeps blind C (probeHost input) (Answers h blind C) w := by
  refine keeps_orReply ⟨hw, fun e x w' _ hx => ?_⟩
  simp only [handle] at hx
  cases hprobe : e.probe with
  | error err =>
    rw [hprobe] at hx
    cases hx
    exact answers_error hw _ _
  | ok key =>
    rw [hprobe] at hx
    cases hx
    have hprobed : Within C (w.note (.probed key)) :=
      ⟨hchange _ _ hw.1 (.probed hproceeds hunseen key), hw.2⟩
    have hproceeds₁ : Proceeds h blind (w.note (.probed key)) r input :=
      hproceeds.of_agrees ⟨rfl, rfl, rfl, rfl⟩
    refine keeps_write hchange hprobed (.knownHosts hproceeds₁ hunseen rfl) fun hknown => ?_
    have hproceeds₂ : Proceeds h blind
        ((w.note (.probed key)).store .knownHosts (line key.knownHosts)) r input :=
      hproceeds₁.of_agrees ⟨rfl, rfl, rfl, rfl⟩
    have hlog : ((w.note (.probed key)).store .knownHosts (line key.knownHosts)).log =
        .stored (some r) .knownHosts (line key.knownHosts) :: .probed key :: w.log := by
      rw [World.store_log, hproceeds₁.holder, World.note_log]
    refine keeps_write hchange hknown (.fingerprint hproceeds₂ ?_ hlog) fun hfingerprint => ?_
    · rw [World.store_final, if_pos rfl]
    · exact ⟨hfingerprint, .awaiting (hproceeds₂.of_agrees ⟨rfl, rfl, rfl, rfl⟩)⟩

include hchange hproceeds in
theorem keeps_complete (hw : Within C w) (happroved : w.Approved) {a : Application}
    {before : List Event} (hlog : w.log = .applied a :: before) (hfailure : a.failure = none)
    (hcall : a.call = some r) (hscratch : w.files (.temporary .environment) = none) :
    Keeps blind C (complete input) (Answers h blind C) w := by
  -- Whether or not there was an error of an earlier call to remove.
  have hcompleted {w' : World} (hw' : Within C w') (hagrees : w.Agrees w')
      (happroved' : w'.Approved) (hlog' : w'.log = w.log)
      (hscratch' : w'.files (.temporary .environment) = none) :
      Keeps blind C (orReply (writePrivate .completed (lit "completed\n")) runnerUnavailable
        fun _ => finish input) (Answers h blind C) w' := by
    have hproceeds' := hproceeds.of_agrees hagrees
    refine keeps_write hchange hw' (.completed hproceeds' happroved' (hlog'.trans hlog) hfailure
      hcall hscratch') fun hstored => ?_
    refine keeps_finish hchange hstored (r := r) ⟨hproceeds.creates, hproceeds'.holder,
      hproceeds'.ready.1.of_eq rfl, ?_⟩
    exact nofun
  refine keeps_orReply (keeps_remove hw (fun _ => ?_) ?_ (answers_error hw _ _))
  · exact hcompleted hw ⟨rfl, rfl, rfl, rfl⟩ happroved rfl hscratch
  · exact hcompleted ⟨hchange _ _ hw.1 (.removeError hproceeds.holder), hw.2⟩ ⟨rfl, rfl, rfl, rfl⟩
      (happroved.of_eq rfl rfl rfl) rfl hscratch

include hchange hproceeds in
theorem keeps_applyBootstrap (hw : Within C w)
    (hknown : w.files (.final .knownHosts) ≠ none) (happroved : w.files (.final .approved) ≠ none) :
    Keeps blind C (applyBootstrap input) (Answers h blind C) w := by
  refine keeps_read hw fun fingerprint hfingerprint => ?_
  have hall : w.Approved := ⟨hknown, happroved, by rw [hfingerprint]; exact nofun⟩
  refine keeps_write hchange hw (.environment hproceeds hall) fun hstored => ?_
  have hproceeds₁ : Proceeds h blind (w.store .environment (renderEnvironment input)) r input :=
    hproceeds.of_agrees ⟨rfl, rfl, rfl, rfl⟩
  have hall₁ : (w.store .environment (renderEnvironment input)).Approved := hall.of_eq rfl rfl rfl
  have hfingerprint₁ : (w.store .environment (renderEnvironment input)).files
      (.final .fingerprint) = some fingerprint := hfingerprint
  have henvironment : (w.store .environment (renderEnvironment input)).files
      (.final .environment) = some (renderEnvironment input) := by
    rw [World.store_final, if_pos rfl]
  have hscratch : (w.store .environment (renderEnvironment input)).files
      (.temporary .environment) = none := by rw [World.store_temporary, if_pos rfl]
  generalize w.store .environment (renderEnvironment input) = w₁ at *
  refine ⟨hstored, fun e x w' _ hx => ?_⟩
  cases hx
  have happlied : Within C (w₁.note (.applied
      (w₁.application input.address (trimSpace fingerprint) e.failure))) :=
    ⟨hchange _ _ hstored.1 (.applied hproceeds₁ hall₁ hfingerprint₁ henvironment hscratch _),
      hstored.2⟩
  have hproceeds₂ : Proceeds h blind (w₁.note (.applied
      (w₁.application input.address (trimSpace fingerprint) e.failure))) r input :=
    hproceeds₁.of_agrees ⟨rfl, rfl, rfl, rfl⟩
  cases hfailure : e.failure with
  | some err =>
    rw [hfailure] at happlied hproceeds₂
    exact keeps_write hchange happlied (.applyError hproceeds₂ rfl rfl) fun hw' =>
      answers_error hw' _ _
  | none =>
    rw [hfailure] at happlied hproceeds₂
    exact keeps_complete hchange hproceeds₂ happlied (hall₁.of_eq rfl rfl rfl) rfl rfl
      hproceeds₁.holder hscratch

include hchange in
theorem keeps_proceed (hw : Within C w) (hcreates : h.Creates r input) (hholder : w.holder = some r)
    (hmatches : w.Matches input) (hunseen : Unseen blind w .completed) :
    Keeps blind C (proceed input) (Answers h blind C) w := by
  refine keeps_read hw fun existing hexisting => ?_
  by_cases hsame : existing = input.canonical
  · subst hsame
    rw [if_neg (by simp)]
    have hproceeds : Proceeds h blind w r input :=
      ⟨hcreates, hholder, ⟨hmatches, hexisting⟩, hunseen⟩
    refine keeps_exists hw (fun hknown => ?_) fun hunknown => ?_
    · refine keeps_exists hw (fun happroved => ?_) fun _ => ⟨hw, .awaiting hproceeds⟩
      exact keeps_applyBootstrap hchange hproceeds hw hknown happroved
    · exact keeps_probeHost hchange hproceeds hw hunknown
  · rw [if_pos hsame]
    exact answers_error hw _ _

include hchange in
theorem keeps_recordDigest {existing : Bytes} {next : M Reply} (hw : Within C w)
    (hcreates : h.Creates r input) (hholder : w.holder = some r)
    (hdigest : w.files (.final .digest) = none)
    (hrequest : w.files (.final .request) = some existing) (hsame : sha256 existing = input.digest)
    (hnext : ∀ w', Within C w' → w'.holder = some r → w'.Matches input →
      Keeps blind C next (Answers h blind C) w') :
    Keeps blind C (recordDigest input next) (Answers h blind C) w := by
  refine keeps_write hchange hw (.digest hcreates hholder hdigest hrequest hsame) fun hstored => ?_
  refine hnext _ hstored hholder ⟨line input.digest, ?_, ?_⟩
  · rw [World.store_final, if_pos rfl]
  · exact trimSpace_line (sha256_all (by decide) _)

include hchange in
theorem keeps_sameRequest {next : M Reply} (hw : Within C w) (hcreates : h.Creates r input)
    (hholder : w.holder = some r)
    (hnext : ∀ w', Within C w' → w'.holder = some r → w'.Matches input →
      Keeps blind C next (Answers h blind C) w') :
    Keeps blind C (sameRequest input next) (Answers h blind C) w := by
  have hconflict : Keeps blind C (ret (.error 409 "idempotency_conflict")) (Answers h blind C) w :=
    answers_error hw _ _
  refine ⟨hw, fun e x w' _ hx => ?_⟩
  cases hx
  cases e.fails (.readFile .digest) with
  | true => exact answers_error hw _ _
  | false =>
    cases hdigest : w.files (.final .digest) with
    | some existing =>
      by_cases hsame : trimSpace existing = input.digest
      · have hnext' := hnext w hw hholder ⟨existing, hdigest, hsame⟩
        simpa [hsame] using hnext'
      · simpa [hsame] using hconflict
    | none =>
      refine ⟨hw, fun e x w' _ hx => ?_⟩
      cases hx
      cases e.fails (.readFile .request) with
      | true => exact answers_error hw _ _
      | false =>
        cases hrequest : w.files (.final .request) with
        | some existing =>
          by_cases hsame : sha256 existing = input.digest
          · have hrecord := keeps_recordDigest hchange hw hcreates hholder hdigest hrequest
              hsame hnext
            simpa [hsame] using hrecord
          · simpa [hsame] using hconflict
        | none =>
          refine keeps_write hchange hw (.request hcreates hholder hrequest hdigest)
            fun hstored => ?_
          refine keeps_recordDigest hchange hstored hcreates hholder hdigest ?_ rfl hnext
          rw [World.store_final, if_pos rfl]

include hchange in
theorem keeps_resume (hw : Within C w) (hcreates : h.Creates r input)
    (hholder : w.holder = some r) : Keeps blind C (resume input) (Answers h blind C) w := by
  refine keeps_orReply ⟨hw, fun e x w' _ hx => ?_⟩
  cases hx
  cases e.fails .mkdirAll with
  | true => exact answers_error hw _ _
  | false =>
    refine keeps_sameRequest hchange hw hcreates hholder fun w' hw' hholder' hmatches => ?_
    refine keeps_exists hw' (fun hcompleted => ?_) fun hunseen => ?_
    · exact keeps_finish hchange hw' ⟨hcreates, hholder', hmatches, hcompleted⟩
    · exact keeps_proceed hchange hw' hcreates hholder' hmatches hunseen

include hchange in
theorem keeps_approveHost {fingerprint : Bytes} (hw : Within C w)
    (happroves : h.Approves r fingerprint) (hholder : w.holder = some r) :
    Keeps blind C (approveHost h.job fingerprint) (Answers h blind C) w := by
  refine keeps_read hw fun expected hexpected => ?_
  by_cases hsame : trimSpace expected = fingerprint
  · rw [if_neg (by simpa using hsame)]
    refine keeps_write hchange hw (.approved happroves hholder hexpected hsame) fun hstored => ?_
    refine ⟨hstored, .approved happroves hholder ?_⟩
    rw [World.store_final, if_pos rfl]
  · rw [if_pos hsame]
    exact answers_error hw _ _

end Programs

/-! ## Routes -/

def Reads : Op → Prop
  | .readFile _ | .stat _ => True
  | _ => False

theorem reads_same {op : Op} {e : Choice} {w w' : World} {x : Ans op} (hop : Reads op)
    (hx : handle op e w = some (x, w')) : w' = w := by
  cases op with
  | readFile name | stat name => exact (Prod.mk.inj (Option.some.inj hx)).2.symm
  | _ => exact hop.elim

theorem calls_orReply {ε α : Type} {φ : Op → Prop} {step : M (Except ε α)} {reply : Reply}
    {next : α → M Reply} (hstep : step.Calls φ) (hnext : ∀ a, (next a).Calls φ) :
    (orReply step reply next).Calls φ := by
  refine hstep.bind fun r => ?_
  cases r with
  | error err => trivial
  | ok a => exact hnext a

theorem reads_report (jobID fingerprint : Bytes) (request : Request) (state : String) :
    (report jobID fingerprint request state).Calls Reads := by
  refine ⟨trivial, fun x => ?_⟩
  match x with
  | .error .other | .error .notExist | .ok _ => trivial

theorem reads_readStatus (jobID : Bytes) : (readStatus jobID).Calls Reads := by
  have hexists {α : Type} {name : FileName} {f : Bool → M α} (hf : ∀ b, (f b).Calls Reads) :
      ((fileExists name).bind f).Calls Reads := ⟨trivial, fun x => hf _⟩
  refine calls_orReply ⟨trivial, fun _ => trivial⟩ fun fingerprint => ?_
  refine calls_orReply ⟨trivial, fun _ => trivial⟩ fun data => ?_
  cases decodeStored data with
  | none => trivial
  | some request =>
    refine hexists fun completed => ?_
    cases completed with
    | true => exact reads_report ..
    | false =>
      refine hexists fun approved => ?_
      cases approved <;> exact reads_report ..

section Routes

variable {h : Runner} {r : Http}

inductive Runner.Serves (h : Runner) (r : Http) : M Reply → Prop
  | create {input : Request} (hcreates : h.Creates r input) : Serves h r (locked r (resume input))
  | approve {fingerprint : Bytes} (happroves : h.Approves r fingerprint) :
      Serves h r (locked r (approveHost h.job fingerprint))
  | reads {p : M Reply} (hreads : p.Calls Reads) : Serves h r p

theorem serves_guarded {secret : Bytes} {route : M Reply}
    (hroute : r.method = lit "POST" → Runner.authorized r secret = true → h.Serves r route) :
    h.Serves r (Runner.guarded r secret route) := by
  unfold Runner.guarded
  split
  · exact .reads trivial
  next hmethod =>
    split
    · exact .reads trivial
    next hauthorized => exact hroute (not_not.mp hmethod) (by simpa using hauthorized)

theorem serves_serveHTTP (h : Runner) (r : Http) : h.Serves r (h.serveHTTP r) := by
  unfold Runner.serveHTTP
  dsimp only
  split
  next hroute =>
    refine serves_guarded fun hmethod hauthorized => ?_
    unfold Runner.createOrResume
    split
    · exact .reads trivial
    next input hdecoded =>
      split
      · exact .reads trivial
      next hvalid =>
        split
        · exact .reads trivial
        next hjob =>
          exact .create ⟨hroute, hmethod, hauthorized, hdecoded, by simpa using hvalid,
            not_not.mp hjob⟩
  next =>
    split
    next hroute =>
      refine serves_guarded fun hmethod hauthorized => ?_
      unfold Runner.approve
      split
      · exact .reads trivial
      next hvalid =>
        split
        · exact .reads trivial
        next fingerprint hdecoded =>
          split
          · exact .reads trivial
          next hjob =>
            rw [not_not.mp hjob] at hvalid ⊢
            exact .approve ⟨hroute, hmethod, hauthorized, hdecoded, not_not.mp hjob,
              not_not.mp hvalid⟩
    next =>
      split
      · refine serves_guarded fun _ _ => ?_
        unfold Runner.status
        split
        · exact .reads trivial
        · split
          · exact .reads trivial
          · exact .reads (reads_readStatus _)
      · exact .reads trivial

end Routes

/-! ## Interleavings -/

def World.Free (w : World) : Prop := w.holder = none

def World.reboot (w : World) : World := { w with holder := none }

def World.begin (w : World) (r : Http) : World := { w with holder := some r }.note (.began r)

def World.answer (w : World) (reply : Reply) : World :=
  (w.note (.answered w.holder reply)).reboot

section Locked

variable {G : World → Op → Choice → Prop} {R C : World → Prop} {r : Http} {body : M Reply}

theorem outside_locked (hbody : ∀ w, R w → w.Free → Stays handle G (fun w => C w ∧ ¬ w.Free) body
      (fun reply w => (C w ∧ ¬ w.Free) ∧ C (w.note (.answered w.holder reply)) ∧ R (w.answer reply))
      (w.begin r)) :
    Outside handle G World.Free R C (locked r body) := by
  refine .lock (fun e w x w' hx => ?_) fun e w x w' hw _ hx => ?_
  · simp only [handle] at hx
    split at hx
    · cases hx
    next hfree => exact Option.not_isSome_iff_eq_none.mp hfree
  · simp only [handle] at hx
    split at hx
    · cases hx
    next hfree =>
      cases hx
      have hrun := hbody w hw (Option.not_isSome_iff_eq_none.mp hfree)
      refine stays_bind (p := body) (stays_mono (fun reply w hanswers => ?_) hrun)
      refine ⟨hanswers.1, fun e x w' _ hx => ?_⟩
      cases hx
      refine ⟨⟨hanswers.2.1, hanswers.1.2⟩, fun e x w' _ hx => ?_⟩
      cases hx
      exact ⟨hanswers.2.2, rfl⟩

end Locked

section Invariant

variable {h : Runner} {blind : FileName → Prop} {C : World → Prop}

/-- What the changes, the lock and a crash keep. -/
structure Preserved (h : Runner) (blind : FileName → Prop) (C : World → Prop) : Prop where
  change : ∀ w w', C w → Change h blind w w' → C w'
  lock : ∀ w r, C w → w.Free → C (w.begin r)
  unlock : ∀ w, C w → C w.reboot

structure Invariant (h : Runner) (blind : FileName → Prop) (C : World → Prop) : Prop extends
    Preserved h blind C where
  initially : C {}

theorem Preserved.outside_locked (hpre : Preserved h blind C) {r : Http} {body : M Reply}
    (hbody : ∀ w, Within C w → w.holder = some r → Keeps blind C body (Answers h blind C) w) :
    Outside handle (Sees blind) World.Free C C (locked r body) := by
  refine Bootstrap.outside_locked fun w hw hfree => ?_
  refine stays_mono (fun reply w hanswers => ?_) (hbody _ ⟨hpre.lock w r hw hfree, nofun⟩ rfl)
  have hanswered : C (w.note (.answered w.holder reply)) :=
    hpre.change _ _ hanswers.1.1 (.answered hanswers.2)
  exact ⟨hanswers.1, hanswered, hpre.unlock _ hanswered⟩

/-- Every call of the handler is outside until it takes the lock. -/
theorem Preserved.outside (hpre : Preserved h blind C) (r : Http) :
    Outside handle (Sees blind) World.Free C C (h.serveHTTP r) := by
  have hserves := serves_serveHTTP h r
  generalize h.serveHTTP r = p at hserves ⊢
  cases hserves with
  | create hcreates =>
    exact hpre.outside_locked fun w hw hholder => keeps_resume hpre.change hw hcreates hholder
  | approve happroves =>
    exact hpre.outside_locked fun w hw hholder =>
      keeps_approveHost hpre.change hw happroves hholder
  | reads hreads => exact outside_of_calls (fun _ _ _ _ _ => reads_same) hreads

/-- The calls that have come, in any interleaving, and restarts. -/
abbrev Runner.run (h : Runner) (actions : List (Action Choice Http)) :
    Pool Op Ans World Http fun _ => Reply :=
  Pool.run handle h.serveHTTP World.reboot {} actions

/-- The schedule has no failing `stat` but of the files of `blind`. -/
abbrev Runner.Fair (h : Runner) (blind : FileName → Prop) (actions : List (Action Choice Http)) :
    Prop :=
  Pool.Admitted handle h.serveHTTP World.reboot (Sees blind) (fun _ => True) ⟨{}, []⟩ actions

/-- What is kept holds after every schedule that starts with a free lock. -/
theorem Preserved.run_from (hpre : Preserved h blind C) {w : World} (hw : C w) (hfree : w.Free)
    {actions : List (Action Choice Http)}
    (hfair : Pool.Admitted handle h.serveHTTP World.reboot (Sees blind) (fun _ => True) ⟨w, []⟩
      actions) : C (Pool.run handle h.serveHTTP World.reboot w actions).state := by
  have hexclusive : Pool.Exclusive handle (Sees blind) World.Free C C
      (Pool.run handle h.serveHTTP World.reboot w actions) :=
    Pool.exclusive_run (fun _ hw => hw) hpre.outside (fun w hw _ => ⟨hpre.unlock w hw, rfl⟩) hfair
      (.rest hfree hw fun i τ q hi => nomatch hi)
  exact hexclusive.crash_condition fun _ hw => hw

/-- **The invariant rule of the runner.** -/
theorem Invariant.run (hinv : Invariant h blind C) {actions : List (Action Choice Http)}
    (hfair : h.Fair blind actions) : C (h.run actions).state :=
  hinv.run_from hinv.initially rfl hfair

end Invariant

end SharedNode.Bootstrap
