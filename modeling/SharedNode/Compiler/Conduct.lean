import SharedNode.Effect.History
import SharedNode.Compiler.Worker

/-!
# The order of the worker's calls

What one execution of `CompilerWorker.run` (`compiler/src/compiler.mjs`) on the
`CallbackBoundControlPlane` (`http-worker.mjs`) may do, and when, if the network may answer every
call with anything: the grants, the binding and the object that come back need not be those of an
honest control plane or store. The text of the program alone fixes the order, so the results hold
for every handler.
-/

namespace SharedNode.Compiler

open Text Effect Prog

def Result.callback : Result → Option Callback
  | .published => some .published
  | .failed _ => some .failed
  | .publishedCallbackUncertain _ | .uploadReconciliationUncertain _ => none

/-! ## What a history holds -/

def delivered : Call Op Ans → Option Callback
  | ⟨.publish _, .ok _⟩ => some .published
  | ⟨.failed _, .ok _⟩ => some .failed
  | _ => none

/-- The terminal callbacks that were delivered, newest first. -/
def deliveries (t : Trace Op Ans) : List Callback := t.filterMap delivered

def Issues (c : Call Op Ans) : Prop :=
  match c.1 with
  | .publish _ | .failed _ => True
  | _ => False

def Publishes (c : Call Op Ans) : Prop := ∃ p, c.1 = .publish p

def Prepares (c : Call Op Ans) : Prop := ∃ p, c.1 = .prepareUpload p

/-- The call returned grants that verify. -/
def Refreshes (job : Job) (c : Call Op Ans) : Prop :=
  ∃ set now pair, c = ⟨.grants, .ok (set, now)⟩ ∧ verifyGrantSet set job (some now) = .ok pair

/-- The call returned the binding `p`, and it is valid. -/
def Binds (job : Job) (p : Publication) (c : Call Op Ans) : Prop :=
  ∃ own prepared, c = ⟨.prepareUpload own, .ok prepared⟩ ∧
    verifyPreparedUpload prepared job = .ok p

/-- The call is a successful `PUT`, or a `GET` of what the binding describes. -/
def Confirms (p : Publication) (c : Call Op Ans) : Prop :=
  (∃ grant archive, c = ⟨.upload grant archive, .ok ()⟩) ∨
    ∃ grant object, c = ⟨.fetch grant, .ok object⟩ ∧ p.content.Describes object

/-- The calls that may follow a history, where `returned out t` says that `run` returned `out` with
the history `t`. -/
def Permits (job : Job) (returned : Outcome → Trace Op Ans → Prop) (t : Trace Op Ans) : Op → Prop
  | .upload _ _ => ∃ p, Once (Binds job p) t
  | .publish p => Once (Binds job p) t ∧ Once (Confirms p) t ∧ ¬ Once Publishes t
  | .failed _ => Once (Refreshes job) t ∧ ¬ Once Prepares t
  | .finish .terminal => ∃ out c, returned out t ∧ deliveries t = [c] ∧ out.result.callback = some c
  | _ => True

theorem not_once_cons {γ : Type} {φ : γ → Prop} {c : γ} {t : List γ} (ht : ¬ Once φ t)
    (hc : ¬ φ c) : ¬ Once φ (c :: t) := by
  rintro ⟨d, hd, hφ⟩
  rcases List.mem_cons.mp hd with rfl | hd
  · exact hc hφ
  · exact ht ⟨d, hd, hφ⟩

theorem deliveries_of_not_issues {t : Trace Op Ans} (h : ¬ Once Issues t) : deliveries t = [] := by
  refine List.filterMap_eq_nil_iff.mpr fun c hc => ?_
  obtain ⟨op, x⟩ := c
  cases op with
  | publish p => exact absurd ⟨_, hc, trivial⟩ h
  | failed code => exact absurd ⟨_, hc, trivial⟩ h
  | _ => rfl

theorem not_publishes_of_not_issues {t : Trace Op Ans} (h : ¬ Once Issues t) :
    ¬ Once Publishes t := by
  rintro ⟨⟨op, x⟩, hc, p, hp⟩
  obtain rfl : op = .publish p := hp
  exact h ⟨_, hc, trivial⟩

/-! ## The stages of a run -/

section Stages

variable {job : Job} {returned : Outcome → Trace Op Ans → Prop} {t : Trace Op Ans}

/-- What the outcome of a run says of its history: it counts as terminal only if exactly one
callback was delivered, and that one says what the result says. -/
def Reported (out : Outcome) (t : Trace Op Ans) : Prop :=
  Worker.finishKind out = .terminal → ∃ c, deliveries t = [c] ∧ out.result.callback = some c

theorem reported_of_not_delivered {result : Result} : Reported ⟨result, false⟩ t := by
  intro h
  unfold Worker.finishKind at h
  split at h <;> simp at h

theorem fail_false_follows {code : String} :
    Follows (history (Permits job returned)) (Worker.fail false code) Reported t :=
  reported_of_not_delivered

/-- A run that has its grants and prepared nothing. -/
structure Early (job : Job) (t : Trace Op Ans) : Prop where
  refreshed : Once (Refreshes job) t
  unprepared : ¬ Once Prepares t
  quiet : ¬ Once Issues t

theorem Early.cons {c : Call Op Ans} (h : Early job t) (hp : ¬ Prepares c) (hi : ¬ Issues c) :
    Early job (c :: t) :=
  ⟨h.refreshed.cons, not_once_cons h.unprepared hp, not_once_cons h.quiet hi⟩

theorem fail_true_follows {code : String} (h : Early job t) :
    Follows (history (Permits job returned)) (Worker.fail true code) Reported t := by
  refine Follows.call ⟨h.refreshed, h.unprepared⟩ fun sent => ?_
  cases sent with
  | error err => exact reported_of_not_delivered
  | ok u =>
    refine fun _ => ⟨.failed, ?_, rfl⟩
    exact congrArg (Callback.failed :: ·) (deliveries_of_not_issues h.quiet)

/-- A run that holds a valid binding and has sent no callback. -/
structure Late (job : Job) (p : Publication) (t : Trace Op Ans) : Prop where
  bound : Once (Binds job p) t
  quiet : ¬ Once Issues t

variable {p : Publication} {output : Grant} {built : Built}

theorem Late.cons {c : Call Op Ans} (h : Late job p t) (hi : ¬ Issues c) :
    Late job p (c :: t) := ⟨h.bound.cons, not_once_cons h.quiet hi⟩

/-- What an attempt to place the object leaves. -/
def Attempted (job : Job) (p : Publication) (r : Except String Unit) (t : Trace Op Ans) : Prop :=
  Late job p t ∧ (r = .ok () → Once (Confirms p) t)

theorem uploadExact_follows {grant : Grant} {archive : Bytes} (h : Late job p t) :
    Follows (history (Permits job returned)) (Worker.uploadExact grant archive)
      (Attempted job p) t := by
  refine ⟨⟨p, h.bound⟩, fun r => ⟨h.cons id, ?_⟩⟩
  rintro rfl
  exact Once.head (Or.inl ⟨grant, archive, rfl⟩)

theorem reconcileExactUpload_follows {grant : Grant} (h : Late job p t) :
    Follows (history (Permits job returned)) (Worker.reconcileExactUpload grant p)
      (Attempted job p) t := by
  unfold Worker.reconcileExactUpload
  split
  · exact ⟨h, fun heq => nomatch heq⟩
  · refine Follows.call trivial fun body => ?_
    cases body with
    | error err => exact ⟨h.cons id, fun heq => nomatch heq⟩
    | ok object =>
      simp only
      split
      next hd => exact ⟨h.cons id, fun _ => Once.head (Or.inr ⟨grant, object, rfl, hd⟩)⟩
      · exact ⟨h.cons id, fun heq => nomatch heq⟩

theorem orElse_follows {first second : M (Except String Unit)}
    (h₁ : Follows (history (Permits job returned)) first (Attempted job p) t)
    (h₂ : ∀ t', Late job p t' →
      Follows (history (Permits job returned)) second (Attempted job p) t') :
    Follows (history (Permits job returned)) (Worker.orElse first second) (Attempted job p) t := by
  refine Follows.bind (Follows.mono (fun r t' hr => ?_) h₁)
  cases r with
  | ok u => exact hr
  | error err => exact h₂ t' hr.1

theorem place_follows {prepared : Prepared} (h : Late job p t) :
    Follows (history (Permits job returned)) (Worker.place output built prepared p)
      (Attempted job p) t := by
  unfold Worker.place
  split
  · exact orElse_follows (uploadExact_follows h) fun _ => reconcileExactUpload_follows
  · exact orElse_follows (reconcileExactUpload_follows h) fun _ h =>
      orElse_follows (uploadExact_follows h) fun _ => reconcileExactUpload_follows

theorem finishRun_follows {own : Publication} {prepared : Prepared} (h : Late job p t) :
    Follows (history (Permits job returned)) (Worker.finishRun output built own prepared p)
      Reported t := by
  refine Follows.bind (Follows.mono (fun placed t' hp => ?_) (place_follows h))
  cases placed with
  | error err => exact reported_of_not_delivered
  | ok u =>
    have hquiet := hp.1.quiet
    refine Follows.call ⟨hp.1.bound, hp.2 rfl, not_publishes_of_not_issues hquiet⟩ fun sent => ?_
    cases sent with
    | error err => exact reported_of_not_delivered
    | ok u =>
      refine fun _ => ⟨.published, ?_, rfl⟩
      exact congrArg (Callback.published :: ·) (deliveries_of_not_issues hquiet)

theorem prepareAndPlace_follows (h : ¬ Once Issues t) :
    Follows (history (Permits job returned)) (Worker.prepareAndPlace job output built)
      Reported t := by
  refine Follows.call trivial fun answer => ?_
  cases answer with
  | error err => exact reported_of_not_delivered
  | ok prepared =>
    simp only [Except.bind]
    cases hv : verifyPreparedUpload prepared job with
    | error err => exact reported_of_not_delivered
    | ok p => exact finishRun_follows ⟨Once.head ⟨_, prepared, rfl, hv⟩, not_once_cons h id⟩

theorem compile_follows {input : Grant} (h : Early job t) :
    Follows (history (Permits job returned)) (Worker.compile job input output) Reported t := by
  refine Follows.bind (Follows.call trivial fun body => ?_)
  have hdownload : Early job (⟨.download input, body⟩ :: t) := h.cons (by simp [Prepares]) id
  cases body with
  | error err => exact fail_true_follows hdownload
  | ok bytes =>
    simp only [Follows]
    cases exactBody bytes job.frozenManifest.archive with
    | error err => exact fail_true_follows hdownload
    | ok archive =>
      refine Follows.call trivial fun valid => ?_
      have hvalid := hdownload.cons (c := ⟨.validateBundle archive, valid⟩) (by simp [Prepares]) id
      cases valid with
      | error err => exact fail_true_follows hvalid
      | ok u =>
        refine Follows.call trivial fun built => ?_
        have hbuilt := hvalid.cons (c := ⟨.build, built⟩) (by simp [Prepares]) id
        cases built with
        | error err => exact fail_true_follows hbuilt
        | ok built =>
          simp only
          split
          · exact fail_true_follows hbuilt
          · exact prepareAndPlace_follows hbuilt.quiet

/-- `run` makes its calls in order, and its outcome tells of the callback that was delivered. -/
theorem run_follows : Follows (history (Permits job returned)) (Worker.run job) Reported [] := by
  unfold Worker.run
  split
  · exact fail_false_follows
  · refine Follows.call trivial fun answer => ?_
    cases answer with
    | error err => exact fail_false_follows
    | ok set =>
      simp only [Except.bind]
      cases hv : verifyGrantSet set.1 job (some set.2) with
      | error err => exact fail_false_follows
      | ok pair =>
        have hearly : Early job [⟨.grants, .ok set⟩] :=
          ⟨Once.head ⟨set.1, set.2, pair, rfl,
            hv⟩, by simp [Once, Prepares], by simp [Once, Issues]⟩
        simp only [Except.map]
        cases verifyGrantSet set.1 job none with
        | error err => exact fail_true_follows hearly
        | ok grants => exact compile_follows hearly

theorem finish_follows {out : Outcome} (hret : returned out t) (h : Reported out t) :
    Follows (history (Permits job returned))
      ((ask (.finish (Worker.finishKind out))).bind fun stored =>
        match stored with
        | .ok () => ret ()
        | .error _ => (ask (.finish .retry)).bind fun _ => ret ())
      (fun _ _ => True) t := by
  refine Follows.call ?_ fun stored => ?_
  · cases hkind : Worker.finishKind out with
    | retry => exact trivial
    | terminal =>
      obtain ⟨c, hc, hresult⟩ := h hkind
      exact ⟨out, c, hret, hc, hresult⟩
  · cases stored with
    | ok u => exact trivial
    | error err => exact ⟨trivial, fun _ => trivial⟩

end Stages

/-! ## Every execution -/

/-- An execution of `run` returns `out` after the calls `t`. -/
def Returned {Env σ : Type} (h : Handler Op Ans Env σ) (job : Job) (s : σ) (out : Outcome)
    (t : Trace Op Ans) : Prop :=
  ∃ es s', Effect.run h (Worker.run job) es s [] = (some out, s', t)

/-- Whatever the network answers, every call of an execution is one that may follow the calls
before it. -/
theorem processQueued_conduct {Env σ : Type} (h : Handler Op Ans Env σ) (job : Job)
    (es : List Env) (s : σ) :
    Always (fun c before => Permits job (Returned h job s) before c.1)
      (Effect.run h (Worker.processQueued job) es s []).2.2 := by
  have hfollows : Follows (history (Permits job (Returned h job s))) (Worker.run job) Reported [] :=
    run_follows
  have hrun := follows_history_run (h := h) hfollows es s trivial
  unfold Worker.processQueued
  simp only [bind_eq]
  rw [run_bind]
  cases hfirst : Effect.run h (Worker.run job) es s [] with
  | mk value rest =>
    obtain ⟨s', t'⟩ := rest
    rw [hfirst] at hrun
    cases value with
    | none => exact hrun.1
    | some out =>
      have hret : Returned h job s out t' := ⟨es, s', hfirst⟩
      exact (follows_history_run (finish_follows hret (hrun.2 out rfl)) _ s' hrun.1).1

-- A terminal record is reached: the last call of a run in which every call succeeds.
example : ((Effect.run handle (Worker.processQueued sampleJob)
    (List.replicate 8 (smoothly [1])) {} []).2.2.head?.map (·.1)) = some (.finish .terminal) := by
  decide +kernel

end SharedNode.Compiler
