import SharedNode.Compiler.Publish

/-!
# Callbacks over several attempts

Does a failed callback ever follow a published one? Within one run of `CompilerWorker.run`
(`compiler/src/compiler.mjs`) it does not: once the upload is prepared, no error leads to a failed
callback. The attempts of a job share only the queue record, and a published callback whose response
was lost leaves the record retryable.
-/

namespace SharedNode.Compiler

open Text Effect Prog

/-- No failed callback was sent after a published one. -/
structure Consistent (w : World) : Prop where
  /-- No callback older than a failed one is a published one. -/
  ordered : Always (fun c older => c = .failed → .published ∉ older) w.callbacks

/-- No published callback was sent. -/
def Unpublished (w : World) : Prop := .published ∉ w.callbacks

/-- Under this choice the download, the validation and the build of the job succeed. -/
def Steady (job : Job) (e : Env) : Prop :=
  (∃ bytes, e.download = .ok bytes ∧ exactBody bytes job.frozenManifest.archive = .ok bytes) ∧
    e.bundle = none ∧ ∃ built, e.build = .ok built ∧ verifyBuiltContent built job = none

/-! ## What a call adds -/

variable {op : Op} {e : Env} {w w' : World} {x : Ans op}

/-- A call records the callback it sends and no other. -/
theorem handle_callbacks (hh : handle op e w = some (x, w')) : w'.callbacks = w.callbacks ∨
      (∃ p, op = .publish p ∧ w'.callbacks = .published :: w.callbacks) ∨
      ∃ code, op = .failed code ∧ w'.callbacks = .failed :: w.callbacks := by
  rw [(handle_eq.mp hh).2]
  cases op with
  | publish p => exact Or.inr (Or.inl ⟨p, rfl, by simp [World.after, World.send]⟩)
  | failed code => exact Or.inr (Or.inr ⟨code, rfl, by simp [World.after, World.send]⟩)
  | prepareUpload p | upload grant archive | finish kind =>
    refine Or.inl ?_
    simp only [World.after]
    split <;> exact arrival_callbacks w e.arrives
  | _ => exact Or.inl (arrival_callbacks w e.arrives)

theorem Unpublished.handle (h : Unpublished w)
    (hh : handle op e w = some (x, w')) (hop : ∀ p, op ≠ .publish p) : Unpublished w' := by
  unfold Unpublished at h ⊢
  rcases handle_callbacks hh with hc | ⟨p, rfl, -⟩ | ⟨code, -, hc⟩
  · rwa [hc]
  · exact absurd rfl (hop p)
  · rw [hc]
    simpa using h

theorem Consistent.handle (h : Consistent w)
    (hop : ∀ code, op = .failed code → Unpublished w) (hh : handle op e w = some (x, w')) :
    Consistent w' := by
  refine ⟨?_⟩
  rcases handle_callbacks hh with hc | ⟨p, -, hc⟩ | ⟨code, hcode, hc⟩ <;> rw [hc]
  · exact h.ordered
  · exact ⟨by simp, h.ordered⟩
  · exact ⟨fun _ => hop code hcode, h.ordered⟩

/-! ## One attempt -/

section Attempt

variable {E : Env → Prop} {job : Job}

variable {w : World} {t : Trace Op Ans}

/-- One call, which reports a failure only while nothing was published. -/
theorem consistent_ask {α : Type} {op : Op} {f : Ans op → M α}
    {Q : α → World → Trace Op Ans → Prop} (hs : Consistent w)
    (hp : ∀ code, op = .failed code → Unpublished w)
    (hk : ∀ e x w', E e → handle op e w = some (x, w') → Consistent w' →
      wp handle E (fun w _ => Consistent w) (f x) Q w' (⟨op, x⟩ :: t)) :
    wp handle E (fun w _ => Consistent w) ((ask op).bind f) Q w t :=
  wp_perform (G := fun w _ op => ∀ code, op = .failed code → Unpublished w)
    (fun _ _ _ _ _ _ hs hp _ hh => hs.handle hp hh) hs hp hk

theorem fail_consistent {granted : Bool} {code : String}
    (hs : Consistent w) (hp : granted = true → Unpublished w) :
    wp handle E (fun w _ => Consistent w) (Worker.fail granted code) (fun _ w _ => Consistent w) w
      t := by
  unfold Worker.fail
  split
  next hg => exact consistent_ask hs (fun _ _ => hp hg) fun _ _ _ _ _ hs' => hs'
  · exact hs

theorem consistent_of_calls {α : Type} {p : M α} (hp : p.Calls fun op => ∀ code, op ≠ .failed code)
    (hs : Consistent w) :
    wp handle E (fun w _ => Consistent w) p (fun _ w _ => Consistent w) w t := by
  induction p generalizing w t with
  | ret a => exact hs
  | halt => exact hs
  | call op k ih =>
    exact ⟨hs, fun e _ x w' hh => ih x (hp.2 x) (hs.handle (fun c hc => absurd hc (hp.1 c)) hh)⟩

theorem reconcileExactUpload_silent (grant : Grant) (p : Publication) :
    (Worker.reconcileExactUpload grant p).Calls fun op => ∀ code, op ≠ .failed code := by
  unfold Worker.reconcileExactUpload
  split
  · trivial
  · refine ⟨by simp, fun body => ?_⟩
    cases body with
    | error err => trivial
    | ok o =>
      show Calls _ (if p.content.Describes o then _ else _)
      split <;> trivial

theorem orElse_silent {first second : M (Except String Unit)}
    (h₁ : first.Calls fun op => ∀ code, op ≠ .failed code)
    (h₂ : second.Calls fun op => ∀ code, op ≠ .failed code) :
    (Worker.orElse first second).Calls fun op => ∀ code, op ≠ .failed code := by
  refine Calls.bind h₁ fun r => ?_
  cases r with
  | ok u => trivial
  | error err => exact h₂

theorem place_silent (output : Grant) (built : Built) (prepared : Prepared) (bound : Publication) :
    (Worker.place output built prepared bound).Calls fun op => ∀ code, op ≠ .failed code := by
  have hupload : (Worker.uploadExact output built.archive).Calls
      fun op => ∀ code, op ≠ .failed code := ⟨by simp, fun _ => trivial⟩
  have hrec := reconcileExactUpload_silent prepared.reconciliation bound
  unfold Worker.place
  split
  · exact orElse_silent hupload hrec
  · exact orElse_silent hrec (orElse_silent hupload hrec)

theorem prepareAndPlace_silent (output : Grant) (built : Built) :
    (Worker.prepareAndPlace job output built).Calls fun op => ∀ code, op ≠ .failed code := by
  refine ⟨by simp, fun answer => ?_⟩
  cases answer with
  | error err => trivial
  | ok prepared =>
    simp only [ret_bind, Except.bind]
    cases verifyPreparedUpload prepared job with
    | error err => trivial
    | ok bound =>
      refine Calls.bind (place_silent output built prepared bound) fun placed => ?_
      cases placed with
      | error err => trivial
      | ok u => exact ⟨by simp, fun sent => by cases sent <;> trivial⟩

theorem compile_consistent {input output : Grant}
    (hs : Consistent w) (hc : Unpublished w ∨ ∀ e, E e → Steady job e) :
    wp handle E (fun w _ => Consistent w) (Worker.compile job input output)
      (fun _ w _ => Consistent w) w t := by
  unfold Worker.compile Worker.downloadExact
  refine consistent_ask hs (by simp) fun e₁ body w₁ he₁ hh₁ hs₁ => ?_
  have hc₁ := hc.imp_left fun h => h.handle hh₁ (by simp)
  have hbody : body = e₁.download := (handle_eq.mp hh₁).1
  cases body with
  | error err =>
    refine fail_consistent hs₁ fun _ => hc₁.resolve_right fun hst => ?_
    obtain ⟨⟨bytes, hb, -⟩, -⟩ := hst e₁ he₁
    rw [hb] at hbody
    cases hbody
  | ok bytes =>
    simp only [ret_bind]
    cases hbytes : exactBody bytes job.frozenManifest.archive with
    | error err =>
      refine fail_consistent hs₁ fun _ => hc₁.resolve_right fun hst => ?_
      obtain ⟨⟨bytes', hb, hok⟩, -⟩ := hst e₁ he₁
      obtain rfl : bytes = bytes' := Except.ok.inj (hbody.trans hb)
      rw [hbytes] at hok
      cases hok
    | ok archive =>
      refine consistent_ask hs₁ (by simp) fun e₂ valid w₂ he₂ hh₂ hs₂ => ?_
      have hc₂ := hc₁.imp_left fun h => h.handle hh₂ (by simp)
      have hvalid : valid = e₂.bundle.elim (.ok ()) .error := (handle_eq.mp hh₂).1
      cases valid with
      | error err =>
        refine fail_consistent hs₂ fun _ => hc₂.resolve_right fun hst => ?_
        rw [(hst e₂ he₂).2.1] at hvalid
        cases hvalid
      | ok u =>
        refine consistent_ask hs₂ (by simp) fun e₃ built w₃ he₃ hh₃ hs₃ => ?_
        have hc₃ := hc₂.imp_left fun h => h.handle hh₃ (by simp)
        have hbuilt : built = e₃.build := (handle_eq.mp hh₃).1
        cases built with
        | error err =>
          refine fail_consistent hs₃ fun _ => hc₃.resolve_right fun hst => ?_
          obtain ⟨b, hb, -⟩ := (hst e₃ he₃).2.2
          rw [hb] at hbuilt
          cases hbuilt
        | ok built =>
          simp only
          cases hv : verifyBuiltContent built job with
          | some err =>
            refine fail_consistent hs₃ fun _ => hc₃.resolve_right fun hst => ?_
            obtain ⟨b, hb, hok⟩ := (hst e₃ he₃).2.2
            obtain rfl : built = b := Except.ok.inj (hbuilt.trans hb)
            rw [hv] at hok
            cases hok
          | none => exact consistent_of_calls (prepareAndPlace_silent output built) hs₃

theorem verifyGrantSet_none {set : GrantSet} {now : Int} {g : Grant × Grant}
    (h : verifyGrantSet set job (some now) = .ok g) : verifyGrantSet set job none = .ok g := by
  unfold verifyGrantSet at h ⊢
  split at h
  · cases h
  next hids =>
    rw [if_neg hids]
    split at h
    next input output _ _ =>
      split at h
      next hok =>
        simp only [Bool.and_eq_true] at hok
        simpa [hok.1] using h
      · cases h
    · cases h

/-- **One run.** -/
theorem run_consistent (hs : Consistent w) (hc : Unpublished w ∨ ∀ e, E e → Steady job e) :
    wp handle E (fun w _ => Consistent w) (Worker.run job) (fun _ w _ => Consistent w) w t := by
  unfold Worker.run
  cases validateCompilerJob job with
  | some err => exact fail_consistent hs (by simp)
  | none =>
    refine consistent_ask hs (by simp) fun e answer w₁ he hh hs₁ => ?_
    have hc₁ := hc.imp_left fun h => h.handle hh (by simp)
    split
    · exact fail_consistent hs₁ (by simp)
    next grants hgrants =>
      cases answer with
      | error err => simp [Except.bind] at hgrants
      | ok set =>
        cases hv : verifyGrantSet set.1 job (some set.2) with
        | error err => rw [Except.bind, hv] at hgrants; simp [Except.map] at hgrants
        | ok g =>
          rw [Except.bind, hv] at hgrants
          obtain rfl : set.1 = grants := Except.ok.inj hgrants
          rw [verifyGrantSet_none hv]
          exact compile_consistent hs₁ hc₁

theorem processQueued_consistent (hs : Consistent w)
    (hc : Unpublished w ∨ ∀ e, E e → Steady job e) :
    wp handle E (fun w _ => Consistent w) (Worker.processQueued job) (fun _ w _ => Consistent w) w
      t := by
  refine wp_bind.mpr (wp_mono (fun out w t hs => ?_) (run_consistent hs hc))
  refine consistent_ask hs (by simp) fun _ stored _ _ _ hs' => ?_
  cases stored with
  | ok u => exact hs'
  | error err => exact consistent_ask hs' (by simp) fun _ _ _ _ _ hs'' => hs''

end Attempt

/-! ## Sequences of attempts -/

/-- The world after one attempt under the choices `es`; a terminal record is not claimed again. -/
def attempt (job : Job) (w : World) (es : List Env) : World :=
  if w.terminal then w else (Effect.run handle (Worker.processQueued job) es w []).2.1

/-- Every attempt that starts after a published callback was sent is steady. -/
def SteadyAttempts (job : Job) : World → List (List Env) → Prop
  | _, [] => True
  | w, es :: rest =>
    (.published ∈ w.callbacks → ∀ e ∈ es, Steady job e) ∧ SteadyAttempts job (attempt job w es) rest

theorem attempt_consistent {job : Job} {es : List Env} (hs : Consistent w)
    (hst : .published ∈ w.callbacks → ∀ e ∈ es, Steady job e) : Consistent (attempt job w es) := by
  unfold attempt
  split
  · exact hs
  have hc : Unpublished w ∨ ∀ e, e ∈ es → Steady job e := by
    by_cases hp : .published ∈ w.callbacks
    · exact Or.inr (hst hp)
    · exact Or.inl hp
  have hrun : wp handle (· ∈ es) (fun w _ => Consistent w) (Worker.processQueued job)
      (fun _ w _ => Consistent w) w [] := processQueued_consistent hs hc
  have hwp := wp_run (fun _ he => he) hrun
  cases hout : (Effect.run handle (Worker.processQueued job) es w []).1 with
  | none => exact hwp.2 hout
  | some u => exact hwp.1 u hout

/-- **No failed callback follows a published one**, in every sequence of attempts that are steady
once something was published. -/
theorem callbacks_consistent {job : Job} {attempts : List (List Env)}
    (hst : SteadyAttempts job {} attempts) :
    Consistent (attempts.foldl (attempt job) {}) := by
  suffices h : ∀ (rest : List (List Env)) (w : World), Consistent w → SteadyAttempts job w rest →
      Consistent (rest.foldl (attempt job) w) from h attempts {} ⟨trivial⟩ hst
  intro rest
  induction rest with
  | nil => exact fun _ hs _ => hs
  | cons es rest ih => exact fun w hs hst => ih _ (attempt_consistent hs hst.1) hst.2

/-- An attempt whose published callback gets no answer, and a second one. -/
def retried (second : Env) : List (List Env) :=
  [List.replicate 9 { smoothly [1] with callback := .responseLost }, List.replicate 9 second]

/-- A second attempt that repeats the first. -/
theorem callbacks_consistent_retried : SteadyAttempts sampleJob {} (retried (smoothly [1])) ∧
      Consistent ((retried (smoothly [1])).foldl (attempt sampleJob) {}) := by
  have hsteady : Steady sampleJob (smoothly [1]) :=
    ⟨⟨[1], rfl, by decide +kernel⟩, rfl, sampleBuilt [1], rfl, by decide +kernel⟩
  have hst : SteadyAttempts sampleJob {} (retried (smoothly [1])) :=
    ⟨by simp, fun _ e he => by rwa [List.eq_of_mem_replicate he], trivial⟩
  exact ⟨hst, callbacks_consistent hst⟩

/-- The response to the published callback is lost, so the job is tried again; this time the build
fails, and a failed callback is sent. -/
theorem failed_after_published :
    ((retried { smoothly [1] with build := .error "compiler_failed" }).foldl
      (attempt sampleJob) {}).callbacks = [.failed, .published] := by
  decide +kernel

end SharedNode.Compiler
