import SharedNode.Compiler.Worker

/-!
# What is published is stored

When `CompilerWorker.run` (`compiler/src/compiler.mjs`) calls `publish`, is the object under the
publication's key the one it describes? `run` publishes what the control plane bound, but uploads
what this run built. After a successful `PUT` the object is this run's archive, after a
reconciliation it matches the binding.
-/

namespace SharedNode.Compiler

open Text Effect Prog

/-- The object the publication describes is stored under its key. -/
def Placed (p : Publication) (w : World) : Prop :=
  ∃ o, w.objects p.content.key = some o ∧ p.content.Describes o

/-- Every publication described the object stored when it was made. -/
def Sound (w : World) : Prop :=
  ∀ r ∈ w.publications, ∃ o, r.2 = some o ∧ r.1.content.Describes o

/-- A `PUT` of the archive under the key of `p` is harmless: the key is taken, or the archive is the
one described. -/
def Ready (p : Publication) (archive : Bytes) (w : World) : Prop :=
  (w.objects p.content.key).isSome ∨ p.content.Describes archive

/-- A run that builds this fits the state it starts from. -/
def Fits (built : Built) (w : World) : Prop :=
  ∀ p, w.binding = some p → Ready p built.archive w

/-! ## What a call changes -/

variable {w w' : World} {k o : Bytes} {op : Op} {e : Env} {x : Ans op}

theorem store_objects {key archive : Bytes} (h : w.objects k = some o) :
    (w.store key archive).objects k = some o := by
  unfold World.store
  by_cases hk : k = key
  · subst hk
    simp [h]
  · simpa [Function.update_of_ne hk] using h

theorem arrival_objects {i : Option Nat} (h : w.objects k = some o) :
    (w.arrival i).objects k = some o := by
  unfold World.arrival
  split
  · exact store_objects h
  · exact h

@[simp] theorem arrival_binding (w : World) (i : Option Nat) :
    (w.arrival i).binding = w.binding := by
  unfold World.arrival
  split <;> rfl

@[simp] theorem arrival_publications (w : World) (i : Option Nat) :
    (w.arrival i).publications = w.publications := by
  unfold World.arrival
  split <;> rfl

@[simp] theorem arrival_callbacks (w : World) (i : Option Nat) :
    (w.arrival i).callbacks = w.callbacks := by
  unfold World.arrival
  split <;> rfl

theorem handle_eq : handle op e w = some (x, w') ↔
      x = (w.arrival e.arrives).reply e op ∧ w' = (w.arrival e.arrives).after e op := by
  simp only [handle, Option.some.injEq, Prod.mk.injEq]
  exact ⟨fun h => ⟨h.1.symm, h.2.symm⟩, fun h => ⟨h.1.symm, h.2.symm⟩⟩

theorem handle_objects (hh : handle op e w = some (x, w')) (h : w.objects k = some o) :
    w'.objects k = some o := by
  rw [(handle_eq.mp hh).2]
  have ho := arrival_objects (i := e.arrives) h
  cases op with
  | prepareUpload p =>
    simp only [World.after]
    split
    · exact ho
    · exact ho
  | upload grant archive =>
    simp only [World.after]
    split
    · exact store_objects ho
    · exact store_objects ho
    · exact ho
    · exact ho
  | finish kind =>
    simp only [World.after]
    split
    · exact ho
    · exact ho
  | _ => exact ho

theorem handle_publications (hh : handle op e w = some (x, w')) {r : Publication × Option Bytes}
    (hr : r ∈ w'.publications) :
    r ∈ w.publications ∨
      ∃ p, op = .publish p ∧ r = (p, (w.arrival e.arrives).objects p.content.key) := by
  rw [(handle_eq.mp hh).2] at hr
  cases op with
  | publish p =>
    simp only [World.after, World.send, arrival_publications, List.mem_cons] at hr
    rcases hr with rfl | hr
    · exact Or.inr ⟨p, rfl, rfl⟩
    · exact Or.inl hr
  | prepareUpload p | upload grant archive | finish kind =>
    simp only [World.after] at hr
    split at hr <;> exact Or.inl (arrival_publications w e.arrives ▸ hr)
  | _ => exact Or.inl (arrival_publications w e.arrives ▸ hr)

theorem Ready.handle {p : Publication} {archive : Bytes} (h : Ready p archive w)
    (hh : handle op e w = some (x, w')) : Ready p archive w' := by
  refine h.imp_left fun hs => ?_
  obtain ⟨o, ho⟩ := Option.isSome_iff_exists.mp hs
  rw [handle_objects hh ho]
  rfl

theorem handle_binding (hh : handle op e w = some (x, w')) (hop : ∀ p, op ≠ .prepareUpload p) :
    w'.binding = w.binding := by
  rw [(handle_eq.mp hh).2]
  cases op with
  | prepareUpload p => exact absurd rfl (hop p)
  | upload grant archive | finish kind =>
    simp only [World.after]
    split <;> exact arrival_binding w e.arrives
  | _ => exact arrival_binding w e.arrives

theorem Fits.handle {built : Built}
    (h : Fits built w) (hh : handle op e w = some (x, w')) (hop : ∀ p, op ≠ .prepareUpload p) :
    Fits built w' := by
  intro p hp
  rw [handle_binding hh hop] at hp
  exact (h p hp).handle hh

/-- A call keeps publications sound if it publishes only what is placed. -/
theorem Sound.handle (hs : Sound w)
    (hp : ∀ p, op = .publish p → Placed p w) (hh : Compiler.handle op e w = some (x, w')) :
    Sound w' := by
  intro r hr
  rcases handle_publications hh hr with hr | ⟨p, hop, rfl⟩
  · exact hs r hr
  · obtain ⟨o, ho, hd⟩ := hp p hop
    exact ⟨o, arrival_objects ho, hd⟩

/-! ## One run -/

section Run

variable {E : Env → Prop}

variable {op : Op} {w : World} {t : Trace Op Ans} {p : Publication} {archive : Bytes}
  {output : Grant} {built : Built} {prepared : Prepared} {job : Job}

theorem sound_ask {α : Type} {f : Ans op → M α} {Q : α → World → Trace Op Ans → Prop} (hs : Sound w)
    (hp : ∀ p, op = .publish p → Placed p w)
    (hk : ∀ e x w', E e → handle op e w = some (x, w') → Sound w' →
      wp handle E (fun w _ => Sound w) (f x) Q w' (⟨op, x⟩ :: t)) :
    wp handle E (fun w _ => Sound w) ((ask op).bind f) Q w t :=
  wp_perform (G := fun w _ op => ∀ p, op = .publish p → Placed p w)
    (fun _ _ _ _ _ _ hs hp _ hh => hs.handle hp hh) hs hp hk

theorem sound_ask_ret {Q : Ans op → World → Trace Op Ans → Prop} (hs : Sound w)
    (hp : ∀ p, op = .publish p → Placed p w)
    (hk : ∀ e x w', E e → handle op e w = some (x, w') → Sound w' → Q x w' (⟨op, x⟩ :: t)) :
    wp handle E (fun w _ => Sound w) (ask op) Q w t :=
  ⟨hs, fun e he x w' hh => hk e x w' he hh (hs.handle hp hh)⟩

/-- What an attempt to get the object of `p` into the store leaves. -/
def PlacedIfOk (p : Publication) (archive : Bytes) (r : Except String Unit) (w : World)
    (_ : Trace Op Ans) : Prop :=
  Sound w ∧ Ready p archive w ∧ (r = .ok () → Placed p w)

theorem uploadExact_sound {grant : Grant} (hs : Sound w) (hr : Ready p archive w)
    (hkey : grant.key = p.content.key) :
    wp handle E (fun w _ => Sound w) (Worker.uploadExact grant archive) (PlacedIfOk p archive) w
      t := by
  refine sound_ask_ret hs (by simp) fun e x w' he hh hs' => ⟨hs', hr.handle hh, ?_⟩
  rintro rfl
  -- an accepted `PUT` found the key free, so the archive is the one described
  obtain ⟨hx, rfl⟩ := handle_eq.mp hh
  simp only [World.reply] at hx
  split at hx
  next hput =>
    have hfree : w.objects p.content.key = none := by
      by_contra hne
      obtain ⟨o, ho⟩ := Option.ne_none_iff_exists'.mp hne
      rw [hkey, arrival_objects ho] at hput
      exact absurd hput.2 (by simp)
    have hd : p.content.Describes archive := by
      rcases hr with hsome | hd
      · rw [hfree] at hsome
        cases hsome
      · exact hd
    refine ⟨archive, ?_, hd⟩
    simp only [World.after, hput.1, World.store, ← hkey, Function.update_self, hput.2]
    rfl
  · cases hx

theorem reconcileExactUpload_sound {grant : Grant} (hs : Sound w) (hr : Ready p archive w) :
    wp handle E (fun w _ => Sound w) (Worker.reconcileExactUpload grant p) (PlacedIfOk p archive)
      w t := by
  unfold Worker.reconcileExactUpload
  split
  · exact ⟨hs, hr, by simp⟩
  next hgrant =>
    have hkey : grant.key = p.content.key := by
      simp only [not_not, isExactReconciliationGrant, Bool.and_eq_true, decide_eq_true_eq] at hgrant
      exact hgrant.1.1.2
    refine sound_ask hs (by simp) fun e x w' he hh hs' => ?_
    have hr' := hr.handle hh
    cases x with
    | error err => exact ⟨hs', hr', by simp⟩
    | ok o =>
      simp only
      split
      next hd =>
        refine ⟨hs', hr', fun _ => ⟨o, ?_, hd⟩⟩
        obtain ⟨hx, rfl⟩ := handle_eq.mp hh
        simp only [World.reply] at hx
        split at hx
        next object _ hobj =>
          cases hx
          rw [← hkey]
          exact hobj
        · cases hx
      · exact ⟨hs', hr', by simp⟩

theorem orElse_sound {first second : M (Except String Unit)}
    (h₁ : wp handle E (fun w _ => Sound w) first (PlacedIfOk p archive) w t)
    (h₂ : ∀ w t, Sound w → Ready p archive w →
      wp handle E (fun w _ => Sound w) second (PlacedIfOk p archive) w t) :
    wp handle E (fun w _ => Sound w) (Worker.orElse first second) (PlacedIfOk p archive) w t := by
  refine wp_bind.mpr (wp_mono (fun r w t hr => ?_) h₁)
  cases r with
  | ok u => exact hr
  | error err => exact h₂ w t hr.1 hr.2.1

/-- Whatever the order of uploads and reconciliations, success means the object is in place. -/
theorem place_sound (hs : Sound w) (hr : Ready p built.archive w)
    (hkey : output.key = p.content.key) :
    wp handle E (fun w _ => Sound w) (Worker.place output built prepared p)
      (PlacedIfOk p built.archive) w t := by
  unfold Worker.place
  split
  · exact orElse_sound (uploadExact_sound hs hr hkey) fun _ _ => reconcileExactUpload_sound
  · exact orElse_sound (reconcileExactUpload_sound hs hr) fun _ _ hs hr =>
      orElse_sound (uploadExact_sound hs hr hkey) fun _ _ => reconcileExactUpload_sound

theorem fail_sound {granted : Bool} {code : String} (hs : Sound w) :
    wp handle E (fun w _ => Sound w) (Worker.fail granted code) (fun _ w _ => Sound w) w t := by
  unfold Worker.fail
  split
  · exact sound_ask hs (by simp) fun _ _ _ _ _ hs' => hs'
  · exact hs

theorem finishRun_sound {own : Publication} (hs : Sound w)
    (hr : Ready p built.archive w) (hkey : output.key = p.content.key) :
    wp handle E (fun w _ => Sound w) (Worker.finishRun output built own prepared p)
      (fun _ w _ => Sound w) w t := by
  refine wp_bind.mpr (wp_mono (fun placed w t hp => ?_) (place_sound hs hr hkey))
  cases placed with
  | error err => exact hp.1
  | ok u =>
    refine sound_ask hp.1 (fun q hq => ?_) fun _ sent _ _ _ hs' => ?_
    · obtain rfl : p = q := by simpa using hq
      exact hp.2.2 rfl
    · cases sent <;> exact hs'

/-- The binding a preparation answers with is harmless for what this run built. -/
theorem ready_of_prepared {e : Env} {w' : World}
    (hb : verifyBuiltContent built job = none) (hfit : Fits built w)
    (hh : handle (.prepareUpload (publicationForControlPlane job built)) e w =
      some (.ok prepared, w')) :
    Ready prepared.publication built.archive w := by
  obtain ⟨hx, -⟩ := handle_eq.mp hh
  simp only [World.reply] at hx
  split at hx
  · cases hx
    simp only [World.prepared, arrival_binding]
    cases hbind : w.binding with
    | none => exact Or.inr (describes_of_verified hb)
    | some p => exact hfit p hbind
  · cases hx

theorem prepareAndPlace_sound (hs : Sound w) (hb : verifyBuiltContent built job = none)
    (hfit : Fits built w) (hkey : output.key = job.expectedContentKey) :
    wp handle E (fun w _ => Sound w) (Worker.prepareAndPlace job output built)
      (fun _ w _ => Sound w) w t := by
  refine sound_ask hs (by simp) fun e answer w' he hh hs' => ?_
  cases answer with
  | error err => exact hs'
  | ok prepared =>
    have hready := (ready_of_prepared hb hfit hh).handle hh
    simp only [Except.bind]
    cases hv : verifyPreparedUpload prepared job with
    | error err => exact hs'
    | ok p =>
      obtain ⟨rfl, hpkey⟩ := key_of_verifyPreparedUpload hv
      exact finishRun_sound hs' hready (hkey.trans hpkey.symm)

/-- Every build of this run that `verifyBuiltContent` accepts fits. -/
def AllFit (job : Job) (E : Env → Prop) (w : World) : Prop :=
  ∀ e, E e → ∀ built, e.build = .ok built → verifyBuiltContent built job = none → Fits built w

theorem AllFit.handle {e : Env} {w' : World} {x : Ans op} (h : AllFit job E w)
    (hh : handle op e w = some (x, w')) (hop : ∀ p, op ≠ .prepareUpload p) : AllFit job E w' :=
  fun e' he' built hb hv => (h e' he' built hb hv).handle hh hop

theorem compile_sound {input : Grant}
    (hs : Sound w) (hfit : AllFit job E w) (hkey : output.key = job.expectedContentKey) :
    wp handle E (fun w _ => Sound w) (Worker.compile job input output) (fun _ w _ => Sound w) w
      t := by
  unfold Worker.compile Worker.downloadExact
  refine sound_ask hs (by simp) fun e₁ body w₁ _ hh₁ hs₁ => ?_
  have hfit₁ := hfit.handle hh₁ (by simp)
  cases body with
  | error err => exact fail_sound hs₁
  | ok bytes =>
    simp only [ret_bind]
    cases exactBody bytes job.frozenManifest.archive with
    | error err => exact fail_sound hs₁
    | ok archive =>
      refine sound_ask hs₁ (by simp) fun e₂ valid w₂ _ hh₂ hs₂ => ?_
      have hfit₂ := hfit₁.handle hh₂ (by simp)
      cases valid with
      | error err => exact fail_sound hs₂
      | ok u =>
        refine sound_ask hs₂ (by simp) fun e₃ built w₃ he₃ hh₃ hs₃ => ?_
        have hfit₃ := hfit₂.handle hh₃ (by simp)
        have hbuilt : built = e₃.build := (handle_eq.mp hh₃).1
        cases built with
        | error err => exact fail_sound hs₃
        | ok built =>
          simp only
          cases hv : verifyBuiltContent built job with
          | some err => exact fail_sound hs₃
          | none => exact prepareAndPlace_sound hs₃ hv (hfit₃ e₃ he₃ built hbuilt.symm hv) hkey

theorem output_key {set : GrantSet} {now : Option Int} {input : Grant}
    (h : verifyGrantSet set job now = .ok (input, output)) :
    output.key = job.expectedContentKey := by
  unfold verifyGrantSet at h
  split at h
  · cases h
  split at h
  next i o _ _ =>
    split at h
    next hok =>
      obtain ⟨rfl, rfl⟩ := Prod.mk.inj (Except.ok.inj h)
      simp only [Bool.and_eq_true, decide_eq_true_eq] at hok
      exact hok.1.1.1.1.1.2
    · cases h
  · cases h

/-- **One run.** -/
theorem run_sound (hs : Sound w) (hfit : AllFit job E w) :
    wp handle E (fun w _ => Sound w) (Worker.run job) (fun _ w _ => Sound w) w t := by
  unfold Worker.run
  cases validateCompilerJob job with
  | some err => exact fail_sound hs
  | none =>
    refine sound_ask hs (by simp) fun e answer w₁ he hh hs₁ => ?_
    have hfit₁ := hfit.handle hh (by simp)
    split
    · exact fail_sound hs₁
    next grants _ =>
      split
      · exact fail_sound hs₁
      next input output hgrants => exact compile_sound hs₁ hfit₁ (output_key hgrants)

end Run

/-! ## Sequences of runs -/

/-- The world after one run under the choices `es`. -/
def runOnce (job : Job) (w : World) (es : List Env) : World :=
  (Effect.run handle (Worker.run job) es w []).2.1

/-- Every run fits the state it starts from. -/
def RunsFit (job : Job) : World → List (List Env) → Prop
  | _, [] => True
  | w, es :: rest => AllFit job (· ∈ es) w ∧ RunsFit job (runOnce job w es) rest

theorem runOnce_sound {job : Job} {es : List Env} (hs : Sound w)
    (hfit : AllFit job (· ∈ es) w) : Sound (runOnce job w es) := by
  have hrun : wp handle (· ∈ es) (fun w _ => Sound w) (Worker.run job)
      (fun _ w _ => Sound w) w [] :=
    run_sound hs hfit
  have hwp := wp_run (fun _ he => he) hrun
  cases hout : (Effect.run handle (Worker.run job) es w []).1 with
  | none => exact hwp.2 hout
  | some out => exact hwp.1 out hout

/-- **Every publication describes the stored object**, in every sequence of runs of a job that fit
the states they start from. -/
theorem publications_sound {job : Job} {w : World} {runs : List (List Env)}
    (hw : w.publications = []) (hfit : RunsFit job w runs) :
    Sound (runs.foldl (runOnce job) w) := by
  have hs : Sound w := by
    intro r hr
    rw [hw] at hr
    cases hr
  clear hw
  induction runs generalizing w with
  | nil => exact hs
  | cons es rest ih => exact ih hfit.2 (runOnce_sound hs hfit.1)

/-- A run that binds the archive `[1]` and whose upload is lost. -/
def lostUpload : List Env := List.replicate 7 { smoothly [1] with put := .requestLost }

/-- A second run builds the archive again, uploads it and publishes the first binding. -/
theorem publications_sound_redelivered :
    RunsFit sampleJob {} [lostUpload, List.replicate 8 (smoothly [1])] ∧
      ([lostUpload, List.replicate 8 (smoothly [1])].foldl (runOnce sampleJob) {}).publications ≠
      [] ∧
      Sound ([lostUpload, List.replicate 8 (smoothly [1])].foldl (runOnce sampleJob) {}) := by
  have hbound : (runOnce sampleJob {} lostUpload).binding =
      some (publicationForControlPlane sampleJob (sampleBuilt [1])) := by decide +kernel
  have hfit : RunsFit sampleJob {} [lostUpload, List.replicate 8 (smoothly [1])] := by
    refine ⟨fun _ _ _ _ _ p hp => absurd hp (by simp), fun e he built hbuilt hv p hp => ?_, trivial⟩
    rw [List.eq_of_mem_replicate he] at hbuilt
    obtain rfl := Except.ok.inj hbuilt
    obtain rfl := Option.mem_unique hbound hp
    exact Or.inr (describes_of_verified hv)
  exact ⟨hfit, by decide +kernel, publications_sound rfl hfit⟩

/-- The second run builds `[1, 2]`: the reconciliation finds no object, the upload succeeds, and the
first binding is published. -/
theorem rebuilt_archive_published :
    ([lostUpload, List.replicate 8 (smoothly [1, 2])].foldl (runOnce sampleJob) {}).publications =
        [(publicationForControlPlane sampleJob (sampleBuilt [1]), some [1, 2])] ∧
      ¬ (publicationForControlPlane sampleJob (sampleBuilt [1])).content.Describes [1, 2] := by
  decide +kernel

end SharedNode.Compiler
