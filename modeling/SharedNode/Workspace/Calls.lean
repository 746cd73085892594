import SharedNode.Workspace.Node

/-!
# The calls of a manager

What one call of the manager (`internal/workspace/workspace.go`) names and touches, what it can
leave on the disk, and the rules for programs over the calls.

* `file_of_call`, `get_call`: a file with bytes in it is where the call leaves bytes; a path that is
  not touched keeps what it holds.
* `confined_ask`, `confined_check`, `confined_describing`, `confined_guard`, `confined_forIn`,
  `confined_retried`: the rules for what a program does whatever the answers.
-/

namespace SharedNode.Workspace

open Text ControlPlane Storage Effect

variable {bytes : Bytes} {f : Disk → Option Disk} {e : Env} {err text : String} {w' : World}

def Op.names : Op → List Path
  | .stat p | .mkdirAll p | .removeAll p | .remove p | .openExclusive p | .write p _ | .read p
  | .walk p | .quota _ p => [p]
  | .rename p q => [p, q]
  | .grants _ | .get _ | .put _ _ | .sleep _ | .recall _ | .remember _ _ | .forget _ => []

/-- The paths at or below which a call can leave a file with bytes in it. -/
def Op.fills : Op → List Path
  | .write p _ => [p]
  | .rename _ q => [q]
  | _ => []

/-- The call creates, changes, reads or deletes the path. -/
def Op.touches : Op → Path → Bool
  | .stat p, q | .remove p, q | .openExclusive p, q | .write p _, q | .read p, q => p = q
  | .mkdirAll p, q => q <+: p
  | .removeAll p, q | .walk p, q | .quota _ p, q => p <+: q
  | .rename p r, q => p <+: q || r <+: q
  | .grants _, _ | .get _, _ | .put _ _, _ | .sleep _, _ | .recall _, _ | .remember _ _, _
  | .forget _, _ => false

variable {op : Op} {q p : Path} {w : World} {e : Env} {may : Op → Bool}

/-- A path that is touched is at or below one that is named, or a directory that is made. -/
theorem Op.touches_cases (h : op.touches q) :
    (∃ p ∈ op.names, p <+: q) ∨ ∃ p, op = .mkdirAll p ∧ q <+: p := by
  cases op with
  | rename p r =>
    simp only [Op.touches, Bool.or_eq_true, decide_eq_true_eq] at h
    rcases h with h | h
    · exact Or.inl ⟨p, by simp [Op.names], h⟩
    · exact Or.inl ⟨r, by simp [Op.names], h⟩
  | mkdirAll p => exact Or.inr ⟨p, rfl, by simpa [Op.touches] using h⟩
  | removeAll p | walk p | quota call p =>
    exact Or.inl ⟨p, by simp [Op.names], by simpa [Op.touches] using h⟩
  | stat p | remove p | openExclusive p | read p | write p bytes =>
    obtain rfl : p = q := by simpa [Op.touches] using h
    exact Or.inl ⟨p, by simp [Op.names], List.prefix_rfl⟩
  | _ => simp [Op.touches] at h

theorem Op.names_of_touches (h : op.touches q) : ∃ p ∈ op.names, p <+: q ∨ q <+: p := by
  rcases Op.touches_cases h with ⟨p, hp, hpq⟩ | ⟨p, rfl, hpq⟩
  · exact ⟨p, hp, Or.inl hpq⟩
  · exact ⟨p, List.mem_singleton_self p, Or.inr hpq⟩

/-! ## What a call leaves -/

theorem change_cases (w : World) (e : Env) (f : Disk → Option Disk) :
    (w.change e f).2.disk = w.disk ∨ f w.disk = some (w.change e f).2.disk := by
  unfold World.change
  split
  · exact Or.inl rfl
  · split
    next hf => exact Or.inr hf
    · exact Or.inl rfl

theorem get_of_change {node : Option Node} (h : (w.change e f).2.disk.get q = node) :
    w.disk.get q = node ∨ ∃ d', f w.disk = some d' ∧ d'.get q = node := by
  rcases change_cases w e f with hd | hd
  · exact Or.inl (hd ▸ h)
  · exact Or.inr ⟨_, hd, h⟩

theorem get_of_cutWrite {node : Option Node} (h : (w.cutWrite e p).disk.get q = node) :
    w.disk.get q = node ∨
      ∃ bytes d', w.disk.writeFile p bytes e.now = some d' ∧ d'.get q = node := by
  unfold World.cutWrite at h
  split at h
  next hw =>
    obtain ⟨bytes, -, hw⟩ := Option.bind_eq_some_iff.mp hw
    exact Or.inr ⟨bytes, _, hw, h⟩
  · exact Or.inl h

/-- A file with bytes in it that is there after a call was there before, or lies where the call
leaves bytes. -/
theorem file_of_call {t : Int} (h : (handle op e w).2.disk.get q = some (.file bytes t)) :
    w.disk.get q = some (.file bytes t) ∨ (∃ p ∈ op.fills, p <+: q) ∨ bytes = [] := by
  -- nothing is put at a path, or the path is where the call writes
  have hkept : ∀ {c : Prop} {_ : Decidable c},
      (if c then none else w.disk.get q) = some (.file bytes t) →
        w.disk.get q = some (.file bytes t) := by
    intro c _ h
    split at h
    · cases h
    · exact h
  cases op with
  | put key b =>
    refine Or.inl ?_
    unfold handle at h
    dsimp only at h
    split at h
    · split at h <;> exact h
    · exact h
  | mkdirAll p =>
    rcases get_of_change h with h | ⟨d', hd, h⟩
    · exact Or.inl h
    · rw [Disk.get_mkdirAll hd] at h
      split at h
      · cases h
      · exact Or.inl h
  | removeAll p =>
    rcases get_of_change h with h | ⟨d', hd, h⟩
    · exact Or.inl h
    · rw [← Option.some.inj hd, Disk.get_removeAll] at h
      exact Or.inl (hkept h)
  | remove p =>
    rcases get_of_change h with h | ⟨d', hd, h⟩
    · exact Or.inl h
    · rw [Disk.get_remove hd] at h
      exact Or.inl (hkept h)
  | rename p r =>
    rcases get_of_change h with h | ⟨d', hd, h⟩
    · exact Or.inl h
    · rw [Disk.get_rename hd] at h
      split at h
      next hr => exact Or.inr (Or.inl ⟨r, by simp [Op.fills], hr⟩)
      · exact Or.inl (hkept h)
  | openExclusive p =>
    rcases get_of_change h with h | ⟨d', hd, h⟩
    · exact Or.inl h
    · rw [Disk.get_create hd] at h
      split at h
      · injection h with h
        injection h with h
        exact Or.inr (Or.inr h.symm)
      · exact Or.inl h
  | write p b =>
    have hwritten : ∀ {b : Bytes} {d' : Disk}, w.disk.writeFile p b e.now = some d' →
        d'.get q = some (.file bytes t) →
          w.disk.get q = some (.file bytes t) ∨ ∃ r ∈ (Op.write p b).fills, r <+: q := by
      intro b d' hd h
      rw [Disk.get_writeFile hd] at h
      split at h
      next heq => exact Or.inr ⟨p, by simp [Op.fills], heq ▸ List.prefix_rfl⟩
      · exact Or.inl h
    unfold handle at h
    dsimp only at h
    split at h
    · rcases get_of_cutWrite h with h | ⟨_, d', hd, h⟩
      · exact Or.inl h
      · exact (hwritten hd h).imp_right Or.inl
    · rcases get_of_change h with h | ⟨d', hd, h⟩
      · exact Or.inl h
      · exact (hwritten hd h).imp_right Or.inl
  | _ => exact Or.inl h

theorem get_of_write (h : handle (.write p bytes) e w = (.ok (), w')) :
    ∃ t, w'.disk.get p = some (.file bytes t) := by
  unfold handle at h
  dsimp only at h
  split at h
  · cases h
  · unfold World.change at h
    split at h
    · cases h
    split at h
    next d' hd =>
      obtain rfl := (Prod.mk.inj h).2
      exact ⟨e.now, by rw [Disk.get_writeFile hd, if_pos rfl]⟩
    · cases h

theorem get_of_read {data : Bytes} (h : handle (.read p) e w = (.ok (some data), w')) :
    ∃ t, w.disk.get p = some (.file data t) := by
  have hr : e.io.elim (readNode (w.disk.get p)) .error = .ok (some data) := congrArg Prod.fst h
  cases hio : e.io with
  | some err => simp [hio] at hr
  | none =>
    rw [hio, Option.elim_none] at hr
    unfold readNode at hr
    split at hr
    · simp at hr
    · next bytes t hget =>
      obtain rfl : bytes = data := by simpa using hr
      exact ⟨t, hget⟩
    · cases hr

theorem get_call (h : op.touches q = false) (e : Env) (w : World) :
    (handle op e w).2.disk.get q = w.disk.get q := by
  have hchange : ∀ f : Disk → Option Disk, (∀ d, f w.disk = some d → d.get q = w.disk.get q) →
      (w.change e f).2.disk.get q = w.disk.get q := by
    intro f hf
    rcases change_cases w e f with hd | hd
    · rw [hd]
    · exact hf _ hd
  cases op with
  | mkdirAll p =>
    refine hchange _ fun d hd => ?_
    rw [Disk.get_mkdirAll hd, if_neg (by simpa [Op.touches] using h)]
  | removeAll p =>
    refine hchange _ fun d hd => ?_
    rw [← Option.some.inj hd, Disk.get_removeAll,
      if_neg fun hp => absurd hp.1 (by simpa [Op.touches] using h)]
  | remove p =>
    refine hchange _ fun d hd => ?_
    rw [Disk.get_remove hd, if_neg (by simpa [Op.touches, eq_comm] using h)]
  | rename p r =>
    simp only [Op.touches, Bool.or_eq_false_iff, decide_eq_false_iff_not] at h
    refine hchange _ fun d hd => ?_
    rw [Disk.get_rename hd, if_neg h.2, if_neg h.1]
  | openExclusive p =>
    refine hchange _ fun d hd => ?_
    rw [Disk.get_create hd, if_neg (by simpa [Op.touches, eq_comm] using h)]
  | write p b =>
    have hwritten : ∀ b d, w.disk.writeFile p b e.now = some d → d.get q = w.disk.get q := by
      intro b d hd
      rw [Disk.get_writeFile hd, if_neg (by simpa [Op.touches, eq_comm] using h)]
    unfold handle
    dsimp only
    split
    · unfold World.cutWrite
      split
      next hw =>
        obtain ⟨bytes, -, hw⟩ := Option.bind_eq_some_iff.mp hw
        exact hwritten bytes _ hw
      · rfl
    · exact hchange _ fun d hd => hwritten b d hd
  | put key b =>
    unfold handle
    dsimp only
    split
    · split <;> rfl
    · rfl
  | _ => rfl

/-! ## Rules -/

section Rules

variable {α : Type} {φ : Op → Prop} {ψ : α → Prop}

theorem confined_ask {op : Op} (hop : φ op) : Confined φ (ask op) fun _ => True :=
  confined_request hop fun _ => trivial

theorem confined_check {r : Except String α} (h : ∀ a, r = .ok a → ψ a) :
    Confined φ (check r) ψ := h

theorem confined_describing {p : M α} (hp : Confined φ p ψ) : Confined φ (describing text p) ψ := by
  refine Prog.Does.bind hp fun r hr => ?_
  cases r with
  | ok a => exact hr
  | error err => exact fun _ heq => nomatch heq

theorem confined_guard {c : Prop} {_ : Decidable c} {f : Unit → M α} (h : ¬ c → Confined φ (f ()) ψ)
    : Confined φ (if c then throw err >>= f else f ()) ψ := by
  by_cases hc : c
  · rw [if_pos hc]
    exact confined_throw
  · rw [if_neg hc]
    exact h hc

variable {op : Op}

theorem confined_asked {f : Reply op → M α} (hop : φ op) (hf : ∀ r, Confined φ (f r) ψ) :
    Confined φ (ask op >>= f) ψ := (confined_ask hop).bind fun r _ => hf r

theorem confined_described {f : Reply op → M α} (hop : φ op) (hf : ∀ r, Confined φ (f r) ψ) :
    Confined φ (describing text (ask op) >>= f) ψ :=
  (confined_describing (confined_ask hop)).bind fun r (_ : True) => hf r

theorem confined_dropped {f : Except String (Reply op) → M α} (hop : φ op)
    (hf : ∀ r, Confined φ (f r) ψ) : Confined φ (do f (← attempt (ask op))) ψ :=
  (confined_ask hop).attempt.bind fun r _ => hf r

theorem confined_checked {β : Type} {r : Except String β} {f : β → M α}
    (hf : ∀ b, Confined φ (f b) ψ) : Confined φ (check r >>= f) ψ :=
  (confined_check fun _ _ => trivial).bind fun b (_ : True) => hf b

theorem confined_forIn {β γ : Type} {l : List γ} {f : γ → β → M (ForInStep β)} {b : β}
    (h : ∀ a ∈ l, ∀ b, Confined φ (f a b) fun _ => True) :
    Confined φ (forIn l b f) fun _ => True := by
  induction l generalizing b with
  | nil => exact confined_pure trivial
  | cons a l ih =>
    rw [List.forIn_cons]
    refine (h a List.mem_cons_self b).bind fun r _ => ?_
    cases r with
    | done b => exact confined_pure trivial
    | yield b => exact ih (List.forall_mem_cons.mp h).2

theorem confined_retried (hsleep : ∀ n, φ (.sleep n)) {giveUp : String → String}
    {body : Nat → M (Except String α)}
    (hbody : ∀ n, Confined φ (body n) fun r => ∀ a, r = .ok a → ψ a) (left attempt : Nat) :
    Confined φ (retried giveUp body left attempt) ψ := by
  induction left generalizing attempt with
  | zero => exact confined_throw
  | succ left ih =>
    refine (hbody attempt).bind fun r hr => ?_
    cases r with
    | ok a => exact confined_pure (hr a rfl)
    | error err =>
      dsimp only
      split
      · exact confined_throw
      · exact (confined_ask (hsleep _)).bind fun _ _ => ih _

end Rules

/-! ## A disk that does not fail -/

theorem withEnding_append (p : Path) (name : Bytes) (ending : String) :
    withEnding (p ++ [name]) ending = p ++ [name ++ lit ending] := by
  simp [withEnding]

/-- The choice for a call when local calls fail only if they may. -/
def Env.settled (may : Op → Bool) (e : Env) (op : Op) : Env :=
  if may op then e else { e with io := none }

/-- The meaning of a call when local calls fail only if they may. -/
def handleSettled (may : Op → Bool) : TotalHandler Op Answer Env World :=
  fun op e w => handle op (e.settled may op) w

def Op.isDisk : Op → Bool
  | .stat _ | .mkdirAll _ | .removeAll _ | .remove _ | .rename _ _ | .openExclusive _ | .write _ _
  | .read _ | .walk _ => true
  | _ => false

/-- The disk does not fail by itself, or every failure is fine. -/
def Calm (may : Op → Bool) (F : World → Prop) : Prop :=
  (∀ op : Op, op.isDisk → may op = false) ∨ ∀ w, F w

theorem Calm.of_may {F : World → Prop} (h : Calm may F)
    (hdisk : op.isDisk) (hmay : may op = true) : ∀ w, F w :=
  h.resolve_left fun hall => absurd (hall op hdisk) (by simp [hmay])

theorem settled_io (e : Env) (op : Op) : (e.settled may op).io = none ∨ may op = true := by
  unfold Env.settled
  split
  next h => exact Or.inr h
  · exact Or.inl rfl

section Settled

variable {may : Op → Bool} {E : Env → Prop} {F : World → Prop} {w : World} {α : Type}

theorem yields_check {r : Except String α} {Q : α → World → Prop} (hok : ∀ a, r = .ok a → Q a w)
    (herr : ∀ err, r = .error err → F w) : Yields (handleSettled may) E F (check r) Q w := by
  cases r with
  | ok a => exact hok a rfl
  | error err => exact herr err rfl

theorem yields_describing {p : M α} {Q : α → World → Prop}
    (hp : Yields (handleSettled may) E F p Q w) :
    Yields (handleSettled may) E F (describing text p) Q w :=
  twp_bind (twp_mono (fun r s hr => by cases r <;> exact hr) hp)

theorem yields_guard {c : Prop} {_ : Decidable c} {f : Unit → M α} {Q : α → World → Prop}
    (herr : c → F w) (h : ¬ c → Yields (handleSettled may) E F (f ()) Q w) :
    Yields (handleSettled may) E F (if c then throw err >>= f else f ()) Q w := by
  by_cases hc : c
  · rw [if_pos hc]
    exact yields_throw (herr hc)
  · rw [if_neg hc]
    exact h hc

variable {op : Op} {p : Path} {Q : Unit → World → Prop}

theorem elim_settled {β : Type} {x r : Except String β}
    (h : (e.settled may op).io.elim x .error = r) : x = r ∨ may op = true ∧
      ∃ err, r = .error err := by
  rcases settled_io e op with hio | hmay
  · rw [hio] at h
    exact Or.inl h
  · cases hio : (e.settled may op).io with
    | none => exact Or.inl (by rwa [hio] at h)
    | some err => exact Or.inr ⟨hmay, err, by rw [← h, hio]; rfl⟩

theorem yields_stat {Q : Option Node → World → Prop} (hcalm : Calm may F)
    (h : Q (w.disk.get p) w) : Yields (handleSettled may) E F (ask (.stat p)) Q w := by
  refine yields_request (fun e a w' _ hr => ?_) fun e err w' _ hr => ?_
  · obtain rfl : w = w' := (Prod.mk.inj hr).2
    rcases elim_settled (Prod.mk.inj hr).1 with ha | ⟨-, err, ha⟩
    · exact Except.ok.inj ha ▸ h
    · cases ha
  · rcases elim_settled (Prod.mk.inj hr).1 with ha | ⟨hmay, -⟩
    · cases ha
    · exact hcalm.of_may rfl hmay w'

theorem yields_read {Q : Option Bytes → World → Prop} (hcalm : Calm may F)
    (h : match readNode (w.disk.get p) with | .ok r => Q r w | .error _ => F w) :
    Yields (handleSettled may) E F (ask (.read p)) Q w := by
  refine yields_request (fun e a w' _ hr => ?_) fun e err w' _ hr => ?_
  · obtain rfl : w = w' := (Prod.mk.inj hr).2
    rcases elim_settled (Prod.mk.inj hr).1 with ha | ⟨-, err, ha⟩
    · rwa [ha] at h
    · cases ha
  · obtain rfl : w = w' := (Prod.mk.inj hr).2
    rcases elim_settled (Prod.mk.inj hr).1 with ha | ⟨hmay, -⟩
    · rwa [ha] at h
    · exact hcalm.of_may rfl hmay w

theorem yields_remember {serviceID : Bytes} {manifest : WorkspaceManifest} (h : Q () { w with
      restored := fun s => if s = serviceID then some manifest else w.restored s }) :
    Yields (handleSettled may) E F (ask (.remember serviceID manifest)) Q w := fun _ _ => h

theorem change_settled_ok {a : Unit} (h : w.change (e.settled may op) f = (.ok a, w')) :
    ∃ d, f w.disk = some d ∧ w' = { w with disk := d } := by
  unfold World.change at h
  split at h
  · cases h
  · split at h
    next d hd => exact ⟨d, hd, (Prod.mk.inj h).2.symm⟩
    · cases h

theorem change_settled_error (hcalm : Calm may F) (hdisk : op.isDisk)
    (h : w.change (e.settled may op) f = (.error err, w')) (hf : f w.disk = none → F w) : F w' := by
  unfold World.change at h
  split at h
  next hio => exact hcalm.of_may hdisk ((settled_io e op).resolve_left (by simp [hio])) w'
  · split at h
    · cases h
    next hd => exact (Prod.mk.inj h).2 ▸ hf hd

theorem yields_mkdirAll (hcalm : Calm may F)
    (hok : ∀ d, w.disk.mkdirAll p = some d → Q () { w with disk := d })
    (herr : w.disk.mkdirAll p = none → F w) :
    Yields (handleSettled may) E F (ask (.mkdirAll p)) Q w := by
  refine yields_request (fun e a w' _ h => ?_) fun e err w' _ h => ?_
  · obtain ⟨d, hd, rfl⟩ := change_settled_ok (f := (·.mkdirAll p)) h
    exact hok d hd
  · exact change_settled_error (f := (·.mkdirAll p)) hcalm rfl h herr

theorem yields_remove (hcalm : Calm may F)
    (hok : ∀ d, w.disk.remove p = some d → Q () { w with disk := d })
    (herr : w.disk.remove p = none → F w) :
    Yields (handleSettled may) E F (ask (.remove p)) Q w := by
  refine yields_request (fun e a w' _ h => ?_) fun e err w' _ h => ?_
  · obtain ⟨d, hd, rfl⟩ := change_settled_ok (f := (·.remove p)) h
    exact hok d hd
  · exact change_settled_error (f := (·.remove p)) hcalm rfl h herr

theorem yields_rename {q : Path} (hcalm : Calm may F)
    (hok : ∀ d, w.disk.rename p q = some d → Q () { w with disk := d })
    (herr : w.disk.rename p q = none → F w) :
    Yields (handleSettled may) E F (ask (.rename p q)) Q w := by
  refine yields_request (fun e a w' _ h => ?_) fun e err w' _ h => ?_
  · obtain ⟨d, hd, rfl⟩ := change_settled_ok (f := (·.rename p q)) h
    exact hok d hd
  · exact change_settled_error (f := (·.rename p q)) hcalm rfl h herr

theorem yields_openExclusive (hcalm : Calm may F)
    (hok : ∀ now d, w.disk.create p [] now = some d → Q () { w with disk := d })
    (herr : ∀ now, w.disk.create p [] now = none → F w) :
    Yields (handleSettled may) E F (ask (.openExclusive p)) Q w := by
  refine yields_request (fun e a w' _ h => ?_) fun e err w' _ h => ?_
  · obtain ⟨d, hd, rfl⟩ := change_settled_ok
      (f := (·.create p [] (e.settled may (.openExclusive p)).now)) h
    exact hok _ d hd
  · exact change_settled_error (f := (·.create p [] (e.settled may (.openExclusive p)).now))
      hcalm rfl h (herr _)

theorem yields_removeAll (hcalm : Calm may F) (hok : Q () { w with disk := w.disk.removeAll p }) :
    Yields (handleSettled may) E F (ask (.removeAll p)) Q w := by
  refine yields_request (fun e a w' _ h => ?_) fun e err w' _ h => ?_
  · obtain ⟨d, hd, rfl⟩ := change_settled_ok (f := fun d => some (d.removeAll p)) h
    exact Option.some.inj hd ▸ hok
  · exact change_settled_error (f := fun d => some (d.removeAll p)) hcalm rfl h fun hd => nomatch hd

theorem yields_write (hcalm : Calm may F)
    (hok : ∀ now d, w.disk.writeFile p bytes now = some d → Q () { w with disk := d })
    (herr : ∀ now, w.disk.writeFile p bytes now = none → F w) :
    Yields (handleSettled may) E F (ask (.write p bytes)) Q w := by
  have hcall : ∀ e, (e.settled may (.write p bytes)).io = none →
      handleSettled may (.write p bytes) e w = w.change (e.settled may (.write p bytes))
        (·.writeFile p bytes (e.settled may (.write p bytes)).now) := by
    intro e hio
    unfold handleSettled handle
    dsimp only
    rw [hio]
  have hcut : ∀ e err, (e.settled may (.write p bytes)).io = some err →
      (handleSettled may (.write p bytes) e w).1 = .error err := by
    intro e err hio
    unfold handleSettled handle
    dsimp only
    rw [hio]
  refine yields_request (fun e a w' _ h => ?_) fun e err w' _ h => ?_
  · cases hio : (e.settled may (.write p bytes)).io with
    | some err => cases (congrArg Prod.fst h).symm.trans (hcut e err hio)
    | none =>
      obtain ⟨d, hd, rfl⟩ := change_settled_ok (hcall e hio ▸ h)
      exact hok _ d hd
  · rcases settled_io e (.write p bytes) with hio | hmay
    · exact change_settled_error hcalm rfl (hcall e hio ▸ h) (herr _)
    · exact hcalm.of_may rfl hmay w'

theorem yields_quota {call : QuotaCall} (hok : Q () w) (herr : may (.quota call p) = true → F w) :
    Yields (handleSettled may) E F (ask (.quota call p)) Q w := by
  refine yields_request (fun e a w' _ h => ?_) fun e err w' _ h => ?_
  · obtain rfl : w = w' := (Prod.mk.inj h).2
    exact hok
  · obtain rfl : w = w' := (Prod.mk.inj h).2
    rcases elim_settled (Prod.mk.inj h).1 with ha | ⟨hmay, -⟩
    · cases ha
    · exact herr hmay

theorem yields_giveUp (hF : ∀ w, F w) {Q : α → World → Prop} :
    Yields (handleSettled may) E F (do let _ ← attempt (ask op); throw err) Q w :=
  yields_bind (yields_attempt (yields_request (fun _ _ w _ _ => yields_throw (hF w))
    fun _ _ w _ _ _ => yields_throw (hF w)))

/-- What stands in the way of a file with its directory. -/
structure Free (dir : Path) (name : Bytes) (d : Disk) : Prop where
  dirs : ∀ q, q <+: dir → d.get q = none ∨ d.get q = some .dir
  legal : (dir ++ [name]).all isLegalName
  legalTmp : (dir ++ [name ++ lit ".tmp"]).all isLegalName
  tmp : Disk.isWritable (d.get (dir ++ [name ++ lit ".tmp"]))
  file : d.get (dir ++ [name]) ≠ some .dir

structure Saved (dir : Path) (name text : Bytes) (d d' : Disk) : Prop where
  file : ∃ t, d'.get (dir ++ [name]) = some (.file text t)
  rest : ∀ q, ¬ dir ++ [name] <+: q → ¬ dir ++ [name ++ lit ".tmp"] <+: q →
    d'.get q = if q <+: dir then some .dir else d.get q

theorem yields_saveJSON (hcalm : Calm may F) {dir : Path} {name text : Bytes}
    (hfree : Free dir name w.disk)
    (hQ : ∀ d, Saved dir name text w.disk d → Q () { w with disk := d }) :
    Yields (handleSettled may) E F (saveJSON (dir ++ [name]) text) Q w := by
  have hlast : ∀ (n : Bytes) (q : Path), q <+: dir → dir ++ [n] ≠ q := by
    rintro n q hq rfl
    have hlen := hq.length_le
    exact absurd hlen (by simp)
  have hne : dir ++ [name ++ lit ".tmp"] ≠ dir ++ [name] := by
    intro heq
    have hnil := List.append_right_eq_self.mp (List.cons.inj (List.append_cancel_left heq)).1
    exact absurd hnil (by decide)
  have hlegalDir : dir.all isLegalName := by
    have hall := hfree.legal
    rw [List.all_append, Bool.and_eq_true] at hall
    exact hall.1
  unfold saveJSON
  rw [withEnding_append, List.dropLast_concat]
  refine yields_bind (yields_mkdirAll hcalm (fun d₁ h₁ => ?_) fun hnone => ?_)
  on_goal 2 =>
    obtain ⟨d', hd'⟩ := Disk.exists_mkdirAll hfree.dirs hlegalDir
    simp [hd'] at hnone
  have hget₁ : ∀ n, d₁.get (dir ++ [n]) = w.disk.get (dir ++ [n]) := by
    intro n
    rw [Disk.get_mkdirAll h₁, if_neg fun hp => hlast n _ hp rfl]
  have hdir₁ : d₁.get dir = some .dir := by rw [Disk.get_mkdirAll h₁, if_pos List.prefix_rfl]
  refine yields_bind (yields_write hcalm (fun now d₂ h₂ => ?_) fun now hnone => ?_)
  on_goal 2 =>
    obtain ⟨d', hd'⟩ := Disk.exists_writeFile (d := d₁) text now
      ⟨by simp, by rw [hget₁]; exact hfree.tmp, by rw [List.dropLast_concat]; exact hdir₁,
        hfree.legalTmp⟩
    simp [hd'] at hnone
  have htmp₂ : d₂.get (dir ++ [name ++ lit ".tmp"]) = some (.file text now) := by
    rw [Disk.get_writeFile h₂, if_pos rfl]
  refine yields_bind (yields_attempt (yields_rename
    (hcalm.imp_right fun hF w err => yields_giveUp hF) (fun d₃ h₃ => ?_) fun hnone => ?_))
  on_goal 2 =>
    have hfile₂ : d₂.get (dir ++ [name]) = w.disk.get (dir ++ [name]) := by
      rw [Disk.get_writeFile h₂, if_neg hne.symm, hget₁]
    have hreplace : Disk.replaceable (d₂.get (dir ++ [name ++ lit ".tmp"]))
        (d₂.get (dir ++ [name])) := by
      rw [htmp₂, hfile₂]
      have hfile := hfree.file
      cases hold : w.disk.get (dir ++ [name]) with
      | none => rfl
      | some node =>
        cases node with
        | dir => exact absurd hold hfile
        | _ => rfl
    have hdir₂ : d₂.get dir = some .dir := by
      rw [Disk.get_writeFile h₂, if_neg (hlast _ _ List.prefix_rfl).symm, hdir₁]
    obtain ⟨d', hd'⟩ := Disk.exists_rename (d := d₂) (p := dir ++ [name ++ lit ".tmp"])
      (q := dir ++ [name]) ⟨by simp, by simp, fun hp => hne (hp.eq_of_length (by simp)),
        by rw [List.dropLast_concat]; exact hdir₂, hreplace, hfree.legal⟩
    simp [hd'] at hnone
  refine yields_pure (hQ d₃ ⟨⟨now, ?_⟩, fun q hq hqt => ?_⟩)
  · rw [Disk.get_rename h₃, if_pos List.prefix_rfl, List.drop_length, List.append_nil, htmp₂]
  · rw [Disk.get_rename h₃, if_neg hq, if_neg hqt, Disk.get_writeFile h₂, if_neg ?_,
      Disk.get_mkdirAll h₁]
    rintro rfl
    exact hqt List.prefix_rfl

end Settled

end SharedNode.Workspace
