import SharedNode.Workspace.Calls
import SharedNode.Workspace.Transfer

/-!
# Where the files of a service are

The paths below the root of a manager (`internal/workspace/workspace.go`) that belong to a command
of a service: the workspace, its backup, the saved manifest, and the staging directories (`homes`).
For a valid service ID and a command ID that is one name they are names right below the root and
below its directories `.state` and `.staging` (`homes_eq`).
-/

namespace SharedNode.Workspace

open Text ControlPlane Storage

/-! ## Names -/

/-- A component that leads one step down. -/
def isStep (name : Bytes) : Bool := name ≠ [] && name ≠ dot && name ≠ dotdot && !name.contains slash

variable {name value : Bytes} {p q : Path}

theorem isStep_iff : isStep name ↔ name ≠ [] ∧ name ≠ dot ∧ name ≠ dotdot ∧ slash ∉ name := by
  simp [isStep, and_assoc]

theorem stays_of_isStep (h : isStep name) : stays name = false := by
  rw [isStep_iff] at h
  simp [stays, h.1, h.2.1]

theorem steps_of_isStep (h : isStep name) : steps name = [name] := by
  unfold steps
  rw [components_of_not_mem (isStep_iff.mp h).2.2.2]
  simp [stays_of_isStep h]

theorem push_of_isStep (h : isStep name) (rooted : Bool) (stack : List Bytes) :
    push rooted stack name = name :: stack := if_neg (isStep_iff.mp h).2.2.1

theorem joinPath_of_isStep (h : isStep name) (base : Path) :
    joinPath base name = base ++ [name] := by
  unfold joinPath
  rw [steps_of_isStep h, List.foldl_cons, List.foldl_nil, push_of_isStep h, List.reverse_cons,
    List.reverse_reverse]

theorem foldl_push (h : ∀ name ∈ p, isStep name) (rooted : Bool) (stack : List Bytes) :
    p.foldl (push rooted) stack = p.reverse ++ stack := by
  induction p generalizing stack with
  | nil => rfl
  | cons name p ih =>
    rw [List.foldl_cons, push_of_isStep (h name List.mem_cons_self),
      ih (List.forall_mem_cons.mp h).2, List.reverse_cons, List.append_assoc,
      List.singleton_append]

theorem pathOf_pathText (h : ∀ name ∈ p, isStep name) : pathOf (pathText p) = p := by
  have hslash : ∀ name ∈ p, slash ∉ name := fun name hn => (isStep_iff.mp (h name hn)).2.2.2
  have hsteps : steps (pathText p) = p := by
    cases hp : p with
    | nil => decide
    | cons name rest =>
      have hcomp : components (pathText p) = [] :: p := by
        rw [pathText, ← List.nil_append (slash :: _), components_append_slash List.not_mem_nil,
          components, List.splitOn_intercalate slash hslash (by simp [hp])]
      rw [← hp, steps, hcomp, List.filter_cons_of_neg (by simp [stays])]
      exact List.filter_eq_self.mpr fun name hn => by simp [stays_of_isStep (h name hn)]
  unfold pathOf cleanSteps
  rw [hsteps, foldl_push h, List.append_nil, List.reverse_reverse]

/-! ## Identifiers -/

theorem validIdentifier_iff : validIdentifier value ↔ value ≠ [] ∧
    value.length ≤ 128 ∧ ∀ b ∈ value, isLetterByte b || isDigit b || b == 0x5f || b == 0x2d := by
  simp only [validIdentifier, Bool.and_eq_true, decide_eq_true_eq, List.all_eq_true, and_assoc]

theorem ne_of_mem_identifier (h : validIdentifier value) {b : UInt8}
    (hb : b ∈ value) : b ≠ 0x2e ∧ b ≠ slash := by
  have hbyte := (validIdentifier_iff.mp h).2.2 b hb
  constructor
  · rintro rfl
    exact absurd hbyte (by decide)
  · rintro rfl
    exact absurd hbyte (by decide)

/-- A text that starts with an identifier and has no slash is a step. -/
theorem isStep_of_identifier {rest : Bytes} (h : validIdentifier value)
    (hrest : slash ∉ rest) : isStep (value ++ rest) := by
  obtain ⟨b, tail, rfl⟩ := List.exists_cons_of_ne_nil (validIdentifier_iff.mp h).1
  have hb := ne_of_mem_identifier h List.mem_cons_self
  have hdot : ∀ s, b :: tail ++ rest ≠ 0x2e :: s := fun s heq => hb.1 (List.cons.inj heq).1
  refine isStep_iff.mpr ⟨by simp, hdot [], hdot [0x2e], ?_⟩
  rw [List.mem_append]
  rintro (hmem | hmem)
  · exact (ne_of_mem_identifier h hmem).2 rfl
  · exact hrest hmem

theorem isLegalName_iff : isLegalName name ↔ isStep name ∧ 0 ∉ name := by
  simp [isLegalName, isStep, and_assoc]

/-- A text that starts with an identifier is a legal name if the rest of it allows. -/
theorem isLegalName_of_identifier {rest : Bytes} (h : validIdentifier value)
    (hrest : slash ∉ rest ∧ 0 ∉ rest) : isLegalName (value ++ rest) := by
  refine isLegalName_iff.mpr ⟨isStep_of_identifier h hrest.1, ?_⟩
  rw [List.mem_append]
  rintro (hmem | hmem)
  · exact absurd ((validIdentifier_iff.mp h).2.2 0 hmem) (by decide)
  · exact hrest.2 hmem

/-- A command of a valid service whose ID is one name. -/
structure Plain (command : Command) : Prop where
  service : validIdentifier (lit command.serviceID)
  command : slash ∉ lit command.commandID

def stagingName (command : Command) (ending : String) : String :=
  command.serviceID ++ "-" ++ command.commandID ++ ending

/-- The endings of the names of staging directories: of a restore, of an initial world, of a
sync. -/
def stagingEndings : List String := ["", "-world", "-sync"]

theorem lit_stagingName (command : Command) (ending : String) : lit (stagingName command ending) =
      lit command.serviceID ++ (lit "-" ++ (lit command.commandID ++ lit ending)) := by
  simp only [stagingName, lit_append, List.append_assoc]

theorem Plain.isStep_staging {command : Command} (h : Plain command) {ending : String}
    (he : ending ∈ stagingEndings) : isStep (lit (stagingName command ending)) := by
  rw [lit_stagingName]
  refine isStep_of_identifier h.service ?_
  have hending : slash ∉ lit ending := by
    have : ∀ e ∈ stagingEndings, slash ∉ lit e := by decide
    exact this ending he
  have hdash : slash ∉ lit "-" := by decide
  simp only [List.mem_append, not_or]
  exact ⟨hdash, h.command, hending⟩

/-! ## Paths apart -/

def Unrelated (p q : Path) : Prop := ¬ p <+: q ∧ ¬ q <+: p

theorem unrelated_append {base : Path} (h : Unrelated p q) : Unrelated (base ++ p) (base ++ q) := by
  constructor
  · exact fun hp => h.1 ((List.prefix_append_right_inj base).mp hp)
  · exact fun hq => h.2 ((List.prefix_append_right_inj base).mp hq)

theorem unrelated_of_head {a b : Bytes} (h : a ≠ b) : Unrelated (a :: p) (b :: q) := by
  constructor
  · exact fun hp => h (List.cons_prefix_cons.mp hp).1
  · exact fun hq => h (List.cons_prefix_cons.mp hq).1.symm

theorem Unrelated.symm (h : Unrelated p q) : Unrelated q p := ⟨h.2, h.1⟩

theorem Unrelated.below {r : Path} (h : Unrelated p q) (hp : p <+: r) (hq : q <+: r) : False := by
  rcases List.prefix_or_prefix_of_prefix hp hq with hpq | hqp
  · exact h.1 hpq
  · exact h.2 hqp

/-! ## Homes -/

/-- The paths below which everything of a command lies: the workspace and its backup, the saved
manifest and its temporary file, and the three staging directories. -/
def homes (m : Manager) (command : Command) : List Path :=
  [joinPath m.root (lit command.serviceID),
    withEnding (joinPath m.root (lit command.serviceID)) ".previous",
    m.restoredPath command.serviceID,
    withEnding (m.restoredPath command.serviceID) ".tmp",
    m.staging (command.serviceID ++ "-" ++ command.commandID),
    m.staging (command.serviceID ++ "-" ++ command.commandID ++ "-world"),
    m.staging (command.serviceID ++ "-" ++ command.commandID ++ "-sync")]

/-- The directory of saved manifests. -/
def Manager.stateDir (m : Manager) : Path := m.root ++ [lit ".state"]

/-- The directory of what is being made. -/
def Manager.stagingDir (m : Manager) : Path := m.root ++ [lit ".staging"]

section Forms

variable (m : Manager) {command : Command}

theorem workspace_eq (h : validIdentifier (lit command.serviceID)) :
    joinPath m.root (lit command.serviceID) = m.root ++ [lit command.serviceID] := by
  refine joinPath_of_isStep ?_ _
  simpa using isStep_of_identifier h List.not_mem_nil

theorem restoredPath_eq {serviceID : String} (h : validIdentifier (lit serviceID)) :
    m.restoredPath serviceID = m.stateDir ++ [lit serviceID ++ lit ".manifest.json"] := by
  have hstate : isStep (lit ".state") := by decide
  have hfile : isStep (lit serviceID ++ lit ".manifest.json") :=
    isStep_of_identifier h (by decide)
  rw [Manager.restoredPath, joinPath_of_isStep hstate, lit_append, joinPath_of_isStep hfile]
  rfl

theorem Plain.staging_eq (h : Plain command) (ending : String) (he : ending ∈ stagingEndings) :
    m.staging (stagingName command ending) =
      m.stagingDir ++ [lit (stagingName command ending)] := by
  have hstaging : isStep (lit ".staging") := by decide
  rw [Manager.staging, joinPath_of_isStep hstaging, joinPath_of_isStep (h.isStep_staging he)]
  rfl

theorem Plain.homes_eq (h : Plain command) : homes m command =
      [m.root ++ [lit command.serviceID], m.root ++ [lit command.serviceID ++ lit ".previous"],
        m.stateDir ++ [lit command.serviceID ++ lit ".manifest.json"],
        m.stateDir ++ [lit command.serviceID ++ lit ".manifest.json" ++ lit ".tmp"]] ++
      stagingEndings.map fun ending => m.stagingDir ++ [lit (stagingName command ending)] := by
  have hrestore := h.staging_eq m "" (by decide)
  have hworld := h.staging_eq m "-world" (by decide)
  have hsync := h.staging_eq m "-sync" (by decide)
  simp only [stagingName, String.append_empty] at hrestore hworld hsync
  simp only [homes, stagingEndings, List.map_cons, List.map_nil, stagingName, String.append_empty]
  rw [workspace_eq m h.service, withEnding_append, restoredPath_eq m h.service,
    withEnding_append, hrestore, hworld, hsync]
  rfl

end Forms

end SharedNode.Workspace
