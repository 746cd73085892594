import Mathlib.Logic.Function.Basic
import SharedNode.ControlPlane.Types

/-!
# The durable command state

Model of `internal/agent/state.go`. `FileState` is `fileState`, its three maps as partial
functions; `FileStore` is the pair of the state in memory and the state in `commands.json`.
Every mutation changes memory first and then rewrites the file (`persist`: a temporary file
renamed over the old one), so a failed write leaves memory ahead of the file. `persisted` is what
the file holds of a state and `reload` is `NewFileStore` on it.
-/

namespace SharedNode.Agent

open ControlPlane

/-- The `phase` of an active assignment; `unset` is the empty string of an old state file. -/
inductive Phase where
  | unset
  | starting
  | running
  | stopped
  deriving DecidableEq, Repr

/-- The assignment a service has, and how far it has come. -/
structure ActiveAssignment where
  assignmentID : String
  phase : Phase := .unset
  stopReported : Bool := false
  deriving DecidableEq, Repr

/-- The maps of `commands.json`, by command and by service. -/
structure FileState where
  results : String → Option CommandResult := fun _ => none
  active : String → Option ActiveAssignment := fun _ => none
  leases : String → Option CommandLease := fun _ => none

namespace FileState

def persisted (s : FileState) : FileState :=
  { s with results := fun id => (s.results id).map CommandResult.persisted }

/-- The mutation of `SetActive`. -/
def setActive (s : FileState) (serviceID : String) (active : ActiveAssignment) : FileState :=
  { s with active := Function.update s.active serviceID (some active) }

/-- The mutation of `Commit`: the result is stored, and the active entry replaced or deleted. -/
def commit (s : FileState) (commandID serviceID : String) (result : CommandResult)
    (active : Option ActiveAssignment) : FileState :=
  { s with
    results := Function.update s.results commandID (some result)
    active := Function.update s.active serviceID active }

/-- The mutation of `SetLease`. -/
def setLease (s : FileState) (commandID : String) (lease : CommandLease) : FileState :=
  { s with leases := Function.update s.leases commandID (some lease) }

/-- The mutation of `ClearLease`. -/
def clearLease (s : FileState) (commandID : String) : FileState :=
  { s with leases := Function.update s.leases commandID none }

/-- The write `Daemon.Process` makes through the `Sync` pointer of the result it was handed, which
is the pointer the stored result holds. -/
def stamp (s : FileState) (commandID : String) (lease : CommandLease) : FileState :=
  { s with
    results := Function.update s.results commandID
      ((s.results commandID).map fun r =>
        { r with sync := r.sync.map fun sync =>
          { sync with commandID := commandID, lease := lease } }) }

@[simp] theorem persisted_active (s : FileState) : s.persisted.active = s.active := rfl

@[simp] theorem persisted_leases (s : FileState) : s.persisted.leases = s.leases := rfl

@[simp] theorem persisted_results (s : FileState) (id : String) :
    s.persisted.results id = (s.results id).map CommandResult.persisted := rfl

@[simp] theorem persisted_persisted (s : FileState) : s.persisted.persisted = s.persisted := by
  cases s with
  | mk results active leases =>
    simp only [persisted, Option.map_map, mk.injEq, and_true]
    funext id
    cases results id <;> simp

@[simp] theorem setActive_active (s : FileState) (svc : String) (a : ActiveAssignment) :
    (s.setActive svc a).active = Function.update s.active svc (some a) := rfl

@[simp] theorem setActive_results (s : FileState) (svc : String) (a : ActiveAssignment) :
    (s.setActive svc a).results = s.results := rfl

@[simp] theorem commit_active (s : FileState) (id svc : String) (r : CommandResult)
    (a : Option ActiveAssignment) :
    (s.commit id svc r a).active = Function.update s.active svc a := rfl

@[simp] theorem commit_results (s : FileState) (id svc : String) (r : CommandResult)
    (a : Option ActiveAssignment) :
    (s.commit id svc r a).results = Function.update s.results id (some r) := rfl

@[simp] theorem setLease_active (s : FileState) (id : String) (l : CommandLease) :
    (s.setLease id l).active = s.active := rfl

@[simp] theorem setLease_results (s : FileState) (id : String) (l : CommandLease) :
    (s.setLease id l).results = s.results := rfl

@[simp] theorem clearLease_active (s : FileState) (id : String) :
    (s.clearLease id).active = s.active := rfl

@[simp] theorem clearLease_results (s : FileState) (id : String) :
    (s.clearLease id).results = s.results := rfl

@[simp] theorem stamp_active (s : FileState) (id : String) (l : CommandLease) :
    (s.stamp id l).active = s.active := rfl

@[simp] theorem stamp_persisted (s : FileState) (id : String) (l : CommandLease) :
    (s.stamp id l).persisted = s.persisted := by
  cases s with
  | mk results active leases =>
    simp only [persisted, stamp, mk.injEq, and_true]
    funext i
    by_cases hi : i = id
    · subst hi
      rw [Function.update_self]
      cases results i with
      | none => rfl
      | some r =>
        cases r with
        | mk status code message sync => cases sync <;> rfl
    · rw [Function.update_of_ne hi]

end FileState

/-- `FileStore`: the state in memory and the one in the file. -/
structure FileStore where
  mem : FileState := {}
  disk : FileState := {}

namespace FileStore

/-- A mutation of memory followed by `persist`, which fails if `write` is an error. -/
def mutate (s : FileStore) (f : FileState → FileState) (write : Option String) : FileStore :=
  match write with
  | none => ⟨f s.mem, (f s.mem).persisted⟩
  | some _ => { s with mem := f s.mem }

/-- `NewFileStore` on the file a crash left. -/
def reload (s : FileStore) : FileStore := { s with mem := s.disk }

def Saved (s : FileStore) : Prop := s.disk = s.mem.persisted

theorem Saved.reload {s : FileStore} (h : s.Saved) : s.reload.Saved := by
  show s.disk = s.disk.persisted
  rw [show s.disk = s.mem.persisted from h, FileState.persisted_persisted]

@[simp] theorem mutate_mem (s : FileStore) (f : FileState → FileState) (w : Option String) :
    (s.mutate f w).mem = f s.mem := by
  cases w <;> rfl

theorem Saved.mutate (s : FileStore) (f : FileState → FileState) : (s.mutate f none).Saved := rfl

end FileStore

end SharedNode.Agent
