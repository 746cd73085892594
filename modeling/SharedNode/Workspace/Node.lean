import SharedNode.Effect.Fallible
import SharedNode.Text.Time
import SharedNode.Workspace.Encoding
import SharedNode.Workspace.Layers

/-!
# What a workspace manager works on

The manager of `internal/workspace` keeps the workspaces of the services below one directory, gets
grants from the control plane's broker and moves archives to and from the object store. `Op` are the
calls it makes: file operations on the local disk, the quota helper, the broker, HTTP requests to
the store, and its own map of restored manifests.

`Env` are the choices of the outside for one call: a local call may fail, a failed write may leave
part of the file, the broker may answer anything, a request to the store may fail, a failed `PUT`
may have been carried out, a `GET` may serve other bytes than were stored. The store never replaces
an object: every grant for a `PUT` carries `If-None-Match: *`.

`Codec` stands for the archive formats: the `.tar.zst` files the agent writes and reads, and the
zip of an initial world.

Left out: the modes and owners of files. Links are not followed.
-/

namespace SharedNode.Workspace

open Text ControlPlane Storage Effect

/-! ## Archives -/

/-- A member of an archive as it is read: `body` is what can be read of its `size` bytes. -/
structure Member where
  regular : Bool
  name : Bytes
  size : Int
  body : Bytes
  deriving DecidableEq, Repr

/-- An entry of a zip file; `body` is what can be read of it, if it can be opened. -/
structure ZipEntry where
  name : Bytes
  isDir : Bool
  isSymlink : Bool
  size : Nat
  body : Option Bytes
  deriving DecidableEq, Repr

structure Codec where
  /-- The archive of regular files with the given names and bytes. -/
  encode : List (Bytes × Bytes) → Bytes
  /-- The members that can be read of an archive, and whether it ends after them. -/
  decode : Bytes → List Member × Bool
  /-- The entries of a zip file. -/
  unzip : Bytes → Option (List ZipEntry)

def fileMember (file : Bytes × Bytes) : Member := ⟨true, file.1, file.2.length, file.2⟩

/-! ## Grants -/

inductive Method where
  | get
  | put
  deriving DecidableEq, Repr

/-- `WorkspaceGrant`. `usable`: its URL is the object's, it has not expired and its headers are the
expected ones. -/
structure Grant where
  key : Bytes
  method : Method
  usable : Bool
  deriving DecidableEq, Repr

inductive GrantRequest where
  | restore (kind : String) (keys : List Bytes)
  | sync (manifest : WorkspaceManifest) (manifestSHA : Bytes) (keys : List Bytes)
  | publish (manifest : WorkspaceManifest) (manifestSHA : Bytes)

/-! ## Calls -/

abbrev Objects := Bytes → Option Bytes

/-- The store with one more object, unless one has the key. -/
def Objects.put (objects : Objects) (key bytes : Bytes) : Objects :=
  fun k => if k = key then some ((objects key).getD bytes) else objects k

/-- The state a manager works on. -/
structure World where
  disk : Disk
  objects : Objects
  /-- `Manager.restored`. -/
  restored : Bytes → Option WorkspaceManifest

/-- The calls to the quota helper. -/
inductive QuotaCall where
  | prepare
  | seal
  | apply (gib : Int)
  deriving DecidableEq, Repr

/-- What the store says to a conditional `PUT`. -/
inductive PutReply where
  | created
  | alreadyExists
  deriving DecidableEq, Repr

/-- The calls of a manager. -/
inductive Op where
  | stat (p : Path)
  | mkdirAll (p : Path)
  | removeAll (p : Path)
  | remove (p : Path)
  | rename (p q : Path)
  | openExclusive (p : Path)
  | write (p : Path) (bytes : Bytes)
  | read (p : Path)
  | walk (p : Path)
  | quota (call : QuotaCall) (p : Path)
  | grants (request : GrantRequest)
  | get (key : Bytes)
  | put (key bytes : Bytes)
  | sleep (milliseconds : Nat)
  | recall (serviceID : Bytes)
  | remember (serviceID : Bytes) (manifest : WorkspaceManifest)
  | forget (serviceID : Bytes)

/-- What a call answers if it does not fail. A file that does not exist is no failure of `stat` and
`read`. -/
abbrev Reply : Op → Type
  | .stat _ => Option Node
  | .read _ => Option Bytes
  | .walk _ => List (Path × Node)
  | .grants _ => List Grant
  | .get _ => Bytes
  | .put _ _ => PutReply
  | .recall _ => Option WorkspaceManifest
  | _ => Unit

/-- The choices of the outside for one call. -/
structure Env where
  /-- A local call fails. -/
  io : Option String := none
  /-- What a failed write leaves in the file. -/
  written : Option Bytes := none
  now : Int := 0
  broker : Objects → GrantRequest → Except String (List Grant)
  /-- A request to the store fails. -/
  http : Option String := none
  /-- The store serves these bytes instead of the stored ones. -/
  served : Option Bytes := none
  /-- A failed `PUT` was carried out. -/
  carriedOut : Bool := false

abbrev Answer (op : Op) := Except String (Reply op)

/-- A change of the disk, which fails when the outside says so or the disk does not allow it. -/
def World.change (w : World) (e : Env) (f : Disk → Option Disk) : Except String Unit × World :=
  match e.io with
  | some err => (.error err, w)
  | none =>
    match f w.disk with
    | some disk => (.ok (), { w with disk })
    | none => (.error "file operation failed", w)

def World.cutWrite (w : World) (e : Env) (p : Path) : World :=
  match e.written.bind fun bytes => w.disk.writeFile p bytes e.now with
  | some disk => { w with disk }
  | none => w

def readNode : Option Node → Except String (Option Bytes)
  | none => .ok none
  | some (.file bytes _) => .ok (some bytes)
  | some _ => .error "not a regular file"

def handle : TotalHandler Op Answer Env World
  | .stat p, e, w => (e.io.elim (.ok (w.disk.get p)) .error, w)
  | .mkdirAll p, e, w => w.change e (·.mkdirAll p)
  | .removeAll p, e, w => w.change e fun disk => some (disk.removeAll p)
  | .remove p, e, w => w.change e (·.remove p)
  | .rename p q, e, w => w.change e (·.rename p q)
  | .openExclusive p, e, w => w.change e (·.create p [] e.now)
  | .write p bytes, e, w =>
    match e.io with
    | some err => (.error err, w.cutWrite e p)
    | none => w.change e (·.writeFile p bytes e.now)
  | .read p, e, w => (e.io.elim (readNode (w.disk.get p)) .error, w)
  | .walk p, e, w =>
    (match e.io with
      | some err => .error err
      | none =>
        if w.disk.get p = none then .error "no such directory"
        else .ok ((w.disk.below p).filterMap fun r => (w.disk.get (p ++ r)).map (r, ·)), w)
  | .quota _ _, e, w => (e.io.elim (.ok ()) .error, w)
  | .grants request, e, w => (e.broker w.objects request, w)
  | .get key, e, w =>
    (match e.http with
      | some err => .error err
      | none =>
        match e.served <|> w.objects key with
        | some bytes => .ok bytes
        | none => .error "direct GET returned HTTP 404", w)
  | .put key bytes, e, w =>
    match e.http with
    | some err =>
      (.error err, if e.carriedOut then { w with objects := w.objects.put key bytes } else w)
    | none =>
      (.ok (if (w.objects key).isSome then .alreadyExists else .created),
        { w with objects := w.objects.put key bytes })
  | .sleep _, e, w => (e.io.elim (.ok ()) .error, w)
  | .recall serviceID, _, w => (.ok (w.restored serviceID), w)
  | .remember serviceID manifest, _, w =>
    (.ok (), { w with restored := fun s => if s = serviceID then some manifest else w.restored s })
  | .forget serviceID, _, w =>
    (.ok (), { w with restored := fun s => if s = serviceID then none else w.restored s })

abbrev M (α : Type) := Fallible Op Answer α

def ask (op : Op) : M (Reply op) := request op

def check {α : Type} (r : Except String α) : M α := ExceptT.mk (.ret r)

/-- An error with a text before it (`fmt.Errorf("...: %w", err)`). -/
def describing {α : Type} (text : String) (p : M α) : M α :=
  ExceptT.mk (p.run.bind fun r => .ret (r.mapError (text ++ ": " ++ ·)))

/-- At most `left` attempts of `body`, with a pause after each one but the last; `body` throws to
give up at once and returns an error to be tried again. `giveUp` is the error after the last one. -/
def retried {α : Type} (giveUp : String → String) (body : Nat → M (Except String α)) :
    Nat → Nat → M α
  | 0, _ => throw "unreachable retry"
  | left + 1, attempt => do
    match ← body attempt with
    | .ok a => return a
    | .error err =>
      if left = 0 then throw (giveUp err)
      ask (.sleep (2 ^ attempt * 100))
      retried giveUp body left (attempt + 1)

def transferAttempts : Nat := 3

/-- A manager of workspaces. -/
structure Manager where
  /-- The directory of all workspaces. -/
  root : Path
  codec : Codec

/-- `filepath.Join` of a clean path and more text. -/
def joinPath (base : Path) (text : Bytes) : Path :=
  ((steps text).foldl (push true) base.reverse).reverse

def Manager.path (m : Manager) (serviceID : String) : Except String Path :=
  if !validIdentifier (lit serviceID) then .error "invalid service ID"
  else if m.root <+: joinPath m.root (lit serviceID) then .ok (joinPath m.root (lit serviceID))
  else .error "service workspace escapes configured root"

/-- A directory below `.staging`. -/
def Manager.staging (m : Manager) (name : String) : Path :=
  joinPath (joinPath m.root (lit ".staging")) (lit name)

def Manager.restoredPath (m : Manager) (serviceID : String) : Path :=
  joinPath (joinPath m.root (lit ".state")) (lit (serviceID ++ ".manifest.json"))

/-- A path with more text behind its last name. -/
def withEnding (p : Path) (ending : String) : Path :=
  p.dropLast ++ [p.getLast?.getD [] ++ lit ending]

def saveJSON (p : Path) (text : Bytes) : M Unit := do
  ask (.mkdirAll p.dropLast)
  ask (.write (withEnding p ".tmp") text)
  match ← attempt (ask (.rename (withEnding p ".tmp") p)) with
  | .ok () => return
  | .error err =>
    let _ ← attempt (ask (.remove (withEnding p ".tmp")))
    throw err

def Manager.persistRestored (m : Manager) (serviceID : String) (manifest : WorkspaceManifest) :
    M Unit := do
  if !validIdentifier (lit serviceID) then
    throw "invalid service ID for workspace manifest state"
  saveJSON (m.restoredPath serviceID) (marshal manifest)

end SharedNode.Workspace
