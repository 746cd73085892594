import SharedNode.Workspace.Draft
import SharedNode.Workspace.Node

/-!
# Moving objects

Model of `internal/workspace/transfer.go` and of the parts of `workspace.go` between the manager and
the store: the checks of the broker's grants, a `GET` with its limit, a conditional `PUT` that
compares an object that already exists, and the retries around them with a fresh grant each.
-/

namespace SharedNode.Workspace

open Text ControlPlane Storage Effect

/-! ## Grants -/

/-- `grantsByKeySubset`, the loop; `result` are the grants so far. -/
def grantsByKeySubset (allowed : List Bytes) (method : Method) :
    List Grant → List Grant → Except String (List Grant)
  | [], result => .ok result
  | grant :: rest, result =>
    if grant.method ≠ method then .error "broker grant has unexpected HTTP method"
    else if !allowed.contains grant.key then
      .error "broker grant is for an unexpected object key"
    else if result.any fun other => other.key = grant.key then
      .error "broker returned duplicate object grant"
    else grantsByKeySubset allowed method rest (result ++ [grant])

def grantsByKey (response : List Grant) (keys : List Bytes) (method : Method) :
    Except String (List Grant) := do
  let result ← grantsByKeySubset keys method response []
  if result.length ≠ keys.length then throw "broker did not grant every required object"
  return result

def grantFor (grants : List Grant) (key : Bytes) : Grant :=
  (grants.find? fun grant => grant.key = key).getD ⟨[], .get, false⟩

def oneGrant (response : List Grant) (key : Bytes) (method : Method) : Except String Grant := do
  let grants ← grantsByKey response [key] method
  return grantFor grants key

/-! ## Transfers -/

/-- `DirectTransfer.validateGrant`. -/
def validateGrant (grant : Grant) (key : Bytes) (method : Method) : Except String Unit :=
  if grant.key ≠ key || grant.method ≠ method || !grant.usable then
    .error "grant does not match expected direct object operation"
  else .ok ()

/-- `DirectTransfer.Download`; the bytes determine the size and the digest it returns. -/
def download (grant : Grant) (key : Bytes) (limit : Int) : M Bytes := do
  check (validateGrant grant key .get)
  let body ← ask (.get key)
  if limit < body.length then throw "object exceeds configured transfer limit"
  return body

/-- `DirectTransfer.verifyExisting`. -/
def verifyExisting (key : Bytes) (size : Int) (expectedSHA256 : Bytes) : M Unit := do
  let body ← ask (.get key)
  if (body.length : Int) ≠ size || sha256 body ≠ expectedSHA256 then
    throw "existing immutable object does not match descriptor"

/-- `DirectTransfer.Upload`. A source that has not `size` bytes makes the request fail; one that is
longer is noticed only after the store has got `size` bytes. -/
def upload (grant : Grant) (key bytes : Bytes) (size : Int) (expectedSHA256 : Bytes) : M Unit := do
  if size < 0 || !validDigest expectedSHA256 then throw "invalid direct upload descriptor"
  check (validateGrant grant key .put)
  if size < bytes.length then
    let _ ← attempt (ask (.put key (bytes.take size.toNat)))
    throw "send direct PUT request: upload source exceeds descriptor size"
  if (bytes.length : Int) < size then throw "send direct PUT request: source is too short"
  match ← ask (.put key bytes) with
  | .alreadyExists => verifyExisting key size expectedSHA256
  | .created =>
    if sha256 bytes ≠ expectedSHA256 then throw "direct upload source does not match descriptor"

/-! ## Batches -/

def restoreGrantBatch : Nat := 8

/-- A list in batches of eight; `n` bounds their number. -/
def batches {α : Type} : Nat → List α → List (List α)
  | 0, _ => []
  | n + 1, l =>
    if l.isEmpty then [] else l.take restoreGrantBatch :: batches n (l.drop restoreGrantBatch)

/-! ## Retries -/

/-- `downloadArchiveWithGrant`: the archive ends up in the file `p`. -/
def downloadArchiveWithGrant (descriptor : WorkspaceBlob) (p : Path) (nextGrant : Nat → M Grant) :
    M Bytes :=
  retried ("download workspace blob: " ++ ·) (fun n => do
    let _ ← attempt (ask (.remove p))
    describing "create staged archive" (ask (.openExclusive p))
    match ← attempt (nextGrant n) with
    | .error err =>
      let _ ← attempt (ask (.remove p))
      throw err
    | .ok grant =>
      let result ← attempt do
        let body ← download grant descriptor.key descriptor.compressedSize
        ask (.write p body)
        return body
      match result with
      | .ok body => return .ok body
      | .error err =>
        let _ ← attempt (ask (.remove p))
        return .error err) transferAttempts 0

def downloadArchiveWithRefresh (descriptor : WorkspaceBlob) (p : Path) (initial : Grant) :
    M Bytes :=
  downloadArchiveWithGrant descriptor p fun n => do
    if n = 0 then return initial
    let response ← describing "refresh workspace blob grant"
      (ask (.grants (.restore "blobs" [descriptor.key])))
    check (oneGrant response descriptor.key .get)

def pathOf (text : Bytes) : Path := cleanSteps text

def pathText (p : Path) : Bytes := slash :: [slash].intercalate p

/-- `os.Open` and reading to the end. -/
def readFile (p : Path) : M Bytes := do
  match ← ask (.read p) with
  | some bytes => return bytes
  | none => throw "no such file"

/-- `uploadArchiveWithRefresh`. A refreshed response without a grant says that the object is already
published. -/
def uploadArchiveWithRefresh (manifest : WorkspaceManifest) (manifestSHA : Bytes)
    (archive : Archive) (initial : Grant) : M Unit :=
  retried ("upload workspace blob: " ++ ·) (fun n => do
    let bytes ← describing "open workspace archive" (readFile (pathOf archive.path))
    let grant ← if n = 0 then pure (some initial) else do
      let response ← describing "refresh workspace upload grant"
        (ask (.grants (.sync manifest manifestSHA [archive.descriptor.key])))
      let grants ← check (grantsByKeySubset [archive.descriptor.key] .put response [])
      pure (grants.find? fun grant => grant.key = archive.descriptor.key)
    match grant with
    | none => return .ok ()
    | some grant =>
      attempt (upload grant archive.descriptor.key bytes archive.descriptor.compressedSize
        archive.descriptor.sha256)) transferAttempts 0

def uploadBytes (grant : Grant) (key value expectedSHA : Bytes) : M Unit :=
  retried id (fun _ =>
    attempt (upload grant key value value.length expectedSHA)) transferAttempts 0

end SharedNode.Workspace
