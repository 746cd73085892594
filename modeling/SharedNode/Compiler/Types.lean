import SharedNode.Text.Sha256

/-!
# Compiler jobs and publications

Model of the data of `compiler/src/compiler.mjs` and of its checks: the job, the grants, the output
of the builder, the publication made of it and the answer of the control plane to an upload
preparation. Texts are kept as bytes; the fields the worker only copies into the publication are
kept with it.

* A check of an object's exact keys is the record type itself.
* `Grant.https` is what `exactHttpsUrl` says of the grant's URL, and `Built.wellFormed` is the rest
  of `validateImmutableContent`: the entry list, the members of the archive and the generated files.
-/

namespace SharedNode.Compiler

open Text

def validKeySegment (s : Bytes) : Bool :=
  let alnum (b : UInt8) : Bool :=
    (0x41 ≤ b && b ≤ 0x5a) || (0x61 ≤ b && b ≤ 0x7a) || (0x30 ≤ b && b ≤ 0x39)
  let later (b : UInt8) : Bool := alnum b || b = 0x2e || b = 0x5f || b = 0x2d
  match s with
  | [] => false
  | first :: rest => alnum first && rest.all later && rest.length ≤ 254

def maxBundleBytes : Int := 400 * 1024 * 1024

structure InputArchive where
  key : Bytes
  sha256 : Bytes
  sizeBytes : Int
  deriving DecidableEq

/-- `frozenManifest.compatibility`, as far as the publication carries it. -/
structure Compatibility where
  minecraftVersion : Bytes := []
  javaComponent : Bytes := []
  javaMajor : Int := 0
  runtimeCatalogSha256 : Bytes := []
  loader : Bytes := []
  loaderVersion : Bytes := []
  deriving DecidableEq

structure FrozenManifest where
  sourceFormat : Bytes
  importId : Bytes
  archive : InputArchive
  compatibility : Compatibility := {}
  deriving DecidableEq

/-- A job of the compiler, as far as it is read. -/
structure Job where
  accountId : Bytes
  serviceId : Bytes
  deploymentId : Bytes
  compilerRequestId : Bytes
  manifestSha256 : Bytes
  expectedContentKey : Bytes
  frozenManifest : FrozenManifest
  deriving DecidableEq

/-- The prefix of a job's object keys. -/
def Job.keyBase (job : Job) : Bytes :=
  lit "shared-hosting/" ++ job.accountId ++ lit "/" ++ job.serviceId ++ lit "/"

/-- `validateCompilerJob`, with the code of its failure. -/
def validateCompilerJob (job : Job) : Option String :=
  let archive := job.frozenManifest.archive
  if ¬ (validKeySegment job.accountId && validKeySegment job.serviceId &&
      validKeySegment job.deploymentId && validSHA256 job.manifestSha256 &&
      validKeySegment job.compilerRequestId &&
      job.frozenManifest.sourceFormat = lit "xmcl_server_bundle") then some "invalid_job"
  else if ¬ (validSHA256 archive.sha256 && isSafeInteger archive.sizeBytes &&
      1 ≤ archive.sizeBytes && archive.sizeBytes ≤ maxBundleBytes &&
      validKeySegment job.frozenManifest.importId) then some "invalid_job"
  else if ¬ (archive.key = job.keyBase ++ lit "compiler-inputs/" ++ job.frozenManifest.importId ++
        lit ".xmcl-server-bundle" ∧
      job.expectedContentKey =
        job.keyBase ++ lit "compiler-content/" ++ job.manifestSha256 ++ lit ".tar.zst") then
    some "invalid_job"
  else none

inductive Method where
  | get
  | put
  | other
  deriving DecidableEq

/-- A signed grant for one object; `expiresAt` is what `Date.parse` makes of its expiry. -/
structure Grant where
  key : Bytes
  method : Method
  https : Bool
  expiresAt : Option Int
  headers : Option (List (Bytes × Bytes))
  deriving DecidableEq

structure GrantSet where
  accountId : Bytes
  serviceId : Bytes
  deploymentId : Bytes
  compilerRequestId : Bytes
  manifestSha256 : Bytes
  grants : List Grant
  deriving DecidableEq

def hasExactHeaders (value : Option (List (Bytes × Bytes))) (expected : List (Bytes × Bytes)) :
    Bool :=
  match value with
  | none => expected.isEmpty
  | some headers => headers.length = expected.length && expected.all headers.contains

def hasExactOutputHeaders (value : Option (List (Bytes × Bytes))) : Bool :=
  hasExactHeaders value [(lit "if-none-match", lit "*")] ||
    hasExactHeaders value
      [(lit "if-none-match", lit "*"), (lit "x-ms-blob-type", lit "BlockBlob")]

/-- `isExactSignedGrant`: a `PUT` grant has headers. -/
def isExactSignedGrant (grant : Grant) (method : Method) : Bool :=
  (method ≠ .put || grant.headers.isSome) && grant.method = method && grant.https &&
    grant.expiresAt.any isSafeInteger

def isExactReconciliationGrant (grant : Grant) (expectedKey : Bytes) : Bool :=
  grant.method = .get && grant.key = expectedKey && isExactSignedGrant grant .get &&
    hasExactHeaders grant.headers []

/-- `verifyGrantSet`; the expiry is checked if a clock is given. -/
def verifyGrantSet (set : GrantSet) (job : Job) (now : Option Int) :
    Except String (Grant × Grant) :=
  if ¬ (set.accountId = job.accountId ∧ set.serviceId = job.serviceId ∧
      set.deploymentId = job.deploymentId ∧ set.compilerRequestId = job.compilerRequestId ∧
      set.manifestSha256 = job.manifestSha256) then .error "invalid_grants"
  else
    match set.grants.find? (·.method = .get), set.grants.find? (·.method = .put) with
    | some input, some output =>
      if set.grants.length = 2 && input.key = job.frozenManifest.archive.key &&
          output.key = job.expectedContentKey && isExactSignedGrant input .get &&
          isExactSignedGrant output .put && hasExactHeaders input.headers [] &&
          hasExactOutputHeaders output.headers &&
          now.all fun now => isSafeInteger now && 0 < now && input.expiresAt.any (now < ·) &&
            output.expiresAt.any (now < ·) then
        .ok (input, output)
      else .error "invalid_grants"
    | _, _ => .error "invalid_grants"

/-- The check of a downloaded body in `downloadExact`. -/
def exactBody (bytes : Bytes) (expected : InputArchive) : Except String Bytes :=
  if ¬ (1 ≤ bytes.length ∧ (bytes.length : Int) ≤ maxBundleBytes ∧
      (bytes.length : Int) = expected.sizeBytes) then .error "input_size_mismatch"
  else if sha256 bytes ≠ expected.sha256 then .error "input_hash_mismatch"
  else .ok bytes

structure Entry where
  path : Bytes
  sizeBytes : Int
  deriving DecidableEq

/-- The launch part of the built descriptor. -/
structure Launch where
  kind : Bytes
  path : Bytes
  arguments : List Bytes
  deriving DecidableEq

/-- What `builder.build` returns. -/
structure Built where
  archive : Bytes
  key : Bytes
  sha256 : Bytes
  sizeBytes : Int
  entries : List Entry
  launch : Launch
  wellFormed : Bool
  deriving DecidableEq

def verifyBuiltContent (built : Built) (job : Job) : Option String :=
  if ¬ (built.key = job.expectedContentKey ∧ built.launch.path = lit ".xmcl/launch.sh" ∧
      built.launch.kind = lit "generated-server-launcher" ∧ built.launch.arguments = []) then
    some "invalid_builder_output"
  else if ¬ (built.sha256 = Text.sha256 built.archive ∧ isSafeInteger built.sizeBytes ∧
      built.sizeBytes = built.archive.length ∧ built.wellFormed) then
    some "invalid_builder_output"
  else none

/-- `publication.content`. -/
structure Content where
  key : Bytes
  sha256 : Bytes
  compressedSize : Int
  logicalSize : Int
  paths : List Bytes
  deriving DecidableEq

/-- `publication.descriptor`. -/
structure Descriptor where
  compatibility : Compatibility
  launch : Launch
  contentSha256 : Bytes
  deriving DecidableEq

/-- What a run asks the control plane to publish. -/
structure Publication where
  deploymentId : Bytes
  manifestSha256 : Bytes
  content : Content
  descriptor : Descriptor
  deriving DecidableEq

def publicationForControlPlane (job : Job) (built : Built) : Publication where
  deploymentId := job.deploymentId
  manifestSha256 := job.manifestSha256
  content :=
    { key := built.key, sha256 := built.sha256, compressedSize := built.sizeBytes,
      logicalSize := (built.entries.map (·.sizeBytes)).sum, paths := built.entries.map (·.path) }
  descriptor :=
    { compatibility := job.frozenManifest.compatibility, launch := built.launch,
      contentSha256 := built.sha256 }

inductive PreparedStatus where
  | uploadPrepared
  | uploadExisting
  deriving DecidableEq

/-- The answer to an upload preparation. -/
structure Prepared where
  status : PreparedStatus
  publication : Publication
  reconciliation : Grant
  deriving DecidableEq

def verifyPreparedUpload (value : Prepared) (job : Job) : Except String Publication :=
  let content := value.publication.content
  if value.publication.deploymentId = job.deploymentId &&
      value.publication.manifestSha256 = job.manifestSha256 &&
      content.key = job.expectedContentKey && validSHA256 content.sha256 &&
      isSafeInteger content.compressedSize && 1 ≤ content.compressedSize &&
      isSafeInteger content.logicalSize && 1 ≤ content.logicalSize then
    .ok value.publication
  else .error "invalid_upload_preparation"

inductive FailureCode where
  | unsupportedCompatibility
  | compilerUnavailable
  | compilerFailed
  deriving DecidableEq

/-- `classifyFailure`, of the code an error carries. -/
def classifyFailure (code : String) : FailureCode :=
  if code = "unsupported_compatibility" then .unsupportedCompatibility
  else if code = "compiler_unavailable" then .compilerUnavailable
  else .compilerFailed

/-- The object `o` is the one the content describes. -/
def Content.Describes (content : Content) (o : Bytes) : Prop :=
  Text.sha256 o = content.sha256 ∧ (o.length : Int) = content.compressedSize

instance (content : Content) (o : Bytes) : Decidable (content.Describes o) :=
  inferInstanceAs (Decidable (_ ∧ _))

theorem describes_of_verified {built : Built} {job : Job}
    (h : verifyBuiltContent built job = none) :
    (publicationForControlPlane job built).content.Describes built.archive := by
  unfold verifyBuiltContent at h
  split at h
  · cases h
  split at h
  · cases h
  next hok =>
    obtain ⟨hsha, -, hsize, -⟩ := not_not.mp hok
    exact ⟨hsha.symm, hsize.symm⟩

theorem key_of_verifyPreparedUpload {value : Prepared} {job : Job} {p : Publication}
    (h : verifyPreparedUpload value job = .ok p) :
    p = value.publication ∧ p.content.key = job.expectedContentKey := by
  simp only [verifyPreparedUpload] at h
  split at h
  next hok =>
    cases h
    simp only [Bool.and_eq_true, decide_eq_true_eq] at hok
    exact ⟨rfl, hok.1.1.1.1.1.2⟩
  · cases h

end SharedNode.Compiler
