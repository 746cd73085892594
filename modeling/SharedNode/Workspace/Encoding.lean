import SharedNode.Text.Struct
import SharedNode.Workspace.Manifest

/-!
# Manifests as JSON

What `json.Marshal` writes for a manifest and what `json.Unmarshal` reads into one, following the
field tags of `internal/controlplane/types.go`. Unknown members are skipped.

Left out: a nil slice is written `null` and an empty one `[]`; both are read as no elements, and the
model has the empty list for both.
-/

namespace SharedNode.Workspace

open Text

/-- The tags of `WorkspaceBlob`. -/
def blobFields : List (Text.Field ControlPlane.WorkspaceBlob) :=
  [field "key" (·.key) (fun b v => { b with key := v }) text,
   field "sha256" (·.sha256) (fun b v => { b with sha256 := v }) text,
   field "compressedSize" (·.compressedSize) (fun b v => { b with compressedSize := v }) integer,
   field "logicalSize" (·.logicalSize) (fun b v => { b with logicalSize := v }) integer,
   field "paths" (·.paths) (fun b v => { b with paths := v }) (listOf text)]

def blob : Codec ControlPlane.WorkspaceBlob := struct false blobFields {}

/-- The tags of `WorkspaceManifest`. -/
def manifestFields : List (Text.Field ControlPlane.WorkspaceManifest) :=
  [field "schemaVersion" (·.schemaVersion) (fun m v => { m with schemaVersion := v }) integer,
   field "serviceId" (·.serviceID) (fun m v => { m with serviceID := v }) text,
   field "assignmentId" (·.assignmentID) (fun m v => { m with assignmentID := v }) text,
   field "revision" (·.revision) (fun m v => { m with revision := v }) integer,
   field "createdAt" (·.createdAt) (fun m v => { m with createdAt := v }) text,
   field "logicalSize" (·.logicalSize) (fun m v => { m with logicalSize := v }) integer,
   field "manifestHash" (·.manifestHash) (fun m v => { m with manifestHash := v }) text,
   field "aggregateSha256" (·.aggregateSHA256) (fun m v => { m with aggregateSHA256 := v }) text,
   (field "content" (·.content) (fun m v => { m with content := v }) (nilable blob)).omitEmpty
     Option.isNone,
   (field "config" (·.config) (fun m v => { m with config := v }) (nilable blob)).omitEmpty
     Option.isNone,
   field "world" (·.world) (fun m v => { m with world := v }) (listOf blob)]

/-- `json.Marshal` of a manifest. -/
def marshal (m : ControlPlane.WorkspaceManifest) : Bytes := renderFields manifestFields m

/-- `json.Unmarshal` into a new manifest. -/
def unmarshal (text : Bytes) : Option ControlPlane.WorkspaceManifest :=
  (parse text).bind (readFields false manifestFields {})

end SharedNode.Workspace
