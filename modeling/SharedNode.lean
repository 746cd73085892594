import SharedNode.Agent.Origin
import SharedNode.Agent.Replay
import SharedNode.Compiler.Output
import SharedNode.Compiler.Attempts
import SharedNode.Workspace.Rollback
import SharedNode.Agent.Durable
import SharedNode.Compiler.QueueFaults
import SharedNode.Agent.Freshness
import SharedNode.Agent.Loss
import SharedNode.Agent.Health
import SharedNode.Agent.Enrollment
import SharedNode.Workspace.Aggregate
import SharedNode.Workspace.Publication
import SharedNode.Compiler.Conduct
import SharedNode.Compiler.Envelope
import SharedNode.Compiler.QueueRefinement
import SharedNode.Compiler.Documents
import SharedNode.Compiler.ReplayCache
import SharedNode.Compiler.ReplayFaults
import SharedNode.ControlPlane.Persisted
import SharedNode.Bootstrap.Approval
import SharedNode.Bootstrap.Environment
import SharedNode.Compiler.Canonical
import SharedNode.Compiler.Signature
import SharedNode.Quota.ProjectId
import SharedNode.Agent.Tenancy
import SharedNode.Agent.Status
