import AgentMesh.Machine
import AgentMesh.Table
import AgentMesh.Pointwise
import AgentMesh.Optimistic
import AgentMesh.Dataflow
import AgentMesh.Keyed
import AgentMesh.Announce
import AgentMesh.Ancestry
import AgentMesh.Permits
import AgentMesh.Lookaside
import AgentMesh.Rows
import AgentMesh.Sorting
import AgentMesh.Tokens
import AgentMesh.Window
import AgentMesh.Netip
import AgentMesh.Url
import AgentMesh.Http
import AgentMesh.Mux
import AgentMesh.Text
import AgentMesh.Run
import AgentMesh.Agent
import AgentMesh.Approval
import AgentMesh.Workflow
import AgentMesh.Memory
import AgentMesh.Operations
import AgentMesh.Fencing
import AgentMesh.Engine
import AgentMesh.Submit
import AgentMesh.Manager
import AgentMesh.Flow
import AgentMesh.Acceptance
import AgentMesh.CycleCheck
import AgentMesh.Mesh
import AgentMesh.Ownership
import AgentMesh.Scheduling
import AgentMesh.Moves
import AgentMesh.Reconcile
import AgentMesh.RunSafety
import AgentMesh.FlowSafety
import AgentMesh.Readiness
import AgentMesh.Adoption
import AgentMesh.Orphans
import AgentMesh.Determinacy
import AgentMesh.Attempts
import AgentMesh.Acknowledge
import AgentMesh.Delivery
import AgentMesh.Tasks
import AgentMesh.Siblings
import AgentMesh.FlowEvents
import AgentMesh.EventStream
import AgentMesh.RunEvents
import AgentMesh.Bus
import AgentMesh.BusDelivery
import AgentMesh.Replay
import AgentMesh.Cluster
import AgentMesh.Recovery
import AgentMesh.Cached
import AgentMesh.Visibility
import AgentMesh.Transparency
import AgentMesh.Postgres
import AgentMesh.Parity
import AgentMesh.Lineage
import AgentMesh.Requests
import AgentMesh.Desk
import AgentMesh.Submission
import AgentMesh.AgentCalls
import AgentMesh.Approvals
import AgentMesh.Tools
import AgentMesh.Gate
import AgentMesh.Acyclicity
import AgentMesh.Leases
import AgentMesh.JobQueue
import AgentMesh.Router
import AgentMesh.HostPolicy
import AgentMesh.Outbound
import AgentMesh.Credentials
import AgentMesh.Roles
import AgentMesh.Health
import AgentMesh.References
import AgentMesh.Reinitialize
import AgentMesh.Capability
import AgentMesh.Migration
import AgentMesh.Listings
import AgentMesh.Records
import AgentMesh.BusHistory
import AgentMesh.Histories
import AgentMesh.JsonLexer
import AgentMesh.Json
import AgentMesh.Decoder
import AgentMesh.Marshal
import AgentMesh.Fields
import AgentMesh.RequestBody
import AgentMesh.Arguments
import AgentMesh.Inputs
import AgentMesh.CallAncestry
import AgentMesh.Backoff
import AgentMesh.AttemptKeys
import AgentMesh.Keepers
