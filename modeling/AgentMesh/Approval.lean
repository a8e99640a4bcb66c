/-
AgentMesh/Approval.lean

Approvals of tool calls: the record of `internal/domain/approval.go`, its
initialisation and its expiry.

The arguments of a tool are a decoded JSON object of an arbitrary type.
`ArgumentFormat` holds the library functions that the source applies to them.
`ArgumentCodec` adds what it takes for granted of these: an object that is
encoded and decoded again is the same object, and no two texts have the same
digest.
-/
import AgentMesh.Text
import AgentMesh.Run

namespace AgentMesh

/-- `encoding/json` on argument objects, and the SHA-256 digest in hexadecimal. -/
structure ArgumentFormat (Args : Type) where
  /-- `json.Marshal`. -/
  marshal : Args → String
  /-- `json.Unmarshal` into a map: `none` for an error and for `null`. -/
  unmarshal : String → Option Args
  digest : String → String
  /-- The object without members. -/
  empty : Args

/-- A format with what is taken for granted of it. -/
structure ArgumentCodec (Args : Type) extends ArgumentFormat Args where
  marshal_ne : ∀ args, marshal args ≠ ""
  unmarshal_marshal : ∀ args, unmarshal (marshal args) = some args
  digest_injective : Function.Injective digest

/-- The status of an approval; `unset` is the zero value of the Go string type. -/
inductive ApprovalStatus
  | unset
  | pending
  | approved
  | rejected
  | consumed
  deriving DecidableEq, Repr, Inhabited

structure Approval where
  id : String := ""
  serverID : String := ""
  toolName : String := ""
  arguments : String := ""
  argumentsHash : String := ""
  reason : String := ""
  status : ApprovalStatus := .unset
  requestedBy : String := ""
  decidedBy : String := ""
  createdAt : Time := 0
  expiresAt : Time := 0
  decidedAt : Option Time := none
  consumedAt : Option Time := none
  version : Int := 0
  deriving DecidableEq, Repr, Inhabited

section Initialize

variable {Args : Type} (format : ArgumentFormat Args)

def approvalArgumentsHash (serverID toolName arguments : String) : String :=
  format.digest (trimSpace serverID ++ "\x00" ++ trimSpace toolName ++ "\x00" ++ arguments)

/-- `Initialize`; a decoded object can always be encoded again. -/
def initializeApproval (a : Approval) (now : Time) (ttl : Int) : Except Err Approval :=
  let a := { a with
    id := trimSpace a.id, serverID := trimSpace a.serverID, toolName := trimSpace a.toolName
    reason := trimSpace a.reason, requestedBy := trimSpace a.requestedBy }
  if a.id = "" ∨ a.serverID = "" ∨ a.toolName = "" ∨ a.requestedBy = "" then
    .error (errorf "approval ID, server_id, tool_name and requested_by are required")
  else if ttl ≤ 0 then .error (errorf "approval TTL must be positive")
  else
    match format.unmarshal (if a.arguments = "" then "\x7b\x7d" else a.arguments) with
    | none => .error (errorf "approval arguments must be a JSON object")
    | some arguments =>
        let canonical := format.marshal arguments
        .ok { a with
          arguments := canonical
          argumentsHash := approvalArgumentsHash format a.serverID a.toolName canonical
          status := .pending, createdAt := now, expiresAt := now + ttl, version := 1 }

end Initialize

def Approval.Expired (a : Approval) (now : Time) : Prop := a.expiresAt ≤ now

instance (a : Approval) (now : Time) : Decidable (a.Expired now) := by
  unfold Approval.Expired; infer_instance

end AgentMesh
