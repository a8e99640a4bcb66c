/-
AgentMesh/Gate.lean

The approval gate in front of gated MCP tools: the handlers `callTool`,
`createApproval`, `approveApproval` and `rejectApproval` of
`internal/httpapi/server.go` over the Memory store and the tool gateway.

`callTool` is three steps: the checks up to the consumption of an approval, the
consumption, and the invocation.  Between them other requests may run, and each
step looks at `server_id` and `name` in a way of its own: the check trims the
server but not the name, the consumption compares both as they are and hashes
them trimmed, and the invocation trims both.

For one server, tool and argument object the approvals are permits in the sense
of `Permits`: an approve decision grants one, the store has those that are
approved and not consumed, a call that has consumed one holds it, and the
invocation spends it.  The invariant is that nothing of a gated tool is held or
spent that was not granted.
-/
import AgentMesh.Permits
import AgentMesh.Tools
import AgentMesh.Approvals

namespace AgentMesh

open Machine

/-! ### Requests and replies -/

/-- `callToolRequest`; absent arguments are Go's nil map. -/
structure ToolRequest (Args : Type) where
  serverID : String := ""
  name : String := ""
  arguments : Option Args := none
  approvalID : String := ""

/-- `createApprovalRequest`. -/
structure ApprovalRequest (Args : Type) where
  serverID : String := ""
  toolName : String := ""
  arguments : Option Args := none
  reason : String := ""

/-- A call of a tool as the MCP server receives it. -/
structure ToolCall (Args : Type) where
  serverID : String
  toolName : String
  arguments : Args
  deriving DecidableEq

structure ToolReply where
  code : Nat
  text : String := ""
  approval : Option Approval := none

def writeToolError (err : Err) : ToolReply :=
  if err.is .mcpServerNotFound then { code := 404, text := "MCP server not found" }
  else if err.is .mcpToolDenied then { code := 403, text := "MCP tool denied by policy" }
  else if err.is .mcpTimeout then { code := 504, text := "MCP tool request timed out" }
  else { code := 502, text := "MCP server request failed" }

def writeApprovalError (err : Err) : ToolReply :=
  if err.is .notFound then { code := 404, text := "approval not found" }
  else if err.is .approvalExpired then { code := 410, text := "approval expired" }
  else if err.is .approvalMismatch then { code := 409, text := "approval does not match tool call" }
  else if err.is .approvalNotPending ∨ err.is .approvalNotApproved then
    { code := 409, text := err.text }
  else { code := 500, text := "approval operation failed" }

/-- `approvalActor`, for the subject of the identity in the context. -/
def approvalActor (subject : Option String) : String :=
  match subject.filter fun subject => trimSpace subject ≠ "" with
  | some subject => subject
  | none => "anonymous"

/-- `callTool` up to the consumption of an approval; the answer says whether it consumes one. -/
def admitCall {Args : Type} (registry : Registry) (request : ToolRequest Args) :
    Except ToolReply Bool :=
  if trimSpace request.serverID = "" ∨ trimSpace request.name = "" then
    .error { code := 400, text := "server_id and name are required" }
  else
    match registry.requiresApproval request.serverID request.name with
    | .error err => .error (writeToolError err)
    | .ok required =>
        if required = true ∧ trimSpace request.approvalID = "" then
          .error { code := 428, text := "approved approval_id is required for this tool" }
        else .ok (trimSpace request.approvalID ≠ "")

section Handlers

variable {Args : Type} (format : ArgumentFormat Args)

/-- An object that was decoded can be encoded. -/
def canonicalToolArguments (arguments : Option Args) : String :=
  format.marshal (arguments.getD format.empty)

/-- The consumption in `callTool`. -/
def ToolRequest.consumeApproval (request : ToolRequest Args) (m : Memory) (now : Time) :
    Except Err (Memory × Approval) :=
  m.consumeApproval (trimSpace request.approvalID) request.serverID request.name
    (approvalArgumentsHash format request.serverID request.name
      (canonicalToolArguments format request.arguments)) now

/-- The handler `createApproval`; `newID` is the generated ID, and the clock is read by
`Initialize` and by `CreateApproval`. -/
def receiveApproval (registry : Registry) (ttl retention : Int) (request : ApprovalRequest Args)
    (newID actor : String) (createdAt now : Time) (m : Memory) : Memory × ToolReply :=
  match registry.requiresApproval (trimSpace request.serverID) (trimSpace request.toolName) with
  | .error err => (m, writeToolError err)
  | .ok false => (m, { code := 400, text := "tool does not require approval" })
  | .ok true =>
      match initializeApproval format
          { id := newID, serverID := trimSpace request.serverID
            toolName := trimSpace request.toolName
            arguments := canonicalToolArguments format request.arguments
            reason := trimSpace request.reason, requestedBy := actor } createdAt ttl with
      | .error err => (m, { code := 400, text := err.text })
      | .ok approval =>
          match m.createApproval approval retention now with
          | .error _ => (m, { code := 500, text := "could not create approval" })
          | .ok (m, created) => (m, { code := 201, approval := some created })

end Handlers

/-- The call that the gateway makes for a request. -/
def ToolRequest.call {Args : Type} (codec : ArgumentCodec Args) (request : ToolRequest Args) :
    ToolCall Args :=
  ⟨trimSpace request.serverID, trimSpace request.name, request.arguments.getD codec.empty⟩

/-! ### The machine -/

/-- The server, with the `callTool` requests in progress and the history of what was approved and
what was invoked.  A call that has consumed an approval goes on with it. -/
structure Gate (Args : Type) where
  store : Memory := {}
  /-- Before `ConsumeApproval`. -/
  consuming : List (ToolRequest Args) := []
  /-- Before `CallTool`. -/
  invoking : List (ToolRequest Args × Option Approval) := []
  /-- The `tools/call` requests that were sent. -/
  invocations : List (ToolCall Args × Option Approval) := []
  /-- The approvals that an approve decision authorised. -/
  authorised : List Approval := []
  replies : List ToolReply := []

inductive GateAction (Args : Type)
  | createApproval (request : ApprovalRequest Args) (newID : String) (subject : Option String)
      (createdAt now : Time)
  /-- `approveApproval` and `rejectApproval`. -/
  | decideApproval (id : String) (approve : Bool) (subject : Option String) (now : Time)
  | callTool (request : ToolRequest Args)
  | consume (index : Nat) (now : Time)
  /-- `sent` says whether the request reaches the MCP server, `failure` how the call ends. -/
  | invoke (index : Nat) (sent : Bool) (failure : Option Err)

def Gate.reply {Args : Type} (s : Gate Args) (reply : ToolReply) : Gate Args :=
  { s with replies := s.replies ++ [reply] }

section Machine

variable {Args : Type} (codec : ArgumentCodec Args) (registry : Registry) (ttl retention : Int)

def Gate.consume (s : Gate Args) (index : Nat) (request : ToolRequest Args) (now : Time) :
    Gate Args :=
  let s := { s with consuming := s.consuming.eraseIdx index }
  match request.consumeApproval codec.toArgumentFormat s.store now with
  | .error err => s.reply (writeApprovalError err)
  | .ok (m, approval) => { s with store := m, invoking := s.invoking ++ [(request, some approval)] }

def Gate.invoke (s : Gate Args) (index : Nat) (entry : ToolRequest Args × Option Approval)
    (sent : Bool) (failure : Option Err) : Gate Args :=
  let s := { s with invoking := s.invoking.eraseIdx index }
  match registry.callTool entry.1.serverID entry.1.name with
  | .error err => s.reply (writeToolError err)
  | .ok (server, tool) =>
      let call := ⟨server.id, tool, entry.1.arguments.getD codec.empty⟩
      let s := { s with invocations := s.invocations ++ if sent then [(call, entry.2)] else [] }
      match failure with
      | some err => s.reply (writeToolError err)
      | none => s.reply { code := 200 }

def gateStep (s : Gate Args) : GateAction Args → Option (Gate Args)
  | .createApproval request newID subject createdAt now =>
      let (m, reply) := receiveApproval codec.toArgumentFormat registry ttl retention request newID
        (approvalActor subject) createdAt now s.store
      some ({ s with store := m }.reply reply)
  | .decideApproval id approve subject now =>
      match s.store.decideApproval id approve (approvalActor subject) now with
      | .error err => some (s.reply (writeApprovalError err))
      | .ok (m, approval) =>
          some ({ s with
            store := m
            authorised := s.authorised ++ if approve then [approval] else [] }.reply
              { code := 200, approval := some approval })
  | .callTool request =>
      match admitCall registry request with
      | .error reply => some (s.reply reply)
      | .ok true => some { s with consuming := s.consuming ++ [request] }
      | .ok false => some { s with invoking := s.invoking ++ [(request, none)] }
  | .consume index now => (s.consuming[index]?).map fun request => s.consume codec index request now
  | .invoke index sent failure =>
      (s.invoking[index]?).map fun entry => s.invoke codec registry index entry sent failure

end Machine

/-! ### What a step does -/

section Moves

variable {Args : Type} (codec : ArgumentCodec Args) (registry : Registry)

/-- What `Initialize` leaves in an approval and later operations keep. -/
structure Approval.Sealed (a : Approval) : Prop where
  serverID : trimSpace a.serverID = a.serverID
  toolName : trimSpace a.toolName = a.toolName
  hash : a.argumentsHash = approvalArgumentsHash codec.toArgumentFormat a.serverID a.toolName a.arguments

/-- The approval is for exactly this call. -/
def Approval.authorises (a : Approval) (call : ToolCall Args) : Bool :=
  a.serverID = call.serverID ∧ a.toolName = call.toolName ∧
    a.arguments = codec.marshal call.arguments

/-- A step, seen from the permits. -/
inductive Gate.Move (s t : Gate Args) : Prop
  | idle (store : t.store.approvals = s.store.approvals) (invoking : t.invoking = s.invoking)
      (invocations : t.invocations = s.invocations) (authorised : t.authorised = s.authorised)
  | created {a : Approval} (retention : Int) (now : Time) (initialized : a.Sealed codec)
      (status : a.status = .pending) (new : s.store.approvals.lookup a.id = none)
      (store : t.store.approvals = (s.store.pruneApprovals retention now).insert a.id a)
      (invoking : t.invoking = s.invoking) (invocations : t.invocations = s.invocations)
      (authorised : t.authorised = s.authorised)
  | decided {id : String} {a : Approval} (approve : Bool) (actor : String) (now : Time)
      (found : s.store.approvals.lookup id = some a) (pending : a.status = .pending)
      (store : t.store.approvals = s.store.approvals.insert id (a.decide approve actor now))
      (invoking : t.invoking = s.invoking) (invocations : t.invocations = s.invocations)
      (authorised : t.authorised =
        s.authorised ++ if approve then [a.decide approve actor now] else [])
  | passed {request : ToolRequest Args}
      (free : ¬ registry.Gated (request.call codec).serverID (request.call codec).toolName)
      (store : t.store.approvals = s.store.approvals)
      (invoking : t.invoking = s.invoking ++ [(request, none)])
      (invocations : t.invocations = s.invocations) (authorised : t.authorised = s.authorised)
  | consumed {request : ToolRequest Args} {id : String} {a : Approval} (now : Time)
      (found : s.store.approvals.lookup id = some a) (approved : a.status = .approved)
      (serverID : a.serverID = request.serverID) (toolName : a.toolName = request.name)
      (hash : a.argumentsHash = approvalArgumentsHash codec.toArgumentFormat request.serverID request.name
        (canonicalToolArguments codec.toArgumentFormat request.arguments))
      (store : t.store.approvals = s.store.approvals.insert id (a.consume now))
      (invoking : t.invoking = s.invoking ++ [(request, some (a.consume now))])
      (invocations : t.invocations = s.invocations) (authorised : t.authorised = s.authorised)
  | invoked {index : Nat} {entry : ToolRequest Args × Option Approval} (sent : Bool)
      (found : s.invoking[index]? = some entry)
      (store : t.store.approvals = s.store.approvals)
      (invoking : t.invoking = s.invoking.eraseIdx index)
      (invocations : t.invocations =
        s.invocations ++ if sent then [(entry.1.call codec, entry.2)] else [])
      (authorised : t.authorised = s.authorised)

end Moves

section Inversion

variable {Args : Type} {codec : ArgumentCodec Args} {registry : Registry} {ttl retention : Int}
  {s t : Gate Args} {m : Memory}

/-- A request that passes without an approval is for a tool that is not gated. -/
theorem not_gated_of_admitCall {request : ToolRequest Args}
    (h : admitCall registry request = .ok false) :
    ¬ registry.Gated (request.call codec).serverID (request.call codec).toolName := by
  rw [admitCall] at h
  split at h
  · cases h
  · split at h
    · cases h
    · rename_i required hrequired
      split at h
      · cases h
      · rename_i hadmit
        intro hgated
        obtain ⟨hname, hreq⟩ := Registry.requiresApproval_ok hrequired
        have hblank : trimSpace request.approvalID = "" := by simpa using Except.ok.inj h
        refine hadmit ⟨hreq ?_, hblank⟩
        rw [← trimSpace_of_validName hname]
        exact hgated

theorem receiveApproval_move {request : ApprovalRequest Args} {newID actor : String}
    {createdAt now : Time} {reply : ToolReply}
    (h : receiveApproval codec.toArgumentFormat registry ttl retention request newID actor createdAt now s.store =
      (m, reply)) (hstore : t.store = m) (hinvoking : t.invoking = s.invoking)
    (hinvocations : t.invocations = s.invocations) (hauthorised : t.authorised = s.authorised) :
    s.Move codec registry t := by
  have hidle (heq : s.store = m) : s.Move codec registry t :=
    .idle (by rw [hstore, heq]) hinvoking hinvocations hauthorised
  rw [receiveApproval] at h
  split at h
  · exact hidle (Prod.mk.inj h).1
  · exact hidle (Prod.mk.inj h).1
  · split at h
    · exact hidle (Prod.mk.inj h).1
    · rename_i a hinit
      split at h
      · exact hidle (Prod.mk.inj h).1
      · rename_i m' created hcreate
        obtain ⟨rfl, -⟩ := Prod.mk.inj h
        obtain ⟨hnew, -, hm⟩ := Memory.createApproval_ok hcreate
        obtain ⟨-, hstatus, hserver, htool, hhash⟩ := initializeApproval_ok hinit
        have hsealed : a.Sealed codec :=
          ⟨by rw [hserver, trimSpace_trimSpace], by rw [htool, trimSpace_trimSpace], hhash⟩
        exact .created retention now hsealed hstatus hnew (by rw [hstore, hm]) hinvoking
          hinvocations hauthorised

theorem Gate.consume_move {index : Nat} {request : ToolRequest Args} {now : Time} :
    s.Move codec registry (s.consume codec index request now) := by
  rw [Gate.consume]
  split
  · exact .idle rfl rfl rfl rfl
  · rename_i m' consumed hconsume
    obtain ⟨a, hfound, hserver, htool, hhash, happroved, -, rfl, rfl⟩ :=
      Memory.consumeApproval_ok hconsume
    exact .consumed now hfound happroved hserver htool hhash rfl rfl rfl rfl

theorem Gate.invoke_move {index : Nat} {entry : ToolRequest Args × Option Approval}
    (hentry : s.invoking[index]? = some entry) {sent : Bool} {failure : Option Err} :
    s.Move codec registry (s.invoke codec registry index entry sent failure) := by
  rw [Gate.invoke]
  split
  · exact .invoked false hentry rfl rfl (List.append_nil _).symm rfl
  · rename_i server tool hcall
    obtain ⟨hserver, htool⟩ := Registry.callTool_ok hcall
    have hsame : (⟨server.id, tool, entry.1.arguments.getD codec.empty⟩ : ToolCall Args) =
        entry.1.call codec := by
      rw [hserver, htool, ToolRequest.call]
    rw [hsame]
    cases failure with
    | none | some err => exact .invoked sent hentry rfl rfl rfl rfl

theorem Gate.move_of_step {a : GateAction Args}
    (h : gateStep codec registry ttl retention s a = some t) : s.Move codec registry t := by
  cases a with
  | createApproval request newID subject createdAt now =>
      rw [gateStep] at h
      obtain rfl := Option.some.inj h
      exact receiveApproval_move rfl rfl rfl rfl rfl
  | decideApproval id approve subject now =>
      rw [gateStep] at h
      split at h
      · obtain rfl := Option.some.inj h
        exact .idle rfl rfl rfl rfl
      · rename_i m' decided hdecide
        obtain rfl := Option.some.inj h
        obtain ⟨a, hfound, hpending, -, rfl, rfl⟩ := Memory.decideApproval_ok hdecide
        exact .decided approve _ now hfound hpending rfl rfl rfl rfl
  | callTool request =>
      rw [gateStep] at h
      split at h
      · obtain rfl := Option.some.inj h
        exact .idle rfl rfl rfl rfl
      · obtain rfl := Option.some.inj h
        exact .idle rfl rfl rfl rfl
      · rename_i hadmit
        obtain rfl := Option.some.inj h
        exact .passed (not_gated_of_admitCall hadmit) rfl rfl rfl rfl
  | consume index now =>
      rw [gateStep, Option.map_eq_some_iff] at h
      obtain ⟨request, -, rfl⟩ := h
      exact Gate.consume_move
  | invoke index sent failure =>
      rw [gateStep, Option.map_eq_some_iff] at h
      obtain ⟨entry, hentry, rfl⟩ := h
      exact Gate.invoke_move hentry

/-- The comparison of hashes is one of argument objects. -/
theorem ToolRequest.authorises_of_hash {request : ToolRequest Args} {a : Approval}
    (hsealed : a.Sealed codec) (hserver : a.serverID = request.serverID)
    (htool : a.toolName = request.name)
    (hhash : a.argumentsHash = approvalArgumentsHash codec.toArgumentFormat request.serverID request.name
      (canonicalToolArguments codec.toArgumentFormat request.arguments)) :
    a.authorises codec (request.call codec) = true := by
  have htext : a.arguments = canonicalToolArguments codec.toArgumentFormat request.arguments := by
    rw [hsealed.hash, hserver, htool] at hhash
    have heq := codec.digest_injective hhash
    exact String.append_right_inj _ |>.mp heq
  refine decide_eq_true ⟨?_, ?_, htext⟩
  · show a.serverID = trimSpace request.serverID
    rw [← hserver, hsealed.serverID]
  · show a.toolName = trimSpace request.name
    rw [← htool, hsealed.toolName]

end Inversion

/-! ### Approvals as permits -/

section Counting

variable {Args : Type} [DecidableEq Args] (codec : ArgumentCodec Args) (registry : Registry)

/-- The permits for one call. -/
def Gate.permits (s : Gate Args) (call : ToolCall Args) : Permits where
  granted := s.authorised.countP fun a => a.authorises codec call
  available := s.store.approvals.count fun _ a => a.status = .approved && a.authorises codec call
  held := s.invoking.countP fun entry => entry.1.call codec = call
  spent := s.invocations.countP fun entry => entry.1 = call

/-- A gated call has consumed an approval for exactly this call. -/
def Redeemed (call : ToolCall Args) (approval : Option Approval) : Prop :=
  registry.Gated call.serverID call.toolName →
    ∃ a, approval = some a ∧ a.status = .consumed ∧ a.authorises codec call = true

structure GateInv (s : Gate Args) : Prop where
  initialized : ∀ {id a}, s.store.approvals.lookup id = some a → a.Sealed codec
  held : ∀ entry ∈ s.invoking, Redeemed codec registry (entry.1.call codec) entry.2
  spent : ∀ entry ∈ s.invocations, Redeemed codec registry entry.1 entry.2
  within : ∀ call, registry.Gated call.serverID call.toolName → (s.permits codec call).Within

end Counting

section Steps

variable {Args : Type} [DecidableEq Args] {codec : ArgumentCodec Args} {registry : Registry}
  {s t : Gate Args} {call : ToolCall Args}

theorem Gate.permits_granted (h : t.authorised = s.authorised) :
    (t.permits codec call).granted = (s.permits codec call).granted := by
  simp only [Gate.permits, h]

theorem Gate.permits_available (h : t.store.approvals = s.store.approvals) :
    (t.permits codec call).available = (s.permits codec call).available := by
  simp only [Gate.permits, h]

theorem Gate.permits_held (h : t.invoking = s.invoking) :
    (t.permits codec call).held = (s.permits codec call).held := by
  simp only [Gate.permits, h]

theorem Gate.permits_spent (h : t.invocations = s.invocations) :
    (t.permits codec call).spent = (s.permits codec call).spent := by
  simp only [Gate.permits, h]

theorem Gate.permits_granted_decided {a : Approval} {approve : Bool} {actor : String} {now : Time}
    (h : t.authorised = s.authorised ++ if approve then [a.decide approve actor now] else []) :
    (t.permits codec call).granted =
      (s.permits codec call).granted + (approve && a.authorises codec call).toNat := by
  simp only [Gate.permits, h]
  cases approve with
  | false => simp
  | true => exact Permits.countP_snoc _ _ _

variable (codec call)

/-- One more call is held if it is this one. -/
theorem Gate.permits_held_snoc {request : ToolRequest Args} {approval : Option Approval}
    (h : t.invoking = s.invoking ++ [(request, approval)]) :
    (t.permits codec call).held =
      (s.permits codec call).held + (decide (request.call codec = call)).toNat := by
  show List.countP _ t.invoking = _
  rw [h, Permits.countP_snoc]
  rfl

/-- An approval that is replaced was available, is available, or both. -/
theorem Gate.permits_available_insert {id : String} {a a' : Approval}
    (hfound : s.store.approvals.lookup id = some a)
    (h : t.store.approvals = s.store.approvals.insert id a') :
    (t.permits codec call).available + (a.status = .approved && a.authorises codec call).toNat =
      (s.permits codec call).available +
        (a'.status = .approved && a'.authorises codec call).toNat := by
  simp only [Gate.permits, h]
  exact Table.count_insert_old
    (fun _ a => decide (a.status = .approved) && a.authorises codec call) a' hfound

theorem Gate.permits_available_new {a : Approval} {retention : Int} {now : Time}
    (hstatus : a.status = .pending) (hnew : s.store.approvals.lookup a.id = none)
    (h : t.store.approvals = (s.store.pruneApprovals retention now).insert a.id a) :
    (t.permits codec call).available ≤ (s.permits codec call).available := by
  have hgone : (s.store.pruneApprovals retention now).lookup a.id = none := by
    rcases s.store.lookup_pruneApprovals retention now a.id with hsame | ⟨hnone, -⟩
    · rw [hsame, hnew]
    · exact hnone
  have hle (P : String → Approval → Bool) :
      Table.count P (s.store.pruneApprovals retention now) ≤ Table.count P s.store.approvals := by
    rw [Memory.pruneApprovals]
    split
    · exact Table.count_filter_le P _ _
    · exact le_rfl
  simp only [Gate.permits, h]
  rw [Table.count_insert_new _ a hgone, hstatus]
  exact hle fun _ a => decide (a.status = .approved) && a.authorises codec call

variable {codec call}

/-- **Every step is one of permits**, for a gated call. -/
theorem Gate.Move.permits (h : s.Move codec registry t) (hinv : GateInv codec registry s)
    (hgated : registry.Gated call.serverID call.toolName) :
    (s.permits codec call).Step (t.permits codec call) := by
  cases h with
  | idle store invoking invocations authorised =>
      exact .lose (permits_granted authorised) (permits_available store).le
        (permits_held invoking) (permits_spent invocations)
  | created retention now _ status new store invoking invocations authorised =>
      exact .lose (permits_granted authorised) (permits_available_new codec call status new store)
        (permits_held invoking) (permits_spent invocations)
  | @decided id a approve actor now found pending store invoking invocations authorised =>
      refine .grant (approve && a.authorises codec call).toNat ?_ ?_ (permits_held invoking)
        (permits_spent invocations)
      · exact permits_granted_decided authorised
      · have havailable := permits_available_insert codec call found store
        rw [pending] at havailable
        cases approve with
        | false => exact havailable.le
        | true => exact havailable.le
  | @passed request free store invoking invocations authorised =>
      have hother : request.call codec ≠ call := by
        rintro rfl
        exact free hgated
      have hheld := permits_held_snoc codec call invoking
      rw [decide_eq_false hother] at hheld
      exact .lose (permits_granted authorised) (permits_available store).le hheld
        (permits_spent invocations)
  | @consumed request id a now found approved serverID toolName hash store invoking invocations
      authorised =>
      have havailable := permits_available_insert codec call found store
      have hheld := permits_held_snoc codec call invoking
      refine .take (decide (request.call codec = call)).toNat (permits_granted authorised) ?_
        hheld.le (permits_spent invocations)
      by_cases hcall : request.call codec = call
      · -- the approval that was consumed is one for this call
        subst hcall
        rw [approved, ToolRequest.authorises_of_hash (hinv.initialized found) serverID toolName hash]
          at havailable
        rw [decide_eq_true rfl]
        exact havailable.le
      · rw [decide_eq_false hcall]
        exact Nat.le_of_add_right_le havailable.le
  | @invoked index entry sent found store invoking invocations authorised =>
      refine .spend (decide (entry.1.call codec = call)).toNat (permits_granted authorised)
        (permits_available store) ?_ ?_
      · simp only [Gate.permits, invoking]
        exact (Permits.countP_eraseIdx _ found).le
      · simp only [Gate.permits, invocations]
        cases sent with
        | false => simp
        | true => exact (Permits.countP_snoc _ _ _).le

/-- A gated call in progress or sent has its approval. -/
theorem Gate.Move.redeemed (h : s.Move codec registry t) (hinv : GateInv codec registry s) :
    (∀ entry ∈ t.invoking, Redeemed codec registry (entry.1.call codec) entry.2) ∧
      ∀ entry ∈ t.invocations, Redeemed codec registry entry.1 entry.2 := by
  cases h with
  | idle _ invoking invocations | created _ _ _ _ _ _ invoking invocations
  | decided _ _ _ _ _ _ invoking invocations =>
      rw [invoking, invocations]
      exact ⟨hinv.held, hinv.spent⟩
  | passed free _ invoking invocations =>
      rw [invoking, invocations]
      refine ⟨?_, hinv.spent⟩
      intro entry hentry
      rcases List.mem_append.mp hentry with hold | hnew
      · exact hinv.held entry hold
      · obtain rfl := List.mem_singleton.mp hnew
        exact fun hgated => absurd hgated free
  | consumed now found _ serverID toolName hash _ invoking invocations =>
      rw [invoking, invocations]
      refine ⟨?_, hinv.spent⟩
      intro entry hentry
      rcases List.mem_append.mp hentry with hold | hnew
      · exact hinv.held entry hold
      · obtain rfl := List.mem_singleton.mp hnew
        -- the consumption leaves what the approval is for as it was
        have hauth :=
          ToolRequest.authorises_of_hash (hinv.initialized found) serverID toolName hash
        exact fun _ => ⟨_, rfl, rfl, hauth⟩
  | @invoked index entry sent found _ invoking invocations =>
      rw [invoking, invocations]
      refine ⟨fun other hother => hinv.held other (List.mem_of_mem_eraseIdx hother), ?_⟩
      intro other hother
      rcases List.mem_append.mp hother with hold | hnew
      · exact hinv.spent other hold
      · cases sent with
        | false => cases hnew
        | true =>
            obtain rfl := List.mem_singleton.mp hnew
            exact hinv.held entry (List.mem_of_getElem? found)

theorem Gate.Move.initialized (h : s.Move codec registry t) (hinv : GateInv codec registry s)
    {id : String} {a : Approval} (ha : t.store.approvals.lookup id = some a) : a.Sealed codec := by
  cases h with
  | idle store | passed _ store | invoked _ _ store =>
      rw [store] at ha
      exact hinv.initialized ha
  | created retention now hsealed _ _ store =>
      rw [store] at ha
      refine Table.of_lookup_insert (P := fun _ a => a.Sealed codec) hsealed ?_ ha
      intro id' a' ha'
      rcases s.store.lookup_pruneApprovals retention now id' with hsame | ⟨hnone, -⟩
      · exact hinv.initialized (hsame ▸ ha')
      · rw [hnone] at ha'
        cases ha'
  | decided approve actor now found _ store | consumed now found _ _ _ _ store =>
      rw [store] at ha
      have hold := hinv.initialized found
      exact Table.of_lookup_insert (P := fun _ a => a.Sealed codec)
        ⟨hold.serverID, hold.toolName, hold.hash⟩ hinv.initialized ha

theorem GateInv.step (hinv : GateInv codec registry s) (h : s.Move codec registry t) :
    GateInv codec registry t :=
  ⟨h.initialized hinv, (h.redeemed hinv).1, (h.redeemed hinv).2,
    fun call hgated => (hinv.within call hgated).step (h.permits hinv hgated)⟩

theorem gateInv_init : GateInv codec registry ({} : Gate Args) := by
  refine ⟨?_, List.forall_mem_nil _, List.forall_mem_nil _, ?_⟩
  · intro id a ha
    cases ha
  · intro call _
    have hnone : ({} : Gate Args).permits codec call = {} := rfl
    rw [hnone]
    exact Permits.within_init

theorem gateInv_runs {ttl retention : Int}
    (h : Runs (gateStep codec registry ttl retention) Free {} s) : GateInv codec registry s := by
  refine h.invariant (I := GateInv codec registry) gateInv_init ?_
  intro u v a hu _ hstep
  exact hu.step (Gate.move_of_step hstep)

end Steps

/-- **The approval gate.**  However the requests interleave and whatever they name, a tool that the
configuration lists is invoked with an argument object at most as often as an approve decision
authorised exactly this server, tool and object, and every invocation of it has consumed such an
approval. -/
theorem approval_gate {Args : Type} [DecidableEq Args] {codec : ArgumentCodec Args}
    {absoluteHTTP : String → Bool} {parseDuration : String → Option Int} {defaultTimeout : Int}
    {configs : List ServerConfig} {registry : Registry}
    (hregistry : parseRegistry absoluteHTTP parseDuration defaultTimeout configs = .ok registry)
    {config : ServerConfig} (hconfig : config ∈ configs) {tool : String}
    (htool : tool ∈ config.approvalRequiredTools) {ttl retention : Int} {s : Gate Args}
    (hs : Runs (gateStep codec registry ttl retention) Free {} s) (arguments : Args) :
    s.invocations.countP (fun entry => entry.1 = ⟨trimSpace config.id, trimSpace tool, arguments⟩) ≤
      s.authorised.countP
        (fun a => a.authorises codec ⟨trimSpace config.id, trimSpace tool, arguments⟩) ∧
    ∀ entry ∈ s.invocations, entry.1.serverID = trimSpace config.id →
      entry.1.toolName = trimSpace tool →
        ∃ a, entry.2 = some a ∧ a.status = .consumed ∧ a.authorises codec entry.1 = true := by
  have hinv := gateInv_runs hs
  have hgated := parseRegistry_gated hregistry hconfig htool
  refine ⟨(hinv.within ⟨trimSpace config.id, trimSpace tool, arguments⟩ hgated).spent_le, ?_⟩
  intro entry hentry hserver hname
  apply hinv.spent entry hentry
  rw [hserver, hname]
  exact hgated

def demoConfig : ServerConfig :=
  { id := " files", endpoint := "http://files.local", approvalRequiredTools := ["remove "] }

def demoCall (serverID name : String) : ToolRequest Bool :=
  { serverID := serverID, name := name, arguments := some true, approvalID := "apr_1" }

/-- One approval and five calls: without it, with blanks around the server and around the name,
and twice with the exact names. -/
def callFiveTimes : List (GateAction Bool) :=
  [.createApproval { serverID := "files ", toolName := "remove", arguments := some true } "apr_1"
      none 1 1,
    .callTool { demoCall "files" "remove" with approvalID := " " },
    .callTool (demoCall " files" "remove"), .callTool (demoCall "files" "remove "),
    .callTool (demoCall "files" "remove"), .callTool (demoCall "files" "remove"),
    .decideApproval "apr_1" true (some "ops") 2,
    .consume 0 3, .consume 1 3, .invoke 0 true none, .consume 0 4]

theorem approval_gate_once :
    ∃ registry, parseRegistry (fun _ => true) (fun _ => none) 30 [demoConfig] = .ok registry ∧
      ∃ s, Runs (gateStep demoCodec registry 10 5) Free {} s ∧
        s.replies.map ToolReply.code = [201, 428, 403, 200, 409, 200, 409] ∧
        s.invocations.countP (fun entry => entry.1 = ⟨"files", "remove", true⟩) = 1 ∧
        s.invocations.countP (fun entry =>
          entry.1 = ⟨trimSpace demoConfig.id, trimSpace "remove ", true⟩) ≤
            s.authorised.countP (fun a =>
              a.authorises demoCodec ⟨trimSpace demoConfig.id, trimSpace "remove ", true⟩) := by
  obtain ⟨s, hexec, hcodes, honce⟩ :
      ∃ s, ((parseRegistry (fun _ => true) (fun _ => none) 30 [demoConfig]).toOption.bind
          fun registry => exec (gateStep demoCodec registry 10 5) {} callFiveTimes) = some s ∧
        s.replies.map ToolReply.code = [201, 428, 403, 200, 409, 200, 409] ∧
        s.invocations.countP (fun entry => entry.1 = ⟨"files", "remove", true⟩) = 1 := by
    refine exists_of_any ?_
    decide +kernel
  obtain ⟨registry, hregistry, hrun⟩ := Option.bind_eq_some_iff.mp hexec
  have hparse : parseRegistry (fun _ => true) (fun _ => none) 30 [demoConfig] = .ok registry := by
    rcases h : parseRegistry (fun _ => true) (fun _ => none) 30 [demoConfig] with err | found
    · rw [h] at hregistry
      cases hregistry
    · rw [h] at hregistry
      rw [Option.some.inj hregistry]
  have hs : Runs (gateStep demoCodec registry 10 5) Free {} s := runs_exec (fun _ _ => trivial) hrun
  exact ⟨registry, hparse, s, hs, hcodes, honce,
    (approval_gate hparse List.mem_cons_self List.mem_cons_self hs true).1⟩

end AgentMesh
