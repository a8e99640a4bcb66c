/-
AgentMesh/Submit.lean

`POST /api/v1/runs` and `POST /api/v1/runs/{id}/children`: the handlers
`createRun` and `createAgentChildRun` of `internal/httpapi/server.go` as one
state machine.

A request passes the checks of `receive`, looks its idempotency key up, loads
its parent, selects an Agent, creates the Run, publishes `run.queued` and
enqueues it.  When the queue refuses, the handler fails the Run it has just
created with an unfenced write.

A call of one Agent by another names the parent Run in its path.  The parent
decides whether the caller may make the call; its ancestors are read one by
one, for the depth of the call and for the Agents that take part in it already.
When the queue refuses, this handler too fails the Run that it has created, but
it ignores the outcome and publishes nothing.

Each store call is one action; the Agent that
the router picks, the fresh Run ID and the answer of the queue come from the
environment.
-/
import AgentMesh.Engine

namespace AgentMesh

structure RunRequest where
  agentID : String := ""
  parentRunID : String := ""
  requiredCapabilities : List String := []
  input : String := ""
  deriving DecidableEq, Repr

/-- `apiauth.Identity`, as far as an Agent call reads it. -/
structure Identity where
  roles : List String := []
  agentID : String := ""
  deriving DecidableEq, Repr

/-- What `createAgentChildRun` reads of its request and of the server. -/
structure AgentCall where
  /-- The ID in the path. -/
  parentID : String
  /-- `X-AgentMesh-Caller-Agent-ID`. -/
  callerHeader : String := ""
  /-- An authenticator is configured and enabled. -/
  authEnabled : Bool := false
  /-- `apiauth.FromContext`. -/
  identity : Option Identity := none
  idempotencyHeader : String := ""
  body : RunRequest := {}
  /-- `agentCallMaxDepth` and `agentCallMaxChildren`. -/
  maxDepth : Int := 8
  maxChildren : Int := 16
  deriving DecidableEq, Repr

/-- The status code of a response, and the Run in its body. -/
structure Response where
  code : Nat
  run : Option Run := none
  deriving DecidableEq, Repr

/-- The answer of `agentRouter.Select` for normalised requirements. -/
inductive Routed
  | agent (id : String)
  | noCandidate
  | noCapacity
  | error
  deriving DecidableEq, Repr

structure SubmitOracle where
  now : Time := 0
  routed : Routed := .error
  /-- `newID("run")`. -/
  newID : String := ""
  /-- The error of `engine.Enqueue`, if any. -/
  enqueue : Option Err := none

/-- A request after its checks: `routed` says that it names no Agent. -/
structure Submission where
  request : RunRequest
  routed : Bool
  key : String
  deriving DecidableEq, Repr

inductive SubmitPc
  | idle
  /-- `GetRunByIdempotencyKey`. -/
  | lookup (sub : Submission)
  /-- `GetRun` of the parent. -/
  | loadParent (sub : Submission)
  /-- `agentRouter.Select` or `GetAgent`. -/
  | selectAgent (sub : Submission) (parent : Option Run)
  /-- `CreateRun`. -/
  | create (sub : Submission) (parent : Option Run)
  /-- The Run is stored: publish `run.queued` and `run.child_queued`. -/
  | publishQueued (run : Run)
  /-- `engine.Enqueue`. -/
  | enqueue (run : Run)
  /-- The queue refused: `Fail` and `UpdateRun`. -/
  | failRun (run : Run) (cause : Err)
  | publishFailed (run : Run)
  /-- `createAgentChildRun`: `GetRun` of the parent. -/
  | callLoad (call : AgentCall)
  /-- `GetRunByIdempotencyKey` under the key of the call. -/
  | callLookup (call : AgentCall) (sub : Submission) (parent : Run)
  /-- `agentCallAncestry`: `GetRun` of the parent of `current`. -/
  | callAncestry (call : AgentCall) (sub : Submission) (parent current : Run) (depth : Int)
      (agents seenRuns : List String)
  /-- `agentRouter.Select` or `GetAgent`. -/
  | callSelect (call : AgentCall) (sub : Submission) (parent : Run) (ancestorAgents : List String)
  /-- `CreateChildRun`. -/
  | callCreate (call : AgentCall) (sub : Submission) (parent : Run)
  /-- `publishAgentChildRun`. -/
  | callPublish (parent child : Run)
  /-- `engine.Enqueue`. -/
  | callEnqueue (child : Run)
  /-- The queue refused: `Fail` and `UpdateRun`. -/
  | callFail (child : Run) (cause : Err)
  | done (response : Response)

/-- One request: `engine.MaxAttempts()` of the replica, and the request ID. -/
structure Submit where
  maxAttempts : Int
  requestID : String
  pc : SubmitPc

/-- The checks before the first store call. -/
def receive (request : RunRequest) (idempotencyHeader : String) : SubmitPc :=
  let request := { request with
    agentID := trimSpace request.agentID, parentRunID := trimSpace request.parentRunID
    input := trimSpace request.input }
  let key := trimSpace idempotencyHeader
  let accept (sub : Submission) : SubmitPc :=
    if 128 < key.utf8ByteSize then .done ⟨400, none⟩
    else if key ≠ "" then .lookup sub
    else if sub.request.parentRunID ≠ "" then .loadParent sub
    else .selectAgent sub none
  if request.input = "" then .done ⟨400, none⟩
  else if request.agentID ≠ "" ∧ request.requiredCapabilities ≠ [] then .done ⟨400, none⟩
  else if request.agentID = "" ∧ request.requiredCapabilities = [] then .done ⟨400, none⟩
  else if request.agentID = "" then
    match normalizeRequirements request.requiredCapabilities with
    | .error _ => .done ⟨400, none⟩
    | .ok required => accept ⟨{ request with requiredCapabilities := required }, true, key⟩
  else accept ⟨request, false, key⟩

/-- `writeRunReplay`: the same request gets the existing Run, another one a conflict. -/
def writeRunReplay (existing : Run) (sub : Submission) : Response :=
  if existing.input ≠ sub.request.input ∨ existing.parentRunID ≠ sub.request.parentRunID
      ∨ existing.requiredCapabilities ≠ sub.request.requiredCapabilities
      ∨ (sub.routed = false ∧ existing.agentID ≠ sub.request.agentID) then ⟨409, none⟩
  else ⟨200, some existing⟩

/-- The Run that a request asks for. -/
def Submit.newRun (h : Submit) (sub : Submission) (id : String) (now : Time) : Run :=
  { id := id, agentID := sub.request.agentID, parentRunID := sub.request.parentRunID
    requiredCapabilities := sub.request.requiredCapabilities, input := sub.request.input
    status := .queued, maxAttempts := h.maxAttempts, requestID := h.requestID, createdAt := now }

/-- `Router.Select` as the handler sees it: the request with its Agent, or a response. -/
def selectRouted (sub : Submission) (routed : Routed) : Except Response Submission :=
  match normalizeRequirements sub.request.requiredCapabilities with
  | .error _ => .error ⟨400, none⟩
  | .ok required =>
      match routed with
      | .agent id =>
          .ok { sub with request := { sub.request with
            agentID := id, requiredCapabilities := required } }
      | .noCandidate => .error ⟨422, none⟩
      | .noCapacity => .error ⟨429, none⟩
      | .error => .error ⟨500, none⟩

/-- The lineage that the handler fills in before `CreateRun`. -/
def attachParent (run : Run) : Option Run → Except Err Run
  | none => .ok run
  | some parent => run.attachTo parent

/-! ### Agent calls -/

/-- `apiauth.RoleAgent`. -/
def roleAgent : String := "agent"

/-- The Agent that makes the call; `none` where an Agent identity is missing. -/
def AgentCall.callerAgentID (call : AgentCall) : Option String :=
  if call.authEnabled then
    match call.identity with
    | none => none
    | some identity => if roleAgent ∈ identity.roles then some identity.agentID else none
  else some (trimSpace call.callerHeader)

/-- The key under which the Run of an Agent call is created. -/
def agentCallKey (parentID idempotencyKey : String) : String :=
  "agent-call:" ++ parentID ++ ":" ++ idempotencyKey

/-- The checks of `createAgentChildRun` once its parent is loaded. -/
def AgentCall.check (call : AgentCall) (parent : Run) : Except Response Submission :=
  match call.callerAgentID with
  | none => .error ⟨403, none⟩
  | some callerAgentID =>
      let key := trimSpace call.idempotencyHeader
      let request : RunRequest := { call.body with
        agentID := trimSpace call.body.agentID, input := trimSpace call.body.input }
      if callerAgentID = "" ∨ callerAgentID ≠ parent.agentID then .error ⟨403, none⟩
      else if key = "" then .error ⟨400, none⟩
      else if 128 < key.utf8ByteSize then .error ⟨400, none⟩
      else if request.parentRunID ≠ "" then .error ⟨400, none⟩
      else if request.input = "" then .error ⟨400, none⟩
      else if request.agentID ≠ "" ∧ request.requiredCapabilities ≠ [] then .error ⟨400, none⟩
      else if request.agentID = "" ∧ request.requiredCapabilities = [] then .error ⟨400, none⟩
      else if request.agentID = "" then
        match normalizeRequirements request.requiredCapabilities with
        | .error _ => .error ⟨400, none⟩
        | .ok required =>
            .ok ⟨{ request with requiredCapabilities := required }, true, key⟩
      else .ok ⟨request, false, key⟩

/-- The same call gets the existing Run, another one a conflict. -/
def writeAgentCallReplay (existing : Run) (sub : Submission) (parent : Run) : Response :=
  if existing.parentRunID ≠ parent.id ∨ existing.input ≠ sub.request.input
      ∨ (sub.routed = false ∧ existing.agentID ≠ sub.request.agentID)
      ∨ (sub.routed = true ∧ existing.requiredCapabilities ≠ sub.request.requiredCapabilities) then
    ⟨409, none⟩
  else ⟨200, some existing⟩

/-- The head of the loop of `agentCallAncestry`, and the depth check at its end. -/
def agentCallAncestry (call : AgentCall) (sub : Submission) (parent current : Run) (depth : Int)
    (agents seenRuns : List String) : SubmitPc :=
  if current.parentRunID = "" then
    if call.maxDepth < depth then .done ⟨422, none⟩ else .callSelect call sub parent agents
  else if current.parentRunID ∈ seenRuns then .done ⟨500, none⟩
  else .callAncestry call sub parent current depth agents seenRuns

/-- `Router.Select` as an Agent call sees it. -/
def selectCallee (sub : Submission) (routed : Routed) : Except Response Submission :=
  match normalizeRequirements sub.request.requiredCapabilities with
  | .error _ => .error ⟨500, none⟩
  | .ok required =>
      match routed with
      | .agent id =>
          .ok { sub with request := { sub.request with
            agentID := id, requiredCapabilities := required } }
      | .noCandidate => .error ⟨422, none⟩
      | .noCapacity => .error ⟨429, none⟩
      | .error => .error ⟨500, none⟩

/-- An Agent does not take part in a call twice. -/
def checkCallee (call : AgentCall) (sub : Submission) (parent : Run)
    (ancestorAgents : List String) : SubmitPc :=
  if sub.request.agentID ∈ ancestorAgents then .done ⟨422, none⟩ else .callCreate call sub parent

/-- The Run that an Agent call asks for. -/
def Submit.newChildRun (h : Submit) (sub : Submission) (parent : Run) (id : String)
    (now : Time) : Run :=
  { id := id, agentID := sub.request.agentID, parentRunID := parent.id
    requiredCapabilities := sub.request.requiredCapabilities, input := sub.request.input
    status := .queued, maxAttempts := h.maxAttempts
    requestID := if parent.requestID = "" then h.requestID else parent.requestID
    createdAt := now }

/-- `publishAgentChildRun`. -/
def publishAgentChildRun (parent child : Run) : List RunEvent :=
  [{ runID := child.id, parentRunID := child.parentRunID, rootRunID := child.rootRunID
     type := "run.queued" },
    { runID := parent.id, childRunID := child.id, parentRunID := parent.id
      rootRunID := child.rootRunID, type := "run.child_queued" },
    { runID := parent.id, childRunID := child.id, parentRunID := parent.id
      rootRunID := child.rootRunID, type := "run.agent_call_queued" }]

/-! ### The actions of a request -/

/-- The next action of a request: its new control point, the new store, the
published events and the key and Run that were created, if the Run is a new one. -/
def Submit.handle (h : Submit) (o : SubmitOracle) (m : Memory) :
    Option (SubmitPc × Effect × Option (String × Run)) :=
  match h.pc with
  | .idle => none
  | .lookup sub =>
      match m.getRunByIdempotencyKey sub.key with
      | .ok existing => some (.done (writeRunReplay existing sub), { store := m }, none)
      | .error _ =>
          if sub.request.parentRunID ≠ "" then some (.loadParent sub, { store := m }, none)
          else some (.selectAgent sub none, { store := m }, none)
  | .loadParent sub =>
      match m.getRun sub.request.parentRunID with
      | .error _ => some (.done ⟨404, none⟩, { store := m }, none)
      | .ok parent => some (.selectAgent sub (some parent), { store := m }, none)
  | .selectAgent sub parent =>
      if sub.routed then
        match selectRouted sub o.routed with
        | .error response => some (.done response, { store := m }, none)
        | .ok sub => some (.create sub parent, { store := m }, none)
      else
        match m.getAgent sub.request.agentID with
        | .error _ => some (.done ⟨404, none⟩, { store := m }, none)
        | .ok _ => some (.create sub parent, { store := m }, none)
  | .create sub parent =>
      match attachParent (h.newRun sub o.newID o.now) parent with
      | .error _ => some (.done ⟨400, none⟩, { store := m }, none)
      | .ok run =>
          match m.createRun run sub.key with
          | .error _ => some (.done ⟨500, none⟩, { store := m }, none)
          | .ok (m', created, true) =>
              some (.publishQueued created, { store := m' }, some (sub.key, created))
          | .ok (_, existing, false) =>
              some (.done (writeRunReplay existing sub), { store := m }, none)
  | .publishQueued run =>
      let child : RunEvent :=
        { runID := run.parentRunID, childRunID := run.id, parentRunID := run.parentRunID
          rootRunID := run.rootRunID, type := "run.child_queued" }
      some (.enqueue run,
        { store := m
          events := publishRun run "run.queued" run.attempt
            :: (if run.parentRunID ≠ "" then [child] else []) }, none)
  | .enqueue run =>
      match o.enqueue with
      | none => some (.done ⟨202, some run⟩, { store := m }, none)
      | some err => some (.failRun run err, { store := m }, none)
  | .failRun run cause =>
      match run.fail (some cause) o.now with
      | .error _ => some (.done ⟨500, none⟩, { store := m }, none)
      | .ok run =>
          match m.updateRun run with
          | .error _ => some (.done ⟨500, none⟩, { store := m }, none)
          | .ok m' => some (.publishFailed run, { store := m' }, none)
  | .publishFailed run =>
      some (.done ⟨503, none⟩,
        { store := m, events := [publishRun run "run.failed" run.attempt] }, none)
  | .callLoad call =>
      match m.getRun call.parentID with
      | .error _ => some (.done ⟨404, none⟩, { store := m }, none)
      | .ok parent =>
          match call.check parent with
          | .error response => some (.done response, { store := m }, none)
          | .ok sub => some (.callLookup call sub parent, { store := m }, none)
  | .callLookup call sub parent =>
      match m.getRunByIdempotencyKey (agentCallKey parent.id sub.key) with
      | .ok existing => some (.done (writeAgentCallReplay existing sub parent), { store := m }, none)
      | .error _ =>
          if parent.status ≠ .running then some (.done ⟨409, none⟩, { store := m }, none)
          else
            some (agentCallAncestry call sub parent parent 1 [parent.agentID] [parent.id],
              { store := m }, none)
  | .callAncestry call sub parent current depth agents seenRuns =>
      match m.getRun current.parentRunID with
      | .error _ => some (.done ⟨500, none⟩, { store := m }, none)
      | .ok ancestor =>
          some (agentCallAncestry call sub parent ancestor (depth + 1) (ancestor.agentID :: agents)
            (ancestor.id :: seenRuns), { store := m }, none)
  | .callSelect call sub parent ancestorAgents =>
      if sub.routed then
        match selectCallee sub o.routed with
        | .error response => some (.done response, { store := m }, none)
        | .ok sub => some (checkCallee call sub parent ancestorAgents, { store := m }, none)
      else
        match m.getAgent sub.request.agentID with
        | .error _ => some (.done ⟨404, none⟩, { store := m }, none)
        | .ok _ => some (checkCallee call sub parent ancestorAgents, { store := m }, none)
  | .callCreate call sub parent =>
      match (h.newChildRun sub parent o.newID o.now).attachTo parent with
      | .error _ => some (.done ⟨400, none⟩, { store := m }, none)
      | .ok run =>
          match m.createChildRun run (agentCallKey parent.id sub.key) call.maxChildren with
          | .error err =>
              some (.done ⟨if err.is .childRunLimit then 429 else 500, none⟩, { store := m }, none)
          | .ok (m', created, true) =>
              some (.callPublish parent created, { store := m' },
                some (agentCallKey parent.id sub.key, created))
          | .ok (_, existing, false) => some (.done ⟨200, some existing⟩, { store := m }, none)
  | .callPublish parent child =>
      some (.callEnqueue child, { store := m, events := publishAgentChildRun parent child }, none)
  | .callEnqueue child =>
      match o.enqueue with
      | none => some (.done ⟨202, some child⟩, { store := m }, none)
      | some err => some (.callFail child err, { store := m }, none)
  | .callFail child cause =>
      -- neither error is looked at, and no event is published
      match child.fail (some cause) o.now with
      | .error _ => some (.done ⟨503, none⟩, { store := m }, none)
      | .ok run =>
          match m.updateRun run with
          | .error _ => some (.done ⟨503, none⟩, { store := m }, none)
          | .ok m' => some (.done ⟨503, none⟩, { store := m' }, none)
  | .done _ => none

end AgentMesh
