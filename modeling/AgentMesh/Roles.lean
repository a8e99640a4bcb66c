/-
AgentMesh/Roles.lean

Who may call which handler: the authenticator of `internal/apiauth/auth.go` and the
routes of `internal/httpapi/server.go`.

The two decide separately.  `Middleware` asks for roles by tests on the decoded
path, before the request reaches the mux; the mux picks the handler by patterns
on the escaped path.  `Handler.required` is the table that both should follow.
It is what the middleware asks for at every path that the mux has a handler for
(`access_of_findHandler`).

The hash of tokens is a parameter, and so is the decoder of the configuration.
A Go map is the list of its entries in the order of iteration.
-/
import AgentMesh.Mux
import AgentMesh.Text
import AgentMesh.Run

namespace AgentMesh

open Url Mux

/-! ### Identities -/

inductive Role where
  | reader
  | operator
  | admin
  | agent
  deriving DecidableEq, Repr

/-- `apiauth.Identity`. -/
structure APIIdentity where
  subject : String
  roles : List Role := []
  agentID : String := ""
  deriving DecidableEq, Repr

def APIIdentity.hasAny (identity : APIIdentity) (roles : List Role) : Bool :=
  identity.roles.any fun role => role ∈ roles

def Role.ofText (text : String) : Option Role :=
  let text := toLower (trimSpace text)
  if text = "reader" then some .reader
  else if text = "operator" then some .operator
  else if text = "admin" then some .admin
  else if text = "agent" then some .agent
  else none

/-- `reference`: what the configuration has for a subject. -/
structure TokenReference where
  secretEnv : String := ""
  roles : List String := []
  agentID : String := ""

section Authentication

variable {D : Type} [DecidableEq D] (sum256 : String → D)

/-- The credentials of an `Authenticator`: identities and digests of their tokens. -/
structure Authenticator (D : Type) where
  credentials : List (APIIdentity × D) := []
  deriving DecidableEq

def Authenticator.enabled (a : Authenticator D) : Bool := a.credentials ≠ []

def invalidConfig (text : String) : Err :=
  errorf ("invalid API authentication configuration: " ++ text)

/-- The loop over the roles of a subject. -/
def readRoles (subject : String) (roles : List Role) : List String → Except Err (List Role)
  | [] => .ok roles
  | text :: rest =>
      match Role.ofText text with
      | none => .error (invalidConfig ("unsupported role for subject " ++ subject))
      | some role => readRoles subject (if role ∈ roles then roles else roles ++ [role]) rest

/-- One round of the loop of `New`. -/
def readReference (lookup : String → Option String) (subject : String) (ref : TokenReference) :
    Except Err (APIIdentity × String) :=
  let subject := trimSpace subject
  let secretEnv := trimSpace ref.secretEnv
  if subject = "" ∨ secretEnv = "" ∨ ref.roles = [] then
    .error (invalidConfig "subject, secret_env and roles are required")
  else
    match readRoles subject [] ref.roles with
    | .error err => .error err
    | .ok roles =>
        let identity : APIIdentity := { subject, roles, agentID := trimSpace ref.agentID }
        if ¬ (identity.hasAny [.agent] ↔ identity.agentID ≠ "") then
          .error (invalidConfig
            ("agent role and agent_id must be declared together for subject " ++ subject))
        else
          match lookup secretEnv with
          | none => .error (invalidConfig ("referenced token unavailable for subject " ++ subject))
          | some token =>
              if trimSpace token = "" ∨ containsAny token "\r\n" then
                .error (invalidConfig ("referenced token unavailable for subject " ++ subject))
              else .ok (identity, token)

/-- The loop of `New`. -/
def readReferences (lookup : String → Option String) (credentials : List (APIIdentity × D)) :
    List (String × TokenReference) → Except Err (List (APIIdentity × D))
  | [] => .ok credentials
  | (subject, ref) :: rest =>
      match readReference lookup subject ref with
      | .error err => .error err
      | .ok (identity, token) =>
          if sum256 token ∈ credentials.map Prod.snd then .error (invalidConfig "duplicate token")
          else readReferences lookup (credentials ++ [(identity, sum256 token)]) rest

/-- `New`. -/
def newAuthenticator (decodeReferences : String → Option (List (String × TokenReference)))
    (lookup : Option (String → Option String)) (raw : String) : Except Err (Authenticator D) :=
  if trimSpace raw = "" then .ok {}
  else
    match lookup with
    | none => .error (invalidConfig "environment lookup is required")
    | some lookup =>
        match decodeReferences raw with
        | none => .error (invalidConfig "malformed JSON")
        | some references =>
            match readReferences sum256 lookup [] references with
            | .error err => .error err
            | .ok credentials => .ok { credentials }

def Authenticator.authenticate (a : Authenticator D) (header : String) : Option APIIdentity :=
  if hasPrefix header "Bearer " = false ∨ header = "Bearer " then none
  else
    let digest := sum256 (trimPrefix header "Bearer ")
    (a.credentials.find? fun candidate => candidate.2 = digest).map Prod.fst

/-! ### The middleware -/

/-- A request to the API, as far as routing and roles go. -/
structure APIRequest where
  method : String
  url : URL
  authorization : String := ""

/-- The roles of which `authorized` wants one. -/
def rolesFor (method : String) (path : Bytes) : List Role :=
  if method = "POST" ∧ (encode "/api/v1/approvals/").isPrefixOf path
      ∧ ((encode "/approve").isSuffixOf path ∨ (encode "/reject").isSuffixOf path) then [.admin]
  else if method = "POST" ∧ (encode "/children").isSuffixOf path then [.agent]
  else if path = encode "/api/v1/audit-events" then [.admin]
  else if method = "GET" ∨ method = "HEAD" then [.reader, .operator, .admin]
  else [.operator, .admin]

def authorized (identity : APIIdentity) (method : String) (path : Bytes) : Bool :=
  identity.hasAny (rolesFor method path)

/-- What `Middleware` does with a request. -/
inductive Passage where
  /-- The next handler runs, with the identity in its context if there is one. -/
  | next (identity : Option APIIdentity)
  | unauthorized
  | forbidden
  deriving DecidableEq

/-- The paths that are open to everyone. -/
def openPath (path : Bytes) : Bool := path = encode "/healthz" || path = encode "/readyz"

def Authenticator.middleware (a : Authenticator D) (r : APIRequest) : Passage :=
  if a.enabled = false then .next none
  else if openPath r.url.path then .next none
  else
    match a.authenticate sum256 r.authorization with
    | none => .unauthorized
    | some identity =>
        if authorized identity r.method r.url.path then .next (some identity) else .forbidden

end Authentication

/-! ### The routes -/

inductive Handler where
  | health | ready
  | listAgents | createAgent | getAgent | updateAgent | deleteAgent | getAgentHealth
  | listRuns | createRun | getRun | listChildRuns | createAgentChildRun | cancelRun | runEvents
  | listWorkflows | createWorkflow | getWorkflow | startWorkflow | cancelWorkflow | workflowEvents
  | listAuditEvents
  | listToolServers | listTools | callTool
  | createApproval | listApprovals | getApproval | approveApproval | rejectApproval
  | prometheusMetrics
  deriving DecidableEq, Repr

def lit (text : String) : Segment := .literal (encode text)

/-- A pattern below `/api/v1`. -/
def api (segments : List Segment) : List Segment := lit "api" :: lit "v1" :: segments

/-- `Server.routes`. -/
def routes : List (Route Handler) := [
  ⟨"GET", [lit "healthz"], .health⟩,
  ⟨"GET", [lit "readyz"], .ready⟩,
  ⟨"GET", api [lit "agents"], .listAgents⟩,
  ⟨"POST", api [lit "agents"], .createAgent⟩,
  ⟨"GET", api [lit "agents", .wildcard], .getAgent⟩,
  ⟨"PUT", api [lit "agents", .wildcard], .updateAgent⟩,
  ⟨"DELETE", api [lit "agents", .wildcard], .deleteAgent⟩,
  ⟨"GET", api [lit "agents", .wildcard, lit "health"], .getAgentHealth⟩,
  ⟨"GET", api [lit "runs"], .listRuns⟩,
  ⟨"POST", api [lit "runs"], .createRun⟩,
  ⟨"GET", api [lit "runs", .wildcard], .getRun⟩,
  ⟨"GET", api [lit "runs", .wildcard, lit "children"], .listChildRuns⟩,
  ⟨"POST", api [lit "runs", .wildcard, lit "children"], .createAgentChildRun⟩,
  ⟨"POST", api [lit "runs", .wildcard, lit "cancel"], .cancelRun⟩,
  ⟨"GET", api [lit "runs", .wildcard, lit "events"], .runEvents⟩,
  ⟨"GET", api [lit "workflows"], .listWorkflows⟩,
  ⟨"POST", api [lit "workflows"], .createWorkflow⟩,
  ⟨"GET", api [lit "workflows", .wildcard], .getWorkflow⟩,
  ⟨"POST", api [lit "workflows", .wildcard, lit "start"], .startWorkflow⟩,
  ⟨"POST", api [lit "workflows", .wildcard, lit "cancel"], .cancelWorkflow⟩,
  ⟨"GET", api [lit "workflows", .wildcard, lit "events"], .workflowEvents⟩,
  ⟨"GET", api [lit "audit-events"], .listAuditEvents⟩,
  ⟨"GET", api [lit "tools", lit "servers"], .listToolServers⟩,
  ⟨"GET", api [lit "tools"], .listTools⟩,
  ⟨"POST", api [lit "tools", lit "call"], .callTool⟩,
  ⟨"POST", api [lit "approvals"], .createApproval⟩,
  ⟨"GET", api [lit "approvals"], .listApprovals⟩,
  ⟨"GET", api [lit "approvals", .wildcard], .getApproval⟩,
  ⟨"POST", api [lit "approvals", .wildcard, lit "approve"], .approveApproval⟩,
  ⟨"POST", api [lit "approvals", .wildcard, lit "reject"], .rejectApproval⟩,
  ⟨"GET", [lit "metrics"], .prometheusMetrics⟩]

/-- The table of roles: one of these is needed, or none at all. -/
def Handler.required : Handler → Option (List Role)
  | .health | .ready => none
  | .approveApproval | .rejectApproval | .listAuditEvents => some [.admin]
  | .createAgentChildRun => some [.agent]
  | .createAgent | .updateAgent | .deleteAgent | .createRun | .cancelRun | .createWorkflow
  | .startWorkflow | .cancelWorkflow | .callTool | .createApproval => some [.operator, .admin]
  | .listAgents | .getAgent | .getAgentHealth | .listRuns | .getRun | .listChildRuns | .runEvents
  | .listWorkflows | .getWorkflow | .workflowEvents | .listToolServers | .listTools | .listApprovals
  | .getApproval | .prometheusMetrics => some [.reader, .operator, .admin]

/-- What the middleware asks for at a path. -/
def access (method : String) (path : Bytes) : Option (List Role) :=
  if openPath path then none else some (rolesFor method path)

/-! ### The two decisions agree -/

section Agreement

variable {pattern : List Segment} {text p : Bytes}

theorem instance_nil (h : Instance [] p) : p = [] := by
  cases h
  rfl

theorem instance_literal (h : Instance (.literal text :: pattern) p) :
    ∃ q, p = '/'.toUInt8 :: (text ++ q) ∧ Instance pattern q := by
  cases h with
  | literal h => exact ⟨_, rfl, h⟩

theorem instance_wildcard (h : Instance (.wildcard :: pattern) p) :
    ∃ value q, p = '/'.toUInt8 :: (value ++ q) ∧ Instance pattern q := by
  cases h with
  | wildcard h => exact ⟨_, _, rfl, h⟩

/-- The paths of `api [collection]`. -/
theorem instance_collection (h : Instance (api [.literal text]) p) :
    p = encode "/api/v1/" ++ text := by
  obtain ⟨_, rfl, hv1⟩ := instance_literal h
  obtain ⟨_, rfl, hcollection⟩ := instance_literal hv1
  obtain ⟨_, rfl, hnil⟩ := instance_literal hcollection
  obtain rfl := instance_nil hnil
  rw [List.append_nil]
  rfl

/-- The paths of `api [collection, id]`. -/
theorem instance_member (h : Instance (api [.literal text, .wildcard]) p) :
    ∃ value, p = encode "/api/v1/" ++ (text ++ '/'.toUInt8 :: value) := by
  obtain ⟨_, rfl, hv1⟩ := instance_literal h
  obtain ⟨_, rfl, hcollection⟩ := instance_literal hv1
  obtain ⟨_, rfl, hmember⟩ := instance_literal hcollection
  obtain ⟨value, _, rfl, hnil⟩ := instance_wildcard hmember
  obtain rfl := instance_nil hnil
  refine ⟨value, ?_⟩
  rw [List.append_nil]
  rfl

/-- The paths of `api [collection, id, action]`. -/
theorem instance_action {action : Bytes}
    (h : Instance (api [.literal text, .wildcard, .literal action]) p) :
    ∃ value, p = (encode "/api/v1/" ++ (text ++ '/'.toUInt8 :: value)) ++ '/'.toUInt8 :: action := by
  obtain ⟨_, rfl, hv1⟩ := instance_literal h
  obtain ⟨_, rfl, hcollection⟩ := instance_literal hv1
  obtain ⟨_, rfl, hmember⟩ := instance_literal hcollection
  obtain ⟨value, _, rfl, haction⟩ := instance_wildcard hmember
  obtain ⟨_, rfl, hnil⟩ := instance_literal haction
  obtain rfl := instance_nil hnil
  refine ⟨value, ?_⟩
  simp only [List.append_nil, List.append_assoc, List.cons_append]
  rfl

/-- Two last segments of a path are the same. -/
theorem isSuffixOf_segment {t action q : Bytes} (ht : '/'.toUInt8 ∉ t) (haction : '/'.toUInt8 ∉ action) :
    ('/'.toUInt8 :: t).isSuffixOf (q ++ '/'.toUInt8 :: action) = decide (t = action) := by
  rw [Bool.eq_iff_iff, List.isSuffixOf_iff_suffix, decide_eq_true_eq]
  constructor
  · intro hsuffix
    rcases List.suffix_or_suffix_of_suffix hsuffix (List.suffix_append q ('/'.toUInt8 :: action))
      with h | h
    · rcases List.suffix_cons_iff.mp h with h | h
      · exact (List.cons.inj h).2
      · exact absurd (h.subset List.mem_cons_self) haction
    · rcases List.suffix_cons_iff.mp h with h | h
      · exact (List.cons.inj h).2.symm
      · exact absurd (h.subset List.mem_cons_self) ht
  · rintro rfl
    exact List.suffix_append q _

/-- A route asks for what the table says, at every path that it matches. -/
def Agrees (route : Route Handler) : Prop :=
  ∀ method p, (route.method = method ∨ route.method = "GET" ∧ method = "HEAD") →
    Instance route.pattern p → access method p = route.handler.required

theorem agrees_of_method {route : Route Handler} (hget : route.method ≠ "GET")
    (h : ∀ p, Instance route.pattern p → access route.method p = route.handler.required) :
    Agrees route := by
  rintro method p (rfl | ⟨hmethod, -⟩) hinstance
  · exact h p hinstance
  · exact absurd hmethod hget

/-- Reading needs no look at the end of a path. -/
theorem agrees_of_read {handler : Handler}
    (hrequired : handler.required = some [.reader, .operator, .admin])
    (h : ∀ p, Instance pattern p → openPath p = false ∧ p ≠ encode "/api/v1/audit-events") :
    Agrees ⟨"GET", pattern, handler⟩ := by
  intro method p hmethod hinstance
  obtain ⟨hopen, haudit⟩ := h p hinstance
  have hread : method = "GET" ∨ method = "HEAD" := by
    rcases hmethod with h | ⟨-, h⟩
    · exact .inl h.symm
    · exact .inr h
  have hpost : method ≠ "POST" := by
    rintro rfl
    rcases hread with h | h
    · exact absurd h (by decide)
    · exact absurd h (by decide)
  simp only [hrequired, access, hopen, rolesFor, hpost, false_and, haudit, hread, if_false, if_true]
  rfl

/-- Below `/api/v1/`, only the audit events need more. -/
theorem agrees_of_read_api {handler : Handler} {segments : List Segment}
    (hrequired : handler.required = some [.reader, .operator, .admin])
    (h : ∀ p, Instance (api segments) p →
      ∃ q, p = encode "/api/v1/" ++ q ∧ decide (q = encode "audit-events") = false) :
    Agrees ⟨"GET", api segments, handler⟩ := by
  refine agrees_of_read hrequired fun p hinstance => ?_
  obtain ⟨q, rfl, hq⟩ := h p hinstance
  refine ⟨rfl, fun haudit => of_decide_eq_false hq ?_⟩
  exact List.append_cancel_left haudit

theorem agrees_read_collection {handler : Handler}
    (hrequired : handler.required = some [.reader, .operator, .admin])
    (htext : decide (text = encode "audit-events") = false) :
    Agrees ⟨"GET", api [.literal text], handler⟩ :=
  agrees_of_read_api hrequired fun _ h => ⟨text, instance_collection h, htext⟩

/-- The name of a collection that is not the start of `audit-events`. -/
def Distinct (text : Bytes) : Prop :=
  ∀ q, decide (text ++ '/'.toUInt8 :: q = encode "audit-events") = false

theorem agrees_read_member {handler : Handler}
    (hrequired : handler.required = some [.reader, .operator, .admin]) (htext : Distinct text) :
    Agrees ⟨"GET", api [.literal text, .wildcard], handler⟩ := by
  refine agrees_of_read_api hrequired fun p h => ?_
  obtain ⟨value, rfl⟩ := instance_member h
  exact ⟨_, rfl, htext value⟩

theorem agrees_read_action {handler : Handler} {action : Bytes}
    (hrequired : handler.required = some [.reader, .operator, .admin]) (htext : Distinct text) :
    Agrees ⟨"GET", api [.literal text, .wildcard, .literal action], handler⟩ := by
  refine agrees_of_read_api hrequired fun p h => ?_
  obtain ⟨value, rfl⟩ := instance_action h
  refine ⟨text ++ '/'.toUInt8 :: (value ++ '/'.toUInt8 :: action), ?_, htext _⟩
  simp only [List.append_assoc, List.cons_append]

/-- What a `POST` to an action needs depends on the collection and the action only. -/
theorem access_action {action value : Bytes} (haction : '/'.toUInt8 ∉ action) (htext : Distinct text) :
    access "POST" ((encode "/api/v1/" ++ (text ++ '/'.toUInt8 :: value)) ++ '/'.toUInt8 :: action)
      = some (
        if (encode "approvals/").isPrefixOf (text ++ '/'.toUInt8 :: (value ++ '/'.toUInt8 :: action))
            ∧ (encode "approve" = action ∨ encode "reject" = action) then [.admin]
        else if encode "children" = action then [.agent]
        else [.operator, .admin]) := by
  have hpath : (encode "/api/v1/" ++ (text ++ '/'.toUInt8 :: value)) ++ '/'.toUInt8 :: action
      = encode "/api/v1/" ++ (text ++ '/'.toUInt8 :: (value ++ '/'.toUInt8 :: action)) := by
    simp only [List.append_assoc, List.cons_append]
  have hends : ∀ t : Bytes, '/'.toUInt8 ∉ t → ('/'.toUInt8 :: t).isSuffixOf
      (encode "/api/v1/" ++ (text ++ '/'.toUInt8 :: (value ++ '/'.toUInt8 :: action)))
      = decide (t = action) := by
    intro t ht
    rw [← hpath]
    exact isSuffixOf_segment ht haction
  have happrove : (encode "/approve").isSuffixOf _ = _ := hends (encode "approve") (by decide)
  have hreject : (encode "/reject").isSuffixOf _ = _ := hends (encode "reject") (by decide)
  have hchildren : (encode "/children").isSuffixOf _ = _ := hends (encode "children") (by decide)
  have hopen : openPath
      (encode "/api/v1/" ++ (text ++ '/'.toUInt8 :: (value ++ '/'.toUInt8 :: action))) = false := rfl
  have hstart : (encode "/api/v1/approvals/").isPrefixOf
      (encode "/api/v1/" ++ (text ++ '/'.toUInt8 :: (value ++ '/'.toUInt8 :: action)))
      = (encode "approvals/").isPrefixOf (text ++ '/'.toUInt8 :: (value ++ '/'.toUInt8 :: action)) := rfl
  have haudit : encode "/api/v1/" ++ (text ++ '/'.toUInt8 :: (value ++ '/'.toUInt8 :: action))
      ≠ encode "/api/v1/audit-events" := fun haudit =>
    of_decide_eq_false (htext _) (List.append_cancel_left haudit)
  rw [hpath]
  simp only [access, hopen, rolesFor, hstart, happrove, hreject, hchildren, haudit,
    decide_eq_true_eq, true_and, if_false]
  rfl

theorem agrees_open {method : String} {handler : Handler} (hrequired : handler.required = none)
    (hopen : openPath ('/'.toUInt8 :: text) = true) : Agrees ⟨method, [.literal text], handler⟩ := by
  rintro method' p - hinstance
  obtain ⟨q, rfl, hnil⟩ := instance_literal hinstance
  obtain rfl := instance_nil hnil
  rw [List.append_nil, access, hopen, hrequired, if_pos rfl]

theorem agrees_collection {method : String} {handler : Handler} (hget : method ≠ "GET")
    (h : access method (encode "/api/v1/" ++ text) = handler.required) :
    Agrees ⟨method, api [.literal text], handler⟩ := by
  refine agrees_of_method hget fun p hinstance => ?_
  rw [instance_collection hinstance]
  exact h

theorem agrees_member {method : String} {handler : Handler} (hget : method ≠ "GET")
    (h : ∀ value, access method (encode "/api/v1/" ++ (text ++ '/'.toUInt8 :: value))
      = handler.required) :
    Agrees ⟨method, api [.literal text, .wildcard], handler⟩ := by
  refine agrees_of_method hget fun p hinstance => ?_
  obtain ⟨value, rfl⟩ := instance_member hinstance
  exact h value

theorem agrees_action {handler : Handler} {action : Bytes} {roles : List Role}
    (hrequired : handler.required = some roles) (haction : '/'.toUInt8 ∉ action)
    (htext : Distinct text)
    (h : ∀ value,
      (if (encode "approvals/").isPrefixOf (text ++ '/'.toUInt8 :: (value ++ '/'.toUInt8 :: action))
          ∧ (encode "approve" = action ∨ encode "reject" = action) then [.admin]
        else if encode "children" = action then [.agent]
        else [.operator, .admin]) = roles) :
    Agrees ⟨"POST", api [.literal text, .wildcard, .literal action], handler⟩ := by
  refine agrees_of_method (by show "POST" ≠ "GET"; decide) fun p hinstance => ?_
  obtain ⟨value, rfl⟩ := instance_action hinstance
  rw [hrequired]
  exact (access_action haction htext).trans (congrArg some (h value))

theorem instance_pair {second : Bytes} (h : Instance (api [.literal text, .literal second]) p) :
    p = encode "/api/v1/" ++ (text ++ '/'.toUInt8 :: second) := by
  obtain ⟨_, rfl, hv1⟩ := instance_literal h
  obtain ⟨_, rfl, hfirst⟩ := instance_literal hv1
  obtain ⟨_, rfl, hsecond⟩ := instance_literal hfirst
  obtain ⟨_, rfl, hnil⟩ := instance_literal hsecond
  obtain rfl := instance_nil hnil
  rw [List.append_nil]
  rfl

/-- Both decisions agree on every route. -/
theorem routes_agree : ∀ route ∈ routes, Agrees route := by
  have hagents : Distinct (encode "agents") := fun _ => rfl
  have hruns : Distinct (encode "runs") := fun _ => rfl
  have hworkflows : Distinct (encode "workflows") := fun _ => rfl
  have happrovals : Distinct (encode "approvals") := fun _ => rfl
  have hpost : "POST" ≠ "GET" := by decide
  have haudit : Agrees ⟨"GET", api [lit "audit-events"], .listAuditEvents⟩ := by
    intro method p hmethod hinstance
    rw [instance_collection hinstance]
    rcases hmethod with rfl | ⟨-, rfl⟩
    · rfl
    · rfl
  have hservers : Agrees ⟨"GET", api [lit "tools", lit "servers"], .listToolServers⟩ :=
    agrees_of_read_api rfl fun p hinstance => ⟨_, instance_pair hinstance, rfl⟩
  have hcall : Agrees ⟨"POST", api [lit "tools", lit "call"], .callTool⟩ := by
    refine agrees_of_method hpost fun p hinstance => ?_
    rw [instance_pair hinstance]
    rfl
  have hmetrics : Agrees ⟨"GET", [lit "metrics"], .prometheusMetrics⟩ := by
    refine agrees_of_read rfl fun p hinstance => ?_
    obtain ⟨q, rfl, hnil⟩ := instance_literal hinstance
    obtain rfl := instance_nil hnil
    exact ⟨rfl, by decide⟩
  simp only [routes, List.forall_mem_cons]
  refine ⟨agrees_open rfl rfl, agrees_open rfl rfl,
    -- Agents
    agrees_read_collection rfl rfl, agrees_collection hpost rfl, agrees_read_member rfl hagents,
    agrees_member (by decide) fun _ => rfl, agrees_member (by decide) fun _ => rfl,
    agrees_read_action rfl hagents,
    -- Runs
    agrees_read_collection rfl rfl, agrees_collection hpost rfl, agrees_read_member rfl hruns,
    agrees_read_action rfl hruns, agrees_action rfl (by decide) hruns fun _ => rfl,
    agrees_action rfl (by decide) hruns fun _ => rfl, agrees_read_action rfl hruns,
    -- Workflows
    agrees_read_collection rfl rfl, agrees_collection hpost rfl, agrees_read_member rfl hworkflows,
    agrees_action rfl (by decide) hworkflows fun _ => rfl,
    agrees_action rfl (by decide) hworkflows fun _ => rfl, agrees_read_action rfl hworkflows,
    -- audit events and tools
    haudit, hservers, agrees_read_collection rfl rfl, hcall,
    -- approvals and metrics
    agrees_collection hpost rfl, agrees_read_collection rfl rfl, agrees_read_member rfl happrovals,
    agrees_action rfl (by decide) happrovals fun _ => rfl,
    agrees_action rfl (by decide) happrovals fun _ => rfl, hmetrics, fun _ h => ?_⟩
  cases h

theorem access_of_findHandler {method : String} {u : URL} {handler : Handler}
    (h : findHandler routes method u = some handler) : access method u.path = handler.required := by
  obtain ⟨route, hroute, rfl, hinstance, hmethod⟩ :=
    findHandler_sound (by decide +kernel) (by decide +kernel) h
  exact routes_agree route hroute method u.path hmethod hinstance

end Agreement

/-- Only one handler is for Agents. -/
theorem Handler.eq_of_agent_mem {handler : Handler} {roles : List Role}
    (h : handler.required = some roles) (hagent : .agent ∈ roles) :
    handler = .createAgentChildRun := by
  cases handler
  case createAgentChildRun => rfl
  case health => cases h
  case ready => cases h
  all_goals
    obtain rfl := Option.some.inj h
    exact absurd hagent (by decide)

/-- **The role boundary.**  A handler that the mux runs after the middleware has let a request
through runs for an identity with one of the roles of the table, or is open to everyone.  An
identity with no role but that of an Agent runs `createAgentChildRun`. -/
theorem role_boundary {D : Type} [DecidableEq D] {sum256 : String → D} {a : Authenticator D}
    {r : APIRequest} {identity : Option APIIdentity} {handler : Handler} (henabled : a.enabled = true)
    (hpassed : a.middleware sum256 r = .next identity)
    (hhandler : findHandler routes r.method r.url = some handler) :
    (∀ roles, handler.required = some roles →
      ∃ i, identity = some i ∧ a.authenticate sum256 r.authorization = some i ∧
        i.hasAny roles = true) ∧
    (∀ i, identity = some i → (∀ role ∈ i.roles, role = .agent) → handler = .createAgentChildRun) := by
  have haccess := access_of_findHandler hhandler
  rw [Authenticator.middleware, henabled, if_neg (by simp)] at hpassed
  split at hpassed
  · rename_i hopen
    rw [access, hopen, if_pos rfl] at haccess
    cases hpassed
    refine ⟨fun roles hroles => ?_, fun i hi => ?_⟩
    · rw [← haccess] at hroles
      cases hroles
    · cases hi
  · rename_i hclosed
    rw [access, if_neg hclosed] at haccess
    split at hpassed
    · cases hpassed
    · rename_i found hfound
      split at hpassed
      · rename_i hauthorized
        cases hpassed
        refine ⟨fun roles hroles => ?_, fun i hi honly => ?_⟩
        · rw [← haccess] at hroles
          obtain rfl := Option.some.inj hroles
          exact ⟨found, rfl, hfound, hauthorized⟩
        · obtain rfl := Option.some.inj hi
          -- one of the roles is asked for, and it is `agent`
          obtain ⟨role, hrole, hmem⟩ := List.any_eq_true.mp hauthorized
          rw [honly role hrole, decide_eq_true_eq] at hmem
          exact Handler.eq_of_agent_mem haccess.symm hmem
      · cases hpassed

/-- One token for an Agent and one for an administrator; the digest of a token is the token. -/
def twoTokens : Authenticator String where
  credentials := [({ subject := "worker", roles := [.agent], agentID := "agent" }, "w"),
    ({ subject := "root", roles := [.admin] }, "r")]

/-- A configuration of the two. -/
def twoReferences (_ : String) : Option (List (String × TokenReference)) :=
  some [("worker", { secretEnv := "WORKER", roles := ["agent"], agentID := "agent" }),
    ("root", { secretEnv := "ROOT", roles := [" Admin ", "admin"] })]

/-- A request with a token to a path in its escaped form. -/
def requestTo (method path token : String) : APIRequest where
  method := method
  url := (parse (encode path)).getD {}
  authorization := "Bearer " ++ token

/-- The token of an Agent reaches `createAgentChildRun`, at an identifier that looks like an
approval; that of the administrator approves one that looks like a child Run. -/
theorem role_boundary_encoded :
    newAuthenticator id twoReferences
      (some fun name => if name = "WORKER" then some "w" else some "r") "references"
      = .ok twoTokens ∧
    findHandler routes "POST" (requestTo "POST" "/api/v1/runs/x%2Fapprove/%63hildren" "w").url
      = some .createAgentChildRun ∧
    (∃ i, twoTokens.authenticate id "Bearer w" = some i ∧ i.hasAny [.agent] = true) ∧
    findHandler routes "POST" (requestTo "POST" "/api/v1/approvals/a%2Fchildren/approve" "r").url
      = some .approveApproval ∧
    ∃ i, twoTokens.authenticate id "Bearer r" = some i ∧ i.hasAny [.admin] = true := by
  have hchild : findHandler routes "POST"
      (requestTo "POST" "/api/v1/runs/x%2Fapprove/%63hildren" "w").url
      = some .createAgentChildRun := by decide +kernel
  have happrove : findHandler routes "POST"
      (requestTo "POST" "/api/v1/approvals/a%2Fchildren/approve" "r").url
      = some .approveApproval := by decide +kernel
  have hworker : twoTokens.middleware id (requestTo "POST" "/api/v1/runs/x%2Fapprove/%63hildren" "w")
      = .next (some { subject := "worker", roles := [.agent], agentID := "agent" }) := by
    decide +kernel
  have hroot : twoTokens.middleware id (requestTo "POST" "/api/v1/approvals/a%2Fchildren/approve" "r")
      = .next (some { subject := "root", roles := [.admin] }) := by decide +kernel
  refine ⟨by decide +kernel, hchild, ?_, happrove, ?_⟩
  · obtain ⟨i, -, hi⟩ := (role_boundary (by decide) hworker hchild).1 _ rfl
    exact ⟨i, hi⟩
  · obtain ⟨i, -, hi⟩ := (role_boundary (by decide) hroot happrove).1 _ rfl
    exact ⟨i, hi⟩

end AgentMesh
