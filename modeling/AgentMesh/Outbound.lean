/-
AgentMesh/Outbound.lean

The three adapters that send requests to endpoints: `HTTPRuntime.Execute`
(`internal/runtime/http.go`), `OpenAICompatible.Complete` (`internal/llm/openai.go`)
and `Client.call` (`internal/mcp/client.go`), each as far as the connection that
its request opens.

All three use clients of `policyHTTPClient`, whose transport dials through
`dialContext`.  `Execute` also passes the endpoint through `remoteExecutionURL`,
which checks the host and the scheme against the policy.  The other two check
that the endpoint is an absolute HTTP URL, and leave the policy to the client;
but the client sees addresses only.

The transport below the policy is Go's default one, as in `cmd/agentmesh`: it has
no dialer of its own, and no proxy.  The authenticator of each adapter is a
parameter.
-/
import AgentMesh.HostPolicy
import AgentMesh.Http
import AgentMesh.Agent
import AgentMesh.Tools

namespace AgentMesh

open Netip Url Http

/-! ### The client -/

/-- `RequestAuthenticator.Authenticate`: what becomes of the header of a request. -/
abbrev Authenticate := Agent → Header → Except Err Header

/-- `NewSecureHTTPClient`; a client is known by the policy of its transport. -/
def newSecureHTTPClient (policy : HTTPPolicy) : Except Err HTTPPolicy := normalizeHTTPPolicy policy

/-- `Do` of a client of `policyHTTPClient`, as far as the connection. -/
def sendRequest (policy : HTTPPolicy) (net : Net) (idna : String → Option String)
    (request : Request) : Except Err Addr :=
  match request.refused with
  | some text => .error (errorf text)
  | none => (dialContext policy net (canonicalAddr idna request.url)).2

/-- How the three adapters end: the request is authenticated and sent.  Errors of the two steps
become errors of the adapter, by `denied` and `failed`. -/
def deliver {E : Type} (policy : HTTPPolicy) (net : Net) (idna : String → Option String)
    (authenticate : Header → Except Err Header) (denied : E) (failed : Err → E)
    (request : Request) : Except E Addr :=
  match authenticate request.header with
  | .error _ => .error denied
  | .ok header =>
      match sendRequest policy net idna { request with header } with
      | .error err => .error (failed err)
      | .ok connection => .ok connection

/-! ### JSON bodies -/

def jsonField (name : String) (value : List Char) : List Char := jsonString name ++ ':' :: value

def jsonObject (fields : List (List Char)) : List Char :=
  '\x7b' :: List.intercalate [','] fields ++ ['\x7d']

/-- The length of a body in bytes. -/
def bodySize (payload : List Char) : Int := (String.ofList payload).utf8ByteSize

/-- The limit of the three constructors; a limit that is not positive is the default. -/
def requestLimit (maxRequestBytes : Int) : Int :=
  if maxRequestBytes ≤ 0 then 1048576 else maxRequestBytes

/-! ### The HTTP runtime -/

inductive HTTPErrorKind where
  | temporary
  | permanent
  | timeout
  | protocol
  | canceled
  deriving DecidableEq, Repr

structure HTTPError where
  kind : HTTPErrorKind
  err : Err
  deriving DecidableEq, Repr

def protocolError (text : String) : HTTPError := ⟨.protocol, errorf text⟩

structure ExecutionRequest where
  runID : String
  agent : Agent
  attempt : Int
  input : String

/-- `protocolv1.RunRequest`. -/
structure WireRequest where
  protocolVersion : String
  runID : String
  agentID : String
  attempt : Int
  idempotencyKey : String
  effectIdempotencyKey : String
  input : String

def protocolVersion1 : String := "1"
def headerVersion : String := "Agent-Protocol-Version"
def headerEffectIdempotency : String := "Agent-Effect-Idempotency-Key"

def attemptIdempotencyKey (runID : String) (attempt : Int) : String :=
  runID ++ ":" ++ toString attempt

def WireRequest.validate (r : WireRequest) : Except Err Unit :=
  let invalidMessage (text : String) : Except Err Unit :=
    .error (errorf ("invalid agent protocol v1 message: " ++ text))
  if r.protocolVersion ≠ protocolVersion1 then
    invalidMessage ("unsupported Agent Protocol version " ++ quoted r.protocolVersion
      ++ " (supported: " ++ protocolVersion1 ++ ")")
  else if trimSpace r.runID = "" then invalidMessage "run_id is required"
  else if trimSpace r.agentID = "" then invalidMessage "agent_id is required"
  else if r.attempt < 1 then invalidMessage "attempt must be at least 1"
  else if trimSpace r.idempotencyKey = "" then invalidMessage "idempotency_key is required"
  else .ok ()

def WireRequest.payload (r : WireRequest) : List Char :=
  jsonObject (
    [jsonField "protocol_version" (jsonString r.protocolVersion),
      jsonField "run_id" (jsonString r.runID),
      jsonField "agent_id" (jsonString r.agentID),
      jsonField "attempt" (toString r.attempt).toList,
      jsonField "idempotency_key" (jsonString r.idempotencyKey)]
    ++ (if r.effectIdempotencyKey = "" then []
      else [jsonField "effect_idempotency_key" (jsonString r.effectIdempotencyKey)])
    ++ [jsonField "input" (jsonString r.input)])

structure HTTPRuntime where
  maxRequestBytes : Int
  policy : HTTPPolicy
  authenticate : Authenticate

def newHTTPRuntime (maxRequestBytes : Int) (policy : HTTPPolicy) (authenticate : Authenticate) :
    Except Err HTTPRuntime := do
  let policy ← normalizeHTTPPolicy policy
  return { maxRequestBytes := requestLimit maxRequestBytes, policy, authenticate }

def remoteExecutionURL (endpoint : String) (policy : HTTPPolicy) : Except Err Bytes :=
  match parse (encode (trimSpace endpoint)) with
  | none => .error (errorf "invalid agent endpoint")
  | some parsed =>
      if parsed.scheme ≠ encode "http" ∧ parsed.scheme ≠ encode "https" then
        .error (errorf "agent endpoint must use http or https")
      else if policy.requireHTTPS ∧ parsed.scheme ≠ encode "https" then
        .error (deniedBy "endpoint must use https")
      else if parsed.host = [] then .error (errorf "agent endpoint must be absolute")
      else if parsed.user ≠ none then .error (errorf "agent endpoint cannot contain credentials")
      else if parsed.rawQuery ≠ [] ∨ parsed.fragment ≠ [] then
        .error (errorf "agent endpoint cannot contain query or fragment")
      else
        match policy.validateHost (decode parsed.hostname) with
        | .error err => .error err
        | .ok () =>
            match joinPath parsed.string (encode "v1/runs") with
            | none => .error (errorf "build agent execution URL")
            | some joined => .ok joined

namespace HTTPRuntime

def wireRequest (request : ExecutionRequest) : WireRequest where
  protocolVersion := protocolVersion1
  runID := request.runID
  agentID := request.agent.id
  attempt := request.attempt
  idempotencyKey := attemptIdempotencyKey request.runID request.attempt
  effectIdempotencyKey := request.runID
  input := request.input

def header (wire : WireRequest) (header : Header) : Header :=
  header.set "Content-Type" "application/json"
    |>.set "Accept" "application/json"
    |>.set "Accept-Encoding" "identity"
    |>.set "Idempotency-Key" wire.idempotencyKey
    |>.set headerEffectIdempotency wire.effectIdempotencyKey
    |>.set headerVersion protocolVersion1

/-- `Execute` as far as the request that it authenticates. -/
def newRequest (h : HTTPRuntime) (request : ExecutionRequest) : Except HTTPError Request :=
  if toLower (trimSpace request.agent.protocol) ≠ "http" then
    .error (protocolError ("agent protocol must be " ++ quoted "http"))
  else
    match remoteExecutionURL request.agent.endpoint h.policy with
    | .error err => .error ⟨.permanent, err⟩
    | .ok executionURL =>
        match (wireRequest request).validate with
        | .error err => .error ⟨.protocol, err⟩
        | .ok () =>
            if h.maxRequestBytes < bodySize (wireRequest request).payload then
              .error (protocolError ("request exceeds " ++ toString h.maxRequestBytes ++ " bytes"))
            else
              match Http.newRequest executionURL with
              | none => .error ⟨.permanent, errorf "create request"⟩
              | some r => .ok { r with header := header (wireRequest request) r.header }

/-- `classifyTransportError` on an error of dialing, without timeouts. -/
def classifyTransportError (err : Err) : HTTPError :=
  if err.is .networkPolicy then ⟨.permanent, Sentinel.networkPolicy.err⟩ else ⟨.temporary, err⟩

/-- `Execute` as far as the connection. -/
def execute (h : HTTPRuntime) (net : Net) (idna : String → Option String)
    (request : ExecutionRequest) : Except HTTPError Addr :=
  match h.newRequest request with
  | .error err => .error err
  | .ok httpRequest =>
      deliver h.policy net idna (h.authenticate request.agent)
        ⟨.permanent, errorf "agent request authentication failed"⟩ classifyTransportError httpRequest

end HTTPRuntime

/-! ### The provider of language models -/

structure ProviderError where
  code : String
  retry : Bool := false
  err : Err
  deriving DecidableEq, Repr

def permanentError (code message : String) : ProviderError := { code, err := errorf message }

/-- `CompletionRequest` has the fields of `ExecutionRequest`. -/
abbrev CompletionRequest := ExecutionRequest

structure OpenAICompatible where
  /-- The policy of the client. -/
  client : HTTPPolicy
  maxRequestBytes : Int
  authenticate : Authenticate

def newOpenAICompatible (client : HTTPPolicy) (maxRequestBytes : Int)
    (authenticate : Authenticate) : OpenAICompatible :=
  { client, maxRequestBytes := requestLimit maxRequestBytes, authenticate }

def chatCompletionsURL (endpoint : String) : Except Err Bytes :=
  match parse (encode (trimSpace endpoint)) with
  | none => .error (errorf "LLM endpoint must be an absolute HTTP URL")
  | some parsed =>
      if parsed.scheme = [] ∨ parsed.host = [] then
        .error (errorf "LLM endpoint must be an absolute HTTP URL")
      else if parsed.scheme ≠ encode "http" ∧ parsed.scheme ≠ encode "https" then
        .error (errorf "LLM endpoint must use HTTP or HTTPS")
      else if parsed.rawQuery ≠ [] ∨ parsed.fragment ≠ [] then
        .error (errorf "LLM endpoint cannot contain query or fragment")
      else if parsed.user ≠ none then
        .error (errorf "LLM endpoint cannot contain credentials")
      else
        let path := parsed.path.rdropWhile (· = '/'.toUInt8)
        let path :=
          if (encode "/v1").isSuffixOf path then path ++ encode "/chat/completions"
          else path ++ encode "/v1/chat/completions"
        .ok ({ parsed with path } : URL).string

namespace OpenAICompatible

/-- The JSON body of a chat request. -/
def payload (request : CompletionRequest) : List Char :=
  let message (role content : String) : List Char :=
    jsonObject [jsonField "role" (jsonString role), jsonField "content" (jsonString content)]
  let systemPrompt := trimSpace request.agent.systemPrompt
  let messages :=
    (if systemPrompt = "" then [] else [message "system" systemPrompt])
      ++ [message "user" request.input]
  jsonObject [jsonField "model" (jsonString request.agent.model),
    jsonField "messages" ('[' :: List.intercalate [','] messages ++ [']'])]

def header (request : CompletionRequest) (header : Header) : Header :=
  header.set "Content-Type" "application/json"
    |>.set "Accept" "application/json"
    |>.set "Accept-Encoding" "identity"
    |>.set "Idempotency-Key" (request.runID ++ ":" ++ toString request.attempt)

/-- `Complete` as far as the request that it authenticates. -/
def newRequest (p : OpenAICompatible) (request : CompletionRequest) :
    Except ProviderError Request :=
  if trimSpace request.runID = "" ∨ trimSpace request.agent.id = "" then
    .error (permanentError "invalid_request" "Run ID and Agent ID are required")
  else if trimSpace request.agent.model = "" then
    .error (permanentError "model_required" "Agent model is required")
  else
    match chatCompletionsURL request.agent.endpoint with
    | .error err => .error { code := "invalid_endpoint", err }
    | .ok endpoint =>
        if p.maxRequestBytes < bodySize (payload request) then
          .error (permanentError "request_too_large"
            ("request exceeds " ++ toString p.maxRequestBytes ++ " bytes"))
        else
          match Http.newRequest endpoint with
          | none => .error (permanentError "invalid_request" "invalid URL")
          | some r => .ok { r with header := header request r.header }

/-- `Complete` as far as the connection. -/
def complete (p : OpenAICompatible) (net : Net) (idna : String → Option String)
    (request : CompletionRequest) : Except ProviderError Addr :=
  match p.newRequest request with
  | .error err => .error err
  | .ok httpRequest =>
      deliver p.client net idna (p.authenticate request.agent)
        { code := "authentication_failed", err := errorf "outbound credential unavailable" }
        (fun err => { code := "transport_error", retry := true, err }) httpRequest

end OpenAICompatible

/-! ### The MCP client -/

/-- The condition of `validateServer` on the endpoint. -/
def absoluteHTTP (endpoint : String) : Bool :=
  match parse (encode endpoint) with
  | none => false
  | some parsed =>
      parsed.host ≠ [] && (parsed.scheme = encode "http" || parsed.scheme = encode "https")
        && parsed.user = none && parsed.rawQuery = [] && parsed.fragment = []

structure ToolClient where
  /-- The policy of `httpClient`. -/
  httpClient : HTTPPolicy
  maxRequestBytes : Int
  authenticator : Option Authenticate
  sequence : Nat := 0

def newToolClient (httpClient : HTTPPolicy) (maxRequestBytes : Int)
    (authenticator : Option Authenticate) : ToolClient :=
  { httpClient, maxRequestBytes := requestLimit maxRequestBytes, authenticator }

def mcpProtocolVersion : String := "2026-07-28"

namespace ToolClient

/-- The JSON-RPC body; `params` is given as JSON. -/
def payload (id : Nat) (method : String) (params : List Char) : List Char :=
  jsonObject [jsonField "jsonrpc" (jsonString "2.0"), jsonField "id" (toString id).toList,
    jsonField "method" (jsonString method), jsonField "params" params]

def header (method name : String) (header : Header) : Header :=
  let header := header.set "Content-Type" "application/json"
    |>.set "Accept" "application/json, text/event-stream"
    |>.set "Accept-Encoding" "identity"
    |>.set "MCP-Protocol-Version" mcpProtocolVersion
    |>.set "Mcp-Method" method
  if name = "" then header else header.set "Mcp-Name" name

/-- `call` as far as the request that it authenticates. -/
def newRequest (c : ToolClient) (server : ToolServer) (method name : String)
    (params : List Char) : Except Err Request :=
  if c.maxRequestBytes < bodySize (payload (c.sequence + 1) method params) then
    .error (errorf ("MCP request exceeds " ++ toString c.maxRequestBytes ++ " bytes"))
  else
    match Http.newRequest (encode server.endpoint) with
    | none => .error (errorf "invalid URL")
    | some r => .ok { r with header := header method name r.header }

/-- The Agent in whose name the requests to a server are authenticated. -/
def serverAgent (server : ToolServer) : Agent := { id := "mcp:" ++ server.id }

/-- `call` as far as the connection. -/
def call (c : ToolClient) (net : Net) (idna : String → Option String) (server : ToolServer)
    (method name : String) (params : List Char) : Except Err Addr :=
  match c.newRequest server method name params with
  | .error err => .error err
  | .ok request =>
      deliver c.httpClient net idna (c.authenticator.elim .ok fun f => f (serverAgent server))
        (errorf "MCP authentication failed") id request

end ToolClient

/-! ### Admission -/

/-- The condition of `NormalizeAndValidate` on the endpoint of an Agent. -/
def absoluteURI (endpoint : String) : Bool :=
  match parse (encode endpoint) with
  | none => false
  | some parsed =>
      parsed.scheme ≠ [] && !(parsed.host = [] && parsed.rootless = [] && parsed.path = [])

/-- The admission of `remoteExecutionURL`: the host is an allowed one, and the scheme is `https`
where the policy requires it. -/
def HTTPPolicy.Admits (policy : HTTPPolicy) (endpoint : String) : Prop :=
  ∃ parsed, parse (encode (trimSpace endpoint)) = some parsed ∧
    (policy.allowedHosts = [] ∨
      hostAllowed (hostText (decode parsed.hostname)) policy.allowedHosts = true) ∧
    (policy.requireHTTPS = true → parsed.scheme = encode "https")

/-- Whatever `Complete` connects to for an Agent that uses a language model is admitted. -/
def CompletesWithin (policy : HTTPPolicy) : Prop :=
  ∀ maxRequestBytes authenticate net idna connection (configured : Agent) (request : CompletionRequest),
    configured.normalizeAndValidate absoluteURI = .ok request.agent →
    request.agent.runtime = "llm" → request.agent.protocol = "openai" →
    (newOpenAICompatible policy maxRequestBytes authenticate).complete net idna request
      = .ok connection →
    policy.Admits request.agent.endpoint

/-- Whatever `call` connects to for a configured server is admitted. -/
def CallsWithin (policy : HTTPPolicy) : Prop :=
  ∀ maxRequestBytes authenticator net idna connection configured server method name params,
    validateServer absoluteHTTP configured = .ok server →
    (newToolClient policy maxRequestBytes authenticator).call net idna server method name params
      = .ok connection →
    policy.Admits server.endpoint

section Admission

variable {policy raw : HTTPPolicy} {endpoint : String} {net : Net} {idna : String → Option String}

theorem validateHost_allowed {host : String} (h : policy.validateHost host = .ok ()) :
    policy.allowedHosts = [] ∨ hostAllowed (hostText host) policy.allowedHosts = true := by
  rw [HTTPPolicy.validateHost] at h
  split at h
  · cases h
  · split at h
    · cases h
    · rename_i hallowed
      by_contra hnot
      obtain ⟨hne, hfalse⟩ := not_or.mp hnot
      exact hallowed ⟨hne, Bool.eq_false_iff.mpr hfalse⟩

theorem remoteExecutionURL_admits {url : Bytes} (h : remoteExecutionURL endpoint policy = .ok url) :
    policy.Admits endpoint := by
  rw [remoteExecutionURL] at h
  rcases hparse : parse (encode (trimSpace endpoint)) with - | parsed
  · rw [hparse] at h
    cases h
  · rw [hparse] at h
    refine ⟨parsed, hparse, ?_⟩
    dsimp only at h
    split at h
    · cases h
    · split at h
      · cases h
      · rename_i hhttps
        iterate 3 (split at h; · cases h)
        split at h
        · cases h
        · rename_i hhost
          refine ⟨validateHost_allowed hhost, fun hrequire => ?_⟩
          by_contra hscheme
          exact hhttps ⟨hrequire, hscheme⟩

/-- An endpoint that `Execute` connects to is admitted. -/
theorem execute_admits {h : HTTPRuntime} {request : ExecutionRequest} {connection : Addr}
    (hexecute : h.execute net idna request = .ok connection) :
    h.policy.Admits request.agent.endpoint := by
  rcases hrequest : h.newRequest request with err | r
  · rw [HTTPRuntime.execute, hrequest] at hexecute
    cases hexecute
  · rw [HTTPRuntime.newRequest] at hrequest
    split at hrequest
    · cases hrequest
    · rcases hurl : remoteExecutionURL request.agent.endpoint h.policy with err | url
      · rw [hurl] at hrequest
        cases hrequest
      · exact remoteExecutionURL_admits hurl

/-- A connection is to an acceptable address. -/
theorem deliver_validated {E : Type} {authenticate : Header → Except Err Header} {denied : E}
    {failed : Err → E} {r : Request} {connection : Addr}
    (h : deliver policy net idna authenticate denied failed r = .ok connection) :
    connection.zone = "" ∧ policy.validateAddress connection = .ok () := by
  rw [deliver] at h
  split at h
  · cases h
  · split at h
    · cases h
    · rename_i hsend
      obtain rfl := Except.ok.inj h
      rw [sendRequest] at hsend
      split at hsend
      · cases hsend
      · exact mem_dialContext (connection_mem_dialContext hsend)

theorem complete_validated {p : OpenAICompatible} {request : CompletionRequest} {connection : Addr}
    (h : p.complete net idna request = .ok connection) :
    connection.zone = "" ∧ p.client.validateAddress connection = .ok () := by
  rw [OpenAICompatible.complete] at h
  split at h
  · cases h
  · exact deliver_validated h

theorem call_validated {c : ToolClient} {server : ToolServer} {method name : String}
    {params : List Char} {connection : Addr}
    (h : c.call net idna server method name params = .ok connection) :
    connection.zone = "" ∧ c.httpClient.validateAddress connection = .ok () := by
  rw [ToolClient.call] at h
  split at h
  · cases h
  · exact deliver_validated h

/-- Where the policy asks nothing of hosts and schemes, every URL is admitted. -/
theorem admits_of_open (hhosts : policy.allowedHosts = []) (hhttps : policy.requireHTTPS = false)
    {parsed : URL} (hparse : parse (encode (trimSpace endpoint)) = some parsed) :
    policy.Admits endpoint := by
  refine ⟨parsed, hparse, .inl hhosts, fun hrequire => ?_⟩
  rw [hhttps] at hrequire
  cases hrequire

theorem complete_parses {p : OpenAICompatible} {request : CompletionRequest} {connection : Addr}
    (h : p.complete net idna request = .ok connection) :
    ∃ parsed, parse (encode (trimSpace request.agent.endpoint)) = some parsed := by
  rw [OpenAICompatible.complete] at h
  split at h
  · cases h
  · rename_i r hrequest
    rw [OpenAICompatible.newRequest] at hrequest
    split at hrequest
    · cases hrequest
    · split at hrequest
      · cases hrequest
      · rcases hparse : parse (encode (trimSpace request.agent.endpoint)) with - | parsed
        · rw [chatCompletionsURL, hparse] at hrequest
          cases hrequest
        · exact ⟨parsed, rfl⟩

theorem server_parses {configured server : ToolServer}
    (h : validateServer absoluteHTTP configured = .ok server) :
    ∃ parsed, parse (encode (trimSpace server.endpoint)) = some parsed := by
  obtain ⟨-, -, -, hendpoint, hhttp⟩ := validateServer_ok h
  rw [hendpoint] at hhttp ⊢
  rw [trimSpace_trimSpace]
  rcases hparse : parse (encode (trimSpace configured.endpoint)) with - | parsed
  · rw [absoluteHTTP, hparse] at hhttp
    cases hhttp
  · exact ⟨parsed, rfl⟩

end Admission

/-! ### Endpoints outside the boundary -/

section Outside

variable {policy : HTTPPolicy} {a : Addr}

/-- A host name of letters only. -/
def letters (n : Nat) : String := String.ofList (List.replicate n 'a')

/-- An endpoint without any extras. -/
def bareEndpoint (n : Nat) : String := "http://" ++ letters n

theorem toList_letters (n : Nat) : (letters n).toList = List.replicate n 'a' :=
  String.toList_ofList

theorem encode_append (s t : String) : encode (s ++ t) = encode s ++ encode t := by
  rw [encode, String.toList_append, List.flatMap_append]
  rfl

theorem mem_encode_letters {n : Nat} {c : UInt8} (h : c ∈ encode (letters n)) :
    c = 'a'.toUInt8 := by
  rw [encode, toList_letters] at h
  obtain ⟨d, hd, hc⟩ := List.mem_flatMap.mp h
  rw [List.eq_of_mem_replicate hd] at hc
  exact List.mem_singleton.mp hc

theorem isPlain_letters {n : Nat} : ∀ c ∈ encode (letters n), isPlain c = true := by
  intro c hc
  rw [mem_encode_letters hc]
  rfl

theorem encode_letters_ne_nil (n : Nat) : encode (letters (n + 1)) ≠ [] := by
  rw [encode, toList_letters, List.replicate_succ]
  intro h
  cases h

theorem encode_bareEndpoint (n : Nat) : encode (bareEndpoint n) = plainText (encode (letters n)) [] := by
  rw [bareEndpoint, encode_append, plainText, List.append_nil]

theorem trimSpace_bareEndpoint (n : Nat) : trimSpace (bareEndpoint n) = bareEndpoint n := by
  apply trimSpace_of_forall
  intro c hc
  rw [bareEndpoint, String.toList_append, List.mem_append] at hc
  rcases hc with hc | hc
  · have hstart : ("http://".toList.any isSpace) = false := by decide
    exact Bool.eq_false_iff.mpr (List.any_eq_false.mp hstart c hc)
  · rw [toList_letters] at hc
    rw [List.eq_of_mem_replicate hc]
    rfl

theorem plainPath_nil : PlainPath [] := ⟨.inl rfl, by simp⟩

theorem parse_bareEndpoint (n : Nat) :
    parse (encode (trimSpace (bareEndpoint n))) = some (plainURL (encode (letters n)) []) := by
  rw [trimSpace_bareEndpoint, encode_bareEndpoint, parse_plainText isPlain_letters plainPath_nil]

theorem canonicalAddr_letters (idna : String → Option String) (n : Nat) (p : Bytes) :
    splitHostPort (canonicalAddr idna (plainURL (encode (letters n)) p))
      = some (letters n, "80") := by
  have hname : ∀ c ∈ (letters n).toList, c ≠ ':' ∧ c.toNat < 0x80 := by
    intro c hc
    rw [toList_letters] at hc
    rw [List.eq_of_mem_replicate hc]
    exact ⟨by decide, by decide⟩
  have hmem : ∀ c, c ≠ 'a' → c ∉ (letters n).toList := by
    intro c hc hmem
    rw [toList_letters] at hmem
    exact hc (List.eq_of_mem_replicate hmem)
  rw [canonicalAddr_plainURL idna hname isPlain_letters]
  have hsplit : splitHostPort (letters n ++ ":" ++ "80") = some (letters n, "80") :=
    splitHostPort_joined ⟨hmem _ (by decide), hmem _ (by decide), hmem _ (by decide)⟩
      ⟨by decide, by decide, by decide⟩
  rwa [String.append_assoc] at hsplit

theorem deliver_letters {E : Type} (denied : E) (failed : Err → E) (idna : String → Option String)
    (n : Nat) (p : Bytes) {header : Header} (hheader : header.valid = true) (hzone : a.zone = "")
    (hvalid : policy.validateAddress a = .ok ()) :
    deliver policy (reachable a) idna .ok denied failed
      { url := plainURL (encode (letters (n + 1))) p, header } = .ok a := by
  have hrefused : Request.refused { url := plainURL (encode (letters (n + 1))) p, header } = none := by
    rw [Request.refused, if_neg, if_neg, if_neg]
    · exact encode_letters_ne_nil n
    · show ¬ header.valid = false
      rw [hheader]
      decide
    · exact fun hscheme => hscheme.1 rfl
  simp only [deliver, sendRequest, hrefused,
    dialContext_reachable (canonicalAddr_letters idna (n + 1) p) hzone hvalid]

/-- An Agent that uses a language model at an endpoint. -/
def modelAgent (endpoint : String) : Agent :=
  { id := "agent", name := "agent", runtime := "llm", protocol := "openai", endpoint, model := "model" }

/-- A short request. -/
def completion (endpoint : String) : CompletionRequest :=
  { runID := "run", agent := modelAgent endpoint, attempt := 1, input := "" }

/-- A server at an endpoint. -/
def toolServer (endpoint : String) : ToolServer := { id := "tools", endpoint, timeout := 1 }

theorem modelAgent_valid (n : Nat) :
    (modelAgent (bareEndpoint (n + 1))).normalizeAndValidate absoluteURI
      = .ok (modelAgent (bareEndpoint (n + 1))) := by
  have htrim := trimSpace_bareEndpoint (n + 1)
  have huri : absoluteURI (bareEndpoint (n + 1)) = true := by
    have hparse := parse_bareEndpoint (n + 1)
    rw [htrim] at hparse
    have hscheme : encode "http" ≠ [] := by decide
    simp [absoluteURI, hparse, plainURL, hscheme, encode_letters_ne_nil]
  unfold Agent.normalizeAndValidate
  simp only [modelAgent, htrim, huri]
  rfl

theorem plainPath_chat : PlainPath (encode "/v1/chat/completions") :=
  PlainPath.of_all (show ((encode "v1/chat/completions").all _) = true by decide)

theorem chatCompletionsURL_bareEndpoint (n : Nat) :
    chatCompletionsURL (bareEndpoint (n + 1))
      = .ok (plainText (encode (letters (n + 1))) (encode "/v1/chat/completions")) := by
  simp only [chatCompletionsURL, parse_bareEndpoint]
  rw [if_neg, if_neg, if_neg, if_neg]
  · show Except.ok (URL.string (plainURL (encode (letters (n + 1))) (encode "/v1/chat/completions"))) = _
    rw [string_plainURL (encode_letters_ne_nil n) isPlain_letters plainPath_chat]
  · exact fun huser => huser rfl
  · rintro (hquery | hfragment)
    · exact hquery rfl
    · exact hfragment rfl
  · exact fun hscheme => hscheme.1 rfl
  · rintro (hscheme | hhost)
    · cases hscheme
    · exact encode_letters_ne_nil n hhost

theorem completion_newRequest {p : OpenAICompatible} {request : CompletionRequest}
    {endpoint : Bytes} {r : Request} (hrun : trimSpace request.runID ≠ "")
    (hagent : trimSpace request.agent.id ≠ "") (hmodel : trimSpace request.agent.model ≠ "")
    (hurl : chatCompletionsURL request.agent.endpoint = .ok endpoint)
    (hsize : bodySize (OpenAICompatible.payload request) ≤ p.maxRequestBytes)
    (hnew : newRequest endpoint = some r) :
    p.newRequest request = .ok { r with header := OpenAICompatible.header request r.header } := by
  simp only [OpenAICompatible.newRequest, hrun, hagent, hmodel, or_self, if_false, hurl,
    not_lt.mpr hsize, hnew]

/-- `Complete` connects to an endpoint without a look at its host or its scheme. -/
theorem complete_bareEndpoint (idna : String → Option String) (n : Nat) (hzone : a.zone = "")
    (hvalid : policy.validateAddress a = .ok ()) :
    (newOpenAICompatible policy 0 fun _ header => .ok header).complete (reachable a) idna
      (completion (bareEndpoint (n + 1))) = .ok a := by
  -- neither the body nor the header depends on the endpoint
  have hsize : bodySize (OpenAICompatible.payload (completion (bareEndpoint (n + 1))))
      ≤ requestLimit 0 := by
    show bodySize (OpenAICompatible.payload (completion "")) ≤ requestLimit 0
    decide +kernel
  have hheader : (OpenAICompatible.header (completion (bareEndpoint (n + 1))) ∅).valid = true := by
    show (OpenAICompatible.header (completion "") ∅).valid = true
    decide +kernel
  have hrun : trimSpace (completion (bareEndpoint (n + 1))).runID ≠ "" := by
    show trimSpace "run" ≠ ""
    decide +kernel
  have hagent : trimSpace (completion (bareEndpoint (n + 1))).agent.id ≠ "" := by
    show trimSpace "agent" ≠ ""
    decide +kernel
  have hmodel : trimSpace (completion (bareEndpoint (n + 1))).agent.model ≠ "" := by
    show trimSpace "model" ≠ ""
    decide +kernel
  have hrequest := completion_newRequest
    (p := newOpenAICompatible policy 0 fun _ header => .ok header) hrun hagent hmodel
    (chatCompletionsURL_bareEndpoint n) hsize (newRequest_plainText isPlain_letters plainPath_chat)
  rw [OpenAICompatible.complete, hrequest]
  exact deliver_letters _ _ idna n _ hheader hzone hvalid

theorem hostText_letters (n : Nat) : hostText (letters n) = letters n := by
  have hchars : ∀ c ∈ (letters n).toList, c = 'a' := by
    intro c hc
    rw [toList_letters] at hc
    exact List.eq_of_mem_replicate hc
  have htrim : trimSpace (letters n) = letters n :=
    trimSpace_of_forall fun c hc => by rw [hchars c hc]; rfl
  have hsuffix : hasSuffix (letters n) "." = false := by
    rw [hasSuffix, ← Bool.not_eq_true, List.isSuffixOf_iff_suffix]
    intro hsuffix
    exact absurd (hchars '.' (hsuffix.subset (by decide))) (by decide)
  have hlower : toLower (letters n) = letters n := by
    rw [toLower, List.map_congr_left (g := id) fun c hc => by rw [hchars c hc]; rfl, List.map_id,
      String.ofList_toList]
  rw [hostText, htrim, trimSuffix, hsuffix, if_neg (by simp), hlower]

/-- A name of letters that is longer than every allowed host is not allowed. -/
theorem not_hostAllowed_letters {n : Nat} {allowed : List String}
    (hlong : ∀ candidate ∈ allowed, candidate.length < n) :
    hostAllowed (letters n) allowed = false := by
  rw [hostAllowed, List.any_eq_false]
  intro candidate hmem
  have hdot : '.' ∉ (letters n).toList := by
    intro hdot
    rw [toList_letters] at hdot
    exact absurd (List.eq_of_mem_replicate hdot) (by decide)
  split
  · rename_i hwildcard
    -- what follows the asterisk of a wildcard starts with a dot
    obtain ⟨rest, hrest⟩ := List.isPrefixOf_iff_prefix.mp hwildcard
    have hending : trimPrefix candidate "*" = String.ofList ('.' :: rest) := by
      have hstar : hasPrefix candidate "*" = true := by
        rw [hasPrefix, ← hrest]
        rfl
      rw [trimPrefix, hstar, if_pos rfl, ← hrest]
      rfl
    rw [hending, Bool.and_eq_true]
    rintro ⟨hsuffix, -⟩
    refine hdot ((List.isSuffixOf_iff_suffix.mp hsuffix).subset ?_)
    rw [String.toList_ofList]
    exact List.mem_cons_self
  · intro heq
    have hlength := hlong candidate hmem
    rw [← of_decide_eq_true heq, ← String.length_toList, toList_letters, List.length_replicate] at hlength
    exact lt_irrefl n hlength

/-- Some name is longer than all hosts of a list. -/
theorem exists_longer (allowed : List String) :
    ∃ n, ∀ candidate ∈ allowed, candidate.length < n + 1 := by
  induction allowed with
  | nil => exact ⟨0, by simp⟩
  | cons host rest ih =>
      obtain ⟨n, hn⟩ := ih
      refine ⟨max n host.length, List.forall_mem_cons.mpr ⟨by omega, fun candidate hmem => ?_⟩⟩
      have := hn candidate hmem
      omega

/-- A policy that asks anything of hosts or schemes does not admit all bare endpoints. -/
theorem exists_not_admitted (h : ¬ (policy.allowedHosts = [] ∧ policy.requireHTTPS = false)) :
    ∃ n, ¬ policy.Admits (bareEndpoint (n + 1)) := by
  obtain ⟨n, hn⟩ := exists_longer policy.allowedHosts
  refine ⟨n, ?_⟩
  rintro ⟨parsed, hparse, hhost, hscheme⟩
  rw [parse_bareEndpoint] at hparse
  obtain rfl := Option.some.inj hparse
  rw [URL.hostname, splitHostPort_plainURL isPlain_letters, decode_encode, hostText_letters,
    not_hostAllowed_letters hn] at hhost
  rcases hhost with hhosts | hhost
  · refine h ⟨hhosts, Bool.eq_false_iff.mpr fun hrequire => ?_⟩
    exact absurd (hscheme hrequire) (by show encode "http" ≠ encode "https"; decide)
  · cases hhost

end Outside

/-- **One outbound boundary.**  What `Execute` connects to is admitted by the policy.  For `Complete`
and `call` this is so if and only if the policy asks nothing of hosts and schemes, or refuses
every address. -/
theorem outbound_boundary_iff {raw policy : HTTPPolicy} (h : newSecureHTTPClient raw = .ok policy) :
    (∀ maxRequestBytes authenticate runtime net idna request connection,
      newHTTPRuntime maxRequestBytes raw authenticate = .ok runtime →
      runtime.execute net idna request = .ok connection →
      policy.Admits request.agent.endpoint) ∧
    (CompletesWithin policy ∧ CallsWithin policy ↔
      (policy.allowedHosts = [] ∧ policy.requireHTTPS = false) ∨
        ∀ a : Addr, a.zone = "" → policy.validateAddress a ≠ .ok ()) := by
  refine ⟨?_, ?_, ?_⟩
  · intro maxRequestBytes authenticate runtime net idna request connection hruntime hexecute
    rw [newSecureHTTPClient] at h
    rw [newHTTPRuntime, h] at hruntime
    obtain rfl := Except.ok.inj hruntime
    exact execute_admits hexecute
  · rintro ⟨hcompletes, -⟩
    by_contra hnot
    obtain ⟨hasks, haddress⟩ := not_or.mp hnot
    push Not at haddress
    obtain ⟨a, hzone, hvalid⟩ := haddress
    obtain ⟨n, hn⟩ := exists_not_admitted hasks
    exact hn (hcompletes 0 (fun _ header => .ok header) (reachable a) some a _
      (completion (bareEndpoint (n + 1))) (modelAgent_valid n) rfl rfl
      (complete_bareEndpoint some n hzone hvalid))
  · rintro (⟨hhosts, hhttps⟩ | hrefuses)
    · refine ⟨?_, ?_⟩
      · intro maxRequestBytes authenticate net idna connection configured request _ _ _ hcomplete
        obtain ⟨parsed, hparse⟩ := complete_parses hcomplete
        exact admits_of_open hhosts hhttps hparse
      · intro maxRequestBytes authenticator net idna connection configured server method name params
          hserver hcall
        obtain ⟨parsed, hparse⟩ := server_parses hserver
        exact admits_of_open hhosts hhttps hparse
    · refine ⟨?_, ?_⟩
      · intro maxRequestBytes authenticate net idna connection configured request _ _ _ hcomplete
        obtain ⟨hzone, hvalid⟩ := complete_validated hcomplete
        exact absurd hvalid (hrefuses connection hzone)
      · intro maxRequestBytes authenticator net idna connection configured server method name params
          _ hcall
        obtain ⟨hzone, hvalid⟩ := call_validated hcall
        exact absurd hvalid (hrefuses connection hzone)

/-- `DefaultHTTPPolicy`. -/
def defaultHTTPPolicy : HTTPPolicy := { allowPrivate := true, allowLoopback := true }

/-- The default policy has one boundary. -/
theorem outbound_boundary_iff_default :
    newSecureHTTPClient defaultHTTPPolicy = .ok defaultHTTPPolicy ∧
      CompletesWithin defaultHTTPPolicy ∧ CallsWithin defaultHTTPPolicy := by
  have haccepted : newSecureHTTPClient defaultHTTPPolicy = .ok defaultHTTPPolicy := by decide +kernel
  exact ⟨haccepted, (outbound_boundary_iff haccepted).2.mpr (.inl ⟨rfl, rfl⟩)⟩

/-- A policy that allows one host, over `https` only. -/
def oneHostPolicy : HTTPPolicy := { requireHTTPS := true, allowedHosts := ["api.example.com"] }

/-- Under a policy that allows `https://api.example.com` only, `Execute` refuses another host over
`http`, and `Complete` and `call` connect to it. -/
theorem complete_leaves_boundary :
    newSecureHTTPClient oneHostPolicy = .ok oneHostPolicy ∧
    (modelAgent "http://other.test:8080").normalizeAndValidate absoluteURI
      = .ok (modelAgent "http://other.test:8080") ∧
    validateServer absoluteHTTP (toolServer "http://other.test:8080")
      = .ok (toolServer "http://other.test:8080") ∧
    remoteExecutionURL "http://other.test:8080" oneHostPolicy
      = .error (deniedBy "endpoint must use https") ∧
    remoteExecutionURL "https://other.test:8080" oneHostPolicy
      = .error (deniedBy "hostname is not allowed") ∧
    (newOpenAICompatible oneHostPolicy 0 fun _ header => .ok header).complete
      (reachable (.v4 0xcb007107#32)) some (completion "http://other.test:8080")
      = .ok (.v4 0xcb007107#32) ∧
    (newToolClient oneHostPolicy 0 none).call (reachable (.v4 0xcb007107#32)) some
      (toolServer "http://other.test:8080") "tools/list" "" [] = .ok (.v4 0xcb007107#32) ∧
    ¬ oneHostPolicy.Admits "http://other.test:8080" := by
  refine ⟨by decide +kernel, by decide +kernel, by decide +kernel, by decide +kernel,
    by decide +kernel, by decide +kernel, by decide +kernel, ?_⟩
  rintro ⟨parsed, hparse, -, hscheme⟩
  have hread : parse (encode (trimSpace "http://other.test:8080"))
      = some { scheme := encode "http", host := encode "other.test:8080" } := by decide +kernel
  obtain rfl := Option.some.inj (hread.symm.trans hparse)
  exact absurd (hscheme rfl) (by decide)

end AgentMesh
