/-
AgentMesh/Credentials.lean

Credentials of outbound requests, `internal/runtime/auth.go`.

The configuration refers to secrets by name; `NewReloadingAuthenticator` checks
it and remembers, for each Agent, the header that its credential goes to.
`Authenticate` asks the provider for the current secret and sets that header,
after the adapter has set its own.

So a credential keeps the headers of an adapter if and only if its header is none
of them (`preserves_iff`).  `safeCredentialHeader` is meant to see to it, with a
list of names; the adapters set some that are not on the list.

The decoder of the JSON configuration is a parameter.  A Go map is the list of
its entries in the order of iteration.
-/
import AgentMesh.Outbound

namespace AgentMesh

open Http

/-! ### Secrets -/

/-- `SecretProvider.Resolve` at one moment. -/
abbrev SecretProvider := String → Except Err String

def authenticationFailed : Err := errorf "agent request authentication failed"

def validSecret (secret : String) : Except Err String :=
  if secret = "" ∨ containsAny secret "\r\n" then .error authenticationFailed else .ok secret

def maxSecretFileBytes : Nat := 65536

/-- `NewEnvironmentFileSecretProvider`; `readFile` gives what a file holds. -/
def environmentFileSecretProvider (lookup readFile : String → Option String) : SecretProvider :=
  fun reference =>
    if hasPrefix reference "env:" then
      match lookup (trimPrefix reference "env:") with
      | none => .error authenticationFailed
      | some secret => validSecret secret
    else if hasPrefix reference "file:" then
      if hasPrefix (trimPrefix reference "file:") "/" = false then .error authenticationFailed
      else
        match readFile (trimPrefix reference "file:") with
        | none => .error authenticationFailed
        | some payload =>
            if maxSecretFileBytes < payload.utf8ByteSize then .error authenticationFailed
            else validSecret (String.ofList (payload.toList.rdropWhile fun c => c ∈ ['\r', '\n']))
    else .error authenticationFailed

/-! ### Configuration -/

inductive AuthScheme where
  | bearer
  | apiKey
  | other (text : String)
  deriving DecidableEq, Repr

structure AuthReference where
  type : AuthScheme
  secretEnv : String := ""
  secretFile : String := ""
  header : String := ""

structure Credential where
  scheme : AuthScheme
  header : String
  reference : String
  deriving DecidableEq, Repr

structure StaticAuthenticator where
  credentials : Table Credential := ∅

/-- The names that an API key may not have. -/
def forbiddenHeaders : List String :=
  ["authorization", "host", "content-length", "content-type", "accept", "accept-encoding",
    "idempotency-key", "connection", "transfer-encoding"]

def safeCredentialHeader (header : String) : Bool :=
  header ≠ "" && header.toList.all isTokenChar && toLower header ∉ forbiddenHeaders

/-- What is wrong with the configuration of an Agent. -/
def authenticationError (text : String) : Err :=
  errorf ("agent request authentication failed: " ++ text)

/-- The key under which the provider is asked. -/
def AuthReference.key (reference : AuthReference) (agentID : String) : Except Err String :=
  let secretEnv := trimSpace reference.secretEnv
  let secretFile := trimSpace reference.secretFile
  if secretEnv = "" ↔ secretFile = "" then
    .error (authenticationError
      ("exactly one secret_env or secret_file is required for Agent " ++ agentID))
  else if secretFile = "" then .ok ("env:" ++ secretEnv)
  else if hasPrefix secretFile "/" = false then
    .error (authenticationError ("secret_file must be absolute for Agent " ++ agentID))
  else .ok ("file:" ++ Url.decode (Url.clean (Url.encode secretFile)))

/-- The header of a credential. -/
def AuthReference.headerName (reference : AuthReference) (agentID : String) : Except Err String :=
  match reference.type with
  | .bearer =>
      if reference.header ≠ "" then
        .error (authenticationError "bearer authentication does not accept a custom header")
      else .ok "Authorization"
  | .apiKey =>
      let header := trimSpace reference.header
      let header := if header = "" then "X-API-Key" else header
      if safeCredentialHeader header = false then
        .error (authenticationError ("invalid API-key header for Agent " ++ agentID))
      else .ok header
  | .other _ =>
      .error (authenticationError ("unsupported authentication type for Agent " ++ agentID))

/-- One round of the loop of `NewReloadingAuthenticator`. -/
def AuthReference.credential (reference : AuthReference) (provider : SecretProvider)
    (agentID : String) : Except Err Credential :=
  match reference.key agentID with
  | .error err => .error err
  | .ok referenceKey =>
      match provider referenceKey with
      | .error _ =>
          .error (authenticationError ("referenced secret is unavailable for Agent " ++ agentID))
      | .ok initialSecret =>
          match validSecret initialSecret with
          | .error _ =>
              .error (authenticationError ("referenced secret is invalid for Agent " ++ agentID))
          | .ok _ =>
              match reference.headerName agentID with
              | .error err => .error err
              | .ok header => .ok { scheme := reference.type, header, reference := referenceKey }

/-- The loop of `NewReloadingAuthenticator`. -/
def loadCredentials (provider : SecretProvider) (credentials : Table Credential) :
    List (String × AuthReference) → Except Err (Table Credential)
  | [] => .ok credentials
  | (agentID, reference) :: rest =>
      let agentID := trimSpace agentID
      if agentID = "" then .error (authenticationError "blank Agent ID")
      else
        match reference.credential provider agentID with
        | .error err => .error err
        | .ok resolved => loadCredentials provider (AList.insert agentID resolved credentials) rest

section Configuration

variable (decodeReferences : String → Option (List (String × AuthReference)))

def newReloadingAuthenticator (raw : String) (provider : Option SecretProvider) :
    Except Err StaticAuthenticator :=
  if trimSpace raw = "" then .ok {}
  else
    match provider with
    | none => .error (authenticationError "secret provider is required")
    | some provider =>
        match decodeReferences raw with
        | none => .error (authenticationError "invalid credential reference configuration")
        | some references =>
            match loadCredentials provider ∅ references with
            | .error err => .error err
            | .ok credentials => .ok { credentials }

end Configuration

/-! ### Authentication -/

namespace StaticAuthenticator

/-- `Authenticate`, with the provider as it is now. -/
def authenticate (a : StaticAuthenticator) (provider : SecretProvider) : Authenticate :=
  fun agent header =>
    match AList.lookup agent.id a.credentials with
    | none => .ok header
    | some credential =>
        match provider credential.reference with
        | .error _ =>
            .error (authenticationError ("current credential unavailable for Agent " ++ agent.id))
        | .ok value =>
            match validSecret value with
            | .error _ =>
                .error (authenticationError ("current credential invalid for Agent " ++ agent.id))
            | .ok value =>
                .ok (header.set credential.header
                  (if credential.scheme = .bearer then "Bearer " ++ value else value))

/-- The name under which the credential of an Agent is sent, if it has one. -/
def added (a : StaticAuthenticator) (agent : Agent) : Option String :=
  (AList.lookup agent.id a.credentials).map fun credential => canonicalHeaderKey credential.header

end StaticAuthenticator

/-- `after` has the values of `before`, and no other name than `name`. -/
structure AddsOnly (name : Option String) (before after : Header) : Prop where
  kept : ∀ {key values}, AList.lookup key before = some values → AList.lookup key after = some values
  only : ∀ {key}, key ∈ after → key ∈ before ∨ name = some key

/-- Whatever the secret is, the credential of the Agent leaves the header as it is. -/
def StaticAuthenticator.Preserves (a : StaticAuthenticator) (agent : Agent) (header : Header) : Prop :=
  ∀ provider after, a.authenticate provider agent header = .ok after →
    AddsOnly (a.added agent) header after

section Frame

variable {a : StaticAuthenticator} {agent : Agent} {header after : Header} {credential : Credential}

theorem authenticate_of_secret {secret : String}
    (hlookup : AList.lookup agent.id a.credentials = some credential)
    (hsecret : validSecret secret = .ok secret) :
    a.authenticate (fun _ => .ok secret) agent header
      = .ok (header.set credential.header
          (if credential.scheme = .bearer then "Bearer " ++ secret else secret)) := by
  simp only [StaticAuthenticator.authenticate, hlookup, hsecret]

theorem addsOnly_set {name value : String} (h : canonicalHeaderKey name ∉ header) :
    AddsOnly (some (canonicalHeaderKey name)) header (header.set name value) := by
  refine ⟨fun {key values} hkey => ?_, fun {key} hkey => ?_⟩
  · rw [Header.lookup_set, if_neg, hkey]
    rintro rfl
    exact h (AList.lookup_isSome.mp (by rw [hkey]; rfl))
  · rcases (AList.mem_insert _).mp hkey with rfl | hkey
    · exact .inr rfl
    · exact .inl hkey

/-- **The frame of a credential**: it preserves a header exactly if its name is not in it. -/
theorem preserves_iff :
    a.Preserves agent header ↔ ∀ key ∈ a.added agent, key ∉ header := by
  rcases hlookup : AList.lookup agent.id a.credentials with - | credential
  · simp only [StaticAuthenticator.Preserves, StaticAuthenticator.authenticate,
      StaticAuthenticator.added, hlookup]
    constructor
    · intro _ key hkey
      cases hkey
    · rintro - provider after hafter
      obtain rfl := Except.ok.inj hafter
      exact ⟨id, .inl⟩
  · have hadded : a.added agent = some (canonicalHeaderKey credential.header) := by
      rw [StaticAuthenticator.added, hlookup, Option.map_some]
    constructor
    · -- a value cannot be both of two secrets
      intro hpreserves key hkey hmem
      rw [hadded] at hkey
      obtain rfl := Option.some.inj hkey
      obtain ⟨values, hvalues⟩ := Option.isSome_iff_exists.mp (AList.lookup_isSome.mpr hmem)
      have hsent : ∀ secret, validSecret secret = .ok secret →
          [if credential.scheme = .bearer then "Bearer " ++ secret else secret] = values := by
        intro secret hsecret
        have hkept := (hpreserves _ _ (authenticate_of_secret hlookup hsecret)).kept hvalues
        rw [Header.lookup_set, if_pos rfl] at hkept
        exact Option.some.inj hkept
      have hsame := (hsent "0" (by decide)).trans (hsent "1" (by decide +kernel)).symm
      split at hsame
      · exact absurd hsame (by decide)
      · exact absurd hsame (by decide)
    · intro hnot provider after hafter
      simp only [StaticAuthenticator.authenticate, hlookup] at hafter
      split at hafter
      · cases hafter
      · split at hafter
        · cases hafter
        · obtain rfl := Except.ok.inj hafter
          rw [hadded]
          exact addsOnly_set (hnot _ hadded)

end Frame

/-! ### The names of the adapters -/

section Names

variable {cs : List Char} {c : Char} {header name : String}

theorem toNat_lt_of_isTokenChar (h : isTokenChar c = true) : c.toNat < 128 := by
  simp only [isTokenChar, Bool.or_eq_true, Bool.and_eq_true, decide_eq_true_eq] at h
  rcases h with ((⟨-, h⟩ | ⟨-, h⟩) | ⟨-, h⟩) | h
  · exact lt_of_le_of_lt (show c.toNat ≤ 122 from h) (by decide)
  · exact lt_of_le_of_lt (show c.toNat ≤ 90 from h) (by decide)
  · exact lt_of_le_of_lt (show c.toNat ≤ 57 from h) (by decide)
  · have hlist : ("!#$%&'*+-.^_`|~".toList.all fun d => d.toNat < 128) = true := by decide
    exact of_decide_eq_true (List.all_eq_true.mp hlist c h)

/-- Capitals are lost in lower case. -/
theorem toLowerRune_capital (h : c.toNat < 128) (upper : Bool) :
    toLowerRune (if upper then c.toUpper else c.toLower) = toLowerRune c := by
  have hall : ∀ n < 128, ∀ upper : Bool,
      toLowerRune (if upper then (Char.ofNat n).toUpper else (Char.ofNat n).toLower)
        = toLowerRune (Char.ofNat n) := by decide
  have hc := hall c.toNat h upper
  rwa [Char.ofNat_toNat] at hc

theorem map_toLowerRune_capitalize (h : ∀ c ∈ cs, isTokenChar c = true) (upper : Bool) :
    (capitalize upper cs).map toLowerRune = cs.map toLowerRune := by
  induction cs generalizing upper with
  | nil => rfl
  | cons c rest ih =>
      have hc := toNat_lt_of_isTokenChar (h c List.mem_cons_self)
      rw [capitalize, List.map_cons, List.map_cons, toLowerRune_capital hc,
        ih fun d hd => h d (List.mem_cons_of_mem _ hd)]

theorem toLower_canonicalHeaderKey (name : String) :
    toLower (canonicalHeaderKey name) = toLower name := by
  rw [canonicalHeaderKey]
  split
  · rename_i htoken
    rw [toLower, String.toList_ofList, map_toLowerRune_capitalize (List.all_eq_true.mp htoken)]
    rfl
  · rfl

/-- The names that all adapters may set, and that the list protects. -/
def protectedHeaders : List String := ["Content-Type", "Accept", "Accept-Encoding", "Idempotency-Key"]

theorem canonicalHeaderKey_safe (h : safeCredentialHeader header = true) :
    canonicalHeaderKey header ∉ protectedHeaders := by
  rw [safeCredentialHeader, Bool.and_eq_true, Bool.and_eq_true, decide_eq_true_eq] at h
  intro hmem
  have hlist : ∀ name ∈ protectedHeaders, toLower name ∈ forbiddenHeaders := by decide
  have hforbidden := hlist _ hmem
  rw [toLower_canonicalHeaderKey] at hforbidden
  exact of_decide_eq_true h.2 hforbidden

theorem headerName_safe {reference : AuthReference} {agentID : String}
    (h : reference.headerName agentID = .ok header) :
    canonicalHeaderKey header ∉ protectedHeaders := by
  rw [AuthReference.headerName] at h
  split at h
  · split at h
    · cases h
    · obtain rfl := Except.ok.inj h
      decide
  · rcases hsafe : safeCredentialHeader
        (if trimSpace reference.header = "" then "X-API-Key" else trimSpace reference.header)
    · simp only [hsafe, if_true] at h
      cases h
    · simp only [hsafe, Bool.true_eq_false, if_false] at h
      obtain rfl := Except.ok.inj h
      exact canonicalHeaderKey_safe hsafe
  · cases h

theorem credential_safe {reference : AuthReference} {provider : SecretProvider} {agentID : String}
    {credential : Credential} (h : reference.credential provider agentID = .ok credential) :
    canonicalHeaderKey credential.header ∉ protectedHeaders := by
  rw [AuthReference.credential] at h
  split at h
  · cases h
  · split at h
    · cases h
    · split at h
      · cases h
      · split at h
        · cases h
        · rename_i hname
          obtain rfl := Except.ok.inj h
          exact headerName_safe hname

/-- What holds of every credential before the loop holds after it. -/
theorem loadCredentials_safe {provider : SecretProvider} {credentials loaded : Table Credential}
    {references : List (String × AuthReference)}
    (hbefore : ∀ {id credential}, AList.lookup id credentials = some credential →
      canonicalHeaderKey credential.header ∉ protectedHeaders)
    (h : loadCredentials provider credentials references = .ok loaded) :
    ∀ {id credential}, AList.lookup id loaded = some credential →
      canonicalHeaderKey credential.header ∉ protectedHeaders := by
  induction references generalizing credentials with
  | nil =>
      obtain rfl := Except.ok.inj h
      exact hbefore
  | cons entry rest ih =>
      obtain ⟨agentID, reference⟩ := entry
      rw [loadCredentials] at h
      split at h
      · cases h
      · split at h
        · cases h
        · rename_i resolved hresolved
          exact ih (Table.of_lookup_insert
            (P := fun _ (c : Credential) => canonicalHeaderKey c.header ∉ protectedHeaders)
            (credential_safe hresolved) hbefore) h

/-- No accepted credential has a name on the list. -/
theorem added_safe {decodeReferences : String → Option (List (String × AuthReference))}
    {raw : String} {provider : Option SecretProvider} {a : StaticAuthenticator} {agent : Agent}
    (h : newReloadingAuthenticator decodeReferences raw provider = .ok a)
    (hname : a.added agent = some name) : name ∉ protectedHeaders := by
  have hsafe : ∀ {id credential}, AList.lookup id a.credentials = some credential →
      canonicalHeaderKey credential.header ∉ protectedHeaders := by
    unfold newReloadingAuthenticator at h
    split at h
    · obtain rfl := Except.ok.inj h
      intro id credential hlookup
      cases hlookup
    · split at h
      · cases h
      · split at h
        · cases h
        · split at h
          · cases h
          · rename_i hload
            obtain rfl := Except.ok.inj h
            exact loadCredentials_safe (by intro id credential hlookup; cases hlookup) hload
  rw [StaticAuthenticator.added, Option.map_eq_some_iff] at hname
  obtain ⟨credential, hlookup, rfl⟩ := hname
  exact hsafe hlookup

end Names

/-! ### What the adapters set -/

section Adapters

theorem mem_set {header : Header} {key name value : String} :
    key ∈ header.set name value ↔ key = canonicalHeaderKey name ∨ key ∈ header :=
  AList.mem_insert _

theorem newRequest_header {url : Url.Bytes} {r : Request} (h : newRequest url = some r) :
    r.header = ∅ := by
  rw [newRequest] at h
  rcases hparse : Url.parse url with - | u
  · rw [hparse] at h
    cases h
  · rw [hparse] at h
    obtain rfl := Option.some.inj h
    rfl

theorem execute_header {h : HTTPRuntime} {request : ExecutionRequest} {r : Request}
    (hrequest : h.newRequest request = .ok r) :
    r.header = HTTPRuntime.header (HTTPRuntime.wireRequest request) ∅ := by
  rw [HTTPRuntime.newRequest] at hrequest
  split at hrequest
  · cases hrequest
  · split at hrequest
    · cases hrequest
    · split at hrequest
      · cases hrequest
      · split at hrequest
        · cases hrequest
        · split at hrequest
          · cases hrequest
          · rename_i hnew
            obtain rfl := Except.ok.inj hrequest
            rw [newRequest_header hnew]

theorem complete_header {p : OpenAICompatible} {request : CompletionRequest} {r : Request}
    (hrequest : p.newRequest request = .ok r) :
    r.header = OpenAICompatible.header request ∅ := by
  rw [OpenAICompatible.newRequest] at hrequest
  split at hrequest
  · cases hrequest
  · split at hrequest
    · cases hrequest
    · split at hrequest
      · cases hrequest
      · split at hrequest
        · cases hrequest
        · split at hrequest
          · cases hrequest
          · rename_i hnew
            obtain rfl := Except.ok.inj hrequest
            rw [newRequest_header hnew]

theorem call_header {c : ToolClient} {server : ToolServer} {method name : String}
    {params : List Char} {r : Request} (hrequest : c.newRequest server method name params = .ok r) :
    r.header = ToolClient.header method name ∅ := by
  rw [ToolClient.newRequest] at hrequest
  split at hrequest
  · cases hrequest
  · split at hrequest
    · cases hrequest
    · rename_i hnew
      obtain rfl := Except.ok.inj hrequest
      rw [newRequest_header hnew]

variable {key : String}

/-- The names in the adapters are canonical, but for one. -/
theorem canonical_names :
    canonicalHeaderKey "Content-Type" = "Content-Type" ∧ canonicalHeaderKey "Accept" = "Accept" ∧
    canonicalHeaderKey "Accept-Encoding" = "Accept-Encoding" ∧
    canonicalHeaderKey "Idempotency-Key" = "Idempotency-Key" ∧
    canonicalHeaderKey headerEffectIdempotency = headerEffectIdempotency ∧
    canonicalHeaderKey headerVersion = headerVersion ∧
    canonicalHeaderKey "MCP-Protocol-Version" = "Mcp-Protocol-Version" ∧
    canonicalHeaderKey "Mcp-Method" = "Mcp-Method" ∧ canonicalHeaderKey "Mcp-Name" = "Mcp-Name" := by
  decide

theorem mem_complete_header (request : CompletionRequest) :
    key ∈ OpenAICompatible.header request ∅ ↔ key ∈ protectedHeaders := by
  have hempty : key ∉ (∅ : Header) := AList.notMem_empty key
  simp only [OpenAICompatible.header, mem_set, canonical_names, hempty, protectedHeaders,
    List.mem_cons, List.not_mem_nil, or_false]
  tauto

theorem mem_execute_header (wire : WireRequest) :
    key ∈ HTTPRuntime.header wire ∅ ↔
      key ∈ protectedHeaders ∨ key ∈ [headerEffectIdempotency, headerVersion] := by
  have hempty : key ∉ (∅ : Header) := AList.notMem_empty key
  simp only [HTTPRuntime.header, mem_set, canonical_names, hempty, protectedHeaders, List.mem_cons,
    List.not_mem_nil, or_false]
  tauto

/-- The names of an MCP request that are not protected. -/
def mcpHeaders (name : String) : List String :=
  ["Mcp-Protocol-Version", "Mcp-Method"] ++ if name = "" then [] else ["Mcp-Name"]

theorem mem_call_header (method name : String) :
    key ∈ ToolClient.header method name ∅ ↔
      key ∈ ["Content-Type", "Accept", "Accept-Encoding"] ∨ key ∈ mcpHeaders name := by
  have hempty : key ∉ (∅ : Header) := AList.notMem_empty key
  rw [ToolClient.header, mcpHeaders]
  split
  · simp only [mem_set, canonical_names, hempty, List.mem_cons, List.not_mem_nil, or_false,
      List.append_nil]
    tauto
  · simp only [mem_set, canonical_names, hempty, List.mem_cons, List.not_mem_nil, or_false,
      List.mem_append]
    tauto

end Adapters

/-- **Credentials and protocol headers.**  An accepted credential leaves the headers of `Complete` as
they are.  It leaves those of `Execute` and `call` as they are if and only if it is not sent
under one of the names that the list of forbidden ones has left out. -/
theorem credential_frame_iff
    {decodeReferences : String → Option (List (String × AuthReference))} {raw : String}
    {provider : Option SecretProvider} {a : StaticAuthenticator}
    (h : newReloadingAuthenticator decodeReferences raw provider = .ok a) :
    (∀ (p : OpenAICompatible) request r, p.newRequest request = .ok r →
      a.Preserves request.agent r.header) ∧
    (∀ (runtime : HTTPRuntime) request r, runtime.newRequest request = .ok r →
      (a.Preserves request.agent r.header ↔
        ∀ name ∈ a.added request.agent, name ∉ [headerEffectIdempotency, headerVersion])) ∧
    (∀ (c : ToolClient) server method name params r, c.newRequest server method name params = .ok r →
      (a.Preserves (ToolClient.serverAgent server) r.header ↔
        ∀ key ∈ a.added (ToolClient.serverAgent server), key ∉ mcpHeaders name)) := by
  refine ⟨?_, ?_, ?_⟩
  · intro p request r hrequest
    rw [complete_header hrequest, preserves_iff]
    intro key hkey hmem
    exact added_safe h hkey ((mem_complete_header request).mp hmem)
  · intro runtime request r hrequest
    rw [execute_header hrequest, preserves_iff]
    refine forall₂_congr fun key hkey => not_congr ?_
    rw [mem_execute_header]
    exact or_iff_right (added_safe h hkey)
  · intro c server method name params r hrequest
    rw [call_header hrequest, preserves_iff]
    refine forall₂_congr fun key hkey => not_congr ?_
    rw [mem_call_header]
    have hsub : ["Content-Type", "Accept", "Accept-Encoding"] ⊆ protectedHeaders := by decide
    exact or_iff_right fun hmem => added_safe h hkey (hsub hmem)

/-- A configuration with one API key in the environment, for the Agent `agentID`. -/
def oneKey (agentID header : String) (_ : String) : Option (List (String × AuthReference)) :=
  some [(agentID, { type := .apiKey, secretEnv := "TOKEN", header })]

/-- A provider that knows one secret. -/
def oneSecret (secret : String) : SecretProvider :=
  environmentFileSecretProvider (fun name => if name = "TOKEN" then some secret else none)
    fun _ => none

/-- What is accepted for `oneKey`. -/
def oneKeyAuthenticator (agentID header : String) : StaticAuthenticator where
  credentials := AList.insert agentID { scheme := .apiKey, header, reference := "env:TOKEN" } ∅

theorem oneKey_accepted {agentID header name secret : String} (hid : trimSpace agentID = agentID)
    (hne : agentID ≠ "")
    (hname : AuthReference.headerName { type := .apiKey, secretEnv := "TOKEN", header } agentID = .ok name)
    (hsecret : validSecret secret = .ok secret) :
    newReloadingAuthenticator (oneKey agentID header) "references" (some (oneSecret secret))
      = .ok (oneKeyAuthenticator agentID name) := by
  have hraw : trimSpace "references" ≠ "" := by decide
  have hkey : AuthReference.key { type := .apiKey, secretEnv := "TOKEN", header } agentID
      = .ok "env:TOKEN" := by
    have htoken : trimSpace "TOKEN" = "TOKEN" := by decide
    have hfile : trimSpace "" = "" := by decide
    simp only [AuthReference.key, htoken, hfile]
    rfl
  have hresolve : oneSecret secret "env:TOKEN" = .ok secret := hsecret
  simp only [newReloadingAuthenticator, hraw, if_false, oneKey, loadCredentials, hid, hne,
    AuthReference.credential, hkey, hresolve, hsecret, hname]
  rfl

/-- A remote Agent, and a request to it. -/
def remoteRequest : ExecutionRequest where
  runID := "run"
  agent := { id := "agent", runtime := "remote", protocol := "http", endpoint := "http://agent.test" }
  attempt := 1
  input := ""

/-- The runtime without limits and without credentials. -/
def openRuntime : HTTPRuntime where
  maxRequestBytes := requestLimit 0
  policy := defaultHTTPPolicy
  authenticate := fun _ header => .ok header

/-- An API key in the default header leaves the request of `Execute` as it is. -/
theorem credential_frame_iff_default :
    newReloadingAuthenticator (oneKey "agent" "") "references" (some (oneSecret "secret"))
      = .ok (oneKeyAuthenticator "agent" "X-API-Key") ∧
    (openRuntime.newRequest remoteRequest).isOk = true ∧
    ∀ r, openRuntime.newRequest remoteRequest = .ok r →
      (oneKeyAuthenticator "agent" "X-API-Key").Preserves remoteRequest.agent r.header := by
  have haccepted : newReloadingAuthenticator (oneKey "agent" "") "references"
      (some (oneSecret "secret")) = .ok (oneKeyAuthenticator "agent" "X-API-Key") :=
    oneKey_accepted (by decide +kernel) (by decide) (by decide +kernel) (by decide +kernel)
  refine ⟨haccepted, by decide +kernel, fun r hr => ?_⟩
  exact ((credential_frame_iff haccepted).2.1 openRuntime remoteRequest r hr).mpr (by decide +kernel)

/-- The values of a header before and after authentication. -/
def beforeAfter {E : Type} (a : StaticAuthenticator) (provider : SecretProvider) (agent : Agent)
    (key : String) (request : Except E Request) :
    Option (Option (List String) × Option (List String)) := do
  let r ← request.toOption
  let after ← (a.authenticate provider agent r.header).toOption
  return (AList.lookup key r.header, AList.lookup key after)

/-- An accepted API key may replace the identity of a Run's effects, and the method of a tool
call. -/
theorem credential_replaces_headers :
    newReloadingAuthenticator (oneKey "agent" "agent-effect-idempotency-key") "references"
      (some (oneSecret "forged"))
      = .ok (oneKeyAuthenticator "agent" "agent-effect-idempotency-key") ∧
    beforeAfter (oneKeyAuthenticator "agent" "agent-effect-idempotency-key") (oneSecret "forged")
      remoteRequest.agent "Agent-Effect-Idempotency-Key" (openRuntime.newRequest remoteRequest)
      = some (some ["run"], some ["forged"]) ∧
    newReloadingAuthenticator (oneKey "mcp:tools" "MCP-METHOD") "references"
      (some (oneSecret "forged")) = .ok (oneKeyAuthenticator "mcp:tools" "MCP-METHOD") ∧
    beforeAfter (oneKeyAuthenticator "mcp:tools" "MCP-METHOD") (oneSecret "forged")
      (ToolClient.serverAgent (toolServer "http://tools.test")) "Mcp-Method"
      ((newToolClient defaultHTTPPolicy 0 none).newRequest (toolServer "http://tools.test")
        "tools/call" "search" [])
      = some (some ["tools/call"], some ["forged"]) := by
  refine ⟨?_, by decide +kernel, ?_, by decide +kernel⟩
  · exact oneKey_accepted (by decide +kernel) (by decide) (by decide +kernel) (by decide +kernel)
  · exact oneKey_accepted (by decide +kernel) (by decide) (by decide +kernel) (by decide +kernel)

end AgentMesh
