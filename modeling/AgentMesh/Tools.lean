/-
AgentMesh/Tools.lean

The MCP tool gateway: `internal/mcp/registry.go`, `gateway.go` and the checks of
`CallTool` in `client.go`.

A server is registered with three lists of tool names: allowed, denied and
those that need an approval.  The registry is made from the configuration at
the start and never changes.  `Registry` carries what `Register` has checked:
every server is stored under its ID, which is a valid name.

The library functions that the source applies to texts of the configuration,
`url.Parse` with the conditions on its result and `time.ParseDuration`, are
parameters.
-/
import AgentMesh.Table
import AgentMesh.Text
import AgentMesh.Run

namespace AgentMesh

/-! ### Names and policies -/

/-- `mcp.Server`. -/
structure ToolServer where
  id : String := ""
  endpoint : String := ""
  allowedTools : List String := []
  deniedTools : List String := []
  approvalRequiredTools : List String := []
  timeout : Int := 0
  deriving DecidableEq, Repr

def ToolServer.requiresApproval (server : ToolServer) (tool : String) : Bool :=
  tool ∈ server.approvalRequiredTools

def ToolServer.allows (server : ToolServer) (tool : String) : Bool :=
  tool ∉ server.deniedTools ∧ (server.allowedTools = [] ∨ tool ∈ server.allowedTools)

def isNameChar (c : Char) : Bool :=
  ('a' ≤ c && c ≤ 'z') || ('A' ≤ c && c ≤ 'Z') || ('0' ≤ c && c ≤ '9')
    || c == '.' || c == '_' || c == '-'

def validName (value : String) : Bool :=
  1 ≤ value.utf8ByteSize && value.utf8ByteSize ≤ 128 && value.toList.all isNameChar

/-- The loop of `normalizeToolNames`. -/
def normalizeToolNamesFrom (result : List String) : List String → Except Err (List String)
  | [] => .ok result
  | value :: rest =>
      let value := trimSpace value
      if validName value = false then
        .error (errorf ("MCP tool name " ++ quoted value
          ++ " must use 1-128 letters, numbers, dots, hyphens or underscores"))
      else if value ∈ result then normalizeToolNamesFrom result rest
      else normalizeToolNamesFrom (result ++ [value]) rest

def normalizeToolNames (values : List String) : Except Err (List String) :=
  normalizeToolNamesFrom [] values

section Names

variable {values result names : List String}

theorem isSpace_of_isNameChar {c : Char} (h : isNameChar c = true) : isSpace c = false := by
  have hrange : (97 ≤ c.toNat ∧ c.toNat ≤ 122) ∨ (65 ≤ c.toNat ∧ c.toNat ≤ 90) ∨
      (48 ≤ c.toNat ∧ c.toNat ≤ 57) ∨ c.toNat = 46 ∨ c.toNat = 95 ∨ c.toNat = 45 := by
    simp only [isNameChar, Bool.or_eq_true, Bool.and_eq_true, decide_eq_true_eq, beq_iff_eq] at h
    rcases h with ((((⟨h1, h2⟩ | ⟨h1, h2⟩) | ⟨h1, h2⟩) | rfl) | rfl) | rfl
    · exact .inl ⟨h1, h2⟩
    · exact .inr (.inl ⟨h1, h2⟩)
    · exact .inr (.inr (.inl ⟨h1, h2⟩))
    all_goals decide
  simp only [isSpace, Bool.or_eq_false_iff, Bool.and_eq_false_iff, decide_eq_false_iff_not,
    beq_eq_false_iff_ne]
  omega

/-- A valid name has no white space around it. -/
theorem trimSpace_of_validName {value : String} (h : validName value = true) :
    trimSpace value = value := by
  rw [validName, Bool.and_eq_true_iff, List.all_eq_true] at h
  exact trimSpace_of_forall fun c hc => isSpace_of_isNameChar (h.2 c hc)

theorem mem_normalizeToolNamesFrom (h : normalizeToolNamesFrom result values = .ok names) :
    (∀ name ∈ result, name ∈ names) ∧ ∀ value ∈ values, trimSpace value ∈ names := by
  induction values generalizing result with
  | nil =>
      obtain rfl := Except.ok.inj h
      exact ⟨fun _ hname => hname, nofun⟩
  | cons value rest ih =>
      rw [normalizeToolNamesFrom] at h
      split at h
      · cases h
      · split at h
        · rename_i hmem
          obtain ⟨hresult, hrest⟩ := ih h
          exact ⟨hresult, List.forall_mem_cons.mpr ⟨hresult _ hmem, hrest⟩⟩
        · obtain ⟨hresult, hrest⟩ := ih h
          refine ⟨fun name hname => hresult name (List.mem_append_left _ hname), ?_⟩
          exact List.forall_mem_cons.mpr ⟨hresult _ (List.mem_append_right _ List.mem_cons_self), hrest⟩

end Names

/-! ### The registry -/

/-- The servers, each under its ID. -/
structure Registry where
  servers : Table ToolServer := ∅
  named : ∀ {id server}, servers.lookup id = some server → server.id = id ∧ validName id = true := by
    nofun

/-- `validateServer`; `absoluteHTTP` says that an endpoint is an absolute HTTP URL without
credentials, query or fragment. -/
def validateServer (absoluteHTTP : String → Bool) (server : ToolServer) : Except Err ToolServer :=
  let server := { server with id := trimSpace server.id, endpoint := trimSpace server.endpoint }
  if server.id = "" ∨ 128 < server.id.utf8ByteSize ∨ validName server.id = false then
    .error (errorf ("MCP server ID must use 1-128 letters, numbers, dots, hyphens or underscores"))
  else if absoluteHTTP server.endpoint = false then
    .error (errorf ("MCP server " ++ quoted server.id
      ++ " endpoint must be an absolute HTTP URL without credentials, query or fragment"))
  else if server.timeout ≤ 0 then
    .error (errorf ("MCP server " ++ quoted server.id ++ " timeout must be positive"))
  else do
    let allowedTools ← normalizeToolNames server.allowedTools
    let deniedTools ← normalizeToolNames server.deniedTools
    let approvalRequiredTools ← normalizeToolNames server.approvalRequiredTools
    return { server with
      allowedTools := allowedTools, deniedTools := deniedTools
      approvalRequiredTools := approvalRequiredTools }

section Registration

variable {absoluteHTTP : String → Bool} {server server' : ToolServer}

theorem validateServer_ok (h : validateServer absoluteHTTP server = .ok server') :
    server'.id = trimSpace server.id ∧ validName server'.id = true ∧
      (∀ tool ∈ server.approvalRequiredTools, trimSpace tool ∈ server'.approvalRequiredTools) ∧
      server'.endpoint = trimSpace server.endpoint ∧ absoluteHTTP server'.endpoint = true := by
  rw [validateServer] at h
  split at h
  · cases h
  · rename_i hid
    push Not at hid
    split at h
    · cases h
    · rename_i hhttp
      split at h
      · cases h
      · rcases ha : normalizeToolNames server.allowedTools with err | allowed
        · rw [ha] at h
          cases h
        · rcases hd : normalizeToolNames server.deniedTools with err | denied
          · rw [ha, hd] at h
            cases h
          · rcases hr : normalizeToolNames server.approvalRequiredTools with err | required
            · rw [ha, hd, hr] at h
              cases h
            · rw [ha, hd, hr] at h
              obtain rfl := Except.ok.inj h
              refine ⟨rfl, ?_, (mem_normalizeToolNamesFrom hr).2, rfl, ?_⟩
              · simpa using hid.2.2
              · simpa using hhttp

end Registration

/-- `Register`. -/
def Registry.register (absoluteHTTP : String → Bool) (registry : Registry) (server : ToolServer) :
    Except Err Registry :=
  match h : validateServer absoluteHTTP server with
  | .error err => .error err
  | .ok server =>
      match registry.servers.lookup server.id with
      | some _ => .error (errorf ("duplicate MCP server " ++ quoted server.id))
      | none =>
          .ok
            { servers := registry.servers.insert server.id server
              named := Table.of_lookup_insert
                (P := fun id (server : ToolServer) => server.id = id ∧ validName id = true)
                ⟨rfl, (validateServer_ok h).2.1⟩ registry.named }

/-- `serverConfig`. -/
structure ServerConfig where
  id : String := ""
  endpoint : String := ""
  allowedTools : List String := []
  deniedTools : List String := []
  approvalRequiredTools : List String := []
  timeout : String := ""
  deriving DecidableEq, Repr

/-- The server that `ParseRegistry` registers for an entry of the configuration. -/
def ServerConfig.server (parseDuration : String → Option Int) (defaultTimeout : Int)
    (config : ServerConfig) : Except Err ToolServer :=
  let server : ToolServer :=
    { id := config.id, endpoint := config.endpoint, allowedTools := config.allowedTools
      deniedTools := config.deniedTools, approvalRequiredTools := config.approvalRequiredTools
      timeout := defaultTimeout }
  if trimSpace config.timeout ≠ "" then
    match (parseDuration config.timeout).filter fun parsed => 0 < parsed with
    | none =>
        .error (errorf ("MCP server " ++ quoted config.id ++ " timeout must be a positive duration"))
    | some parsed => .ok { server with timeout := parsed }
  else .ok server

/-- The loop of `ParseRegistry` over the decoded configuration. -/
def Registry.registerAll (absoluteHTTP : String → Bool) (parseDuration : String → Option Int)
    (defaultTimeout : Int) (registry : Registry) : List ServerConfig → Except Err Registry
  | [] => .ok registry
  | config :: rest =>
      match config.server parseDuration defaultTimeout with
      | .error err => .error err
      | .ok server =>
          match registry.register absoluteHTTP server with
          | .error err => .error err
          | .ok registry => registry.registerAll absoluteHTTP parseDuration defaultTimeout rest

def parseRegistry (absoluteHTTP : String → Bool) (parseDuration : String → Option Int)
    (defaultTimeout : Int) (configs : List ServerConfig) : Except Err Registry :=
  Registry.registerAll absoluteHTTP parseDuration defaultTimeout {} configs

/-- The tool is listed in `approval_required_tools` of the server. -/
def Registry.Gated (registry : Registry) (serverID tool : String) : Prop :=
  ∃ server, registry.servers.lookup serverID = some server ∧ server.requiresApproval tool = true

section Configured

variable {absoluteHTTP : String → Bool} {parseDuration : String → Option Int} {defaultTimeout : Int}
  {registry registry' : Registry} {configs : List ServerConfig}

theorem ServerConfig.server_ok {config : ServerConfig} {server : ToolServer}
    (h : config.server parseDuration defaultTimeout = .ok server) :
    server.id = config.id ∧ server.approvalRequiredTools = config.approvalRequiredTools := by
  rw [ServerConfig.server] at h
  split at h
  · split at h
    · cases h
    · obtain rfl := Except.ok.inj h
      exact ⟨rfl, rfl⟩
  · obtain rfl := Except.ok.inj h
    exact ⟨rfl, rfl⟩

theorem Registry.register_ok {server : ToolServer}
    (h : registry.register absoluteHTTP server = .ok registry') :
    ∃ server', validateServer absoluteHTTP server = .ok server' ∧
      registry.servers.lookup server'.id = none ∧
      registry'.servers = registry.servers.insert server'.id server' := by
  rw [Registry.register] at h
  split at h
  · cases h
  · rename_i server' hvalid
    split at h
    · cases h
    · rename_i hnew
      obtain rfl := Except.ok.inj h
      exact ⟨server', hvalid, hnew, rfl⟩

/-- A registration leaves the servers before it as they are. -/
theorem Registry.Gated.register {server : ToolServer} {serverID tool : String}
    (hgated : registry.Gated serverID tool)
    (h : registry.register absoluteHTTP server = .ok registry') :
    registry'.Gated serverID tool := by
  obtain ⟨old, hold, hreq⟩ := hgated
  obtain ⟨server', -, hnew, hservers⟩ := Registry.register_ok h
  refine ⟨old, ?_, hreq⟩
  rw [hservers, AList.lookup_insert_ne, hold]
  rintro rfl
  rw [hnew] at hold
  cases hold

theorem Registry.registerAll_gated
    (h : registry.registerAll absoluteHTTP parseDuration defaultTimeout configs = .ok registry') :
    (∀ serverID tool, registry.Gated serverID tool → registry'.Gated serverID tool) ∧
      ∀ config ∈ configs, ∀ tool ∈ config.approvalRequiredTools,
        registry'.Gated (trimSpace config.id) (trimSpace tool) := by
  induction configs generalizing registry with
  | nil =>
      obtain rfl := Except.ok.inj h
      exact ⟨fun _ _ hgated => hgated, nofun⟩
  | cons config rest ih =>
      rw [Registry.registerAll] at h
      split at h
      · cases h
      · rename_i server hserver
        split at h
        · cases h
        · rename_i next hnext
          obtain ⟨hkept, hrest⟩ := ih h
          refine ⟨fun id tool hgated => hkept id tool (hgated.register hnext), ?_⟩
          refine List.forall_mem_cons.mpr ⟨?_, hrest⟩
          intro tool htool
          obtain ⟨hid, hlist⟩ := ServerConfig.server_ok hserver
          obtain ⟨server', hvalid, -, hservers⟩ := Registry.register_ok hnext
          obtain ⟨hid', -, hlist', -⟩ := validateServer_ok hvalid
          refine hkept _ _ ⟨server', ?_, ?_⟩
          · rw [hservers, ← hid, ← hid', AList.lookup_insert]
          · exact decide_eq_true (hlist' tool (hlist ▸ htool))

/-- Every tool that the configuration lists is gated, under the trimmed names. -/
theorem parseRegistry_gated {config : ServerConfig} {tool : String}
    (h : parseRegistry absoluteHTTP parseDuration defaultTimeout configs = .ok registry)
    (hconfig : config ∈ configs) (htool : tool ∈ config.approvalRequiredTools) :
    registry.Gated (trimSpace config.id) (trimSpace tool) :=
  (Registry.registerAll_gated h).2 config hconfig tool htool

end Configured

/-! ### The gateway -/

/-- `Get`. -/
def Registry.get (registry : Registry) (id : String) : Except Err ToolServer :=
  match registry.servers.lookup (trimSpace id) with
  | none => .error (Sentinel.mcpServerNotFound.errWith (" " ++ quoted id))
  | some server => .ok server

/-- `Gateway.RequiresApproval`. -/
def Registry.requiresApproval (registry : Registry) (serverID name : String) : Except Err Bool :=
  match registry.get serverID with
  | .error err => .error err
  | .ok server =>
      if validName name = false ∨ server.allows name = false then .error Sentinel.mcpToolDenied.err
      else .ok (server.requiresApproval name)

/-- `Client.CallTool` up to the request that it sends: the tool name in it. -/
def ToolServer.callTool (server : ToolServer) (name : String) : Except Err String :=
  let name := trimSpace name
  if validName name = false then .error (errorf ("invalid MCP tool name " ++ quoted name))
  else if server.allows name = false then
    .error (Sentinel.mcpToolDenied.errWith (": " ++ server.id ++ "/" ++ name))
  else .ok name

/-- `Gateway.CallTool`, with the server that the request goes to. -/
def Registry.callTool (registry : Registry) (serverID name : String) :
    Except Err (ToolServer × String) :=
  match registry.get serverID with
  | .error err => .error err
  | .ok server =>
      match server.callTool name with
      | .error err => .error err
      | .ok tool => .ok (server, tool)

section Gateway

variable {registry : Registry} {serverID name : String}

theorem Registry.get_ok {server : ToolServer} (h : registry.get serverID = .ok server) :
    registry.servers.lookup (trimSpace serverID) = some server := by
  rw [Registry.get] at h
  split at h
  · cases h
  · obtain rfl := Except.ok.inj h
    assumption

theorem Registry.requiresApproval_ok {required : Bool}
    (h : registry.requiresApproval serverID name = .ok required) :
    validName name = true ∧ (registry.Gated (trimSpace serverID) name → required = true) := by
  rw [Registry.requiresApproval] at h
  split at h
  · cases h
  · rename_i server hserver
    split at h
    · cases h
    · rename_i hname
      push Not at hname
      obtain rfl := Except.ok.inj h
      refine ⟨by simpa using hname.1, ?_⟩
      rintro ⟨server', hlookup, hreq⟩
      rw [Registry.get_ok hserver] at hlookup
      exact Option.some.inj hlookup ▸ hreq

theorem ToolServer.callTool_ok {server : ToolServer} {tool : String}
    (h : server.callTool name = .ok tool) : tool = trimSpace name := by
  rw [ToolServer.callTool] at h
  split at h
  · cases h
  · split at h
    · cases h
    · exact (Except.ok.inj h).symm

/-- The request goes to the server that is registered under the trimmed ID. -/
theorem Registry.callTool_ok {server : ToolServer} {tool : String}
    (h : registry.callTool serverID name = .ok (server, tool)) :
    server.id = trimSpace serverID ∧ tool = trimSpace name := by
  rw [Registry.callTool] at h
  split at h
  · cases h
  · rename_i server' hserver
    split at h
    · cases h
    · rename_i tool' htool
      obtain ⟨rfl, rfl⟩ := Prod.mk.inj (Except.ok.inj h)
      exact ⟨(registry.named (Registry.get_ok hserver)).1, ToolServer.callTool_ok htool⟩

end Gateway

end AgentMesh
