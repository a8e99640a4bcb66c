/-
AgentMesh/Arguments.lean

The arguments of a tool call, from the body of a request to the hash of an
approval.

`createApproval` encodes the arguments that it has received, `Initialize` decodes
and encodes them again, and the hash is made of the result.  `callTool` encodes
once.  Both start from a request body, so the arguments are a map that was decoded
(`decodeApprovalRequest`, `decodeToolRequest`), and a decoded map survives the
additional round.
-/
import AgentMesh.Fields
import AgentMesh.RequestBody
import AgentMesh.Gate

namespace AgentMesh

open Json Machine

open Url (Bytes encode)

/-! ### Requests -/

section Requests

variable {ν : Type} (numbers : NumberFormat ν)

/-- The members of a body that is stored in a struct; `null` stores nothing. -/
def decodeMembers (fields : List (String × Shape)) (body : Bytes) :
    Except Err (Tree Bytes .members) :=
  match decodeJSON (fun t => (numbers.number t).isSome) (.struct fields) body with
  | .error err => .error err
  | .ok (.object members) => .ok members
  | .ok _ => .ok .ended

/-- `createApprovalRequest`. -/
def approvalFields : List (String × Shape) :=
  [("server_id", .string), ("tool_name", .string), ("arguments", .map .any), ("reason", .string)]

/-- `callToolRequest`. -/
def toolFields : List (String × Shape) :=
  [("server_id", .string), ("name", .string), ("arguments", .map .any), ("approval_id", .string)]

/-- `decodeJSON` in `createApproval`. -/
def decodeApprovalRequest (body : Bytes) : Except Err (ApprovalRequest (JsonObject ν)) :=
  match decodeMembers numbers approvalFields body with
  | .error err => .error err
  | .ok members =>
      match members.mapField approvalFields "arguments" numbers.number none with
      | none => .error (errorf "invalid JSON")
      | some arguments =>
          .ok { serverID := members.stringField approvalFields "server_id" ""
                toolName := members.stringField approvalFields "tool_name" ""
                arguments := arguments
                reason := members.stringField approvalFields "reason" "" }

/-- `decodeJSON` in `callTool`. -/
def decodeToolRequest (body : Bytes) : Except Err (ToolRequest (JsonObject ν)) :=
  match decodeMembers numbers toolFields body with
  | .error err => .error err
  | .ok members =>
      match members.mapField toolFields "arguments" numbers.number none with
      | none => .error (errorf "invalid JSON")
      | some arguments =>
          .ok { serverID := members.stringField toolFields "server_id" ""
                name := members.stringField toolFields "name" ""
                arguments := arguments
                approvalID := members.stringField toolFields "approval_id" "" }

/-- `encoding/json` on argument maps. -/
def jsonFormat (digest : String → String) : ArgumentFormat (JsonObject ν) where
  marshal o := String.ofList ((Tree.object o.members).marshal numbers.format true)
  unmarshal s := (parseText (encode s)).bind fun v => (v.storeMap numbers.number none).join
  digest := digest
  empty := .empty

end Requests

section Rounds

variable {ν : Type} {numbers : NumberFormat ν} {digest : String → String}

theorem decodeMembers_depth {fields : List (String × Shape)} {body : Bytes}
    {members : Tree Bytes .members} (h : decodeMembers numbers fields body = .ok members) :
    members.depth < maxNestingDepth := by
  rw [decodeMembers] at h
  split at h
  · cases h
  · rename_i hbody
    obtain rfl := Except.ok.inj h
    exact (decodeJSON_ok_iff.mp hbody).2.1
  · obtain rfl := Except.ok.inj h
    exact Nat.zero_lt_succ _

theorem decodeApprovalRequest_ok_iff {body : Bytes} {request : ApprovalRequest (JsonObject ν)} :
    decodeApprovalRequest numbers body = .ok request ↔
      ∃ members, decodeMembers numbers approvalFields body = .ok members ∧
        request.serverID = members.stringField approvalFields "server_id" "" ∧
        request.toolName = members.stringField approvalFields "tool_name" "" ∧
        members.mapField approvalFields "arguments" numbers.number none = some request.arguments ∧
        request.reason = members.stringField approvalFields "reason" "" := by
  obtain ⟨serverID, toolName, arguments, reason⟩ := request
  rw [decodeApprovalRequest]
  rcases decodeMembers numbers approvalFields body with err | members
  · simp
  · rcases hfield : members.mapField approvalFields "arguments" numbers.number none with - | found
    · simp [hfield]
    · simp [hfield, eq_comm]

theorem decodeToolRequest_ok_iff {body : Bytes} {call : ToolRequest (JsonObject ν)} :
    decodeToolRequest numbers body = .ok call ↔
      ∃ members, decodeMembers numbers toolFields body = .ok members ∧
        call.serverID = members.stringField toolFields "server_id" "" ∧
        call.name = members.stringField toolFields "name" "" ∧
        members.mapField toolFields "arguments" numbers.number none = some call.arguments ∧
        call.approvalID = members.stringField toolFields "approval_id" "" := by
  obtain ⟨serverID, name, arguments, approvalID⟩ := call
  rw [decodeToolRequest]
  rcases decodeMembers numbers toolFields body with err | members
  · simp
  · rcases hfield : members.mapField toolFields "arguments" numbers.number none with - | found
    · simp [hfield]
    · simp [hfield, eq_comm]

/-- The arguments of a request can be decoded again. -/
theorem decodeApprovalRequest_depth {body : Bytes} {request : ApprovalRequest (JsonObject ν)}
    (h : decodeApprovalRequest numbers body = .ok request) :
    mapDepth request.arguments < maxNestingDepth := by
  obtain ⟨members, hmembers, -, -, harguments, -⟩ := decodeApprovalRequest_ok_iff.mp h
  have hle := Tree.mapDepth_mapField_le harguments
  have hlt := decodeMembers_depth hmembers
  exact lt_of_le_of_lt hle (max_lt (Nat.zero_lt_succ _) hlt)

theorem jsonFormat_unmarshal_marshal {o : JsonObject ν} (h : o.members.depth < maxNestingDepth) :
    (jsonFormat numbers digest).unmarshal ((jsonFormat numbers digest).marshal o) = some o := by
  have hparse := parseText_marshal numbers.isNumber (show (Tree.object o.members).depth ≤ _ from h)
  have hbytes : encode ((jsonFormat numbers digest).marshal o)
      = utf8 ((Tree.object o.members).marshal numbers.format true) := by
    show encode (String.ofList _) = _
    rw [encode, String.toList_ofList]
  show (parseText (encode _)).bind _ = _
  rw [hbytes, hparse, Option.bind_some, Tree.storeMap_mapNumbers]
  rfl

theorem jsonFormat_marshal_ne (o : JsonObject ν) : (jsonFormat numbers digest).marshal o ≠ "" := by
  intro h
  have hlist := congrArg String.toList h
  rw [jsonFormat, String.toList_ofList, Tree.marshal] at hlist
  cases hlist

/-- `Initialize` on arguments that were decoded and encoded: the same arguments, and their hash. -/
theorem initializeApproval_marshal {o : JsonObject ν} (ho : o.members.depth < maxNestingDepth)
    {draft approval : Approval} {now : Time} {ttl : Int}
    (hdraft : draft.arguments = (jsonFormat numbers digest).marshal o)
    (h : initializeApproval (jsonFormat numbers digest) draft now ttl = .ok approval) :
    approval.argumentsHash = approvalArgumentsHash (jsonFormat numbers digest) draft.serverID
      draft.toolName ((jsonFormat numbers digest).marshal o) := by
  rw [initializeApproval] at h
  split at h
  · cases h
  · split at h
    · cases h
    · simp only [hdraft, if_neg (jsonFormat_marshal_ne o), jsonFormat_unmarshal_marshal ho] at h
      obtain rfl := Except.ok.inj h
      simp only [approvalArgumentsHash, trimSpace_trimSpace]

end Rounds

/-- **Approval and call agree on arguments.**  An approval is created from a request body and a
tool is called with another.  If their arguments are decoded to the same map and they name the
same server and tool, up to white space around the names, then the hash that is stored is the one
that the call computes. -/
theorem approval_hash_agrees {ν : Type} (numbers : NumberFormat ν) (digest : String → String)
    {body body' : Bytes} {request : ApprovalRequest (JsonObject ν)}
    {call : ToolRequest (JsonObject ν)}
    (hrequest : decodeApprovalRequest numbers body = .ok request)
    (hcall : decodeToolRequest numbers body' = .ok call)
    (harguments : call.arguments.getD .empty = request.arguments.getD .empty)
    (hserver : trimSpace call.serverID = trimSpace request.serverID)
    (htool : trimSpace call.name = trimSpace request.toolName)
    {registry : Registry} {ttl retention : Int} {newID actor : String} {createdAt now : Time}
    {m m' : Memory} {reply : ToolReply} {approval : Approval}
    (h : receiveApproval (jsonFormat numbers digest) registry ttl retention request newID actor
      createdAt now m = (m', reply))
    (hreply : reply.approval = some approval) :
    m'.approvals.lookup approval.id = some approval ∧
      (decodeToolRequest numbers body').map (fun call =>
        approvalArgumentsHash (jsonFormat numbers digest) call.serverID call.name
          (canonicalToolArguments (jsonFormat numbers digest) call.arguments))
        = .ok approval.argumentsHash := by
  have hnone : ∀ err : Err, (writeToolError err).approval = none := by
    intro err
    rw [writeToolError]
    split_ifs <;> rfl
  rw [receiveApproval] at h
  split at h
  · obtain ⟨-, rfl⟩ := Prod.mk.inj h
    rw [hnone] at hreply
    cases hreply
  · obtain ⟨-, rfl⟩ := Prod.mk.inj h
    cases hreply
  · split at h
    · obtain ⟨-, rfl⟩ := Prod.mk.inj h
      cases hreply
    · rename_i a hinit
      split at h
      · obtain ⟨-, rfl⟩ := Prod.mk.inj h
        cases hreply
      · rename_i created hcreate
        obtain ⟨rfl, rfl⟩ := Prod.mk.inj h
        obtain rfl := Option.some.inj hreply
        obtain ⟨-, rfl, rfl⟩ := Memory.createApproval_ok hcreate
        have hhash := initializeApproval_marshal (decodeApprovalRequest_depth hrequest) rfl hinit
        refine ⟨AList.lookup_insert _, ?_⟩
        rw [hcall, hhash]
        show Except.ok _ = Except.ok _
        simp only [approvalArgumentsHash, trimSpace_trimSpace, hserver, htool, canonicalToolArguments]
        rw [show call.arguments.getD (jsonFormat numbers digest).empty = _ from harguments]

/-! ### Two requests with one object -/

/-- A body that `json.Marshal` has written. -/
theorem decodeMembers_marshal {ν : Type} {numbers : NumberFormat ν}
    {fields : List (String × Shape)} {members : Tree ν .members}
    (hlength : (utf8 ((Tree.object members).marshal numbers.format true)).length ≤ bodyLimit)
    (hdepth : members.depth < maxNestingDepth)
    (hfits : ((Tree.object members).mapNumbers fun x => utf8 (numbers.format x)).fits
      (fun t => (numbers.number t).isSome) (.struct fields) = true) :
    decodeMembers numbers fields (utf8 ((Tree.object members).marshal numbers.format true))
      = .ok (members.mapNumbers fun x => utf8 (numbers.format x)) := by
  have hspells := (Tree.object members).written numbers.isNumber true
  have hsole : IsSole ((Tree.object members).mapNumbers fun x => utf8 (numbers.format x))
      ((utf8 ((Tree.object members).marshal numbers.format true)).take bodyLimit) := by
    refine ⟨[], _, [], ?_, isBlank_nil, hspells, isBlank_nil⟩
    rw [List.take_of_length_le hlength, List.nil_append, List.append_nil]
  have hbody := decodeJSON_ok_iff.mpr ⟨hsole, by rwa [Tree.depth_mapNumbers], hfits⟩
  rw [decodeMembers, hbody]
  rfl

/-- Numbers of one digit. -/
def digitFormat : NumberFormat (Fin 10) where
  format d := [Char.ofNat (0x30 + d.val)]
  number t := (List.finRange 10).find? fun d => t = [UInt8.ofNat (0x30 + d.val)]
  isNumber d := by
    have hscan : ∀ d : Fin 10, scanNumber (utf8 [Char.ofNat (0x30 + d.val)])
        = some (utf8 [Char.ofNat (0x30 + d.val)], []) := by decide
    exact (scanNumber_sound (hscan d)).2
  number_format := by decide

/-- The arguments of both requests. -/
def demoArguments : JsonObject (Fin 10) where
  members := .member "a" (.number 1) (.member "b" (.array .done) .ended)
  canonical := by
    refine ⟨trivial, ⟨trivial, trivial, ?_⟩, ?_⟩
    · exact fun _ h => absurd h List.not_mem_nil
    · intro k hk
      rw [List.mem_singleton.mp hk]
      decide

def approvalMembers : Tree (Fin 10) .members :=
  .member "server_id" (.string "files") (.member "tool_name" (.string "remove")
    (.member "arguments" (.object demoArguments.members) .ended))

/-- Other letters and another order, with the arguments in two parts. -/
def callMembers : Tree (Fin 10) .members :=
  .member "name" (.string "remove") (.member "Arguments" (.object (.member "b" (.array .done) .ended))
    (.member "Server_ID" (.string " files") (.member "approval_id" (.string "apr_1")
      (.member "arguments" (.object (.member "a" (.number 1) .ended)) .ended))))

def requestBody (members : Tree (Fin 10) .members) : Bytes :=
  utf8 ((Tree.object members).marshal digitFormat.format true)

theorem approval_hash_agrees_reordered :
    ∃ (m : Memory) (approval : Approval), m.approvals.lookup approval.id = some approval ∧
      (decodeToolRequest digitFormat (requestBody callMembers)).map (fun call =>
        approvalArgumentsHash (jsonFormat digitFormat id) call.serverID call.name
          (canonicalToolArguments (jsonFormat digitFormat id) call.arguments))
        = .ok approval.argumentsHash := by
  have hrequest : decodeApprovalRequest digitFormat (requestBody approvalMembers) = .ok
      { serverID := "files", toolName := "remove", arguments := some demoArguments } := by
    have hmembers : decodeMembers digitFormat approvalFields (requestBody approvalMembers) = .ok _ :=
      decodeMembers_marshal (by decide +kernel) (by decide) (by decide +kernel)
    refine decodeApprovalRequest_ok_iff.mpr ⟨_, hmembers, ?_⟩
    decide +kernel
  have hcall : decodeToolRequest digitFormat (requestBody callMembers) = .ok
      { serverID := " files", name := "remove", arguments := some demoArguments
        approvalID := "apr_1" } := by
    have hmembers : decodeMembers digitFormat toolFields (requestBody callMembers) = .ok _ :=
      decodeMembers_marshal (by decide +kernel) (by decide) (by decide +kernel)
    refine decodeToolRequest_ok_iff.mpr ⟨_, hmembers, ?_⟩
    decide +kernel
  have hcreated : (parseRegistry (fun _ => true) (fun _ => none) 30 [demoConfig]).toOption.map
      (fun registry => (receiveApproval (jsonFormat digitFormat id) registry 10 5
        { serverID := "files", toolName := "remove", arguments := some demoArguments } "apr_1" "ops"
        1 1 {}).2.approval.isSome) = some true := by decide +kernel
  obtain ⟨registry, -, hsome⟩ := Option.map_eq_some_iff.mp hcreated
  obtain ⟨approval, hreply⟩ := Option.isSome_iff_exists.mp hsome
  rcases h : receiveApproval (jsonFormat digitFormat id) registry 10 5
    { serverID := "files", toolName := "remove", arguments := some demoArguments } "apr_1" "ops"
    1 1 {} with ⟨m', reply⟩
  rw [h] at hreply
  exact ⟨m', approval,
    approval_hash_agrees digitFormat id hrequest hcall rfl (by decide +kernel) rfl h hreply⟩

end AgentMesh
