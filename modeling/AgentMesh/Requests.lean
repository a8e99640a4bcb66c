/-
AgentMesh/Requests.lean

The actions of a request one by one, and the requests behind the control points.

`Submit.Step` lists what `createRun` and `createAgentChildRun` can do next, with
what each action has read: the facts about single control points in the modules
that follow are proved by cases on it.  A refusal of any kind is one case.

A control point of a request holds the submission after its checks.
`RunRequest.Accepts` says how a submission comes from the body and the header of
the request, and `RunRequest.Selects` how a Run does: with the trimmed input,
and with the named Agent or the canonical requirements.
-/
import AgentMesh.Lineage
import AgentMesh.FlowSafety

namespace AgentMesh

open Machine

/-! ### Submissions -/

/-- A submission that comes from this body and header: input, key and IDs are trimmed, and
either the Agent is named or the requirements are in canonical form. -/
structure RunRequest.Accepts (body : RunRequest) (header : String) (sub : Submission) : Prop where
  key : sub.key = trimSpace header
  input : sub.request.input = trimSpace body.input
  parent : sub.request.parentRunID = trimSpace body.parentRunID
  explicit : sub.routed = false → sub.request.agentID = trimSpace body.agentID ∧
    trimSpace body.agentID ≠ "" ∧ sub.request.requiredCapabilities = []
  routed : sub.routed = true → trimSpace body.agentID = "" ∧
    normalizeRequirements body.requiredCapabilities = .ok sub.request.requiredCapabilities

/-- A Run that has the input and the target of the request: the Agent that it names, or the
requirements by which an Agent was picked. -/
def RunRequest.Selects (body : RunRequest) (run : Run) : Prop :=
  run.input = trimSpace body.input ∧
    if trimSpace body.agentID = "" then
      normalizeRequirements body.requiredCapabilities = .ok run.requiredCapabilities
    else run.agentID = trimSpace body.agentID ∧ run.requiredCapabilities = []

section Submissions

variable {body : RunRequest} {header : String} {sub sub' : Submission} {run run' : Run}

theorem RunRequest.Selects.congr (h : body.Selects run) (hreq : run.SameRequest run') :
    body.Selects run' := by
  rw [RunRequest.Selects, hreq.input, hreq.agentID, hreq.requiredCapabilities]
  exact h

/-- A Run is what a body asks for exactly if it has the fields of the accepted submission. -/
theorem RunRequest.Accepts.selects_iff (h : body.Accepts header sub) :
    body.Selects run ↔ run.input = sub.request.input ∧
      run.requiredCapabilities = sub.request.requiredCapabilities ∧
      (sub.routed = false → run.agentID = sub.request.agentID) := by
  rw [RunRequest.Selects, h.input]
  refine and_congr_right fun _ => ?_
  rcases hr : sub.routed with - | -
  · obtain ⟨hid, hne, hnil⟩ := h.explicit hr
    rw [if_neg hne, hid, hnil]
    exact ⟨fun htarget => ⟨htarget.2, fun _ => htarget.1⟩, fun hsame => ⟨hsame.2 rfl, hsame.1⟩⟩
  · obtain ⟨hid, hok⟩ := h.routed hr
    rw [if_pos hid, hok, Except.ok.injEq]
    constructor
    · intro heq
      exact ⟨heq.symm, fun hfalse => by cases hfalse⟩
    · rintro ⟨heq, -⟩
      exact heq.symm

/-- The Run that `writeRunReplay` compares with is the one that is asked for, or the answer is a
conflict. -/
theorem writeRunReplay_cases (run : Run) (h : body.Accepts header sub) :
    (body.Selects run ∧ run.parentRunID = trimSpace body.parentRunID) ∧
        writeRunReplay run sub = ⟨200, some run⟩ ∨
      ¬ (body.Selects run ∧ run.parentRunID = trimSpace body.parentRunID) ∧
        writeRunReplay run sub = ⟨409, none⟩ := by
  rw [h.selects_iff, ← h.parent, writeRunReplay]
  split
  · rename_i hdiffer
    refine .inr ⟨?_, rfl⟩
    rintro ⟨⟨hinput, hrequired, hagent⟩, hparent⟩
    rcases hdiffer with hd | hd | hd | ⟨hr, hd⟩
    exacts [hd hinput, hd hparent, hd hrequired, hd (hagent hr)]
  · rename_i hsame
    push Not at hsame
    obtain ⟨hinput, hparent, hrequired, hagent⟩ := hsame
    exact .inl ⟨⟨⟨hinput, hrequired, hagent⟩, hparent⟩, rfl⟩

/-- The router picks an Agent for the requirements as they are. -/
theorem RunRequest.Accepts.pick {id : String} {required : List String}
    (h : body.Accepts header sub) (hr : sub.routed = true)
    (hrequired : normalizeRequirements sub.request.requiredCapabilities = .ok required) :
    body.Accepts header { sub with
      request := { sub.request with agentID := id, requiredCapabilities := required } } := by
  obtain ⟨hid, hok⟩ := h.routed hr
  have hself : normalizeRequirements sub.request.requiredCapabilities
      = .ok sub.request.requiredCapabilities := (normalizeRequirements_self hok).2
  obtain rfl := Except.ok.inj (hrequired.symm.trans hself)
  exact ⟨h.key, h.input, h.parent, fun hfalse => absurd (hr.symm.trans hfalse) (by decide),
    fun _ => ⟨hid, hok⟩⟩

theorem RunRequest.Accepts.selectRouted {routed : Routed} (h : body.Accepts header sub)
    (hr : sub.routed = true) (hselect : AgentMesh.selectRouted sub routed = .ok sub') :
    body.Accepts header sub' ∧ sub'.request.parentRunID = sub.request.parentRunID := by
  rw [AgentMesh.selectRouted] at hselect
  repeat' split at hselect
  all_goals cases hselect
  exact ⟨h.pick hr ‹_›, rfl⟩

theorem RunRequest.Accepts.selectCallee {routed : Routed} (h : body.Accepts header sub)
    (hr : sub.routed = true) (hselect : AgentMesh.selectCallee sub routed = .ok sub') :
    body.Accepts header sub' := by
  rw [AgentMesh.selectCallee] at hselect
  repeat' split at hselect
  all_goals cases hselect
  exact h.pick hr ‹_›

end Submissions

/-- How `createAgentChildRun` judges a call: an error response, or a submission that comes from
its body and its header. -/
theorem AgentCall.check_cases {P : Except Response Submission → Prop} (call : AgentCall)
    (parent : Run) (hrefused : ∀ code, 400 ≤ code → P (.error ⟨code, none⟩))
    (haccepted : ∀ sub, call.body.Accepts call.idempotencyHeader sub → sub.key ≠ "" → P (.ok sub)) :
    P (call.check parent) := by
  rw [AgentCall.check]
  rcases call.callerAgentID with - | callerAgentID
  · exact hrefused 403 (by decide)
  refine iteInduction (fun _ => hrefused 403 (by decide)) fun _ => ?_
  refine iteInduction (fun _ => hrefused 400 (by decide)) fun hkey => ?_
  refine iteInduction (fun _ => hrefused 400 (by decide)) fun _ => ?_
  refine iteInduction (fun _ => hrefused 400 (by decide)) fun hparent => ?_
  refine iteInduction (fun _ => hrefused 400 (by decide)) fun _ => ?_
  refine iteInduction (fun _ => hrefused 400 (by decide)) fun hboth => ?_
  refine iteInduction (fun _ => hrefused 400 (by decide)) fun _ => ?_
  -- a call names its parent in the path only
  have htrim : call.body.parentRunID = trimSpace call.body.parentRunID := by
    rw [not_not.mp hparent]
    decide
  refine iteInduction (fun hagent => ?_) fun hagent => ?_
  · rcases hrequired : normalizeRequirements call.body.requiredCapabilities with err | required
    · exact hrefused 400 (by decide)
    · exact haccepted _ ⟨rfl, rfl, htrim, fun hfalse => Bool.noConfusion hfalse,
        fun _ => ⟨hagent, hrequired⟩⟩
        hkey
  · exact haccepted _ ⟨rfl, rfl, htrim, fun _ => ⟨rfl, hagent, by_contra fun h => hboth ⟨hagent, h⟩⟩,
      fun htrue => Bool.noConfusion htrue⟩ hkey

/-- Where `createRun` starts with what its checks accept. -/
theorem receive_accepts {P : SubmitPc → Prop} (body : RunRequest) (header : String)
    (hrefused : ∀ code, 400 ≤ code → P (.done ⟨code, none⟩))
    (hlookup : ∀ sub, body.Accepts header sub → P (.lookup sub))
    (hparent : ∀ sub, body.Accepts header sub → P (.loadParent sub))
    (hselect : ∀ sub, body.Accepts header sub → sub.request.parentRunID = "" →
      P (.selectAgent sub none)) : P (receive body header) := by
  have haccept : ∀ sub : Submission, body.Accepts header sub →
      P (if 128 < (trimSpace header).utf8ByteSize then .done ⟨400, none⟩
        else if trimSpace header ≠ "" then .lookup sub
        else if sub.request.parentRunID ≠ "" then .loadParent sub
        else .selectAgent sub none) := by
    intro sub hsub
    refine iteInduction (fun _ => hrefused 400 (by decide)) fun _ => ?_
    refine iteInduction (fun _ => hlookup sub hsub) fun _ => ?_
    exact iteInduction (fun _ => hparent sub hsub) fun h => hselect sub hsub (not_not.mp h)
  rw [receive]
  refine iteInduction (fun _ => hrefused 400 (by decide)) fun _ => ?_
  refine iteInduction (fun _ => hrefused 400 (by decide)) fun hboth => ?_
  refine iteInduction (fun _ => hrefused 400 (by decide)) fun _ => ?_
  refine iteInduction (fun hagent => ?_) fun hagent => ?_
  · rcases hrequired : normalizeRequirements body.requiredCapabilities with err | required
    · exact hrefused 400 (by decide)
    · exact haccept _ ⟨rfl, rfl, rfl, fun hfalse => Bool.noConfusion hfalse,
        fun _ => ⟨hagent, hrequired⟩⟩
  · exact haccept _ ⟨rfl, rfl, rfl, fun _ => ⟨rfl, hagent, by_contra fun h => hboth ⟨hagent, h⟩⟩,
      fun htrue => Bool.noConfusion htrue⟩

/-! ### Actions -/

/-- The actions of a request: the next control point, the store, and the key and the Run that
it creates. -/
inductive Submit.Step (h : Submit) (o : SubmitOracle) (m : Memory) :
    SubmitPc → Memory → Option (String × Run) → Prop
  /-- An error response. -/
  | refused {code : Nat} (hcode : 400 ≤ code) : Step h o m (.done ⟨code, none⟩) m none
  | replay {sub : Submission} {existing : Run} (pc : h.pc = .lookup sub)
      (found : m.getRunByIdempotencyKey sub.key = .ok existing) :
      Step h o m (.done (writeRunReplay existing sub)) m none
  | missed {sub : Submission} (pc : h.pc = .lookup sub) (parent : sub.request.parentRunID ≠ "") :
      Step h o m (.loadParent sub) m none
  | missedRoot {sub : Submission} (pc : h.pc = .lookup sub) (root : sub.request.parentRunID = "") :
      Step h o m (.selectAgent sub none) m none
  | parent {sub : Submission} {parent : Run} (pc : h.pc = .loadParent sub)
      (found : m.runs.lookup sub.request.parentRunID = some parent) :
      Step h o m (.selectAgent sub (some parent)) m none
  | routed {sub sub' : Submission} {parent : Option Run} (pc : h.pc = .selectAgent sub parent)
      (routed : sub.routed = true) (select : selectRouted sub o.routed = .ok sub') :
      Step h o m (.create sub' parent) m none
  | agent {sub : Submission} {parent : Option Run} (pc : h.pc = .selectAgent sub parent)
      (explicit : sub.routed = false) : Step h o m (.create sub parent) m none
  | create {sub : Submission} {parent : Option Run} {run created : Run} {m' : Memory}
      (pc : h.pc = .create sub parent)
      (attach : attachParent (h.newRun sub o.newID o.now) parent = .ok run)
      (create : m.createRun run sub.key = .ok (m', created, true)) :
      Step h o m (.publishQueued created) m' (some (sub.key, created))
  /-- Another request has bound the key in the meantime. -/
  | raced {sub : Submission} {parent : Option Run} {run existing : Run} {m' : Memory}
      (pc : h.pc = .create sub parent)
      (create : m.createRun run sub.key = .ok (m', existing, false)) :
      Step h o m (.done (writeRunReplay existing sub)) m none
  | published {run : Run} (pc : h.pc = .publishQueued run) : Step h o m (.enqueue run) m none
  | accepted {run : Run} (pc : h.pc = .enqueue run) : Step h o m (.done ⟨202, some run⟩) m none
  | unqueued {run : Run} {err : Err} (pc : h.pc = .enqueue run) :
      Step h o m (.failRun run err) m none
  | failed {run run' : Run} {cause : Err} {m' : Memory} (pc : h.pc = .failRun run cause)
      (store : m.updateRun run' = .ok m') : Step h o m (.publishFailed run') m' none
  | callLoad {call : AgentCall} {parent : Run} {sub : Submission} (pc : h.pc = .callLoad call)
      (found : m.runs.lookup call.parentID = some parent) (check : call.check parent = .ok sub) :
      Step h o m (.callLookup call sub parent) m none
  | callReplay {call : AgentCall} {sub : Submission} {parent existing : Run}
      (pc : h.pc = .callLookup call sub parent)
      (found : m.getRunByIdempotencyKey (agentCallKey parent.id sub.key) = .ok existing) :
      Step h o m (.done (writeAgentCallReplay existing sub parent)) m none
  | callRunning {call : AgentCall} {sub : Submission} {parent : Run}
      (pc : h.pc = .callLookup call sub parent) (running : parent.status = .running) :
      Step h o m (agentCallAncestry call sub parent parent 1 [parent.agentID] [parent.id]) m none
  | callAncestor {call : AgentCall} {sub : Submission} {parent current ancestor : Run} {depth : Int}
      {agents seenRuns : List String}
      (pc : h.pc = .callAncestry call sub parent current depth agents seenRuns)
      (found : m.runs.lookup current.parentRunID = some ancestor) :
      Step h o m (agentCallAncestry call sub parent ancestor (depth + 1)
        (ancestor.agentID :: agents) (ancestor.id :: seenRuns)) m none
  | callRouted {call : AgentCall} {sub sub' : Submission} {parent : Run}
      {ancestorAgents : List String} (pc : h.pc = .callSelect call sub parent ancestorAgents)
      (routed : sub.routed = true) (select : selectCallee sub o.routed = .ok sub') :
      Step h o m (checkCallee call sub' parent ancestorAgents) m none
  | callAgent {call : AgentCall} {sub : Submission} {parent : Run} {ancestorAgents : List String}
      (pc : h.pc = .callSelect call sub parent ancestorAgents) (explicit : sub.routed = false) :
      Step h o m (checkCallee call sub parent ancestorAgents) m none
  | callCreate {call : AgentCall} {sub : Submission} {parent run created : Run} {m' : Memory}
      (pc : h.pc = .callCreate call sub parent)
      (attach : (h.newChildRun sub parent o.newID o.now).attachTo parent = .ok run)
      (create : m.createChildRun run (agentCallKey parent.id sub.key) call.maxChildren
        = .ok (m', created, true)) :
      Step h o m (.callPublish parent created) m' (some (agentCallKey parent.id sub.key, created))
  /-- Another call has bound the key in the meantime. -/
  | callRaced {call : AgentCall} {sub : Submission} {parent run existing : Run} {m' : Memory}
      (pc : h.pc = .callCreate call sub parent)
      (create : m.createChildRun run (agentCallKey parent.id sub.key) call.maxChildren
        = .ok (m', existing, false)) : Step h o m (.done ⟨200, some existing⟩) m none
  | callPublished {parent child : Run} (pc : h.pc = .callPublish parent child) :
      Step h o m (.callEnqueue child) m none
  | callAccepted {child : Run} (pc : h.pc = .callEnqueue child) :
      Step h o m (.done ⟨202, some child⟩) m none
  | callUnqueued {child : Run} {err : Err} (pc : h.pc = .callEnqueue child) :
      Step h o m (.callFail child err) m none
  | callFailed {child run : Run} {cause : Err} {m' : Memory} (pc : h.pc = .callFail child cause)
      (store : m.updateRun run = .ok m') : Step h o m (.done ⟨503, none⟩) m' none

/-- What routing refuses, it refuses with an error response. -/
theorem selectRouted_error {sub : Submission} {routed : Routed} {response : Response}
    (h : selectRouted sub routed = .error response) :
    ∃ code, 400 ≤ code ∧ response = ⟨code, none⟩ := by
  rw [selectRouted] at h
  repeat' split at h
  all_goals cases h
  all_goals exact ⟨_, by decide, rfl⟩

theorem selectCallee_error {sub : Submission} {routed : Routed} {response : Response}
    (h : selectCallee sub routed = .error response) :
    ∃ code, 400 ≤ code ∧ response = ⟨code, none⟩ := by
  rw [selectCallee] at h
  repeat' split at h
  all_goals cases h
  all_goals exact ⟨_, by decide, rfl⟩

section Actions

variable {h : Submit} {o : SubmitOracle} {m : Memory} {pc : SubmitPc} {e : Effect}
  {created : Option (String × Run)}

theorem Submit.handle_step (hh : h.handle o m = some (pc, e, created)) :
    h.Step o m pc e.store created := by
  cases hpc : h.pc <;> simp only [Submit.handle, hpc, Option.some.injEq, reduceCtorEq] at hh
  case lookup sub =>
    split at hh
    · cases hh
      exact .replay hpc ‹_›
    · split at hh
      · cases hh
        exact .missed hpc ‹_›
      · cases hh
        exact .missedRoot hpc (not_not.mp ‹_›)
  case loadParent sub =>
    split at hh
    · cases hh
      exact .refused (by decide)
    · rename_i hparent
      cases hh
      exact .parent hpc (Memory.getRun_ok.mp hparent)
  case selectAgent sub parent =>
    split at hh
    · split at hh
      · rename_i hselect
        cases hh
        obtain ⟨code, hcode, rfl⟩ := selectRouted_error hselect
        exact .refused hcode
      · cases hh
        exact .routed hpc ‹_› ‹_›
    · split at hh
      · cases hh
        exact .refused (by decide)
      · cases hh
        exact .agent hpc (Bool.not_eq_true _ ▸ ‹_›)
  case create sub parent =>
    split at hh
    · cases hh
      exact .refused (by decide)
    · split at hh
      · cases hh
        exact .refused (by decide)
      · cases hh
        exact .create hpc ‹_› ‹_›
      · cases hh
        exact .raced hpc ‹_›
  case publishQueued run =>
    cases hh
    exact .published hpc
  case enqueue run =>
    split at hh
    · cases hh
      exact .accepted hpc
    · cases hh
      exact .unqueued hpc
  case failRun run cause =>
    split at hh
    · cases hh
      exact .refused (by decide)
    · split at hh
      · cases hh
        exact .refused (by decide)
      · cases hh
        exact .failed hpc ‹_›
  case publishFailed run =>
    cases hh
    exact .refused (by decide)
  case callLoad call =>
    split at hh
    · cases hh
      exact .refused (by decide)
    · rename_i hparent
      split at hh
      · rename_i response hcheck
        cases hh
        obtain ⟨code, hcode, rfl⟩ : ∃ code, 400 ≤ code ∧ response = ⟨code, none⟩ :=
          AgentCall.check_cases
            (P := fun r => ∀ response, r = .error response →
              ∃ code, 400 ≤ code ∧ response = ⟨code, none⟩) call _
            (fun code hcode _ h => ⟨code, hcode, (Except.error.inj h).symm⟩)
            (fun _ _ _ _ h => by cases h) response hcheck
        exact .refused hcode
      · cases hh
        exact .callLoad hpc (Memory.getRun_ok.mp hparent) ‹_›
  case callLookup call sub parent =>
    split at hh
    · cases hh
      exact .callReplay hpc ‹_›
    · split at hh
      · cases hh
        exact .refused (by decide)
      · cases hh
        exact .callRunning hpc (not_not.mp ‹_›)
  case callAncestry call sub parent current depth agents seenRuns =>
    split at hh
    · cases hh
      exact .refused (by decide)
    · rename_i hancestor
      cases hh
      exact .callAncestor hpc (Memory.getRun_ok.mp hancestor)
  case callSelect call sub parent ancestorAgents =>
    split at hh
    · split at hh
      · rename_i hselect
        cases hh
        obtain ⟨code, hcode, rfl⟩ := selectCallee_error hselect
        exact .refused hcode
      · cases hh
        exact .callRouted hpc ‹_› ‹_›
    · split at hh
      · cases hh
        exact .refused (by decide)
      · cases hh
        exact .callAgent hpc (Bool.not_eq_true _ ▸ ‹_›)
  case callCreate call sub parent =>
    split at hh
    · cases hh
      exact .refused (by decide)
    · split at hh
      · cases hh
        exact .refused (by split <;> decide)
      · cases hh
        exact .callCreate hpc ‹_› ‹_›
      · cases hh
        exact .callRaced hpc ‹_›
  case callPublish parent child =>
    cases hh
    exact .callPublished hpc
  case callEnqueue child =>
    split at hh
    · cases hh
      exact .callAccepted hpc
    · cases hh
      exact .callUnqueued hpc
  case callFail child cause =>
    split at hh
    · cases hh
      exact .refused (by decide)
    · split at hh
      · cases hh
        exact .refused (by decide)
      · cases hh
        exact .callFailed hpc ‹_›

end Actions

end AgentMesh
