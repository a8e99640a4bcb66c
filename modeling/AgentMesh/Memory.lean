/-
AgentMesh/Memory.lean

The in-memory repository of `internal/store/memory.go`: its operations on Runs,
Agents, Workflows and approvals.  Each operation holds the store's mutex from its first read to its last
write, so it is one atomic function here.  An operation that returns an error
leaves the store unchanged.

The clones that the source makes on the way in and out are the identity on
values.  Fences are `int64`: `nextFence` adds with the wrap-around of Go.
Versions are counted without an end.

A listing takes the entries in the order of the table and sorts them.  Where the
source orders by an ID the result is the same for every iteration order of the
map; `ListRuns` leaves the order of Runs created at one instant open.
-/
import AgentMesh.Agent
import AgentMesh.Approval
import AgentMesh.Workflow

namespace AgentMesh

/-! ### The store -/

structure WorkflowEvent where
  id : String
  workflowID : String
  stepID : String := ""
  runID : String := ""
  type : String
  message : String := ""
  timestamp : Time := 0
  deriving DecidableEq, Repr

structure Memory where
  agents : Table Agent := ∅
  runs : Table Run := ∅
  runFences : Table Int := ∅
  idempotencyKeys : Table String := ∅
  workflows : Table Workflow := ∅
  workflowEvents : Table (List WorkflowEvent) := ∅
  approvals : Table Approval := ∅

structure PendingRun where
  id : String
  status : RunStatus
  deriving DecidableEq, Repr

structure AgentFilter where
  capability : String := ""
  runtime : String := ""
  protocol : String := ""
  deriving DecidableEq, Repr

/-- The Run that `RecoverRun` puts back into the queue. -/
def Run.requeue (run : Run) : Run :=
  { run with
    status := .queued, startedAt := none, durationMS := 0
    attempt := if 0 < run.attempt then run.attempt - 1 else run.attempt }

/-- The execution state that `UpdateWorkflow` copies into a stored step. -/
def WorkflowStep.withState (existing given : WorkflowStep) : WorkflowStep :=
  { existing with
    status := given.status, runID := given.runID, output := given.output, error := given.error
    startedAt := given.startedAt, completedAt := given.completedAt }

/-- The approval after `DecideApproval`. -/
def Approval.decide (a : Approval) (approve : Bool) (actor : String) (now : Time) : Approval :=
  { a with
    status := if approve then .approved else .rejected
    decidedBy := actor, decidedAt := some now, version := a.version + 1 }

/-- The approval after `ConsumeApproval`. -/
def Approval.consume (a : Approval) (now : Time) : Approval :=
  { a with status := .consumed, consumedAt := some now, version := a.version + 1 }

namespace Memory

/-! ### Runs -/

/-- Addition of `int64` wraps around. -/
def int64 (n : Int) : Int := n.bmod (2 ^ 64)

/-- The fence of a Run; a missing map entry reads as zero. -/
def fence (m : Memory) (id : String) : Int := Table.getD m.runFences id 0

/-- The fence that a claim or a recovery issues. -/
def nextFence (current minimumFence : Int) : Int :=
  let next := int64 (current + 1)
  if minimumFence > next then minimumFence else next

def getRun (m : Memory) (id : String) : Except Err Run :=
  match m.runs.lookup id with
  | none => .error Sentinel.notFound.err
  | some run => .ok run

def getRunByIdempotencyKey (m : Memory) (key : String) : Except Err Run :=
  match m.idempotencyKeys.lookup key with
  | none => .error Sentinel.notFound.err
  | some runID => .ok (Table.getD m.runs runID {})

/-- The lineage checks of `createRunLocked`. -/
def attachLineage (m : Memory) (run : Run) : Except Err Run :=
  if run.parentRunID = "" then
    if run.rootRunID ≠ "" then .error (errorf "root Run cannot declare root_run_id")
    else .ok run
  else
    match m.runs.lookup run.parentRunID with
    | none => .error Sentinel.notFound.err
    | some parent =>
        match run.attachTo parent with
        | .error err => .error err
        | .ok attached =>
            if run.rootRunID ≠ "" ∧ run.rootRunID ≠ attached.rootRunID then
              .error (errorf "root_run_id does not match parent lineage")
            else .ok attached

/-- The end of `createRunLocked`: bind the key, if there is one, and store the Run. -/
def storeRun (m : Memory) (run : Run) (idempotencyKey : String) : Memory :=
  { m with
    idempotencyKeys :=
      if idempotencyKey ≠ "" then m.idempotencyKeys.insert idempotencyKey run.id
      else m.idempotencyKeys
    runs := m.runs.insert run.id run }

/-- `createRunLocked`: the store, the Run under the key, and whether it is new. -/
def createRun (m : Memory) (run : Run) (idempotencyKey : String) :
    Except Err (Memory × Run × Bool) :=
  match if idempotencyKey ≠ "" then m.idempotencyKeys.lookup idempotencyKey else none with
  | some runID => .ok (m, Table.getD m.runs runID {}, false)
  | none =>
      match m.attachLineage run with
      | .error err => .error err
      | .ok run => .ok (m.storeRun run idempotencyKey, run, true)

/-- The number of Runs whose parent is `parentRunID`. -/
def childCount (m : Memory) (parentRunID : String) : Nat :=
  m.runs.entries.countP fun entry => entry.2.parentRunID = parentRunID

/-- `CreateChildRun`: a creation that needs a stored parent, with a bound on the
number of its children. -/
def createChildRun (m : Memory) (run : Run) (idempotencyKey : String) (maxChildren : Int) :
    Except Err (Memory × Run × Bool) :=
  if run.parentRunID = "" then .error (errorf "parent_run_id is required")
  else
    match if idempotencyKey ≠ "" then m.idempotencyKeys.lookup idempotencyKey else none with
    | some runID => .ok (m, Table.getD m.runs runID {}, false)
    | none =>
        match m.runs.lookup run.parentRunID with
        | none => .error Sentinel.notFound.err
        | some _ =>
            if 0 < maxChildren ∧ maxChildren ≤ m.childCount run.parentRunID then
              .error Sentinel.childRunLimit.err
            else m.createRun run idempotencyKey

/-- Lineage fields of a write are ignored: they keep their stored values. -/
def keepLineage (existing run : Run) : Run :=
  { run with parentRunID := existing.parentRunID, rootRunID := existing.rootRunID }

def updateRun (m : Memory) (run : Run) : Except Err Memory :=
  match m.runs.lookup run.id with
  | none => .error Sentinel.notFound.err
  | some existing =>
      if existing.status = .canceled then .error Sentinel.runCanceled.err
      else if m.fence run.id ≠ 0 then .error Sentinel.staleExecution.err
      else .ok { m with runs := m.runs.insert run.id (keepLineage existing run) }

def claimRunExecution (m : Memory) (id : String) (minimumFence : Int) :
    Except Err (Memory × Int) :=
  match m.runs.lookup id with
  | none => .error Sentinel.notFound.err
  | some run =>
      if run.status = .canceled then .error Sentinel.runCanceled.err
      else if run.status ≠ .queued ∧ run.status ≠ .running then
        .error (Sentinel.runNotExecutable.errWith (" from status " ++ run.status.text))
      else
        let next := nextFence (m.fence id) minimumFence
        .ok ({ m with runFences := m.runFences.insert id next }, next)

def updateRunFenced (m : Memory) (run : Run) (fence : Int) : Except Err Memory :=
  match m.runs.lookup run.id with
  | none => .error Sentinel.notFound.err
  | some existing =>
      if existing.status = .canceled then .error Sentinel.runCanceled.err
      else if fence ≤ 0 ∨ m.fence run.id ≠ fence then .error Sentinel.staleExecution.err
      else .ok { m with runs := m.runs.insert run.id (keepLineage existing run) }

def cancelRun (m : Memory) (id : String) (at_ : Time) : Except Err (Memory × Run) :=
  match m.runs.lookup id with
  | none => .error Sentinel.notFound.err
  | some run =>
      match run.cancel at_ with
      | .error err => .error err
      | .ok run => .ok ({ m with runs := m.runs.insert id run }, run)

def listRuns (m : Memory) : List Run :=
  (m.runs.entries.map fun entry => entry.2).insertionSort fun a b => a.createdAt ≤ b.createdAt

/-- The order of `ListChildRuns` and of `sortAgents`. -/
def createdBefore (createdAt createdAt' : Time) (id id' : String) : Prop :=
  createdAt < createdAt' ∨ (createdAt = createdAt' ∧ id ≤ id')

instance (createdAt createdAt' : Time) (id id' : String) :
    Decidable (createdBefore createdAt createdAt' id id') := by
  unfold createdBefore; infer_instance

def listChildRuns (m : Memory) (parentRunID : String) : Except Err (List Run) :=
  match m.runs.lookup parentRunID with
  | none => .error Sentinel.notFound.err
  | some _ =>
      .ok ((m.runs.entries.filterMap fun entry =>
        if entry.2.parentRunID = parentRunID then some entry.2 else none).insertionSort
          fun a b => createdBefore a.createdAt b.createdAt a.id b.id)

/-- `CountActiveRunsByAgent`: the count of each Agent that is asked for. -/
def countActiveRunsByAgent (m : Memory) (agentIDs : List String) : List (String × Nat) :=
  agentIDs.dedup.map fun id =>
    (id, m.runs.entries.countP fun entry => entry.2.IsActive ∧ entry.2.agentID = id)

/-- `ListPendingRuns`; the IDs are distinct, so any sort gives the same list. -/
def listPendingRuns (m : Memory) : List PendingRun :=
  (m.runs.entries.filterMap fun entry =>
    if entry.2.IsActive then some ⟨entry.1, entry.2.status⟩ else none).insertionSort
      fun a b => a.id ≤ b.id

def recoverRun (m : Memory) (id : String) (minimumFence : Int) : Except Err (Memory × Bool) :=
  match m.runs.lookup id with
  | none => .error Sentinel.notFound.err
  | some run =>
      if run.status ≠ .running then .ok (m, false)
      else
        .ok ({ m with
          runFences := m.runFences.insert id (nextFence (m.fence id) minimumFence)
          runs := m.runs.insert id run.requeue }, true)

/-! ### Agents -/

def getAgent (m : Memory) (id : String) : Except Err Agent :=
  match m.agents.lookup id with
  | none => .error Sentinel.notFound.err
  | some agent => .ok agent

def createAgent (absoluteURI : String → Bool) (m : Memory) (agent : Agent) (now : Time) :
    Except Err (Memory × Agent) :=
  match agent.initializeForCreate absoluteURI now with
  | .error err => .error err
  | .ok agent =>
      match m.agents.lookup agent.id with
      | some _ => .error Sentinel.conflict.err
      | none => .ok ({ m with agents := m.agents.insert agent.id agent }, agent)

def updateAgent (absoluteURI : String → Bool) (m : Memory) (agent : Agent) (expectedVersion : Int)
    (now : Time) : Except Err (Memory × Agent) :=
  match agent.normalizeAndValidate absoluteURI with
  | .error err => .error err
  | .ok agent =>
      match m.agents.lookup agent.id with
      | none => .error Sentinel.notFound.err
      | some existing =>
          if expectedVersion < 1 ∨ existing.version ≠ expectedVersion then
            .error Sentinel.conflict.err
          else
            let agent := { agent with
              createdAt := existing.createdAt, updatedAt := now, version := existing.version + 1 }
            .ok ({ m with agents := m.agents.insert agent.id agent }, agent)

/-- An Agent that has a Run or a step of a Workflow cannot be deleted. -/
def agentInUse (m : Memory) (id : String) : Bool :=
  m.runs.entries.any (fun entry => entry.2.agentID = id)
    || m.workflows.entries.any fun entry => entry.2.steps.any fun step => step.agentID = id

def deleteAgent (m : Memory) (id : String) (expectedVersion : Int) : Except Err Memory :=
  match m.agents.lookup id with
  | none => .error Sentinel.notFound.err
  | some agent =>
      if expectedVersion < 1 ∨ agent.version ≠ expectedVersion then .error Sentinel.conflict.err
      else if m.agentInUse id then .error Sentinel.agentInUse.err
      else .ok { m with agents := m.agents.erase id }

/-- The filter of `FindAgents` in canonical form. -/
def normalizeFilter (filter : AgentFilter) : Except Err AgentFilter := do
  let capability ← if filter.capability ≠ "" then normalizeCapability filter.capability else .ok ""
  let runtime ← normalizeAgentIdentifier "runtime" filter.runtime
  let protocol ← normalizeAgentIdentifier "protocol" filter.protocol
  return { capability := capability, runtime := runtime, protocol := protocol }

def findAgents (m : Memory) (filter : AgentFilter) : Except Err (List Agent) :=
  match normalizeFilter filter with
  | .error err => .error err
  | .ok filter =>
      .ok ((m.agents.entries.filterMap fun entry =>
        if (filter.runtime ≠ "" ∧ entry.2.runtime ≠ filter.runtime)
            ∨ (filter.protocol ≠ "" ∧ entry.2.protocol ≠ filter.protocol) then none
        else if filter.capability ≠ "" ∧ filter.capability ∉ entry.2.capabilities then none
        else some entry.2).insertionSort
          fun a b => createdBefore a.createdAt b.createdAt a.id b.id)

def listAgents (m : Memory) : Except Err (List Agent) := m.findAgents {}

def listAgentsByCapability (m : Memory) (capability : String) : Except Err (List Agent) :=
  m.findAgents { capability := capability }

/-! ### Workflows -/

/-- The Agent check of `CreateWorkflow`. -/
def checkAgents (m : Memory) : List WorkflowStep → Except Err Unit
  | [] => .ok ()
  | step :: rest =>
      match m.agents.lookup step.agentID with
      | none => .error (Sentinel.notFound.err.wrap ("agent " ++ step.agentID ++ ": "))
      | some _ => checkAgents m rest

def createWorkflow (m : Memory) (workflow : Workflow) (now : Time) :
    Except Err (Memory × Workflow) :=
  match workflow.initializeForCreate now with
  | .error err => .error err
  | .ok workflow =>
      match m.workflows.lookup workflow.id with
      | some _ => .error Sentinel.conflict.err
      | none =>
          match m.checkAgents workflow.steps with
          | .error err => .error err
          | .ok () =>
              .ok ({ m with workflows := m.workflows.insert workflow.id workflow }, workflow)

def getWorkflow (m : Memory) (id : String) : Except Err Workflow :=
  match m.workflows.lookup id with
  | none => .error Sentinel.notFound.err
  | some workflow => .ok workflow

/-- The step loop of `UpdateWorkflow`. -/
def mergeSteps : List WorkflowStep → List WorkflowStep → Except Err (List WorkflowStep)
  | existing :: rest, given :: rest' =>
      if existing.id ≠ given.id then
        .error (errorf "workflow step definition cannot change during execution")
      else
        match mergeSteps rest rest' with
        | .error err => .error err
        | .ok steps => .ok (existing.withState given :: steps)
  | _, _ => .ok []

def updateWorkflow (m : Memory) (workflow : Workflow) (expectedVersion : Int) :
    Except Err (Memory × Workflow) :=
  match m.workflows.lookup workflow.id with
  | none => .error Sentinel.notFound.err
  | some existing =>
      if expectedVersion < 1 ∨ existing.version ≠ expectedVersion then
        .error Sentinel.conflict.err
      else if existing.steps.length ≠ workflow.steps.length then
        .error (errorf "workflow definition cannot change during execution")
      else
        match mergeSteps existing.steps workflow.steps with
        | .error err => .error err
        | .ok steps =>
            let updated : Workflow := { existing with
              status := workflow.status, error := workflow.error
              startedAt := workflow.startedAt, completedAt := workflow.completedAt
              version := existing.version + 1, steps := steps }
            .ok ({ m with workflows := m.workflows.insert workflow.id updated }, updated)

def appendWorkflowEvent (m : Memory) (event : WorkflowEvent) (retention : Int)
    (maxPerWorkflow : Nat) (now : Time) : Except Err Memory :=
  match m.workflows.lookup event.workflowID with
  | none => .error Sentinel.notFound.err
  | some _ =>
      let events := Table.getD m.workflowEvents event.workflowID [] ++ [event]
      let events :=
        if 0 < retention then events.dropWhile fun e => e.timestamp < now - retention else events
      let events :=
        if 0 < maxPerWorkflow ∧ maxPerWorkflow < events.length then
          events.drop (events.length - maxPerWorkflow)
        else events
      .ok { m with workflowEvents := m.workflowEvents.insert event.workflowID events }

def listWorkflowEvents (m : Memory) (workflowID : String) (limit : Nat) :
    Except Err (List WorkflowEvent) :=
  match m.workflows.lookup workflowID with
  | none => .error Sentinel.notFound.err
  | some _ =>
      let events := Table.getD m.workflowEvents workflowID []
      .ok (if 0 < limit ∧ limit < events.length then events.drop (events.length - limit) else events)

/-! ### Approvals -/

/-- The approvals that `CreateApproval` keeps: those that expired before the cutoff go. -/
def pruneApprovals (m : Memory) (retention : Int) (now : Time) : Table Approval :=
  if 0 < retention then
    m.approvals.filter fun _ existing => ¬ existing.expiresAt < now - retention
  else m.approvals

def createApproval (m : Memory) (approval : Approval) (retention : Int) (now : Time) :
    Except Err (Memory × Approval) :=
  match m.approvals.lookup approval.id with
  | some _ => .error Sentinel.conflict.err
  | none =>
      .ok ({ m with
        approvals := (m.pruneApprovals retention now).insert approval.id approval }, approval)

def decideApproval (m : Memory) (id : String) (approve : Bool) (actor : String) (now : Time) :
    Except Err (Memory × Approval) :=
  match m.approvals.lookup id with
  | none => .error Sentinel.notFound.err
  | some approval =>
      if approval.Expired now then .error Sentinel.approvalExpired.err
      else if approval.status ≠ .pending then .error Sentinel.approvalNotPending.err
      else
        let approval := approval.decide approve actor now
        .ok ({ m with approvals := m.approvals.insert id approval }, approval)

def consumeApproval (m : Memory) (id serverID toolName argumentsHash : String) (now : Time) :
    Except Err (Memory × Approval) :=
  match m.approvals.lookup id with
  | none => .error Sentinel.notFound.err
  | some approval =>
      if approval.serverID ≠ serverID ∨ approval.toolName ≠ toolName
          ∨ approval.argumentsHash ≠ argumentsHash then
        .error Sentinel.approvalMismatch.err
      else if approval.Expired now then .error Sentinel.approvalExpired.err
      else if approval.status ≠ .approved then .error Sentinel.approvalNotApproved.err
      else
        let approval := approval.consume now
        .ok ({ m with approvals := m.approvals.insert id approval }, approval)

/-! ### What an operation does when it succeeds -/

section Spec

variable {m m' : Memory} {run run' : Run} {id key : String} {now : Time} {f minimum : Int}

theorem getRun_ok : m.getRun id = .ok run ↔ m.runs.lookup id = some run := by
  rw [getRun]
  rcases m.runs.lookup id with - | r <;> simp

theorem attachLineage_ok (h : m.attachLineage run = .ok run') :
    ∃ parent root, run' = { run with parentRunID := parent, rootRunID := root } := by
  rw [attachLineage] at h
  split at h
  · split at h
    · cases h
    · exact ⟨run.parentRunID, run.rootRunID, (Except.ok.inj h).symm⟩
  · split at h
    · cases h
    · split at h
      · cases h
      · rename_i attached hattach
        split at h
        · cases h
        · obtain rfl := Except.ok.inj h
          exact Run.attachTo_ok hattach

/-- A creation either finds its key bound and changes nothing, or stores the Run
under its ID with its lineage filled in. -/
theorem createRun_ok {isNew : Bool} (h : m.createRun run key = .ok (m', run', isNew)) :
    (isNew = false ∧ m' = m ∧ ∃ runID, key ≠ "" ∧ m.idempotencyKeys.lookup key = some runID ∧
        run' = Table.getD m.runs runID {}) ∨
      (isNew = true ∧ (key ≠ "" → m.idempotencyKeys.lookup key = none) ∧
        m' = m.storeRun run' key ∧
        ∃ parent root, run' = { run with parentRunID := parent, rootRunID := root }) := by
  rw [createRun] at h
  split at h
  · rename_i runID hkey
    simp only [Except.ok.injEq, Prod.mk.injEq] at h
    obtain ⟨rfl, rfl, rfl⟩ := h
    by_cases hk : key = ""
    · simp [hk] at hkey
    · exact .inl ⟨rfl, rfl, runID, hk, by simpa [hk] using hkey, rfl⟩
  · rename_i hkey
    split at h
    · cases h
    · rename_i attached hattach
      simp only [Except.ok.injEq, Prod.mk.injEq] at h
      obtain ⟨rfl, rfl, rfl⟩ := h
      exact .inr ⟨rfl, fun hk => by simpa [hk] using hkey, rfl, attachLineage_ok hattach⟩

/-- The stores differ in Runs, with their fences and keys, only. -/
structure OnlyRuns (m m' : Memory) : Prop where
  agents : m'.agents = m.agents
  workflows : m'.workflows = m.workflows
  workflowEvents : m'.workflowEvents = m.workflowEvents
  approvals : m'.approvals = m.approvals

theorem OnlyRuns.refl (m : Memory) : m.OnlyRuns m := ⟨rfl, rfl, rfl, rfl⟩

theorem createRun_onlyRuns {isNew : Bool} (h : m.createRun run key = .ok (m', run', isNew)) :
    m.OnlyRuns m' := by
  obtain ⟨-, rfl, -⟩ | ⟨-, -, rfl, -⟩ := createRun_ok h
  · exact .refl m'
  · exact ⟨rfl, rfl, rfl, rfl⟩

/-- A child is created as any other Run is. -/
theorem createChildRun_ok {maxChildren : Int} {isNew : Bool}
    (h : m.createChildRun run key maxChildren = .ok (m', run', isNew)) :
    m.createRun run key = .ok (m', run', isNew) := by
  rw [createChildRun] at h
  split at h
  · cases h
  · split at h
    · rename_i runID hkey
      rw [createRun, hkey]
      exact h
    · split at h
      · cases h
      · split at h
        · cases h
        · exact h

theorem storeRun_keys (m : Memory) (run : Run) (key key' : String) :
    (m.storeRun run key).idempotencyKeys.lookup key'
      = if key' = key ∧ key ≠ "" then some run.id else m.idempotencyKeys.lookup key' := by
  rw [storeRun]
  by_cases hempty : key = ""
  · simp [hempty]
  · simp only [ne_eq, hempty, not_false_eq_true, if_true, and_true, Table.lookup_insert_eq]

theorem updateRun_ok (h : m.updateRun run = .ok m') :
    ∃ existing, m.runs.lookup run.id = some existing ∧ existing.status ≠ .canceled ∧
      m.fence run.id = 0 ∧
      m' = { m with runs := m.runs.insert run.id (keepLineage existing run) } := by
  rw [updateRun] at h
  split at h
  · cases h
  · rename_i existing he
    split at h
    · cases h
    · split at h
      · cases h
      · exact ⟨existing, he, ‹_›, not_not.mp ‹_›, (Except.ok.inj h).symm⟩

theorem claimRunExecution_ok (h : m.claimRunExecution id minimum = .ok (m', f)) :
    ∃ existing, m.runs.lookup id = some existing ∧ existing.IsActive ∧
      f = nextFence (m.fence id) minimum ∧ m' = { m with runFences := m.runFences.insert id f } := by
  rw [claimRunExecution] at h
  split at h
  · cases h
  · rename_i existing he
    split at h
    · cases h
    · split at h
      · cases h
      · rename_i hs
        simp only [Except.ok.injEq, Prod.mk.injEq] at h
        obtain ⟨rfl, rfl⟩ := h
        exact ⟨existing, he, by simpa [Run.IsActive, or_iff_not_imp_left] using hs, rfl, rfl⟩

theorem updateRunFenced_ok (h : m.updateRunFenced run f = .ok m') :
    ∃ existing, m.runs.lookup run.id = some existing ∧ existing.status ≠ .canceled ∧
      0 < f ∧ m.fence run.id = f ∧
      m' = { m with runs := m.runs.insert run.id (keepLineage existing run) } := by
  rw [updateRunFenced] at h
  split at h
  · cases h
  · rename_i existing he
    split at h
    · cases h
    · split at h
      · cases h
      · rename_i hf
        rw [not_or, not_le, not_not] at hf
        exact ⟨existing, he, ‹_›, hf.1, hf.2, (Except.ok.inj h).symm⟩

theorem cancelRun_ok (h : m.cancelRun id now = .ok (m', run)) :
    ∃ existing, m.runs.lookup id = some existing ∧ existing.cancel now = .ok run ∧
      m' = { m with runs := m.runs.insert id run } := by
  rw [cancelRun] at h
  split at h
  · cases h
  · rename_i existing he
    split at h
    · cases h
    · rename_i canceled hc
      simp only [Except.ok.injEq, Prod.mk.injEq] at h
      obtain ⟨rfl, rfl⟩ := h
      exact ⟨existing, he, hc, rfl⟩

theorem recoverRun_ok {recovered : Bool} (h : m.recoverRun id minimum = .ok (m', recovered)) :
    (recovered = false ∧ m' = m) ∨
      (recovered = true ∧ ∃ existing, m.runs.lookup id = some existing ∧
        existing.status = .running ∧
        m' = { m with
          runFences := m.runFences.insert id (nextFence (m.fence id) minimum)
          runs := m.runs.insert id existing.requeue }) := by
  rw [recoverRun] at h
  split at h
  · cases h
  · rename_i existing he
    split at h
    · simp only [Except.ok.injEq, Prod.mk.injEq] at h
      exact .inl ⟨h.2.symm, h.1.symm⟩
    · simp only [Except.ok.injEq, Prod.mk.injEq] at h
      exact .inr ⟨h.2.symm, existing, he, not_not.mp ‹_›, h.1.symm⟩

theorem mem_listPendingRuns {pending : PendingRun} : pending ∈ m.listPendingRuns ↔
    ∃ run, m.runs.lookup pending.id = some run ∧ run.IsActive ∧ run.status = pending.status := by
  rw [listPendingRuns, List.mem_insertionSort, List.mem_filterMap]
  constructor
  · rintro ⟨⟨id, run⟩, hentry, hpending⟩
    split at hpending
    · obtain rfl := Option.some.inj hpending
      exact ⟨run, AList.mem_lookup_iff.mpr hentry, ‹_›, rfl⟩
    · cases hpending
  · rintro ⟨run, hlookup, hactive, hstatus⟩
    refine ⟨⟨pending.id, run⟩, AList.mem_lookup_iff.mp hlookup, ?_⟩
    simp only [hactive, if_true, hstatus]

theorem getAgent_ok {agent : Agent} :
    m.getAgent id = .ok agent ↔ m.agents.lookup id = some agent := by
  rw [getAgent]
  rcases m.agents.lookup id with - | a <;> simp

theorem createAgent_ok {absoluteURI : String → Bool} {agent created : Agent}
    (h : m.createAgent absoluteURI agent now = .ok (m', created)) :
    m.agents.lookup created.id = none ∧
      m' = { m with agents := m.agents.insert created.id created } := by
  rw [createAgent] at h
  split at h
  · cases h
  · split at h
    · cases h
    · rename_i habs
      obtain ⟨rfl, rfl⟩ := Prod.mk.inj (Except.ok.inj h)
      exact ⟨habs, rfl⟩

theorem updateAgent_ok {absoluteURI : String → Bool} {agent updated : Agent} {version : Int}
    (h : m.updateAgent absoluteURI agent version now = .ok (m', updated)) :
    m' = { m with agents := m.agents.insert updated.id updated } := by
  rw [updateAgent] at h
  split at h
  · cases h
  · split at h
    · cases h
    · split at h
      · cases h
      · obtain ⟨rfl, rfl⟩ := Prod.mk.inj (Except.ok.inj h)
        rfl

theorem deleteAgent_ok {version : Int} (h : m.deleteAgent id version = .ok m') :
    m.agentInUse id = false ∧ m' = { m with agents := m.agents.erase id } := by
  rw [deleteAgent] at h
  split at h
  · cases h
  · split at h
    · cases h
    · split at h
      · cases h
      · exact ⟨Bool.eq_false_iff.mpr ‹_›, (Except.ok.inj h).symm⟩

/-- An Agent that is not in use has no Run and no step of a Workflow. -/
theorem agentInUse_eq_false (h : m.agentInUse id = false) :
    (∀ runID run, m.runs.lookup runID = some run → run.agentID ≠ id) ∧
      ∀ workflowID w, m.workflows.lookup workflowID = some w →
        ∀ step ∈ w.steps, step.agentID ≠ id := by
  simp only [agentInUse, Bool.or_eq_false_iff, List.any_eq_false, decide_eq_true_eq] at h
  refine ⟨?_, ?_⟩
  · intro runID run hrun
    exact h.1 ⟨runID, run⟩ (AList.mem_lookup_iff.mp hrun)
  · intro workflowID w hw step hstep hid
    apply h.2 ⟨workflowID, w⟩ (AList.mem_lookup_iff.mp hw)
    exact List.any_eq_true.mpr ⟨step, hstep, decide_eq_true hid⟩

theorem getWorkflow_ok {w : Workflow} :
    m.getWorkflow id = .ok w ↔ m.workflows.lookup id = some w := by
  rw [getWorkflow]
  rcases m.workflows.lookup id with - | w' <;> simp

theorem createWorkflow_ok {w accepted : Workflow}
    (h : m.createWorkflow w now = .ok (m', accepted)) :
    w.initializeForCreate now = .ok accepted ∧ m.workflows.lookup accepted.id = none ∧
      m' = { m with workflows := m.workflows.insert accepted.id accepted } := by
  rw [createWorkflow] at h
  split at h
  · cases h
  · rename_i w' hw'
    split at h
    · cases h
    · rename_i habs
      split at h
      · cases h
      · simp only [Except.ok.injEq, Prod.mk.injEq] at h
        obtain ⟨rfl, rfl⟩ := h
        exact ⟨hw', habs, rfl⟩

theorem checkAgents_ok {steps : List WorkflowStep} (h : m.checkAgents steps = .ok ()) :
    ∀ step ∈ steps, ∃ agent, m.agents.lookup step.agentID = some agent := by
  induction steps with
  | nil => simp
  | cons step rest ih =>
      rw [checkAgents] at h
      split at h
      · cases h
      · rename_i agent hagent
        exact List.forall_mem_cons.mpr ⟨⟨agent, hagent⟩, ih h⟩

theorem createWorkflow_agents {w accepted : Workflow}
    (h : m.createWorkflow w now = .ok (m', accepted)) :
    ∀ step ∈ accepted.steps, ∃ agent, m.agents.lookup step.agentID = some agent := by
  rw [createWorkflow] at h
  split at h
  · cases h
  · split at h
    · cases h
    · split at h
      · cases h
      · rename_i hcheck
        obtain ⟨-, rfl⟩ := Prod.mk.inj (Except.ok.inj h)
        exact checkAgents_ok hcheck

/-- An accepted update carries the stored version, and copies the execution state
of the given Workflow into the stored definition. -/
theorem updateWorkflow_ok {w updated : Workflow} {version : Int}
    (h : m.updateWorkflow w version = .ok (m', updated)) :
    ∃ existing steps, m.workflows.lookup w.id = some existing ∧ existing.version = version ∧
      existing.steps.length = w.steps.length ∧ mergeSteps existing.steps w.steps = .ok steps ∧
      updated = { existing with
        status := w.status, error := w.error, startedAt := w.startedAt
        completedAt := w.completedAt, version := existing.version + 1, steps := steps } ∧
      m' = { m with workflows := m.workflows.insert w.id updated } := by
  rw [updateWorkflow] at h
  split at h
  · cases h
  · rename_i existing he
    split at h
    · cases h
    · rename_i hv
      split at h
      · cases h
      · rename_i hlen
        split at h
        · cases h
        · rename_i steps hsteps
          simp only [Except.ok.injEq, Prod.mk.injEq] at h
          obtain ⟨rfl, rfl⟩ := h
          rw [not_or, not_not] at hv
          exact ⟨existing, steps, he, hv.2, not_not.mp hlen, hsteps, rfl, rfl⟩

theorem appendWorkflowEvent_ok {event : WorkflowEvent} {retention : Int} {limit : Nat}
    (h : m.appendWorkflowEvent event retention limit now = .ok m') :
    ∃ events, m' = { m with workflowEvents := m.workflowEvents.insert event.workflowID events } := by
  rw [appendWorkflowEvent] at h
  split at h
  · cases h
  · exact ⟨_, (Except.ok.inj h).symm⟩

theorem createApproval_ok {approval created : Approval} {retention : Int}
    (h : m.createApproval approval retention now = .ok (m', created)) :
    m.approvals.lookup approval.id = none ∧ created = approval ∧
      m' = { m with
        approvals := (m.pruneApprovals retention now).insert approval.id approval } := by
  rw [createApproval] at h
  split at h
  · cases h
  · obtain ⟨rfl, rfl⟩ := Prod.mk.inj (Except.ok.inj h)
    exact ⟨‹_›, rfl, rfl⟩

theorem decideApproval_ok {approve : Bool} {actor : String} {decided : Approval}
    (h : m.decideApproval id approve actor now = .ok (m', decided)) :
    ∃ approval, m.approvals.lookup id = some approval ∧ approval.status = .pending ∧
      now < approval.expiresAt ∧ decided = approval.decide approve actor now ∧
      m' = { m with approvals := m.approvals.insert id decided } := by
  rw [decideApproval] at h
  split at h
  · cases h
  · rename_i approval hfound
    split at h
    · cases h
    · split at h
      · cases h
      · obtain ⟨rfl, rfl⟩ := Prod.mk.inj (Except.ok.inj h)
        exact ⟨approval, hfound, not_not.mp ‹_›, not_le.mp ‹_›, rfl, rfl⟩

theorem consumeApproval_ok {serverID toolName argumentsHash : String} {consumed : Approval}
    (h : m.consumeApproval id serverID toolName argumentsHash now = .ok (m', consumed)) :
    ∃ approval, m.approvals.lookup id = some approval ∧ approval.serverID = serverID ∧
      approval.toolName = toolName ∧ approval.argumentsHash = argumentsHash ∧
      approval.status = .approved ∧ now < approval.expiresAt ∧ consumed = approval.consume now ∧
      m' = { m with approvals := m.approvals.insert id consumed } := by
  rw [consumeApproval] at h
  split at h
  · cases h
  · rename_i approval hfound
    split at h
    · cases h
    · rename_i hmatch
      push Not at hmatch
      split at h
      · cases h
      · split at h
        · cases h
        · obtain ⟨rfl, rfl⟩ := Prod.mk.inj (Except.ok.inj h)
          exact ⟨approval, hfound, hmatch.1, hmatch.2.1, hmatch.2.2, not_not.mp ‹_›, not_le.mp ‹_›,
            rfl, rfl⟩

/-- Pruning only removes, and only what expired before the cutoff. -/
theorem lookup_pruneApprovals (m : Memory) (retention : Int) (now : Time) (id : String) :
    (m.pruneApprovals retention now).lookup id = m.approvals.lookup id ∨
      (m.pruneApprovals retention now).lookup id = none ∧
        ∃ approval, m.approvals.lookup id = some approval ∧ approval.expiresAt < now := by
  rw [pruneApprovals]
  split
  · rw [Table.lookup_filter]
    rcases m.approvals.lookup id with - | approval
    · exact .inl rfl
    · rw [Option.filter_some]
      split
      · exact .inl rfl
      · rename_i hold
        have hcut : approval.expiresAt + retention < now := by simpa using hold
        exact .inr ⟨rfl, approval, rfl, by linarith⟩
  · exact .inl rfl

/-! ### Fences -/

/-- Away from the end of the `int64` range a new fence exceeds the current one. -/
theorem lt_nextFence (h0 : 0 ≤ f) (hf : f < 2 ^ 63 - 1) (minimum : Int) :
    f < nextFence f minimum := by
  have hwrap : int64 (f + 1) = f + 1 := by
    rw [int64]
    apply Int.bmod_eq_of_le <;> norm_num <;> omega
  simp only [nextFence, hwrap]
  split <;> omega

@[simp] theorem fence_insert_self (m : Memory) (id : String) (f : Int) :
    fence { m with runFences := m.runFences.insert id f } id = f := by
  simp [fence]

end Spec

end Memory

end AgentMesh
