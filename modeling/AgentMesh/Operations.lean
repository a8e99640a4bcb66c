/-
AgentMesh/Operations.lean

The methods of the `Repository` interface on Runs and Agents as values, and what
the Memory store answers to them.

`Memory.perform` applies a method that works on one Run, `Memory.performAgent`
one that works on one Agent, and `Memory.read` one that only reads.  A method
that fails leaves the store as it is.  `RunOp.Effect` says what a method can do
to the stored Runs: nothing, replace one of them, or create one.
-/
import AgentMesh.Memory

namespace AgentMesh

/-! ### Runs -/

/-- The methods of the repository on one Run. -/
inductive RunOp
  | getRun (id : String)
  | createRun (run : Run) (idempotencyKey : String)
  | createChildRun (run : Run) (idempotencyKey : String) (maxChildren : Int)
  | updateRun (run : Run)
  | claimRunExecution (id : String) (minimumFence : Int)
  | updateRunFenced (run : Run) (fence : Int)
  | cancelRun (id : String) (at_ : Time)
  | recoverRun (id : String) (minimumFence : Int)

/-- What a method returns. -/
inductive OpResult
  | got (result : Except Err Run)
  | created (result : Except Err (Run × Bool))
  | updated (err : Option Err)
  | claimed (result : Except Err Int)
  | canceled (run : Run) (err : Option Err)
  | recovered (result : Except Err Bool)

namespace Memory

/-- The answer to `CreateRun` and `CreateChildRun`. -/
def createdOr (m : Memory) : Except Err (Memory × Run × Bool) → Memory × OpResult
  | .error err => (m, .created (.error err))
  | .ok (m', run, isNew) => (m', .created (.ok (run, isNew)))

/-- The answer to `UpdateRun` and `UpdateRunFenced`. -/
def updatedOr (m : Memory) : Except Err Memory → Memory × OpResult
  | .error err => (m, .updated (some err))
  | .ok m' => (m', .updated none)

/-- The answer to a method.  With an error `CancelRun` returns the Run that the store has, or
the zero Run. -/
def perform (m : Memory) : RunOp → Memory × OpResult
  | .getRun id => (m, .got (m.getRun id))
  | .createRun run key => m.createdOr (m.createRun run key)
  | .createChildRun run key maxChildren => m.createdOr (m.createChildRun run key maxChildren)
  | .updateRun run => m.updatedOr (m.updateRun run)
  | .claimRunExecution id minimumFence =>
      match m.claimRunExecution id minimumFence with
      | .error err => (m, .claimed (.error err))
      | .ok (m', fence) => (m', .claimed (.ok fence))
  | .updateRunFenced run fence => m.updatedOr (m.updateRunFenced run fence)
  | .cancelRun id at_ =>
      match m.cancelRun id at_ with
      | .error err => (m, .canceled (Table.getD m.runs id {}) (some err))
      | .ok (m', run) => (m', .canceled run none)
  | .recoverRun id minimumFence =>
      match m.recoverRun id minimumFence with
      | .error err => (m, .recovered (.error err))
      | .ok (m', recovered) => (m', .recovered (.ok recovered))

end Memory

/-- The Run and the key that a method asks to create. -/
def RunOp.creates : RunOp → Option (Run × String)
  | .createRun run key | .createChildRun run key _ => some (run, key)
  | _ => none

/-- The Run that a key is bound to; the empty key is none. -/
def Memory.boundTo (m : Memory) (key : String) : Option String :=
  if key ≠ "" then m.idempotencyKeys.lookup key else none

/-- What a method does to the stored Runs and to the keys. -/
inductive RunOp.Effect (op : RunOp) (m : Memory) : Memory → Prop
  | keep {m' : Memory} (runs : m'.runs = m.runs)
      (keys : m'.idempotencyKeys = m.idempotencyKeys) : Effect op m m'
  /-- A stored Run is replaced; its lineage is kept. -/
  | put {m' : Memory} {id : String} {existing run : Run} (hrun : m.runs.lookup id = some existing)
      (runs : m'.runs = m.runs.insert id run) (keys : m'.idempotencyKeys = m.idempotencyKeys)
      (named : run.id = id ∨ run.id = existing.id)
      (parentRunID : run.parentRunID = existing.parentRunID)
      (rootRunID : run.rootRunID = existing.rootRunID) : Effect op m m'
  | create {m' : Memory} {run attached : Run} {key : String} (hop : op.creates = some (run, key))
      (unbound : m.boundTo key = none) (attach : m.attachLineage run = .ok attached)
      (store : m' = m.storeRun attached key) : Effect op m m'

section Effect

variable {m m' : Memory} {run run' : Run} {key : String} {op : RunOp} {isNew : Bool}

/-- A creation answers with the Run that its key is bound to, or creates one. -/
theorem Memory.createRun_cases (h : m.createRun run key = .ok (m', run', isNew)) :
    (∃ runID, m.boundTo key = some runID ∧ m' = m ∧ run' = Table.getD m.runs runID {} ∧
        isNew = false) ∨
      m.boundTo key = none ∧ m.attachLineage run = .ok run' ∧ m' = m.storeRun run' key ∧
        isNew = true := by
  rw [Memory.createRun] at h
  split at h
  · rename_i runID hbound
    simp only [Except.ok.injEq, Prod.mk.injEq] at h
    exact .inl ⟨runID, hbound, h.1.symm, h.2.1.symm, h.2.2.symm⟩
  · rename_i hbound
    split at h
    · cases h
    · rename_i attached hattach
      simp only [Except.ok.injEq, Prod.mk.injEq] at h
      obtain ⟨rfl, rfl, rfl⟩ := h
      exact .inr ⟨hbound, hattach, rfl, rfl⟩

theorem RunOp.Effect.of_createRun (hop : op.creates = some (run, key))
    (h : m.createRun run key = .ok (m', run', isNew)) : op.Effect m m' := by
  obtain ⟨-, -, rfl, -⟩ | ⟨hbound, hattach, hstore, -⟩ := Memory.createRun_cases h
  · exact .keep rfl rfl
  · exact .create hop hbound hattach hstore

theorem Memory.perform_effect (m : Memory) (op : RunOp) : op.Effect m (m.perform op).1 := by
  cases op with
  | getRun id => exact .keep rfl rfl
  | createRun run key =>
      rw [Memory.perform]
      rcases h : m.createRun run key with err | ⟨m', created, isNew⟩
      · exact .keep rfl rfl
      · exact .of_createRun rfl h
  | createChildRun run key maxChildren =>
      rw [Memory.perform]
      rcases h : m.createChildRun run key maxChildren with err | ⟨m', created, isNew⟩
      · exact .keep rfl rfl
      · exact .of_createRun rfl (Memory.createChildRun_ok h)
  | updateRun run =>
      rw [Memory.perform]
      rcases h : m.updateRun run with err | m'
      · exact .keep rfl rfl
      · obtain ⟨existing, hrun, -, -, rfl⟩ := Memory.updateRun_ok h
        exact .put hrun rfl rfl (.inl rfl) rfl rfl
  | claimRunExecution id minimumFence =>
      rw [Memory.perform]
      rcases h : m.claimRunExecution id minimumFence with err | ⟨m', fence⟩
      · exact .keep rfl rfl
      · obtain ⟨-, -, -, -, rfl⟩ := Memory.claimRunExecution_ok h
        exact .keep rfl rfl
  | updateRunFenced run fence =>
      rw [Memory.perform]
      rcases h : m.updateRunFenced run fence with err | m'
      · exact .keep rfl rfl
      · obtain ⟨existing, hrun, -, -, -, rfl⟩ := Memory.updateRunFenced_ok h
        exact .put hrun rfl rfl (.inl rfl) rfl rfl
  | cancelRun id at_ =>
      rw [Memory.perform]
      rcases h : m.cancelRun id at_ with err | ⟨m', run⟩
      · exact .keep rfl rfl
      · obtain ⟨existing, hrun, hcancel, rfl⟩ := Memory.cancelRun_ok h
        obtain ⟨-, rfl⟩ := Run.cancel_ok hcancel
        exact .put hrun rfl rfl (.inr rfl) rfl rfl
  | recoverRun id minimumFence =>
      rw [Memory.perform]
      rcases h : m.recoverRun id minimumFence with err | ⟨m', recovered⟩
      · exact .keep rfl rfl
      · rcases Memory.recoverRun_ok h with ⟨-, rfl⟩ | ⟨-, existing, hrun, -, rfl⟩
        · exact .keep rfl rfl
        · exact .put hrun rfl rfl (.inr rfl) rfl rfl

end Effect

/-! ### Agents -/

/-- The methods of the repository on one Agent. -/
inductive AgentOp
  | createAgent (agent : Agent) (now : Time)
  | getAgent (id : String)
  | updateAgent (agent : Agent) (expectedVersion : Int) (now : Time)
  | deleteAgent (id : String) (expectedVersion : Int)

inductive AgentResult
  | agent (result : Except Err Agent)
  | deleted (err : Option Err)

/-- The answer to `CreateAgent` and `UpdateAgent`. -/
def Memory.agentOr (m : Memory) : Except Err (Memory × Agent) → Memory × AgentResult
  | .error err => (m, .agent (.error err))
  | .ok (m', agent) => (m', .agent (.ok agent))

def Memory.performAgent (absoluteURI : String → Bool) (m : Memory) : AgentOp → Memory × AgentResult
  | .createAgent agent now => m.agentOr (m.createAgent absoluteURI agent now)
  | .getAgent id => (m, .agent (m.getAgent id))
  | .updateAgent agent expectedVersion now =>
      m.agentOr (m.updateAgent absoluteURI agent expectedVersion now)
  | .deleteAgent id expectedVersion =>
      match m.deleteAgent id expectedVersion with
      | .error err => (m, .deleted (some err))
      | .ok m' => (m', .deleted none)

/-! ### Reads -/

/-- The methods that look a Run up by its key or list Runs or Agents. -/
inductive ReadOp
  | listAgents
  | listAgentsByCapability (capability : String)
  | findAgents (filter : AgentFilter)
  | getRunByIdempotencyKey (key : String)
  | listRuns
  | listChildRuns (parentRunID : String)
  | countActiveRunsByAgent (agentIDs : List String)
  | listPendingRuns

inductive ReadResult
  | agents (result : Except Err (List Agent))
  | run (result : Except Err Run)
  | runs (result : Except Err (List Run))
  | counts (result : List (String × Nat))
  | pending (result : List PendingRun)

def Memory.read (m : Memory) : ReadOp → ReadResult
  | .listAgents => .agents m.listAgents
  | .listAgentsByCapability capability => .agents (m.listAgentsByCapability capability)
  | .findAgents filter => .agents (m.findAgents filter)
  | .getRunByIdempotencyKey key => .run (m.getRunByIdempotencyKey key)
  | .listRuns => .runs (.ok m.listRuns)
  | .listChildRuns parentRunID => .runs (m.listChildRuns parentRunID)
  | .countActiveRunsByAgent agentIDs => .counts (m.countActiveRunsByAgent agentIDs)
  | .listPendingRuns => .pending m.listPendingRuns

/-! ### The store as a machine -/

inductive StoreAction
  | run (op : RunOp)
  /-- An operation on Agents, Workflows or approvals. -/
  | other (agents : Table Agent) (workflows : Table Workflow)
      (workflowEvents : Table (List WorkflowEvent)) (approvals : Table Approval)

def storeStep (m : Memory) : StoreAction → Option Memory
  | .run op => some (m.perform op).1
  | .other agents workflows workflowEvents approvals =>
      some { m with
        agents := agents, workflows := workflows, workflowEvents := workflowEvents
        approvals := approvals }

end AgentMesh
