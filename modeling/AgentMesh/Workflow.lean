/-
AgentMesh/Workflow.lean

Workflow definitions: the records of `internal/domain/workflow.go`, their
normalisation and validation (`InitializeForCreate`), and the cycle check.

`InitializeForCreate` and `validateStep` write through pointers into the
Workflow they check; here they return the changed Workflow.  The loop of
`validateWorkflowDAG` runs on fuel: an index enters the queue when its degree
is zero at the start or reaches zero by a decrement, and degrees only
decrease, so it enters at most once and `len(steps)` rounds empty the queue.
-/
import AgentMesh.Table
import AgentMesh.Text
import AgentMesh.Run

namespace AgentMesh

/-! ### Records -/

inductive WorkflowStatus
  | pending
  | running
  | succeeded
  | failed
  | canceled
  deriving DecidableEq, Repr, Inhabited

def WorkflowStatus.text : WorkflowStatus → String
  | .pending => "pending"
  | .running => "running"
  | .succeeded => "succeeded"
  | .failed => "failed"
  | .canceled => "canceled"

inductive WorkflowStepStatus
  | pending
  | queued
  | running
  | succeeded
  | skipped
  | failed
  | canceled
  deriving DecidableEq, Repr, Inhabited

def WorkflowStepStatus.text : WorkflowStepStatus → String
  | .pending => "pending"
  | .queued => "queued"
  | .running => "running"
  | .succeeded => "succeeded"
  | .skipped => "skipped"
  | .failed => "failed"
  | .canceled => "canceled"

structure WorkflowCondition where
  source : String
  operator : String
  value : String
  deriving DecidableEq, Repr

structure WorkflowStep where
  id : String
  workflowID : String := ""
  agentID : String
  input : String := ""
  inputFrom : List String := []
  inputAggregation : String := ""
  dependsOn : List String := []
  condition : Option WorkflowCondition := none
  status : WorkflowStepStatus := .pending
  runID : String := ""
  output : String := ""
  error : String := ""
  createdAt : Time := 0
  startedAt : Option Time := none
  completedAt : Option Time := none
  deriving DecidableEq, Repr

structure Workflow where
  id : String
  input : String := ""
  status : WorkflowStatus := .pending
  steps : List WorkflowStep
  error : String := ""
  version : Int := 0
  createdAt : Time := 0
  startedAt : Option Time := none
  completedAt : Option Time := none
  deriving DecidableEq, Repr

def Workflow.isTerminal (w : Workflow) : Bool :=
  w.status = .succeeded || w.status = .failed || w.status = .canceled

/-- The reserved source name that stands for the Workflow's own input. -/
def workflowInputSource : String := "workflow"
def workflowInputSingle : String := "single"
def workflowInputJSONArray : String := "json-array"
def maxWorkflowSteps : Nat := 100
def workflowConditionEquals : String := "equals"
def workflowConditionNotEquals : String := "not-equals"
def workflowConditionContains : String := "contains"
def workflowConditionNotContains : String := "not-contains"

/-! ### Normalisation -/

def isStepIDStart (c : Char) : Bool :=
  ('a' ≤ c && c ≤ 'z') || ('0' ≤ c && c ≤ '9')

def isStepIDChar (c : Char) : Bool :=
  isStepIDStart c || c == '.' || c == '_' || c == '-'

/-- `workflowStepIDPattern`: `^[a-z0-9][a-z0-9._-]{0,63}$`. -/
def matchesStepIDPattern (s : String) : Bool :=
  match s.toList with
  | [] => false
  | c :: cs => isStepIDStart c && decide (cs.length ≤ 63) && cs.all isStepIDChar

/-- Trim, lower-case, drop blanks and repetitions, keep the order. -/
def normalizeWorkflowRefs (values : List String) : List String :=
  values.foldl
    (fun result value =>
      let value := toLower (trimSpace value)
      if value = "" ∨ value ∈ result then result else result ++ [value])
    []

def WorkflowCondition.normalize (c : WorkflowCondition) : WorkflowCondition :=
  { c with source := toLower (trimSpace c.source), operator := toLower (trimSpace c.operator) }

/-- The assignments that `InitializeForCreate` makes to one step. -/
def WorkflowStep.normalize (step : WorkflowStep) (workflowID : String) (at_ : Time) :
    WorkflowStep :=
  { id := toLower (trimSpace step.id)
    agentID := trimSpace step.agentID
    workflowID := workflowID
    input := step.input
    inputFrom := normalizeWorkflowRefs step.inputFrom
    inputAggregation := toLower (trimSpace step.inputAggregation)
    dependsOn := normalizeWorkflowRefs step.dependsOn
    condition := step.condition.map WorkflowCondition.normalize
    status := .pending, runID := "", output := "", error := ""
    createdAt := at_, startedAt := none, completedAt := none }

/-- The first loop of `InitializeForCreate`: normalise the steps from `index` on,
and collect the index of every step ID. -/
def initializeSteps (workflowID : String) (at_ : Time) :
    Nat → Table Nat → List WorkflowStep → Except Err (List WorkflowStep × Table Nat)
  | _, ids, [] => .ok ([], ids)
  | index, ids, step :: rest =>
      let step := step.normalize workflowID at_
      if matchesStepIDPattern step.id = false then
        .error (errorf ("step " ++ toString index ++ " has invalid id " ++ quoted step.id))
      else if (ids.lookup step.id).isSome then
        .error (errorf ("duplicate workflow step id " ++ quoted step.id))
      else if step.agentID = "" then
        .error (errorf ("step " ++ quoted step.id ++ " requires agent_id"))
      else
        match initializeSteps workflowID at_ (index + 1) (ids.insert step.id index) rest with
        | .error err => .error err
        | .ok (steps, ids) => .ok (step :: steps, ids)

/-! ### Validation of one step -/

/-- The first loop of `validateStep`. -/
def validateDependencies (ids : Table Nat) (step : WorkflowStep) : List String → Except Err Unit
  | [] => .ok ()
  | dependency :: rest =>
      if dependency = step.id then
        .error (errorf ("step " ++ quoted step.id ++ " cannot depend on itself"))
      else if (ids.lookup dependency).isNone then
        .error (errorf
          ("step " ++ quoted step.id ++ " depends on unknown step " ++ quoted dependency))
      else validateDependencies ids step rest

def isConditionOperator (operator : String) : Bool :=
  operator = workflowConditionEquals || operator = workflowConditionNotEquals
    || operator = workflowConditionContains || operator = workflowConditionNotContains

def validateCondition (ids : Table Nat) (step : WorkflowStep) (c : WorkflowCondition) :
    Except Err Unit :=
  if c.source = "" then
    .error (errorf ("step " ++ quoted step.id ++ " condition requires source"))
  else if c.source ≠ workflowInputSource ∧ (ids.lookup c.source).isNone then
    .error (errorf
      ("step " ++ quoted step.id ++ " condition has unknown source " ++ quoted c.source))
  else if c.source ≠ workflowInputSource ∧ c.source ∉ step.dependsOn then
    .error (errorf ("step " ++ quoted step.id ++ " condition source " ++ quoted c.source
      ++ " must be a dependency"))
  else if isConditionOperator c.operator = false then
    .error (errorf ("step " ++ quoted step.id ++ " has unsupported condition operator "
      ++ quoted c.operator))
  else .ok ()

/-- The loop of `validateStep` over the input sources. -/
def validateInputFrom (ids : Table Nat) (workflowInput : String) (step : WorkflowStep) :
    List String → Except Err Unit
  | [] => .ok ()
  | source :: rest =>
      if source = workflowInputSource then
        if trimSpace workflowInput = "" then
          .error (errorf ("step " ++ quoted step.id ++ " references empty workflow input"))
        else validateInputFrom ids workflowInput step rest
      else if (ids.lookup source).isNone then
        .error (errorf
          ("step " ++ quoted step.id ++ " has unknown input source " ++ quoted source))
      else if source ∉ step.dependsOn then
        .error (errorf ("step " ++ quoted step.id ++ " input source " ++ quoted source
          ++ " must be a dependency"))
      else validateInputFrom ids workflowInput step rest

/-- The end of `validateStep`: input and aggregation.  A single source without an
aggregation gets the default one. -/
def validateInput (ids : Table Nat) (workflowInput : String) (step : WorkflowStep) :
    Except Err WorkflowStep :=
  if step.inputFrom = [] then
    if trimSpace step.input = "" then
      .error (errorf ("step " ++ quoted step.id ++ " requires input or input_from"))
    else if step.inputAggregation ≠ "" then
      .error (errorf ("step " ++ quoted step.id ++ " cannot aggregate literal input"))
    else .ok step
  else if trimSpace step.input ≠ "" then
    .error (errorf ("step " ++ quoted step.id ++ " cannot declare both input and input_from"))
  else
    match validateInputFrom ids workflowInput step step.inputFrom with
    | .error err => .error err
    | .ok () =>
        if step.inputFrom.length = 1 then
          if step.inputAggregation = "" then
            .ok { step with inputAggregation := workflowInputSingle }
          else if step.inputAggregation ≠ workflowInputSingle then
            .error (errorf ("step " ++ quoted step.id ++ " requires single input aggregation"))
          else .ok step
        else if step.inputAggregation ≠ workflowInputJSONArray then
          .error (errorf ("step " ++ quoted step.id
            ++ " with multiple input sources requires json-array aggregation"))
        else .ok step

def validateStep (ids : Table Nat) (workflowInput : String) (step : WorkflowStep) :
    Except Err WorkflowStep :=
  match validateDependencies ids step step.dependsOn with
  | .error err => .error err
  | .ok () =>
      match step.condition with
      | none => validateInput ids workflowInput step
      | some c =>
          match validateCondition ids step c with
          | .error err => .error err
          | .ok () => validateInput ids workflowInput step

/-- The second loop of `InitializeForCreate`. -/
def validateSteps (ids : Table Nat) (workflowInput : String) :
    List WorkflowStep → Except Err (List WorkflowStep)
  | [] => .ok []
  | step :: rest =>
      match validateStep ids workflowInput step with
      | .error err => .error err
      | .ok step =>
          match validateSteps ids workflowInput rest with
          | .error err => .error err
          | .ok steps => .ok (step :: steps)

/-! ### The cycle check -/

/-- `dependents`: for every step the indices of the steps that depend on it. -/
def dependentsOf (ids : Table Nat) (steps : List WorkflowStep) : List (List Nat) :=
  steps.zipIdx.foldl
    (fun dependents (step, index) =>
      step.dependsOn.foldl
        (fun dependents dependency => dependents.modify (ids.getD dependency 0) (· ++ [index]))
        dependents)
    (List.replicate steps.length [])

/-- Visiting one step: every dependent loses a degree, and is queued at zero. -/
def relax (indegree : List Int) (queue : List Nat) : List Nat → List Int × List Nat
  | [] => (indegree, queue)
  | dependent :: rest =>
      let indegree := indegree.modify dependent (· - 1)
      if indegree[dependent]? = some 0 then relax indegree (queue ++ [dependent]) rest
      else relax indegree queue rest

/-- The queue loop: the number of steps visited. -/
def visitSteps (dependents : List (List Nat)) :
    Nat → List Int → List Nat → Nat → Nat
  | 0, _, _, visited => visited
  | _, _, [], visited => visited
  | fuel + 1, indegree, current :: queue, visited =>
      let (indegree, queue) := relax indegree queue (dependents.getD current [])
      visitSteps dependents fuel indegree queue (visited + 1)

def validateWorkflowDAG (steps : List WorkflowStep) (ids : Table Nat) : Except Err Unit :=
  let indegree := steps.map fun step => (step.dependsOn.length : Int)
  let queue := (List.range steps.length).filter fun index => indegree[index]? = some 0
  let visited := visitSteps (dependentsOf ids steps) steps.length indegree queue 0
  if visited ≠ steps.length then .error (errorf "workflow dependencies contain a cycle")
  else .ok ()

/-! ### Initialisation -/

def Workflow.initializeForCreate (w : Workflow) (at_ : Time) : Except Err Workflow :=
  let id := trimSpace w.id
  if id = "" then .error (errorf "workflow id is required")
  else if w.steps = [] then .error (errorf "workflow must contain at least one step")
  else if maxWorkflowSteps < w.steps.length then
    .error (errorf ("workflow cannot contain more than " ++ toString maxWorkflowSteps ++ " steps"))
  else
    match initializeSteps id at_ 0 ∅ w.steps with
    | .error err => .error err
    | .ok (steps, ids) =>
        match validateSteps ids w.input steps with
        | .error err => .error err
        | .ok steps =>
            match validateWorkflowDAG steps ids with
            | .error err => .error err
            | .ok () =>
                .ok { id := id, input := w.input, status := .pending, steps := steps, error := ""
                      version := 1, createdAt := at_, startedAt := none, completedAt := none }

end AgentMesh
