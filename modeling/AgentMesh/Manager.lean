/-
AgentMesh/Manager.lean

The workflow manager of `internal/workflow/manager.go`: `reconcile`,
`StartWorkflow` and `CancelWorkflow` as one state machine.

The first half are the pure functions of the source on a Workflow: the status
map, the conditions, readiness, the resolved input of a step, the cancellation
of what is not finished.  The second half are the control points of the three
calls.  `refreshSteps` reads the Run of every step with a store call of its
own, so its loop is unrolled into one action per step; all other work between
two store calls is local and belongs to the action that precedes it.

After a stored update a call emits events and cancels Runs one by one; these
are the `Task`s that it works off before it goes on.
-/
import AgentMesh.Engine

namespace AgentMesh

/-! ### Functions on a Workflow -/

/-- `findStep`. -/
def Workflow.findStep (w : Workflow) (id : String) : Option WorkflowStep :=
  w.steps.find? fun step => step.id = id

/-- A step that its dependents need not wait for. -/
def WorkflowStep.isComplete (step : WorkflowStep) : Bool :=
  step.status = .succeeded || step.status = .skipped

/-- A step whose Run is queued or running. -/
def WorkflowStep.isActive (step : WorkflowStep) : Bool :=
  step.status = .queued || step.status = .running

/-- `stepStatuses`. -/
def stepStatuses (w : Workflow) : Table WorkflowStepStatus :=
  w.steps.foldl (fun result step => result.insert step.id step.status) ∅

/-- The dependency loop of `readyStep` and `applyConditions`. -/
def dependenciesComplete (statuses : Table WorkflowStepStatus) (step : WorkflowStep) : Bool :=
  step.dependsOn.all fun dependency =>
    statuses.lookup dependency = some .succeeded || statuses.lookup dependency = some .skipped

def activeStepCount (w : Workflow) : Nat := w.steps.countP WorkflowStep.isActive

/-- `readyStep`: the index of the first pending step with complete dependencies. -/
def readyStep (w : Workflow) : Option Nat :=
  w.steps.findIdx? fun step => step.status = .pending && dependenciesComplete (stepStatuses w) step

def evaluateCondition (actual : String) (c : WorkflowCondition) : Bool :=
  if c.operator = workflowConditionEquals then actual = c.value
  else if c.operator = workflowConditionNotEquals then actual ≠ c.value
  else if c.operator = workflowConditionContains then contains actual c.value
  else if c.operator = workflowConditionNotContains then !contains actual c.value
  else false

/-- What a condition or an input source reads: the Workflow input, or the output
of a step. -/
def Workflow.sourceValue (w : Workflow) (source : String) : Option String :=
  if source = workflowInputSource then some w.input
  else (w.findStep source).map WorkflowStep.output

/-- `applyConditions` on the step at `index`. -/
def applyCondition (now : Time) (index : Nat)
    (acc : Workflow × Table WorkflowStepStatus × Bool) :
    Workflow × Table WorkflowStepStatus × Bool :=
  let (w, statuses, _) := acc
  match w.steps[index]? with
  | none => acc
  | some step =>
      match step.condition with
      | none => acc
      | some c =>
          if step.status ≠ .pending ∨ dependenciesComplete statuses step = false then acc
          else
            match w.sourceValue c.source with
            | none => acc
            | some actual =>
                if evaluateCondition actual c then acc
                else
                  ({ w with
                      steps := w.steps.set index
                        { step with status := .skipped, completedAt := some now } },
                    statuses.insert step.id .skipped, true)

/-- `applyConditions`: one pass in declaration order. -/
def applyConditions (w : Workflow) (now : Time) : Workflow × Bool :=
  let (w, _, changed) :=
    (List.range w.steps.length).foldl (fun acc index => applyCondition now index acc)
      (w, stepStatuses w, false)
  (w, changed)

/-- The dependency loop of `resolveInput`: the first Run among the dependencies. -/
def resolveParent (w : Workflow) (step : WorkflowStep) :
    String → List String → Except Err String
  | parentRunID, [] => .ok parentRunID
  | parentRunID, dependencyID :: rest =>
      match w.findStep dependencyID with
      | none => .error (errorf ("step " ++ step.id ++ " dependency is not complete"))
      | some dependency =>
          if dependency.isComplete = false then
            .error (errorf ("step " ++ step.id ++ " dependency is not complete"))
          else if parentRunID = "" ∧ dependency.runID ≠ "" then
            resolveParent w step dependency.runID rest
          else resolveParent w step parentRunID rest

/-- One round of the source loop of `resolveInput`. -/
def resolveSource (w : Workflow) (step : WorkflowStep) (sourceID : String) : Except Err String :=
  if sourceID = workflowInputSource then .ok w.input
  else
    match w.findStep sourceID with
    | none => .error (errorf
        ("step " ++ step.id ++ " input source " ++ sourceID ++ " is not complete"))
    | some source =>
        if source.isComplete = false then
          .error (errorf ("step " ++ step.id ++ " input source " ++ sourceID ++ " is not complete"))
        else .ok source.output

/-- The source loop of `resolveInput`. -/
def resolveValues (w : Workflow) (step : WorkflowStep) : List String → Except Err (List String)
  | [] => .ok []
  | sourceID :: rest =>
      match resolveSource w step sourceID with
      | .error err => .error err
      | .ok value =>
          match resolveValues w step rest with
          | .error err => .error err
          | .ok values => .ok (value :: values)

/-- The input of a step from the values of its sources. -/
def aggregate (step : WorkflowStep) : List String → Except Err String
  | [value] => .ok value
  | values =>
      if step.inputAggregation ≠ workflowInputJSONArray then
        .error (errorf ("step " ++ step.id ++ " requires json-array aggregation"))
      else .ok (jsonStrings values)

/-- `resolveInput`: the input of a step and its parent Run. -/
def resolveInput (w : Workflow) (step : WorkflowStep) : Except Err (String × String) :=
  match resolveParent w step "" step.dependsOn with
  | .error err => .error err
  | .ok parentRunID =>
      if step.inputFrom = [] then .ok (step.input, parentRunID)
      else
        match resolveValues w step step.inputFrom with
        | .error err => .error err
        | .ok values =>
            match aggregate step values with
            | .error err => .error err
            | .ok input => .ok (input, parentRunID)

/-- What `cancelNonterminalSteps` does to one step. -/
def WorkflowStep.cancelNonterminal (step : WorkflowStep) (at_ : Time) : WorkflowStep :=
  if step.status = .pending ∨ step.status = .queued ∨ step.status = .running then
    { step with status := .canceled, completedAt := some at_ }
  else step

def cancelNonterminalSteps (w : Workflow) (at_ : Time) : Workflow :=
  { w with steps := w.steps.map fun step => step.cancelNonterminal at_ }

/-- The `switch` of `refreshSteps`: a step after its Run was read. -/
def WorkflowStep.refresh (step : WorkflowStep) (run : Run) : WorkflowStep :=
  match run.status with
  | .queued => { step with status := .queued }
  | .running => { step with status := .running, startedAt := run.startedAt }
  | .succeeded =>
      { step with
        status := .succeeded, output := run.output, error := ""
        startedAt := run.startedAt, completedAt := run.completedAt }
  | .failed =>
      { step with
        status := .failed, error := run.error, output := ""
        startedAt := run.startedAt, completedAt := run.completedAt }
  | .canceled =>
      { step with
        status := .canceled, output := ""
        startedAt := run.startedAt, completedAt := run.completedAt }
  | .unset => step

/-- The end of `refreshSteps` at a failed or canceled step. -/
def Workflow.terminate (w : Workflow) (step : WorkflowStep) (now : Time) : Workflow :=
  cancelNonterminalSteps
    (if step.status = .failed then
      { w with
        status := .failed, error := "step " ++ step.id ++ " failed: " ++ step.error
        completedAt := some now }
    else { w with status := .canceled, completedAt := some now }) now

/-- The Workflow that `failWorkflow` stores. -/
def Workflow.failWith (w : Workflow) (cause : Err) (now : Time) : Workflow :=
  cancelNonterminalSteps
    { w with status := .failed, error := cause.text, completedAt := some now } now

/-- The idempotency key under which the Run of a step is created. -/
def stepKey (workflowID stepID : String) : String :=
  "workflow:" ++ workflowID ++ ":step:" ++ stepID

def workflowTerminalEvent : WorkflowStatus → String
  | .succeeded => "workflow.succeeded"
  | .canceled => "workflow.canceled"
  | _ => "workflow.failed"

/-! ### Control points -/

/-- What a call does one by one after a stored update. -/
inductive Task
  /-- `engine.Cancel`; its error is only logged. -/
  | cancelRun (runID : String)
  /-- `emit`; its error is only logged. -/
  | emit (workflowID stepID runID type message : String)
  deriving DecidableEq, Repr

def emitStepTransitions (w : Workflow) (previous : Table WorkflowStepStatus) : List Task :=
  (w.steps.filter fun step => previous.lookup step.id ≠ some step.status).map fun step =>
    .emit w.id step.id step.runID ("workflow.step_" ++ step.status.text)
      ("workflow step " ++ step.status.text)

def cancelCanceledStepRuns (w : Workflow) : List Task :=
  (w.steps.filter fun step => step.status = .canceled && step.runID ≠ "").map fun step =>
    .cancelRun step.runID

/-- The Runs that `CancelWorkflow` cancels. -/
def activeRunIDs (w : Workflow) : List String :=
  (w.steps.filter WorkflowStep.isActive).map WorkflowStep.runID

inductive ManagerPc
  | idle
  /-- `reconcile`: head of the loop, `ctx.Err()` and `GetWorkflow`. -/
  | load (id : String)
  /-- `refreshSteps` at the step `index`. -/
  | refresh (candidate : Workflow) (previous : Table WorkflowStepStatus) (index : Nat)
      (changed allSucceeded : Bool)
  /-- `UpdateWorkflow` with a terminal Workflow. -/
  | storeTerminal (candidate : Workflow) (previous : Table WorkflowStepStatus)
  /-- `UpdateWorkflow` after refreshed or skipped steps. -/
  | storeChanged (candidate : Workflow) (previous : Table WorkflowStepStatus)
  /-- `CreateRun` for the step `next`. -/
  | createRun (candidate : Workflow) (next : Nat) (input parentRunID : String)
  /-- `UpdateWorkflow` with the Run assigned to the step `next`. -/
  | assign (candidate : Workflow) (next : Nat) (created : Run)
  /-- The loop around `engine.Enqueue`. -/
  | enqueue (id : String) (created : Run)
  /-- `failWorkflow`. -/
  | fail (candidate : Workflow) (cause : Err)
  /-- `StartWorkflow`. -/
  | startLoad (id : String)
  | startStore (candidate : Workflow)
  /-- `CancelWorkflow`. -/
  | cancelLoad (id : String)
  | cancelStore (candidate : Workflow) (active : List String)
  | tasks (todo : List Task) (next : ManagerPc)
  | done (result : Option Err)

/-- One call into a manager: its concurrency limit, `engine.MaxAttempts()`, and
where it stands. -/
structure Manager where
  concurrency : Nat
  maxAttempts : Int
  pc : ManagerPc

structure ManagerOracle where
  now : Time := 0
  /-- The context is done at the head of the loop or in a wait. -/
  ctxDone : Bool := false
  /-- `newID` of a Run or of an event. -/
  newID : String := ""
  enqueue : Option Err := none
  /-- An error of `CreateRun` that does not come from the stored data: a lost
  connection, a context that is done. -/
  createRun : Option Err := none

/-- `eventRetention` (seven days) and `eventHistoryLimit`. -/
def eventRetention : Int := 7 * 24 * 3600 * 1000000000
def eventHistoryLimit : Nat := 1000

/-! ### The actions of a call -/

/-- `NewWithCoordinator` raises a limit below one. -/
def Manager.limit (c : Manager) : Nat := max 1 c.concurrency

/-- `reconcile` after a refresh without changes: conditions, concurrency,
readiness, input. -/
def Manager.schedule (c : Manager) (candidate : Workflow)
    (previous : Table WorkflowStepStatus) (now : Time) : ManagerPc :=
  if (applyConditions candidate now).2 then
    .storeChanged (applyConditions candidate now).1 previous
  -- wait for the next poll
  else if activeStepCount candidate ≥ c.limit then .load candidate.id
  else
    match readyStep candidate with
    | none =>
        if 0 < activeStepCount candidate then .load candidate.id
        else .fail candidate (errorf "no workflow step is ready")
    | some next =>
        match candidate.steps[next]? with
        | none => .load candidate.id
        | some step =>
            match resolveInput candidate step with
            | .error err => .fail candidate err
            | .ok (input, parentRunID) => .createRun candidate next input parentRunID

/-- The end of `refreshSteps` and what `reconcile` does with its result. -/
def Manager.refreshed (c : Manager) (candidate : Workflow)
    (previous : Table WorkflowStepStatus) (changed allSucceeded : Bool) (now : Time) : ManagerPc :=
  if allSucceeded then
    .storeTerminal { candidate with status := .succeeded, error := "", completedAt := some now }
      previous
  else if changed then .storeChanged candidate previous
  else c.schedule candidate previous now

/-- One round of the loop of `refreshSteps`. -/
def Manager.refreshStep (c : Manager) (candidate : Workflow)
    (previous : Table WorkflowStepStatus) (index : Nat) (changed allSucceeded : Bool)
    (now : Time) (m : Memory) : ManagerPc :=
  match candidate.steps[index]? with
  | none => c.refreshed candidate previous changed allSucceeded now
  | some step =>
      if step.status = .skipped then
        .refresh candidate previous (index + 1) changed allSucceeded
      else if step.runID = "" then .refresh candidate previous (index + 1) changed false
      else
        match m.getRun step.runID with
        | .error err => .done (some err)
        | .ok run =>
            let step' := step.refresh run
            let candidate := { candidate with steps := candidate.steps.set index step' }
            if step'.status = .failed ∨ step'.status = .canceled then
              .storeTerminal (candidate.terminate step' now) previous
            else
              .refresh candidate previous (index + 1) (changed || step.status ≠ step'.status)
                (allSucceeded && step'.isComplete)

/-- The Run that `reconcile` creates for a step. -/
def Manager.newRun (c : Manager) (candidate : Workflow) (step : WorkflowStep)
    (id input parentRunID : String) (now : Time) : Run :=
  { id := id, agentID := step.agentID, parentRunID := parentRunID, input := input
    status := .queued, maxAttempts := c.maxAttempts, requestID := "workflow:" ++ candidate.id
    createdAt := now }

/-- The candidate with a Run assigned to the step `next`. -/
def Workflow.assignRun (w : Workflow) (next : Nat) (runID : String) : Workflow :=
  { w with
    steps := w.steps.modify next fun step => { step with runID := runID, status := .queued } }

/-- The candidate that `CancelWorkflow` stores. -/
def Workflow.cancelAt (w : Workflow) (now : Time) : Workflow :=
  cancelNonterminalSteps { w with status := .canceled, completedAt := some now } now

/-- What one action of a call does to the shared state. -/
structure ManagerEffect where
  store : Memory
  /-- A Run that `engine.Cancel` has just canceled and not yet announced. -/
  canceled : Option Run := none
  /-- A Run created under a step key, if it is a new one. -/
  created : Option (String × Run) := none
  /-- A Run for which `engine.Cancel` is called. -/
  asked : Option String := none
  /-- An event that `emit` hands to the store. -/
  emitted : Option WorkflowEvent := none

/-- `CreateRun` for a step. -/
def createStepRun (o : ManagerOracle) (m : Memory) (run : Run) (key : String) :
    Except Err (Memory × Run × Bool) :=
  match o.createRun with
  | some err => .error err
  | none => m.createRun run key

/-- `UpdateWorkflow` inside `reconcile`: a conflict restarts the loop. -/
def reconcileUpdate (m : Memory) (candidate : Workflow) (next : Workflow → ManagerPc) :
    ManagerPc × ManagerEffect :=
  match m.updateWorkflow candidate candidate.version with
  | .error err =>
      if err.is .conflict then (.load candidate.id, { store := m })
      else (.done (some err), { store := m })
  | .ok (m', updated) => (next updated, { store := m' })

/-- The next action of a call, if it is not over. -/
def Manager.act (c : Manager) (o : ManagerOracle) (m : Memory) :
    Option (ManagerPc × ManagerEffect) :=
  match c.pc with
  | .idle => none
  | .load id =>
      if o.ctxDone then some (.done (some Sentinel.contextCanceled.err), { store := m })
      else
        match m.getWorkflow id with
        | .error err => some (.done (some err), { store := m })
        | .ok candidate =>
            if candidate.isTerminal then some (.done none, { store := m })
            else some (.refresh candidate (stepStatuses candidate) 0 false true, { store := m })
  | .refresh candidate previous index changed allSucceeded =>
      some (c.refreshStep candidate previous index changed allSucceeded o.now m, { store := m })
  | .storeTerminal candidate previous =>
      some (reconcileUpdate m candidate fun updated =>
        .tasks
          (cancelCanceledStepRuns updated ++ emitStepTransitions updated previous
            ++ [.emit candidate.id "" "" (workflowTerminalEvent candidate.status) candidate.error])
          (.done none))
  | .storeChanged candidate previous =>
      some (reconcileUpdate m candidate fun updated =>
        .tasks (emitStepTransitions updated previous) (.load candidate.id))
  | .createRun candidate next input parentRunID =>
      match candidate.steps[next]? with
      | none => none
      | some step =>
          -- a Run that the store already has under the key is taken as it is
          match createStepRun o m (c.newRun candidate step o.newID input parentRunID o.now)
              (stepKey candidate.id step.id) with
          | .error err =>
              some (.fail candidate (err.wrap ("create Run for step " ++ step.id ++ ": ")),
                { store := m })
          | .ok (m', created, isNew) =>
              some (.assign (candidate.assignRun next created.id) next created,
                { store := m'
                  created := if isNew then some (stepKey candidate.id step.id, created) else none })
  | .assign candidate next created =>
      -- after a conflict the loop starts over, and the Run stays as it was created
      some (reconcileUpdate m candidate fun updated =>
        .tasks
          (match updated.steps[next]? with
            | none => []
            | some step =>
                [.emit updated.id step.id step.runID "workflow.step_queued" "workflow step queued"])
          (.enqueue candidate.id created))
  | .enqueue id created =>
      match o.enqueue with
      | none => some (.load id, { store := m })
      -- a refused Run is offered to the queue again
      | some _ =>
          if o.ctxDone then some (.done (some Sentinel.contextCanceled.err), { store := m })
          else some (.enqueue id created, { store := m })
  | .fail candidate cause =>
      let failed := candidate.failWith cause o.now
      let next : ManagerPc :=
        .tasks [.emit failed.id "" "" "workflow.failed" failed.error] (.done (some cause))
      match m.updateWorkflow failed failed.version with
      | .error err =>
          -- a conflict is ignored, the event is emitted all the same
          if err.is .conflict then some (next, { store := m })
          else some (.done (some err), { store := m })
      | .ok (m', _) => some (next, { store := m' })
  | .startLoad id =>
      match m.getWorkflow id with
      | .error err => some (.done (some err), { store := m })
      | .ok candidate =>
          if candidate.status ≠ .pending then
            some (.done (some (errorf
              ("workflow cannot start from status " ++ candidate.status.text))), { store := m })
          else
            some (.startStore { candidate with status := .running, startedAt := some o.now },
              { store := m })
  | .startStore candidate =>
      match m.updateWorkflow candidate candidate.version with
      | .error err => some (.done (some err), { store := m })
      | .ok (m', updated) =>
          some (.tasks [.emit updated.id "" "" "workflow.started" "workflow execution started"]
            (.done none), { store := m' })
  | .cancelLoad id =>
      match m.getWorkflow id with
      | .error err => some (.done (some err), { store := m })
      | .ok candidate =>
          if candidate.status ≠ .pending ∧ candidate.status ≠ .running then
            some (.done (some (Sentinel.workflowNotCancelable.errWith
              (" from status " ++ candidate.status.text))), { store := m })
          else
            some (.cancelStore (candidate.cancelAt o.now) (activeRunIDs candidate), { store := m })
  | .cancelStore candidate active =>
      match m.updateWorkflow candidate candidate.version with
      | .error err => some (.done (some err), { store := m })
      | .ok (m', updated) =>
          some (.tasks
            (active.map Task.cancelRun
              ++ [.emit updated.id "" "" "workflow.canceled" "workflow canceled"])
            (.done none), { store := m' })
  | .tasks [] next => some (next, { store := m })
  | .tasks (.cancelRun runID :: rest) next =>
      match m.cancelRun runID o.now with
      -- a failed cancellation is at most logged
      | .error _ => some (.tasks rest next, { store := m, asked := some runID })
      | .ok (m', run) =>
          some (.tasks rest next, { store := m', canceled := some run, asked := some runID })
  | .tasks (.emit workflowID stepID runID type message :: rest) next =>
      let event : WorkflowEvent :=
        { id := o.newID, workflowID := workflowID, stepID := stepID, runID := runID
          type := type, message := message, timestamp := o.now }
      match m.appendWorkflowEvent event eventRetention eventHistoryLimit o.now with
      | .error _ => some (.tasks rest next, { store := m, emitted := some event })
      | .ok m' => some (.tasks rest next, { store := m', emitted := some event })
  | .done _ => none

end AgentMesh
