/-
AgentMesh/Mesh.lean

The whole system: any number of `execute` calls, of requests that create Runs
and of workflow manager calls, on any number of replicas, over one store.

A state holds the store, the published events, the dead letters and where each
call stands; an action lets one call take its next step, or starts a call, or
is something that the environment does (a shutdown, a failed lease renewal, a
cancellation that is observed).  Calls are numbered and independent, so every
interleaving is a run of this machine.  Leases are not trusted: any delivery
may be granted one, with any fencing token, at any time, and any manager may
reconcile any started Workflow.

Five lists of the state are history that no call reads: the Runs for which a
runtime was invoked, the Runs recovered, the keys under which Runs were
created, the Runs that managers asked the engine to cancel, and the events that
managers emitted.

Two promises of the environment are built into `step`.  A fence is issued only
below the end of the `int64` range.  A generated Run ID is not empty and not
taken.
-/
import AgentMesh.Machine
import AgentMesh.Submit
import AgentMesh.Manager

namespace AgentMesh

/-! ### States -/

structure State where
  store : Memory := {}
  events : List RunEvent := []
  deadLetters : List String := []
  /-- Runs that `Engine.Cancel` has stored as canceled and not yet announced. -/
  canceling : List Run := []
  workers : Nat → Worker := fun _ => { engine := ⟨1, "30s", []⟩, runID := "", pc := .idle }
  submits : Nat → Submit := fun _ => ⟨1, "", .idle⟩
  managers : Nat → Manager := fun _ => ⟨1, 1, .idle⟩
  /-- IDs of the Runs for which a runtime was invoked. -/
  invocations : List String := []
  /-- IDs of the Runs that `RecoverRun` has put back into the queue. -/
  recoveries : List String := []
  /-- The idempotency key and the ID of every Run ever created. -/
  creations : List (String × String) := []
  /-- The Runs for which a manager has called `engine.Cancel`. -/
  asked : List String := []
  /-- The events that managers have emitted, in order. -/
  emitted : List WorkflowEvent := []

/-! ### Actions -/

/-- What a manager call is started with. -/
structure ManagerConfig where
  concurrency : Nat
  maxAttempts : Int
  deriving DecidableEq, Repr

inductive Action
  /-- Agents are registered, updated or removed. -/
  | registry (agents : Table Agent)
  /-- The queue delivers a Run to a worker. -/
  | deliver (w : Nat) (engine : Engine) (runID : String)
  /-- A call of `execute` takes its next action. -/
  | work (w : Nat) (o : Oracle)
  /-- The parent context of a call of `execute` is canceled. -/
  | shutdown (w : Nat)
  /-- `runCtx` follows its parent context. -/
  | propagate (w : Nat)
  /-- The lease keeper fails to renew and records its error. -/
  | renewalFails (w : Nat) (err : Err)
  /-- The lease keeper cancels `runCtx` after a failed renewal. -/
  | keeperCancels (w : Nat)
  /-- `runCtx` is canceled because the Run was: by `Engine.Cancel`, or by
  `watchCancellation` after an event or a poll of the store. -/
  | observesCancel (w : Nat)
  /-- `Engine.Cancel` stores the cancellation. -/
  | cancelRun (id : String) (now : Time)
  /-- `Engine.Cancel` publishes it. -/
  | announceCanceled (index : Nat)
  /-- `Engine.Recover` calls `RecoverRun`. -/
  | recoverRun (id : String) (token : Int)
  /-- A client sends `POST /api/v1/runs`. -/
  | request (h : Nat) (maxAttempts : Int) (requestID : String) (body : RunRequest) (key : String)
  /-- An Agent sends `POST /api/v1/runs/{id}/children`. -/
  | agentCall (h : Nat) (maxAttempts : Int) (requestID : String) (call : AgentCall)
  /-- A request takes its next action. -/
  | handle (h : Nat) (o : SubmitOracle)
  | createWorkflow (workflow : Workflow) (now : Time)
  | startWorkflow (c : Nat) (config : ManagerConfig) (id : String)
  | cancelWorkflow (c : Nat) (config : ManagerConfig) (id : String)
  /-- A manager starts to reconcile a Workflow that was started. -/
  | reconcile (c : Nat) (config : ManagerConfig) (id : String)
  /-- A manager call takes its next action. -/
  | manage (c : Nat) (o : ManagerOracle)
  /-- The process of a manager call dies. -/
  | crash (c : Nat)

/-- The manager call that an action belongs to. -/
def Action.manager : Action → Option Nat
  | .startWorkflow c _ _ | .cancelWorkflow c _ _ | .reconcile c _ _ | .manage c _ | .crash c =>
      some c
  | _ => none

/-! ### Steps -/

/-- The end of the `int64` range. -/
def maxFence : Int := 2 ^ 63 - 1

/-- A call that is about to claim a Run can still be given a fence. -/
def Worker.fenceLeft (w : Worker) (m : Memory) : Bool :=
  match w.pc with
  | .claim run _ => m.fence run.id < maxFence
  | _ => true

/-- A call that is about to create a Run generates an unused ID. -/
def Submit.fresh (h : Submit) (o : SubmitOracle) (m : Memory) : Bool :=
  match h.pc with
  | .create _ _ | .callCreate _ _ _ => o.newID ≠ "" && (m.runs.lookup o.newID).isNone
  | _ => true

@[inherit_doc Submit.fresh]
def Manager.fresh (c : Manager) (o : ManagerOracle) (m : Memory) : Bool :=
  match c.pc with
  | .createRun _ _ _ _ => o.newID ≠ "" && (m.runs.lookup o.newID).isNone
  | _ => true

def ExecPc.isOver : ExecPc → Bool
  | .idle | .done _ => true
  | _ => false

def SubmitPc.isOver : SubmitPc → Bool
  | .idle | .done _ => true
  | _ => false

def ManagerPc.isOver : ManagerPc → Bool
  | .idle | .done _ => true
  | _ => false

/-- The call of `execute` has claimed its Run and not yet stored its end: the
lease keeper and the cancellation watch are running. -/
def ExecPc.isWatched : ExecPc → Bool
  | .reload _ _ | .loadAgent _ _ | .loopLease _ _ | .loopRunCtx _ _ | .persistAttempt _ _
  | .invoke _ _ | .running _ _ | .afterLease _ _ _ | .afterCtx _ _ _ | .afterRunCtx _ _ _
  | .persistSucceeded _ _ _ | .persistFailed _ _ _ | .backoff _ _ | .backoffLease _ _
  | .backoffCtx _ _ => true
  | _ => false

/-- There is something by which a cancellation of the Run can be observed. -/
def State.cancelVisible (s : State) (id : String) : Bool :=
  (s.store.runs.lookup id).any (fun run => run.status = .canceled)
    || s.canceling.any (fun run => run.id = id)
    || s.events.any (fun event => event.runID = id && event.type = "run.canceled")

def State.setWorker (s : State) (w : Nat) (worker : Worker) : State :=
  { s with workers := Function.update s.workers w worker }

def State.setManager (s : State) (c : Nat) (manager : Manager) : State :=
  { s with managers := Function.update s.managers c manager }

/-- The state after an action of a call of `execute`. -/
def State.worked (s : State) (w : Nat) (pc : ExecPc) (e : Effect) : State :=
  { s with
    store := e.store
    events := s.events ++ e.events
    deadLetters := s.deadLetters ++ e.deadLetters
    invocations := s.invocations ++ e.invocations
    workers := Function.update s.workers w { s.workers w with pc := pc } }

/-- The state after an action of a request. -/
def State.handled (s : State) (h : Nat) (pc : SubmitPc) (e : Effect)
    (created : Option (String × Run)) : State :=
  { s with
    store := e.store
    events := s.events ++ e.events
    creations := s.creations ++ created.toList.map fun c => (c.1, c.2.id)
    submits := Function.update s.submits h { s.submits h with pc := pc } }

/-- The state after an action of a manager call. -/
def State.managed (s : State) (c : Nat) (pc : ManagerPc) (e : ManagerEffect) : State :=
  { s with
    store := e.store
    canceling := s.canceling ++ e.canceled.toList
    creations := s.creations ++ e.created.toList.map fun c => (c.1, c.2.id)
    asked := s.asked ++ e.asked.toList
    emitted := s.emitted ++ e.emitted.toList
    managers := Function.update s.managers c { s.managers c with pc := pc } }

/-- Start a manager call in a free slot. -/
def State.call (s : State) (c : Nat) (config : ManagerConfig) (pc : ManagerPc) : Option State :=
  if (s.managers c).pc.isOver then
    some (s.setManager c ⟨config.concurrency, config.maxAttempts, pc⟩)
  else none

def step (s : State) : Action → Option State
  | .registry agents => some { s with store := { s.store with agents := agents } }
  | .deliver w engine runID =>
      if (s.workers w).pc.isOver then
        some (s.setWorker w { engine := engine, runID := runID, pc := .load })
      else none
  | .work w o =>
      if (s.workers w).fenceLeft s.store then
        ((s.workers w).execute o s.store).map fun r => s.worked w r.1 r.2
      else none
  | .shutdown w => some (s.setWorker w { s.workers w with ctxDone := true })
  | .propagate w =>
      if (s.workers w).ctxDone then some (s.setWorker w { s.workers w with runCtxDone := true })
      else none
  | .renewalFails w err =>
      if (s.workers w).pc.isWatched then
        some (s.setWorker w { s.workers w with
          leaseErr := some (Sentinel.leaseRenewal.errWith (": " ++ err.text)) })
      else none
  | .keeperCancels w =>
      if (s.workers w).leaseErr.isSome then
        some (s.setWorker w { s.workers w with runCtxDone := true })
      else none
  | .observesCancel w =>
      if (s.workers w).pc.isWatched && s.cancelVisible (s.workers w).runID then
        some (s.setWorker w { s.workers w with runCtxDone := true })
      else none
  | .cancelRun id now =>
      match s.store.cancelRun id now with
      | .error _ => some s
      | .ok (m, run) => some { s with store := m, canceling := s.canceling ++ [run] }
  | .announceCanceled index =>
      (s.canceling[index]?).map fun run =>
        { s with
          events := s.events ++ [publishRun run "run.canceled" run.attempt]
          canceling := s.canceling.eraseIdx index }
  | .recoverRun id token =>
      if s.store.fence id < maxFence then
        match s.store.recoverRun id token with
        | .ok (m, true) => some { s with store := m, recoveries := s.recoveries ++ [id] }
        | _ => some s
      else none
  | .request h maxAttempts requestID body key =>
      if (s.submits h).pc.isOver then
        some { s with
          submits := Function.update s.submits h ⟨maxAttempts, requestID, receive body key⟩ }
      else none
  | .agentCall h maxAttempts requestID call =>
      if (s.submits h).pc.isOver then
        some { s with
          submits := Function.update s.submits h ⟨maxAttempts, requestID, .callLoad call⟩ }
      else none
  | .handle h o =>
      if (s.submits h).fresh o s.store then
        ((s.submits h).handle o s.store).map fun r => s.handled h r.1 r.2.1 r.2.2
      else none
  | .createWorkflow workflow now =>
      match s.store.createWorkflow workflow now with
      | .error _ => some s
      | .ok (m, _) => some { s with store := m }
  | .startWorkflow c config id => s.call c config (.startLoad id)
  | .cancelWorkflow c config id => s.call c config (.cancelLoad id)
  | .reconcile c config id =>
      if (s.store.workflows.lookup id).any (fun w => w.status ≠ .pending) then
        s.call c config (.load id)
      else none
  | .manage c o =>
      if (s.managers c).fresh o s.store then
        ((s.managers c).act o s.store).map fun r => s.managed c r.1 r.2
      else none
  | .crash c => some (s.setManager c { s.managers c with pc := .idle })

/-- Nothing stored and no call in progress. -/
def init : State := {}

/-- States that some run reaches. -/
def Reachable (s : State) : Prop := Machine.Runs step Machine.Free init s

end AgentMesh
