/-
AgentMesh/Engine.lean

`Engine.execute` of `internal/engine/engine.go` as a state machine.

One delivery of a Run to a worker is one call of `execute`.  Its control points
(`ExecPc`) are the places between two atomic actions: a store operation, a
check of a context or of the lease keeper, a publication, the start and the
return of the runtime, the answer of the coordinator or of the queue.  The
local variables `run` and `executionFence` ride on the control point.  Local
computation is part of the action that follows it.

The three ways in which `runCtx` can be done are separate: the parent context
(`ctxDone`), the lease keeper (`leaseErr`, set before it cancels) and an
observed cancellation of the Run.  They change between any two actions of the
worker; `runCtxDone` is what `runCtx.Err()` returns.

What the code asks of its environment (the clock, the coordinator, the runtime,
the queue) is an `Oracle`, one per action.
-/
import AgentMesh.Memory

namespace AgentMesh

/-! ### The environment -/

/-- One replica's engine: `retry.MaxAttempts`, `retry.AttemptTimeout` as it is
printed, and the names of the registered runtimes. -/
structure Engine where
  maxAttempts : Int
  attemptTimeout : String := "30s"
  runtimes : List String
  deriving DecidableEq, Repr

/-- The answer of `coord.Acquire`. -/
inductive Acquired
  | error (err : Err)
  | held
  | granted (token : Int)
  deriving DecidableEq, Repr

/-- What a runtime attempt came back with.  A recovered panic is a
`runtimePanic` error; `deadlineExceeded` is `attemptCtx.Err()`. -/
structure RuntimeReturn where
  result : Except Err String
  deadlineExceeded : Bool := false

structure Oracle where
  now : Time := 0
  acquired : Acquired := .granted 0
  returned : RuntimeReturn := ⟨.ok "", false⟩
  /-- The error of `queue.DeadLetter`, if any. -/
  deadLetter : Option Err := none
  /-- In the back-off: the timer has fired. -/
  timer : Bool := true

structure RunEvent where
  runID : String
  childRunID : String := ""
  parentRunID : String := ""
  rootRunID : String := ""
  type : String
  attempt : Int := 0
  deriving DecidableEq, Repr

/-- `publishRun`. -/
def publishRun (run : Run) (type : String) (attempt : Int) : RunEvent :=
  { runID := run.id, parentRunID := run.parentRunID, rootRunID := run.rootRunID
    type := type, attempt := attempt }

/-! ### Control points -/

inductive ExecPc
  | idle
  /-- `GetRun`. -/
  | load
  /-- A failed Run was loaded: `DeadLetter`. -/
  | deadLetterLoaded (run : Run)
  /-- `coord.Acquire`. -/
  | acquire (run : Run)
  /-- `ClaimRunExecution`. -/
  | claim (run : Run) (token : Int)
  /-- The second `GetRun`, under the fence. -/
  | reload (run : Run) (fence : Int)
  /-- `GetAgent` and `Resolve`. -/
  | loadAgent (run : Run) (fence : Int)
  /-- Head of the attempt loop: `leaseRenewalError`. -/
  | loopLease (run : Run) (fence : Int)
  /-- Head of the attempt loop: `runCtx.Err()`. -/
  | loopRunCtx (run : Run) (fence : Int)
  /-- `Start` or `Retry`, and `UpdateRunFenced`. -/
  | persistAttempt (run : Run) (fence : Int)
  /-- The attempt is stored: publish `run.started` and call the runtime. -/
  | invoke (run : Run) (fence : Int)
  /-- Inside `executeRuntimeSafely`. -/
  | running (run : Run) (fence : Int)
  /-- After the attempt: `leaseRenewalError`. -/
  | afterLease (run : Run) (fence : Int) (outcome : Except Err String)
  /-- After the attempt: `ctx.Err()`. -/
  | afterCtx (run : Run) (fence : Int) (outcome : Except Err String)
  /-- After the attempt: `runCtx.Err()`. -/
  | afterRunCtx (run : Run) (fence : Int) (outcome : Except Err String)
  /-- `Succeed` and `UpdateRunFenced`. -/
  | persistSucceeded (run : Run) (fence : Int) (output : String)
  | publishSucceeded (run : Run)
  /-- `failRun`: `Fail` and `UpdateRunFenced`. -/
  | persistFailed (run : Run) (fence : Int) (cause : Err)
  | publishFailed (run : Run) (cause : Err)
  /-- `failRun`: `DeadLetter`. -/
  | deadLetter (run : Run) (cause : Err)
  /-- The `select` between the retry timer and `runCtx.Done()`. -/
  | backoff (run : Run) (fence : Int)
  /-- `runCtx` was done in the back-off: `leaseRenewalError`. -/
  | backoffLease (run : Run) (fence : Int)
  /-- `runCtx` was done in the back-off: `ctx.Err()`. -/
  | backoffCtx (run : Run) (fence : Int)
  /-- `execute` has returned; `none` is `nil`. -/
  | done (result : Option Err)

/-- One call of `execute`. -/
structure Worker where
  engine : Engine
  runID : String
  pc : ExecPc
  ctxDone : Bool := false
  runCtxDone : Bool := false
  leaseErr : Option Err := none

/-- What an atomic action does besides moving its own control point. -/
structure Effect where
  store : Memory
  events : List RunEvent := []
  deadLetters : List String := []
  /-- IDs of the Runs for which the runtime was invoked. -/
  invocations : List String := []

/-! ### The actions of `execute` -/

/-- A passed deadline counts as a timeout, whatever the runtime returned, unless
it panicked. -/
def RuntimeReturn.timedOut (r : RuntimeReturn) : Bool :=
  r.deadlineExceeded &&
    match r.result with
    | .error err => !err.is .runtimePanic
    | .ok _ => true

/-- The output or the error of an attempt. -/
def attemptOutcome (e : Engine) (run : Run) (r : RuntimeReturn) : Except Err String :=
  if r.timedOut then
    .error (Sentinel.attemptTimeout.errWith
      (": attempt " ++ toString run.attempt ++ " exceeded " ++ e.attemptTimeout))
  else r.result

/-- `leaseRenewalError`: report a lost lease and return its error, or go on. -/
def checkLease (w : Worker) (run : Run) (m : Memory) (next : ExecPc) : ExecPc × Effect :=
  match w.leaseErr with
  | some err =>
      (.done (some err),
        { store := m, events := [{ runID := run.id, type := "run.lease_lost", attempt := run.attempt }] })
  | none => (next, { store := m })

/-- A fenced write: go on with the new store, return `nil` if the Run was
canceled, or return the error. -/
def writeFenced (m : Memory) (run : Run) (fence : Int) (context : String) (next : ExecPc) :
    ExecPc × Effect :=
  match m.updateRunFenced run fence with
  | .error err =>
      if err.is .runCanceled then (.done none, { store := m })
      else (.done (some (err.wrap context)), { store := m })
  | .ok m' => (next, { store := m' })

/-- `Start` for a queued Run, `Retry` otherwise. -/
def Run.nextAttempt (run : Run) (now : Time) : Except Err Run :=
  if run.status = .queued then run.start now else run.retry

/-- The limit that an execution works with: that of the engine where the Run has none. -/
def Run.withLimit (run : Run) (e : Engine) : Run :=
  { run with maxAttempts := if run.maxAttempts < 1 then e.maxAttempts else run.maxAttempts }

/-- The next action of a call of `execute`, if it is not blocked or over. -/
def Worker.execute (w : Worker) (o : Oracle) (m : Memory) : Option (ExecPc × Effect) :=
  match w.pc with
  | .idle => none
  | .load =>
      match m.getRun w.runID with
      | .error err =>
          some (.done (some (err.wrap ("load run " ++ w.runID ++ ": "))), { store := m })
      | .ok run =>
          match run.status with
          | .succeeded => some (.done none, { store := m })
          | .failed => some (.deadLetterLoaded run, { store := m })
          | .canceled => some (.done none, { store := m })
          | _ => some (.acquire run, { store := m })
  | .deadLetterLoaded run =>
      match o.deadLetter with
      | some err => some (.done (some err), { store := m })
      | none => some (.done none, { store := m, deadLetters := [run.id] })
  | .acquire run =>
      match o.acquired with
      | .error err => some (.done (some (err.wrap "acquire run lease: ")), { store := m })
      | .held =>
          some (.done (some (errorf ("run " ++ run.id ++ " is already being processed"))),
            { store := m })
      | .granted token => some (.claim run token, { store := m })
  | .claim run token =>
      match m.claimRunExecution run.id token with
      | .error err =>
          -- the Run has ended since it was loaded
          if err.is .runCanceled || err.is .runNotExecutable then
            some (.done none, { store := m })
          else
            some (.done (some (err.wrap ("claim run " ++ run.id ++ " execution: "))), { store := m })
      | .ok (m', fence) => some (.reload run fence, { store := m' })
  | .reload run fence =>
      match m.getRun run.id with
      -- the failed `GetRun` has overwritten `run`, so its ID prints as empty
      | .error err => some (.done (some (err.wrap "reload run : ")), { store := m })
      | .ok run =>
          if run.status = .canceled then some (.done none, { store := m })
          else some (.loadAgent run fence, { store := m })
  | .loadAgent run fence =>
      match m.getAgent run.agentID with
      | .error err =>
          some (.persistFailed run fence (err.wrap "agent not found: "), { store := m })
      | .ok agent =>
          match resolveRuntime w.engine.runtimes agent with
          | .error err =>
              some (.persistFailed run fence
                (err.wrap ("resolve runtime for agent " ++ agent.id ++ ": ")), { store := m })
          | .ok _ => some (.loopLease (run.withLimit w.engine) fence, { store := m })
  | .loopLease run fence => some (checkLease w run m (.loopRunCtx run fence))
  | .loopRunCtx run fence =>
      -- a done `runCtx` is taken for a canceled Run, the parent context is not asked
      if w.runCtxDone then some (.done none, { store := m })
      else some (.persistAttempt run fence, { store := m })
  | .persistAttempt run fence =>
      match run.nextAttempt o.now with
      -- a Run without attempts left is not failed, its error is returned
      | .error err => some (.done (some err), { store := m })
      | .ok run => some (writeFenced m run fence "persist run attempt: " (.invoke run fence))
  | .invoke run fence =>
      some (.running run fence,
        { store := m, events := [publishRun run "run.started" run.attempt]
          invocations := [run.id] })
  | .running run fence =>
      some (.afterLease run fence (attemptOutcome w.engine run o.returned),
        { store := m
          events :=
            if o.returned.timedOut then [publishRun run "run.attempt_timed_out" run.attempt]
            else [] })
  | .afterLease run fence outcome =>
      some (checkLease w run m (.afterCtx run fence outcome))
  | .afterCtx run fence outcome =>
      if w.ctxDone then some (.done (some Sentinel.contextCanceled.err), { store := m })
      else some (.afterRunCtx run fence outcome, { store := m })
  | .afterRunCtx run fence outcome =>
      if w.runCtxDone then some (.done none, { store := m })
      else
        match outcome with
        | .ok output => some (.persistSucceeded run fence output, { store := m })
        | .error err =>
            if run.attempt ≥ run.maxAttempts then
              some (.persistFailed run fence err, { store := m })
            else
              some (.backoff run fence,
                { store := m, events := [publishRun run "run.retrying" run.attempt] })
  | .persistSucceeded run fence output =>
      match run.succeed output o.now with
      | .error err => some (.done (some err), { store := m })
      | .ok run => some (writeFenced m run fence "persist completed run: " (.publishSucceeded run))
  | .publishSucceeded run =>
      some (.done none, { store := m, events := [publishRun run "run.succeeded" run.attempt] })
  | .persistFailed run fence cause =>
      match run.fail (some cause) o.now with
      | .error err => some (.done (some err), { store := m })
      | .ok run => some (writeFenced m run fence "persist failed run: " (.publishFailed run cause))
  | .publishFailed run cause =>
      some (.deadLetter run cause,
        { store := m, events := [publishRun run "run.failed" run.attempt] })
  | .deadLetter run _ =>
      match o.deadLetter with
      | some err => some (.done (some (err.wrap "dead-letter run: ")), { store := m })
      | none => some (.done none, { store := m, deadLetters := [run.id] })
  | .backoff run fence =>
      -- the `select` takes either the timer or `runCtx.Done()`
      if o.timer then some (.loopLease run fence, { store := m })
      else if w.runCtxDone then some (.backoffLease run fence, { store := m })
      else none
  | .backoffLease run fence => some (checkLease w run m (.backoffCtx run fence))
  | .backoffCtx _ _ =>
      if w.ctxDone then some (.done (some Sentinel.contextCanceled.err), { store := m })
      else some (.done none, { store := m })
  | .done _ => none

end AgentMesh
