/-
AgentMesh/RunEvents.lean

The event that tells how a Run has ended.

The end of a Run is stored by `execute`, by `Engine.Cancel` or by a request
whose Run the queue has refused, and the same operation publishes
`run.succeeded`, `run.failed` or `run.canceled` as its next action.  A Run ends
once, so the event is true and the only one.

`createAgentChildRun` is the exception.  When the queue refuses the child, it
stores the child as failed and publishes nothing
(`callFail_publishes_nothing`).  In a run without such a silent failure every
Run that has ended is announced, exactly once (`run_end_announced`).
-/
import AgentMesh.Announce
import AgentMesh.RunSafety

namespace AgentMesh

open Machine

/-! ### Terminal events -/

/-- The event that belongs to the end of a Run. -/
def RunStatus.endEvent : RunStatus → Option String
  | .succeeded => some "run.succeeded"
  | .failed => some "run.failed"
  | .canceled => some "run.canceled"
  | _ => none

def isRunEnd (type : String) : Bool :=
  type = "run.succeeded" || type = "run.failed" || type = "run.canceled"

/-- The type of a terminal event of the Run `id`. -/
def RunEvent.ending (id : String) (event : RunEvent) : Option String :=
  if event.runID = id ∧ isRunEnd event.type then some event.type else none

/-- The event that a call of `execute` publishes next, if it has stored the end of its Run. -/
def ExecPc.owes : ExecPc → Option RunEvent
  | .publishSucceeded run => some (publishRun run "run.succeeded" run.attempt)
  | .publishFailed run _ => some (publishRun run "run.failed" run.attempt)
  | _ => none

@[inherit_doc ExecPc.owes]
def SubmitPc.owes : SubmitPc → Option RunEvent
  | .publishFailed run => some (publishRun run "run.failed" run.attempt)
  | _ => none

/-- The operations that store the end of a Run. -/
inductive Announcer
  | worker (w : Nat)
  | request (h : Nat)
  /-- The calls of `Engine.Cancel`. -/
  | engine
  deriving DecidableEq

/-- The operation that an action belongs to. -/
def Action.announcer : Action → Announcer
  | .work w _ => .worker w
  | .handle h _ => .request h
  | _ => .engine

/-- The terminal events that an operation is going to publish. -/
def State.owedEvents (s : State) : Announcer → List RunEvent
  | .worker w => (s.workers w).pc.owes.toList
  | .request h => (s.submits h).pc.owes.toList
  | .engine => s.canceling.map fun run => publishRun run "run.canceled" run.attempt

/-- The terminal events of the Run `id` that were published, in order. -/
def State.runEndings (s : State) (id : String) : List String :=
  s.events.filterMap fun event => event.ending id

/-- The terminal events of the Run `id` that an operation is going to publish. -/
def State.owedRunEndings (s : State) (id : String) (k : Announcer) : List String :=
  (s.owedEvents k).filterMap fun event => event.ending id

/-- The stored Run has ended in the way that the event says. -/
def State.RunEndedAs (s : State) (id type : String) : Prop :=
  ∃ run, s.store.runs.lookup id = some run ∧ run.status.endEvent = some type

/-- `createAgentChildRun` stores the failure of the Run that it could not enqueue. -/
def Submit.failsSilently (h : Submit) (o : SubmitOracle) (m : Memory) : Bool :=
  match h.pc with
  | .callFail child cause =>
      match child.fail (some cause) o.now with
      | .error _ => false
      | .ok run => (m.updateRun run).isOk
  | _ => false

@[inherit_doc Submit.failsSilently]
def silentFailure (s : State) : Action → Bool
  | .handle h o => (s.submits h).failsSilently o s.store
  | _ => false

/-! ### Ends of Runs in the store -/

/-- No Run ends. -/
structure Memory.NoneEnds (m m' : Memory) : Prop where
  before : ∀ {id run}, m'.runs.lookup id = some run → run.IsTerminal → m.runs.lookup id = some run

/-- One Run ends: it was active, and its end is stored. -/
structure Memory.Ends (m m' : Memory) (run : Run) : Prop where
  active : ∃ before, m.runs.lookup run.id = some before ∧ before.IsActive
  stored : m'.runs = m.runs.insert run.id run

section Store

variable {m m' : Memory} {id type : String} {run run' : Run} {f : Int} {now : Time}

theorem Run.isTerminal_iff : run.IsTerminal ↔ ∃ type, run.status.endEvent = some type := by
  cases hs : run.status <;> simp [Run.IsTerminal, RunStatus.endEvent, hs]

theorem isRunEnd_of_endEvent {status : RunStatus} (h : status.endEvent = some type) :
    isRunEnd type = true := by
  cases status <;> simp only [RunStatus.endEvent, Option.some.injEq, reduceCtorEq] at h <;>
    subst h <;> rfl

theorem Memory.NoneEnds.of_runs (h : m'.runs = m.runs) : m.NoneEnds m' :=
  ⟨fun hrun _ => h ▸ hrun⟩

/-- An active Run is stored. -/
theorem Memory.NoneEnds.put (h : m'.runs = m.runs.insert id run') (hact : run'.IsActive) :
    m.NoneEnds m' := by
  refine ⟨fun {id' run} hrun hterm => ?_⟩
  rw [h, Table.lookup_insert_eq] at hrun
  split at hrun
  · obtain rfl := Option.some.inj hrun
    exact absurd hterm hact.not_terminal
  · exact hrun

theorem Memory.NoneEnds.attempt (hnext : run.nextAttempt now = .ok run')
    (h : m.updateRunFenced run' f = .ok m') : m.NoneEnds m' := by
  obtain ⟨existing, -, -, -, -, rfl⟩ := Memory.updateRunFenced_ok h
  exact .put rfl (.inr (Run.nextAttempt_ok hnext).2.2.1)

theorem Memory.NoneEnds.create {key : String} (hs : run.status = .queued)
    (h : m.createRun run key = .ok (m', run', true)) : m.NoneEnds m' := by
  obtain ⟨hfalse, -⟩ | ⟨-, -, rfl, parent, root, rfl⟩ := Memory.createRun_ok h
  · cases hfalse
  · exact .put rfl (.inl hs)

theorem Memory.Ends.cancel (hm : m.RunsOk) (h : m.cancelRun id now = .ok (m', run)) :
    m.Ends m' run ∧ run.status.endEvent = some "run.canceled" := by
  obtain ⟨existing, he, hc, rfl⟩ := Memory.cancelRun_ok h
  obtain ⟨hact, rfl⟩ := Run.cancel_ok hc
  obtain rfl := hm.id he
  exact ⟨⟨⟨existing, he, hact⟩, rfl⟩, rfl⟩

end Store

/-! ### What an action publishes -/

/-- The actions of a call of `execute`, by what they do to the end of its Run. -/
inductive Worker.Telling (w : Worker) (m : Memory) (pc : ExecPc) (e : Effect) : Prop
  | quiet (before : w.pc.owes = none) (after : pc.owes = none)
      (events : ∀ event ∈ e.events, isRunEnd event.type = false) (runs : m.NoneEnds e.store)
  | ends {run run' : Run} {f : Int} {type : String}
      (hold : w.pc.hold = some ⟨run.id, f, .exact run⟩) (advance : (View.exact run).Advance run')
      (ending : run'.status.endEvent = some type) (store : m.updateRunFenced run' f = .ok e.store)
      (before : w.pc.owes = none) (after : pc.owes = some (publishRun run' type run'.attempt))
      (events : e.events = [])
  | tells {event : RunEvent} (before : w.pc.owes = some event) (after : pc.owes = none)
      (store : e.store = m) (events : e.events = [event])

/-- The actions of a request, by what they do to the end of its Run. -/
inductive Submit.Telling (h : Submit) (o : SubmitOracle) (m : Memory) (pc : SubmitPc)
    (e : Effect) : Prop
  | quiet (before : h.pc.owes = none) (after : pc.owes = none)
      (events : ∀ event ∈ e.events, isRunEnd event.type = false) (runs : m.NoneEnds e.store)
  | ends {run run' : Run} {cause : Err} (hold : h.pc.hold = some ⟨run.id, 0, .exact run⟩)
      (fail : run.fail (some cause) o.now = .ok run') (store : m.updateRun run' = .ok e.store)
      (before : h.pc.owes = none) (after : pc.owes = some (publishRun run' "run.failed" run'.attempt))
      (events : e.events = [])
  | tells {event : RunEvent} (before : h.pc.owes = some event) (after : pc.owes = none)
      (store : e.store = m) (events : e.events = [event])
  /-- A child Run fails, and nothing is going to be published. -/
  | drops (silently : h.failsSilently o m = true)

section Executions

variable {w : Worker} {o : Oracle} {m : Memory} {pc next : ExecPc} {e : Effect} {run : Run}

theorem Worker.Telling.of_checkLease (h : checkLease w run m next = (pc, e))
    (before : w.pc.owes = none) (after : next.owes = none) : w.Telling m pc e := by
  have hlost : isRunEnd "run.lease_lost" = false := by decide
  rw [checkLease] at h
  split at h
  · obtain ⟨rfl, rfl⟩ := Prod.mk.inj h
    exact .quiet before rfl (by simpa using hlost) (.of_runs rfl)
  · obtain ⟨rfl, rfl⟩ := Prod.mk.inj h
    exact .quiet before after (by simp) (.of_runs rfl)

theorem writeFenced_events {f : Int} {context : String}
    (h : writeFenced m run f context next = (pc, e)) :
    e.events = [] ∧ (m.updateRunFenced run f = .ok e.store ∧ pc = next ∨
      e.store = m ∧ pc.owes = none) := by
  rw [writeFenced] at h
  split at h
  · split at h
    all_goals
      obtain ⟨rfl, rfl⟩ := Prod.mk.inj h
      exact ⟨rfl, .inr ⟨rfl, rfl⟩⟩
  · rename_i m' hm'
    obtain ⟨rfl, rfl⟩ := Prod.mk.inj h
    exact ⟨rfl, .inl ⟨hm', rfl⟩⟩

/-- Every action of a call of `execute` is in one of the classes. -/
theorem Worker.execute_telling (h : w.execute o m = some (pc, e)) : w.Telling m pc e := by
  have hstarted : isRunEnd "run.started" = false := by decide
  have htimeout : isRunEnd "run.attempt_timed_out" = false := by decide
  have hretrying : isRunEnd "run.retrying" = false := by decide
  cases hpc : w.pc <;> simp only [Worker.execute, hpc, Option.some.injEq, reduceCtorEq] at h
  -- what only reads the store, or changes its fences, publishes no end
  case load | deadLetterLoaded | acquire | reload | loadAgent | loopRunCtx | afterCtx | backoff
      | backoffCtx | deadLetter =>
    repeat' split at h
    all_goals cases h
    all_goals exact .quiet (by rw [hpc]; rfl) rfl (by simp) (.of_runs rfl)
  case claim run token =>
    split at h
    · split at h
      all_goals cases h
      all_goals exact .quiet (by rw [hpc]; rfl) rfl (by simp) (.of_runs rfl)
    · rename_i m' f hclaim
      cases h
      obtain ⟨-, -, -, -, hm'⟩ := Memory.claimRunExecution_ok hclaim
      exact .quiet (by rw [hpc]; rfl) rfl (by simp) (.of_runs (by rw [hm']))
  case loopLease | afterLease | backoffLease => exact .of_checkLease h (by rw [hpc]; rfl) rfl
  case persistAttempt run f =>
    split at h
    · cases h
      exact .quiet (by rw [hpc]; rfl) rfl (by simp) (.of_runs rfl)
    · rename_i run' hnext
      obtain ⟨hevents, ⟨hw, rfl⟩ | ⟨hstore, hafter⟩⟩ := writeFenced_events (Option.some.inj h)
      · exact .quiet (by rw [hpc]; rfl) rfl (by simp [hevents]) (.attempt hnext hw)
      · exact .quiet (by rw [hpc]; rfl) hafter (by simp [hevents]) (.of_runs (by rw [hstore]))
  case invoke run f =>
    cases h
    exact .quiet (by rw [hpc]; rfl) rfl (by simpa [publishRun] using hstarted) (.of_runs rfl)
  case running run f =>
    cases h
    refine .quiet (by rw [hpc]; rfl) rfl ?_ (.of_runs rfl)
    intro event hevent
    simp only at hevent
    split at hevent
    · obtain rfl := List.mem_singleton.mp hevent
      exact htimeout
    · cases hevent
  case afterRunCtx run f outcome =>
    repeat' split at h
    all_goals cases h
    all_goals exact .quiet (by rw [hpc]; rfl) rfl (by simp [publishRun, hretrying]) (.of_runs rfl)
  case persistSucceeded run f output =>
    split at h
    · cases h
      exact .quiet (by rw [hpc]; rfl) rfl (by simp) (.of_runs rfl)
    · rename_i run' hs
      have htype : run'.status.endEvent = some "run.succeeded" := by rw [(Run.succeed_ok hs).2]; rfl
      obtain ⟨hevents, ⟨hw, rfl⟩ | ⟨hstore, hafter⟩⟩ := writeFenced_events (Option.some.inj h)
      · exact .ends (by rw [hpc]; rfl) (.succeed output o.now hs) htype hw (by rw [hpc]; rfl) rfl
          hevents
      · exact .quiet (by rw [hpc]; rfl) hafter (by simp [hevents]) (.of_runs (by rw [hstore]))
  case persistFailed run f cause =>
    split at h
    · cases h
      exact .quiet (by rw [hpc]; rfl) rfl (by simp) (.of_runs rfl)
    · rename_i run' hf
      have htype : run'.status.endEvent = some "run.failed" := by
        obtain ⟨-, err, -, rfl⟩ := Run.fail_ok hf
        rfl
      obtain ⟨hevents, ⟨hw, rfl⟩ | ⟨hstore, hafter⟩⟩ := writeFenced_events (Option.some.inj h)
      · exact .ends (by rw [hpc]; rfl) (.fail (some cause) o.now hf) htype hw (by rw [hpc]; rfl)
          rfl hevents
      · exact .quiet (by rw [hpc]; rfl) hafter (by simp [hevents]) (.of_runs (by rw [hstore]))
  case publishSucceeded | publishFailed =>
    cases h
    exact .tells (by rw [hpc]; rfl) rfl rfl rfl

end Executions

section Requests

variable {h : Submit} {o : SubmitOracle} {m : Memory} {pc : SubmitPc} {e : Effect}
  {created : Option (String × Run)}

theorem receive_owes (body : RunRequest) (key : String) : (receive body key).owes = none :=
  receive_cases (P := fun pc => pc.owes = none) body key (fun _ => rfl) (fun _ => rfl)
    (fun _ => rfl) fun _ => rfl

theorem agentCallAncestry_owes (call : AgentCall) (sub : Submission) (parent current : Run)
    (depth : Int) (agents seenRuns : List String) :
    (agentCallAncestry call sub parent current depth agents seenRuns).owes = none := by
  rw [agentCallAncestry]
  repeat' split
  all_goals rfl

theorem checkCallee_owes (call : AgentCall) (sub : Submission) (parent : Run)
    (ancestorAgents : List String) : (checkCallee call sub parent ancestorAgents).owes = none := by
  rw [checkCallee]
  split <;> rfl

/-- Every action of a request is in one of the classes. -/
theorem Submit.handle_telling (hh : h.handle o m = some (pc, e, created)) :
    h.Telling o m pc e := by
  have hqueued : isRunEnd "run.queued" = false := by decide
  have hchild : isRunEnd "run.child_queued" = false := by decide
  have hcall : isRunEnd "run.agent_call_queued" = false := by decide
  cases hpc : h.pc <;> simp only [Submit.handle, hpc, Option.some.injEq, reduceCtorEq] at hh
  case lookup | loadParent | selectAgent | callLoad | enqueue | callEnqueue =>
    repeat' split at hh
    all_goals cases hh
    all_goals exact .quiet (by rw [hpc]; rfl) rfl (by simp) (.of_runs rfl)
  case callLookup | callAncestry =>
    repeat' split at hh
    all_goals cases hh
    all_goals first
      | exact .quiet (by rw [hpc]; rfl) (agentCallAncestry_owes ..) (by simp) (.of_runs rfl)
      | exact .quiet (by rw [hpc]; rfl) rfl (by simp) (.of_runs rfl)
  case callSelect =>
    repeat' split at hh
    all_goals cases hh
    all_goals first
      | exact .quiet (by rw [hpc]; rfl) (checkCallee_owes ..) (by simp) (.of_runs rfl)
      | exact .quiet (by rw [hpc]; rfl) rfl (by simp) (.of_runs rfl)
  case create sub parent =>
    split at hh
    · cases hh
      exact .quiet (by rw [hpc]; rfl) rfl (by simp) (.of_runs rfl)
    · rename_i run hattach
      have hdraft : h.Drafts o sub.key run := .run hpc hattach
      split at hh
      · cases hh
        exact .quiet (by rw [hpc]; rfl) rfl (by simp) (.of_runs rfl)
      · rename_i hcreate
        cases hh
        exact .quiet (by rw [hpc]; rfl) rfl (by simp) (.create hdraft.new.2.1 hcreate)
      · cases hh
        exact .quiet (by rw [hpc]; rfl) rfl (by simp) (.of_runs rfl)
  case callCreate call sub parent =>
    split at hh
    · cases hh
      exact .quiet (by rw [hpc]; rfl) rfl (by simp) (.of_runs rfl)
    · rename_i run hattach
      have hdraft : h.Drafts o (agentCallKey parent.id sub.key) run := .child hpc hattach
      split at hh
      · cases hh
        exact .quiet (by rw [hpc]; rfl) rfl (by simp) (.of_runs rfl)
      · rename_i hcreate
        cases hh
        exact .quiet (by rw [hpc]; rfl) rfl (by simp)
          (.create hdraft.new.2.1 (Memory.createChildRun_ok hcreate))
      · cases hh
        exact .quiet (by rw [hpc]; rfl) rfl (by simp) (.of_runs rfl)
  case publishQueued run =>
    cases hh
    refine .quiet (by rw [hpc]; rfl) rfl ?_ (.of_runs rfl)
    intro event hevent
    rcases List.mem_cons.mp hevent with rfl | hevent
    · exact hqueued
    · split at hevent
      · obtain rfl := List.mem_singleton.mp hevent
        exact hchild
      · cases hevent
  case callPublish parent child =>
    cases hh
    exact .quiet (by rw [hpc]; rfl) rfl (by simp [publishAgentChildRun, hqueued, hchild, hcall])
      (.of_runs rfl)
  case failRun run cause =>
    split at hh
    · cases hh
      exact .quiet (by rw [hpc]; rfl) rfl (by simp) (.of_runs rfl)
    · rename_i run' hfail
      split at hh
      · cases hh
        exact .quiet (by rw [hpc]; rfl) rfl (by simp) (.of_runs rfl)
      · rename_i m' hupdate
        cases hh
        exact .ends (by rw [hpc]; rfl) hfail hupdate (by rw [hpc]; rfl) rfl rfl
  case publishFailed run =>
    cases hh
    exact .tells (by rw [hpc]; rfl) rfl rfl rfl
  case callFail child cause =>
    split at hh
    · cases hh
      exact .quiet (by rw [hpc]; rfl) rfl (by simp) (.of_runs rfl)
    · rename_i run' hfail
      split at hh
      · cases hh
        exact .quiet (by rw [hpc]; rfl) rfl (by simp) (.of_runs rfl)
      · rename_i m' hupdate
        refine .drops ?_
        simp [Submit.failsSilently, hpc, hfail, hupdate, Except.isOk, Except.toBool]

end Requests

/-! ### What a step publishes -/

variable {s t : State} {a : Action} {id type : String}

theorem State.owedEvents_setWorker (s : State) (w : Nat) (worker : Worker) :
    (s.setWorker w worker).owedEvents
      = Function.update s.owedEvents (.worker w) worker.pc.owes.toList := by
  funext k
  rcases k with n | n | -
  · by_cases hn : n = w
    · subst hn
      simp [State.owedEvents, State.setWorker]
    · simp [State.owedEvents, State.setWorker, hn]
  · simp [State.owedEvents, State.setWorker]
  · simp [State.owedEvents, State.setWorker]

theorem State.owedEvents_request (s : State) (h : Nat) (request : Submit) :
    State.owedEvents { s with submits := Function.update s.submits h request }
      = Function.update s.owedEvents (.request h) request.pc.owes.toList := by
  funext k
  rcases k with n | n | -
  · simp [State.owedEvents]
  · by_cases hn : n = h
    · subst hn
      simp [State.owedEvents]
    · simp [State.owedEvents, hn]
  · simp [State.owedEvents]

/-- The steps of the system, by what they do to the ends of Runs. -/
inductive EndStep (s : State) (a : Action) (t : State) : Prop
  | quiet {new : List RunEvent} (events : t.events = s.events ++ new)
      (silent : ∀ event ∈ new, isRunEnd event.type = false) (owed : t.owedEvents = s.owedEvents)
      (runs : s.store.NoneEnds t.store)
  /-- The end of a Run is stored, and the operation is going to publish it. -/
  | ends {run : Run} {type : String} (ends : s.store.Ends t.store run)
      (ending : run.status.endEvent = some type) (events : t.events = s.events)
      (owed : t.owedEvents = Function.update s.owedEvents a.announcer
        (s.owedEvents a.announcer ++ [publishRun run type run.attempt]))
  | tells {event : RunEvent} {rest : List RunEvent}
      (before : (s.owedEvents a.announcer).Perm (event :: rest))
      (events : t.events = s.events ++ [event])
      (owed : t.owedEvents = Function.update s.owedEvents a.announcer rest)
      (store : t.store = s.store)
  | drops (silently : silentFailure s a = true)

/-- A write that the store accepts from the holder of a Run ends an active Run. -/
theorem RunInv.ends (hr : RunInv s) {p : Party} {run run' existing : Run} {f : Int} {m : Memory}
    (hp : s.hold p = some ⟨run.id, f, .exact run⟩) (hadv : (View.exact run).Advance run')
    (hrun : s.store.runs.lookup run'.id = some existing) (hc : existing.status ≠ .canceled)
    (hf : s.store.fence run'.id = f)
    (hm : m = { s.store with
      runs := s.store.runs.insert run'.id (Memory.keepLineage existing run') }) :
    s.store.Ends m run' := by
  obtain ⟨hsucc, hkeep⟩ := hr.accepted hp hadv hadv.sameRequest.id hrun hc hf
  refine ⟨⟨existing, hrun, hsucc.active⟩, ?_⟩
  rw [hm, hkeep]

theorem EndStep.worked (hr : RunInv s) {w : Nat} {o : Oracle} {pc : ExecPc} {e : Effect}
    (h : (s.workers w).Telling s.store pc e) : EndStep s (.work w o) (s.worked w pc e) := by
  have howed : (s.worked w pc e).owedEvents
      = Function.update s.owedEvents (.worker w) pc.owes.toList :=
    s.owedEvents_setWorker w { s.workers w with pc := pc }
  have hself : s.owedEvents (.worker w) = (s.workers w).pc.owes.toList := rfl
  cases h with
  | quiet before after events runs =>
      refine .quiet rfl events ?_ runs
      rw [howed, after, ← before, ← hself, Function.update_eq_self]
  | @ends run run' f type hold advance ending store before after events =>
      obtain ⟨existing, hrun, hc, -, hf, hm⟩ := Memory.updateRunFenced_ok store
      have hp : s.hold (.worker w) = some ⟨run.id, f, .exact run⟩ := hold
      refine .ends (hr.ends hp advance hrun hc hf hm) ending (by simp [State.worked, events]) ?_
      rw [howed, after, Action.announcer, hself, before]
      rfl
  | @tells event before after store events =>
      have hbefore : s.owedEvents (.worker w) = [event] := by rw [hself, before]; rfl
      refine .tells (.of_eq hbefore) (by simp [State.worked, events]) ?_ store
      rw [howed, after]
      rfl

theorem EndStep.handled (hr : RunInv s) {n : Nat} {o : SubmitOracle} {pc : SubmitPc} {e : Effect}
    {created : Option (String × Run)} (h : (s.submits n).Telling o s.store pc e) :
    EndStep s (.handle n o) (s.handled n pc e created) := by
  have howed : (s.handled n pc e created).owedEvents
      = Function.update s.owedEvents (.request n) pc.owes.toList :=
    s.owedEvents_request n { s.submits n with pc := pc }
  have hself : s.owedEvents (.request n) = (s.submits n).pc.owes.toList := rfl
  cases h with
  | quiet before after events runs =>
      refine .quiet rfl events ?_ runs
      rw [howed, after, ← before, ← hself, Function.update_eq_self]
  | @ends run run' cause hold fail store before after events =>
      have hadv : (View.exact run).Advance run' := .fail (some cause) o.now fail
      have hending : run'.status.endEvent = some "run.failed" := by
        obtain ⟨-, err, -, rfl⟩ := Run.fail_ok fail
        rfl
      obtain ⟨existing, hrun, hc, hf, hm⟩ := Memory.updateRun_ok store
      have hp : s.hold (.request n) = some ⟨run.id, 0, .exact run⟩ := hold
      refine .ends (hr.ends hp hadv hrun hc hf hm) hending (by simp [State.handled, events]) ?_
      rw [howed, after, Action.announcer, hself, before]
      rfl
  | @tells event before after store events =>
      have hbefore : s.owedEvents (.request n) = [event] := by rw [hself, before]; rfl
      refine .tells (.of_eq hbefore) (by simp [State.handled, events]) ?_ store
      rw [howed, after]
      rfl
  | drops silently => exact .drops silently

/-- `Engine.Cancel` stores a cancellation, for a client or for a manager. -/
theorem EndStep.canceled (hr : RunInv s) {now : Time} {run : Run}
    (hcancel : s.store.cancelRun id now = .ok (t.store, run)) (ha : a.announcer = .engine)
    (hevents : t.events = s.events) (hworkers : t.workers = s.workers)
    (hsubmits : t.submits = s.submits) (hcanceling : t.canceling = s.canceling ++ [run]) :
    EndStep s a t := by
  obtain ⟨hends, hending⟩ := Memory.Ends.cancel hr.ok hcancel
  refine .ends hends hending hevents ?_
  rw [ha]
  funext k
  rcases k with n | n | - <;> simp [State.owedEvents, hworkers, hsubmits, hcanceling]

/-- A step that only moves other calls. -/
theorem EndStep.frame (hevents : t.events = s.events) (hworkers : t.workers = s.workers)
    (hsubmits : t.submits = s.submits) (hcanceling : t.canceling = s.canceling)
    (hruns : s.store.NoneEnds t.store) : EndStep s a t := by
  refine .quiet (by rw [hevents, List.append_nil]) (by simp) ?_ hruns
  funext k
  rcases k with n | n | - <;> simp [State.owedEvents, hworkers, hsubmits, hcanceling]

theorem EndStep.managed (hr : RunInv s) {c : Nat} {o : ManagerOracle} {pc : ManagerPc}
    {e : ManagerEffect} (h : (s.managers c).Move o s.store e) :
    EndStep s (.manage c o) (s.managed c pc e) := by
  cases h with
  | silent runs canceled =>
      exact .frame rfl rfl rfl (by simp [State.managed, canceled]) (.of_runs runs.runs)
  | cancel store canceled =>
      exact .canceled hr store rfl rfl rfl rfl (by simp [State.managed, canceled])
  | create _ _ store canceled =>
      exact .frame rfl rfl rfl (by simp [State.managed, canceled]) (.create rfl store)

/-- A call of `execute` that was delivered or met an event of its environment owes what it
owed. -/
theorem EndStep.worker {w : Nat} {worker : Worker}
    (h : worker.pc.owes = (s.workers w).pc.owes) : EndStep s a (s.setWorker w worker) := by
  refine .quiet (List.append_nil _).symm (by simp) ?_ (.of_runs rfl)
  rw [s.owedEvents_setWorker, h]
  exact Function.update_eq_self _ _

theorem EndStep.request {n : Nat} {request : Submit}
    (h : request.pc.owes = (s.submits n).pc.owes) :
    EndStep s a { s with submits := Function.update s.submits n request } := by
  refine .quiet (List.append_nil _).symm (by simp) ?_ (.of_runs rfl)
  rw [s.owedEvents_request, h]
  exact Function.update_eq_self _ _

theorem ExecPc.owes_of_isOver {pc : ExecPc} (h : pc.isOver = true) : pc.owes = none := by
  cases pc <;> simp_all [ExecPc.isOver, ExecPc.owes]

theorem SubmitPc.owes_of_isOver {pc : SubmitPc} (h : pc.isOver = true) : pc.owes = none := by
  cases pc <;> simp_all [SubmitPc.isOver, SubmitPc.owes]

theorem endStep_of_step (hr : RunInv s) (ha : step s a = some t) : EndStep s a t := by
  cases a <;> simp only [step] at ha
  case registry agents =>
    obtain rfl := Option.some.inj ha
    exact .frame rfl rfl rfl rfl (.of_runs rfl)
  case deliver w engine runID =>
    split at ha
    · rename_i hover
      obtain rfl := Option.some.inj ha
      exact .worker (ExecPc.owes_of_isOver hover).symm
    · cases ha
  case work w o =>
    split at ha
    · obtain ⟨⟨pc, e⟩, he, rfl⟩ := Option.map_eq_some_iff.mp ha
      exact .worked hr (Worker.execute_telling he)
    · cases ha
  case shutdown w =>
    obtain rfl := Option.some.inj ha
    exact .worker rfl
  case propagate | renewalFails | keeperCancels | observesCancel =>
    split at ha
    · obtain rfl := Option.some.inj ha
      exact .worker rfl
    · cases ha
  case cancelRun id now =>
    split at ha
    · obtain rfl := Option.some.inj ha
      exact .frame rfl rfl rfl rfl (.of_runs rfl)
    · rename_i hcancel
      obtain rfl := Option.some.inj ha
      exact .canceled hr hcancel rfl rfl rfl rfl rfl
  case announceCanceled index =>
    obtain ⟨run, hrun, rfl⟩ := Option.map_eq_some_iff.mp ha
    obtain ⟨hlt, rfl⟩ := List.getElem?_eq_some_iff.mp hrun
    refine .tells ((List.getElem_cons_eraseIdx_perm hlt).symm.map _) rfl ?_ rfl
    funext k
    rcases k with n | n | - <;> simp [State.owedEvents, Action.announcer]
  case recoverRun id token =>
    split at ha
    · split at ha
      · rename_i hrecover
        obtain rfl := Option.some.inj ha
        obtain ⟨hfalse, -⟩ | ⟨-, run, -, -, rfl⟩ := Memory.recoverRun_ok hrecover
        · cases hfalse
        exact .frame rfl rfl rfl rfl (.put rfl (.inl rfl))
      · obtain rfl := Option.some.inj ha
        exact .frame rfl rfl rfl rfl (.of_runs rfl)
    · cases ha
  case request n maxAttempts requestID body key =>
    have hfirst := receive_owes body key
    generalize receive body key = pc at ha hfirst
    split at ha
    · rename_i hover
      obtain rfl := Option.some.inj ha
      exact .request (hfirst.trans (SubmitPc.owes_of_isOver hover).symm)
    · cases ha
  case agentCall n maxAttempts requestID call =>
    split at ha
    · rename_i hover
      obtain rfl := Option.some.inj ha
      exact .request (SubmitPc.owes_of_isOver hover).symm
    · cases ha
  case handle n o =>
    split at ha
    · obtain ⟨⟨pc, e, created⟩, he, rfl⟩ := Option.map_eq_some_iff.mp ha
      exact .handled hr (Submit.handle_telling he)
    · cases ha
  case createWorkflow workflow now =>
    split at ha
    · obtain rfl := Option.some.inj ha
      exact .frame rfl rfl rfl rfl (.of_runs rfl)
    · rename_i hcreate
      obtain rfl := Option.some.inj ha
      obtain ⟨-, -, rfl⟩ := Memory.createWorkflow_ok hcreate
      exact .frame rfl rfl rfl rfl (.of_runs rfl)
  case startWorkflow | cancelWorkflow =>
    obtain ⟨-, rfl⟩ := State.call_eq ha
    exact .frame rfl rfl rfl rfl (.of_runs rfl)
  case reconcile c config id =>
    split at ha
    · obtain ⟨-, rfl⟩ := State.call_eq ha
      exact .frame rfl rfl rfl rfl (.of_runs rfl)
    · cases ha
  case manage c o =>
    split at ha
    · obtain ⟨⟨pc, e⟩, he, rfl⟩ := Option.map_eq_some_iff.mp ha
      exact .managed hr (Manager.act_move he)
    · cases ha
  case crash c =>
    obtain rfl := Option.some.inj ha
    exact .frame rfl rfl rfl rfl (.of_runs rfl)

/-! ### The invariant -/

/-- The end of the Run `id` is announced exactly once. -/
structure RunEndInv (id : String) (s : State) : Prop where
  once : Announce.Once (s.RunEndedAs id) (s.runEndings id) (s.owedRunEndings id)
  covered : ∀ {type}, s.RunEndedAs id type →
    Announce.Covered (s.runEndings id) (s.owedRunEndings id)

theorem runEndInv_init (id : String) : RunEndInv id init := by
  refine ⟨⟨?_, ?_, ?_, ?_⟩, ?_⟩
  · simp [init, State.runEndings]
  · rintro (n | n | -) <;> simp [init, State.owedRunEndings, State.owedEvents, ExecPc.owes,
      SubmitPc.owes]
  · rintro (n | n | -) <;> simp [init, State.runEndings, State.owedRunEndings, State.owedEvents,
      ExecPc.owes, SubmitPc.owes]
  · rintro (n | n | -) <;> simp [init, State.owedRunEndings, State.owedEvents, ExecPc.owes,
      SubmitPc.owes]
  · rintro type ⟨run, hrun, -⟩
    simp [init] at hrun

/-- A Run that has ended stays as it is. -/
theorem State.RunEndedAs.evolves (h : s.RunEndedAs id type) (hm : s.store.Evolves t.store) :
    t.RunEndedAs id type := by
  obtain ⟨run, hrun, htype⟩ := h
  obtain ⟨run', hrun', -, hsame⟩ := hm.runs hrun
  exact ⟨run, hsame (Run.isTerminal_iff.mpr ⟨type, htype⟩) ▸ hrun', htype⟩

theorem State.RunEndedAs.noneEnds (h : t.RunEndedAs id type) (hm : s.store.NoneEnds t.store) :
    s.RunEndedAs id type := by
  obtain ⟨run, hrun, htype⟩ := h
  exact ⟨run, hm.before hrun (Run.isTerminal_iff.mpr ⟨type, htype⟩), htype⟩

theorem publishRun_ending {run : Run} (h : run.status.endEvent = some type) (attempt : Int) :
    (publishRun run type attempt).ending id = if run.id = id then some type else none := by
  simp [RunEvent.ending, publishRun, isRunEnd_of_endEvent h]

theorem runEndings_quiet {new : List RunEvent}
    (h : ∀ event ∈ new, isRunEnd event.type = false) :
    new.filterMap (RunEvent.ending id) = [] := by
  rw [List.filterMap_eq_nil_iff]
  intro event hevent
  simp [RunEvent.ending, h event hevent]

section Owed

variable {k : Announcer} {owed : List RunEvent}

theorem State.owedRunEndings_self (h : t.owedEvents = Function.update s.owedEvents k owed) :
    t.owedRunEndings id k = owed.filterMap (RunEvent.ending id) := by
  simp [State.owedRunEndings, h]

theorem State.owedRunEndings_of_ne (h : t.owedEvents = Function.update s.owedEvents k owed)
    (n : Announcer) (hn : n ≠ k) : t.owedRunEndings id n = s.owedRunEndings id n := by
  simp [State.owedRunEndings, h, hn]

end Owed

/-- The operation that ends the Run `id` owes its announcement. -/
theorem EndStep.owes {run : Run} (ending : run.status.endEvent = some type)
    (owed : t.owedEvents = Function.update s.owedEvents a.announcer
      (s.owedEvents a.announcer ++ [publishRun run type run.attempt])) :
    t.owedRunEndings id a.announcer
      = s.owedRunEndings id a.announcer ++ (if run.id = id then some type else none).toList := by
  rw [State.owedRunEndings_self owed, Announce.filterMap_append_singleton,
    publishRun_ending ending]
  rfl

theorem Memory.Ends.not_endedAs {run : Run} (h : s.store.Ends t.store run) (type : String) :
    ¬ s.RunEndedAs run.id type := by
  rintro ⟨before, hbefore, htype⟩
  obtain ⟨active, hactive, hact⟩ := h.active
  obtain rfl := Option.some.inj (hbefore.symm.trans hactive)
  exact hact.not_terminal (Run.isTerminal_iff.mpr ⟨type, htype⟩)

theorem RunEndInv.step (h : RunEndInv id s) (hr : RunInv s) (hP : silentFailure s a = false)
    (ha : AgentMesh.step s a = some t) : RunEndInv id t := by
  have hevolves := (hr.step ha).2
  have htruth : ∀ type, s.RunEndedAs id type → t.RunEndedAs id type :=
    fun _ hended => hended.evolves hevolves
  cases endStep_of_step hr ha with
  | quiet events silent owed runs =>
      have htold : t.runEndings id = s.runEndings id := by
        rw [State.runEndings, events, List.filterMap_append, runEndings_quiet silent,
          List.append_nil, State.runEndings]
      have howed : t.owedRunEndings id = s.owedRunEndings id := by
        funext k
        rw [State.owedRunEndings, owed, State.owedRunEndings]
      refine ⟨?_, fun hended => ?_⟩
      · rw [htold, howed]
        exact h.once.frame htruth fun _ => List.Subperm.refl _
      · rw [htold, howed]
        exact h.covered (hended.noneEnds runs)
  | @ends run type ends ending events owed =>
      have htold : t.runEndings id = s.runEndings id := by
        rw [State.runEndings, events, State.runEndings]
      have hself : t.owedRunEndings id a.announcer = _ := EndStep.owes ending owed
      have hother : ∀ k, k ≠ a.announcer → t.owedRunEndings id k = s.owedRunEndings id k :=
        State.owedRunEndings_of_ne owed
      by_cases hid : run.id = id
      · subst hid
        rw [if_pos rfl] at hself
        have hended : t.RunEndedAs run.id type :=
          ⟨run, by rw [ends.stored, AList.lookup_insert], ending⟩
        refine ⟨?_, fun _ => .start hself⟩
        rw [htold]
        refine h.once.start ends.not_endedAs ?_ hself hother
        rintro x hx
        exact Option.some.inj hx ▸ hended
      · -- another Run has ended
        have howed : t.owedRunEndings id = s.owedRunEndings id := by
          funext k
          by_cases hk : k = a.announcer
          · rw [hk, hself, if_neg hid]
            simp
          · exact hother k hk
        refine ⟨?_, ?_⟩
        · rw [htold, howed]
          exact h.once.frame htruth fun _ => List.Subperm.refl _
        · rintro type' ⟨run', hrun', htype'⟩
          rw [ends.stored, Table.lookup_insert_eq, if_neg (Ne.symm hid)] at hrun'
          rw [htold, howed]
          exact h.covered ⟨run', hrun', htype'⟩
  | @tells event rest before events owed store =>
      have htold : t.runEndings id = s.runEndings id ++ (event.ending id).toList := by
        rw [State.runEndings, events, Announce.filterMap_append_singleton, State.runEndings]
      have hbefore : (s.owedRunEndings id a.announcer).Perm
          ((event.ending id).toList ++ rest.filterMap (RunEvent.ending id)) := by
        rw [← Announce.filterMap_cons]
        exact before.filterMap _
      have hself : t.owedRunEndings id a.announcer = _ := State.owedRunEndings_self owed
      have hother : ∀ k, k ≠ a.announcer → t.owedRunEndings id k = s.owedRunEndings id k :=
        State.owedRunEndings_of_ne owed
      refine ⟨?_, ?_⟩
      · rw [htold]
        exact h.once.tell htruth hbefore hself hother
      · rintro type ⟨run, hrun, htype⟩
        rw [htold]
        exact (h.covered ⟨run, store ▸ hrun, htype⟩).tell hbefore hself hother
  | drops silently =>
      rw [silently] at hP
      cases hP

theorem runEndInv_runs (hs : Runs step (fun s a => silentFailure s a = false) init s) :
    RunInv s ∧ RunEndInv id s := by
  refine hs.invariant (I := fun s => RunInv s ∧ RunEndInv id s) ⟨runInv_init, runEndInv_init id⟩ ?_
  intro u v a hI hP ha
  exact ⟨(hI.1.step ha).1, hI.2.step hI.1 hP ha⟩

/-! ### Every end is announced once -/

/-- An operation that owes an event publishes it with its next action. -/
theorem exists_publish {k : Announcer} {event : RunEvent} (h : event ∈ s.owedEvents k) :
    ∃ a t, a.announcer = k ∧ step s a = some t ∧ t.events = s.events ++ [event] := by
  rcases k with w | n | -
  · have howes : (s.workers w).pc.owes = some event := Option.mem_toList.mp h
    have hevent : ∃ pc e, (s.workers w).execute {} s.store = some (pc, e) ∧ e.events = [event] := by
      cases hpc : (s.workers w).pc <;>
        simp only [hpc, ExecPc.owes, Option.some.injEq, reduceCtorEq] at howes
      all_goals
        subst howes
        simp [Worker.execute, hpc]
    have hleft : (s.workers w).fenceLeft s.store = true := by
      cases hpc : (s.workers w).pc <;> simp_all [ExecPc.owes, Worker.fenceLeft]
    obtain ⟨pc, e, he, hevents⟩ := hevent
    exact ⟨.work w {}, s.worked w pc e, rfl, by simp [step, hleft, he],
      by rw [State.worked, hevents]⟩
  · have howes : (s.submits n).pc.owes = some event := Option.mem_toList.mp h
    cases hpc : (s.submits n).pc <;>
      simp only [hpc, SubmitPc.owes, Option.some.injEq, reduceCtorEq] at howes
    case publishFailed run =>
      subst howes
      exact ⟨.handle n {}, _, rfl, by simp [step, Submit.fresh, Submit.handle, hpc]; rfl, rfl⟩
  · obtain ⟨run, hrun, rfl⟩ := List.mem_map.mp h
    obtain ⟨index, hlt, rfl⟩ := List.mem_iff_getElem.mp hrun
    exact ⟨.announceCanceled index, _, rfl, by simp [step, List.getElem?_eq_getElem hlt]; rfl, rfl⟩

theorem State.RunEndedAs.unique {type' : String} (h : s.RunEndedAs id type)
    (h' : s.RunEndedAs id type') : type' = type := by
  obtain ⟨run, hrun, htype⟩ := h
  obtain ⟨run', hrun', htype'⟩ := h'
  obtain rfl := Option.some.inj (hrun.symm.trans hrun')
  exact Option.some.inj (htype'.symm.trans htype)

/-- **Every end of a Run is announced exactly once.**  In a run in which no call of an Agent
fails its child silently, every terminal event is true of the stored Run, and a Run that has
ended is announced, once, or the operation that has stored its end publishes the event with
its next action; this is the operation of the very action that stores the end. -/
theorem run_end_announced (hs : Runs step (fun s a => silentFailure s a = false) init s)
    (id : String) :
    (∀ type ∈ s.runEndings id, s.RunEndedAs id type) ∧
    (∀ type, s.RunEndedAs id type → s.runEndings id = [type] ∨
      s.runEndings id = [] ∧ ∃ a t, s.owedRunEndings id a.announcer = [type] ∧
        step s a = some t ∧ t.runEndings id = [type]) ∧
    ∀ a t type, silentFailure s a = false → step s a = some t →
      (∀ type, ¬ s.RunEndedAs id type) → t.RunEndedAs id type →
        t.runEndings id = [] ∧ t.owedRunEndings id a.announcer = [type] := by
  obtain ⟨hr, hinv⟩ : RunInv s ∧ RunEndInv id s := runEndInv_runs hs
  refine ⟨hinv.once.told_true, ?_, ?_⟩
  · intro type htype
    have honly : ∀ type', s.RunEndedAs id type' → type' = type := fun _ => htype.unique
    have : Nonempty Announcer := ⟨.engine⟩
    obtain htold | ⟨htold, k, howed⟩ := hinv.once.of_covered (hinv.covered htype) honly
    · exact .inl htold
    obtain ⟨event, hevent, hending⟩ : ∃ event ∈ s.owedEvents k, event.ending id = some type := by
      rw [← List.mem_filterMap, ← State.owedRunEndings, howed]
      exact List.mem_singleton_self type
    obtain ⟨a, t, rfl, ha, hevents⟩ := exists_publish hevent
    refine .inr ⟨htold, a, t, howed, ha, ?_⟩
    rw [State.runEndings, hevents, Announce.filterMap_append_singleton, hending, ← State.runEndings,
      htold]
    rfl
  · intro a t type hP ha hnone htype
    obtain ⟨htold, howed⟩ := hinv.once.silent hnone
    cases endStep_of_step hr ha with
    | quiet _ _ _ runs => exact absurd (htype.noneEnds runs) (hnone type)
    | @ends run type' ends ending events owed =>
        have hid : run.id = id := by
          by_contra hid
          obtain ⟨run', hrun', htype'⟩ := htype
          rw [ends.stored, Table.lookup_insert_eq, if_neg (Ne.symm hid)] at hrun'
          exact hnone type ⟨run', hrun', htype'⟩
        subst hid
        have hended : t.RunEndedAs run.id type' :=
          ⟨run, by rw [ends.stored, AList.lookup_insert], ending⟩
        obtain rfl := htype.unique hended
        refine ⟨?_, ?_⟩
        · rw [State.runEndings, events, ← State.runEndings, htold]
        · rw [EndStep.owes ending owed, howed, if_pos rfl]
          rfl
    | tells _ _ _ store =>
        obtain ⟨run, hrun, htype'⟩ := htype
        exact absurd ⟨run, store ▸ hrun, htype'⟩ (hnone type)
    | drops silently =>
        rw [silently] at hP
        cases hP

theorem run_end_announced_succeeded :
    ∃ s, Runs step (fun s a => silentFailure s a = false) init s ∧
      s.runEndings "run_1" = ["run.succeeded"] ∧ s.RunEndedAs "run_1" "run.succeeded" := by
  obtain ⟨s, hs, hendings⟩ :
      ∃ s, exec (guarded step fun s a => !silentFailure s a) init
          (submitRun 3 ++ workOn 0 15 { returned := ⟨.ok "done", false⟩ }) = some s ∧
        s.runEndings "run_1" = ["run.succeeded"] := by
    refine exists_of_any ?_
    decide +kernel
  have hruns : Runs step (fun s a => silentFailure s a = false) init s :=
    runs_exec_guarded (fun _ _ h => by simpa using h) hs
  exact ⟨s, hruns, hendings, (run_end_announced hruns "run_1").1 _ (by simp [hendings])⟩

/-- The Agent of `run_1`, which is running, calls another one; the queue refuses the child. -/
def refusedCall : List Action :=
  List.flatten
    [submitRun 3,
      [.registry (AList.insert "agent_2" { id := "agent_2" }
        (AList.insert "agent_1" { id := "agent_1" } ∅))],
      workOn 0 9 {},
      [.agentCall 1 3 "req_2" { parentID := "run_1", callerHeader := "agent_1"
                                idempotencyHeader := "call"
                                body := { agentID := "agent_2", input := "hello" } }],
      List.replicate 3 (.handle 1 {}),
      [.handle 1 { newID := "run_2" }, .handle 1 {},
        .handle 1 { enqueue := some (errorf "queue is full") }, .handle 1 {}]]

/-- The request for the child is over, the child is stored as failed, and no event says so. -/
theorem callFail_publishes_nothing :
    ∃ s, exec step init refusedCall = some s ∧
      (s.store.runs.lookup "run_2").map Run.status = some .failed ∧
      (s.submits 1).pc.isOver = true ∧ s.runEndings "run_2" = [] ∧
      s.owedRunEndings "run_2" (.request 1) = [] ∧ s.canceling = [] := by
  refine exists_of_any ?_
  decide +kernel

end AgentMesh
