/-
AgentMesh/Tasks.lean

What a manager call does after it has stored an update: the Runs that it asks
the engine to cancel and the events that it emits.

A stored update leaves the call with a list of tasks (`ManagerPc.plan`), which
it works off one by one.  `Manager.TodoMove` sorts the actions of a call by what
they do to this list, and `TaskStep` the steps of the system.  A task that a
call has taken on is done before the call is over, unless its process dies
(`State.Owes`).

`ManagerPc.Planned` is what further rides on the control points that write: a
Workflow that ends is written at two of them only, and `CancelWorkflow` has
noted the Runs that were active in the Workflow it is about to replace.
-/
import AgentMesh.FlowSafety

namespace AgentMesh

open Machine

/-! ### Tasks of a call -/

/-- The tasks that a call still has to do. -/
def ManagerPc.todo : ManagerPc → List Task
  | .tasks todo next => todo ++ next.todo
  | _ => []

/-- The tasks that come with the update that a call stores. -/
def ManagerPc.plan (updated : Workflow) : ManagerPc → List Task
  | .storeTerminal candidate previous =>
      cancelCanceledStepRuns updated ++ emitStepTransitions updated previous
        ++ [.emit candidate.id "" "" (workflowTerminalEvent candidate.status) candidate.error]
  | .storeChanged _ previous => emitStepTransitions updated previous
  | .assign _ next _ =>
      match updated.steps[next]? with
      | none => []
      | some step =>
          [.emit updated.id step.id step.runID "workflow.step_queued" "workflow step queued"]
  | .fail candidate cause => [.emit candidate.id "" "" "workflow.failed" cause.text]
  | .startStore _ => [.emit updated.id "" "" "workflow.started" "workflow execution started"]
  | .cancelStore _ active =>
      active.map Task.cancelRun
        ++ [.emit updated.id "" "" "workflow.canceled" "workflow canceled"]
  | _ => []

/-- `failWorkflow` finds that the Workflow was updated since it was read. -/
def ManagerPc.failsLate (o : ManagerOracle) (m : Memory) : ManagerPc → Bool
  | .fail candidate cause =>
      match m.updateWorkflow (candidate.failWith cause o.now) candidate.version with
      | .error err => err.is .conflict
      | .ok _ => false
  | _ => false

/-- Workflows and their events are left alone. -/
structure Memory.SameFlows (m m' : Memory) : Prop where
  workflows : m'.workflows = m.workflows
  events : m'.workflowEvents = m.workflowEvents

/-- The actions of a call, by what they do to its tasks. -/
inductive Manager.TodoMove (c : Manager) (o : ManagerOracle) (m : Memory) :
    ManagerPc → ManagerEffect → Prop
  | silent {pc : ManagerPc} {e : ManagerEffect} (todo : pc.todo = c.pc.todo)
      (flows : m.SameFlows e.store) (asked : e.asked = none) (emitted : e.emitted = none) :
      TodoMove c o m pc e
  /-- An update is stored, and the tasks that come with it are taken on. -/
  | write {candidate updated : Workflow} {next : ManagerPc} {e : ManagerEffect}
      (writes : c.pc.writes o = some candidate)
      (update : m.updateWorkflow candidate candidate.version = .ok (e.store, updated))
      (after : next.todo = []) (asked : e.asked = none) (emitted : e.emitted = none) :
      TodoMove c o m (.tasks (c.pc.plan updated) next) e
  /-- `failWorkflow` ignores a conflict and emits its event. -/
  | late {candidate : Workflow} {cause : Err} {next : ManagerPc} {e : ManagerEffect}
      (pc : c.pc = .fail candidate cause) (late : c.pc.failsLate o m = true)
      (store : e.store = m) (after : next.todo = []) (asked : e.asked = none)
      (emitted : e.emitted = none) :
      TodoMove c o m (.tasks [.emit candidate.id "" "" "workflow.failed" cause.text] next) e
  | ask {runID : String} {rest : List Task} {next : ManagerPc} {e : ManagerEffect}
      (pc : c.pc = .tasks (.cancelRun runID :: rest) next) (flows : m.SameFlows e.store)
      (asked : e.asked = some runID) (emitted : e.emitted = none) :
      TodoMove c o m (.tasks rest next) e
  | emit {event : WorkflowEvent} {rest : List Task} {next : ManagerPc} {e : ManagerEffect}
      (pc : c.pc = .tasks (.emit event.workflowID event.stepID event.runID event.type
        event.message :: rest) next)
      (id : event.id = o.newID) (timestamp : event.timestamp = o.now)
      (append : m.appendWorkflowEvent event eventRetention eventHistoryLimit o.now = .ok e.store ∨
        m.workflows.lookup event.workflowID = none ∧ e.store = m)
      (asked : e.asked = none) (emitted : e.emitted = some event) :
      TodoMove c o m (.tasks rest next) e

section Calls

variable {c : Manager} {o : ManagerOracle} {m m' : Memory} {pc : ManagerPc} {e : ManagerEffect}
  {candidate : Workflow} {now : Time}

theorem reconcileUpdate_tasks {next : Workflow → ManagerPc}
    (h : reconcileUpdate m candidate next = (pc, e)) :
    e.asked = none ∧ e.emitted = none ∧
      ((∃ updated, m.updateWorkflow candidate candidate.version = .ok (e.store, updated) ∧
          pc = next updated) ∨ e.store = m ∧ pc.todo = []) := by
  rw [reconcileUpdate] at h
  split at h
  · split at h
    all_goals
      obtain ⟨rfl, rfl⟩ := Prod.mk.inj h
      exact ⟨rfl, rfl, .inr ⟨rfl, rfl⟩⟩
  · rename_i m' updated hupdate
    obtain ⟨rfl, rfl⟩ := Prod.mk.inj h
    exact ⟨rfl, rfl, .inl ⟨updated, hupdate, rfl⟩⟩

theorem Manager.TodoMove.of_reconcileUpdate {next : Workflow → ManagerPc} {then_ : ManagerPc}
    (hw : c.pc.writes o = some candidate) (hbefore : c.pc.todo = [])
    (h : reconcileUpdate m candidate next = (pc, e))
    (hnext : ∀ updated, next updated = .tasks (c.pc.plan updated) then_)
    (hthen : then_.todo = []) : c.TodoMove o m pc e := by
  obtain ⟨hasked, hemitted, ⟨updated, hupdate, rfl⟩ | ⟨hstore, htodo⟩⟩ := reconcileUpdate_tasks h
  · rw [hnext]
    exact .write hw hupdate hthen hasked hemitted
  · exact .silent (htodo.trans hbefore.symm) (hstore ▸ ⟨rfl, rfl⟩) hasked hemitted

theorem Manager.schedule_todo (c : Manager) (candidate : Workflow)
    (previous : Table WorkflowStepStatus) (now : Time) :
    (c.schedule candidate previous now).todo = [] := by
  rw [Manager.schedule]
  repeat' split
  all_goals rfl

theorem Manager.refreshStep_todo (c : Manager) (candidate : Workflow)
    (previous : Table WorkflowStepStatus) (index : Nat) (changed allSucceeded : Bool) (now : Time)
    (m : Memory) :
    (c.refreshStep candidate previous index changed allSucceeded now m).todo = [] := by
  rw [Manager.refreshStep]
  split
  · rw [Manager.refreshed]
    repeat' split
    all_goals first
      | rfl
      | exact c.schedule_todo candidate previous now
  · simp only
    repeat' split
    all_goals rfl

theorem Memory.OnlyRuns.sameFlows (h : m.OnlyRuns m') : m.SameFlows m' :=
  ⟨h.workflows, h.workflowEvents⟩

/-- Every action of a call is in one of the classes. -/
theorem Manager.act_todoMove (h : c.act o m = some (pc, e)) : c.TodoMove o m pc e := by
  cases hpc : c.pc <;> simp only [Manager.act, hpc, Option.some.injEq, reduceCtorEq] at h
  -- a call that reads or waits has nothing to do yet
  case load | enqueue | startLoad | cancelLoad =>
    have htodo : c.pc.todo = [] := by rw [hpc]; rfl
    repeat' split at h
    all_goals cases h
    all_goals exact .silent htodo.symm ⟨rfl, rfl⟩ rfl rfl
  case refresh =>
    cases h
    refine .silent ?_ ⟨rfl, rfl⟩ rfl rfl
    rw [hpc]
    exact c.refreshStep_todo ..
  case storeTerminal | storeChanged | assign =>
    exact .of_reconcileUpdate (by rw [hpc]; rfl) (by rw [hpc]; rfl) h
      (fun updated => by rw [hpc]; rfl) rfl
  case createRun candidate next input parentRunID =>
    split at h
    · cases h
    · split at h
      · cases h
        exact .silent (by rw [hpc]; rfl) ⟨rfl, rfl⟩ rfl rfl
      · rename_i hcreate
        cases h
        exact .silent (by rw [hpc]; rfl)
          (Memory.createRun_onlyRuns (createStepRun_ok hcreate)).sameFlows rfl rfl
  case fail candidate cause =>
    split at h
    · rename_i err hrefused
      split at h
      · rename_i hconflict
        cases h
        have hlate : c.pc.failsLate o m = true := by
          rw [hpc, ManagerPc.failsLate]
          have hversion : (candidate.failWith cause o.now).version = candidate.version := rfl
          rw [← hversion, hrefused]
          exact hconflict
        have hmove : c.TodoMove o m
            (.tasks [.emit candidate.id "" "" "workflow.failed" cause.text] (.done (some cause)))
            { store := m } := .late hpc hlate rfl rfl rfl rfl
        exact hmove
      · cases h
        exact .silent (by rw [hpc]; rfl) ⟨rfl, rfl⟩ rfl rfl
    · rename_i m' updated hupdate
      cases h
      have hplan : c.pc.plan updated = [.emit candidate.id "" "" "workflow.failed" cause.text] := by
        rw [hpc]; rfl
      exact hplan ▸ .write (by rw [hpc]; rfl) hupdate rfl rfl rfl
  case startStore candidate =>
    split at h
    · cases h
      exact .silent (by rw [hpc]; rfl) ⟨rfl, rfl⟩ rfl rfl
    · rename_i m' updated hupdate
      cases h
      have hplan : c.pc.plan updated
          = [.emit updated.id "" "" "workflow.started" "workflow execution started"] := by
        rw [hpc]; rfl
      exact hplan ▸ .write (by rw [hpc]; rfl) hupdate rfl rfl rfl
  case cancelStore candidate active =>
    split at h
    · cases h
      exact .silent (by rw [hpc]; rfl) ⟨rfl, rfl⟩ rfl rfl
    · rename_i m' updated hupdate
      cases h
      have hplan : c.pc.plan updated = active.map Task.cancelRun
          ++ [.emit updated.id "" "" "workflow.canceled" "workflow canceled"] := by
        rw [hpc]; rfl
      exact hplan ▸ .write (by rw [hpc]; rfl) hupdate rfl rfl rfl
  case tasks todo next =>
    rcases todo with - | ⟨runID | ⟨workflowID, stepID, runID, type, message⟩, rest⟩
    · cases h
      exact .silent (by rw [hpc]; rfl) ⟨rfl, rfl⟩ rfl rfl
    · simp only at h
      split at h
      · cases h
        exact .ask hpc ⟨rfl, rfl⟩ rfl rfl
      · rename_i hcancel
        cases h
        obtain ⟨existing, -, -, hstore⟩ := Memory.cancelRun_ok hcancel
        exact .ask hpc (hstore ▸ ⟨rfl, rfl⟩) rfl rfl
    · simp only at h
      split at h
      · rename_i hrefused
        cases h
        refine .emit hpc rfl rfl (.inr ⟨?_, rfl⟩) rfl rfl
        rw [Memory.appendWorkflowEvent] at hrefused
        split at hrefused
        · assumption
        · cases hrefused
      · rename_i hevent
        cases h
        exact .emit hpc rfl rfl (.inl hevent) rfl rfl

end Calls

/-! ### Steps -/

/-- The tasks of all calls. -/
def State.todo (s : State) (c : Nat) : List Task := (s.managers c).pc.todo

/-- No stored Workflow changes, and no event is stored. -/
structure Memory.KeepsFlows (m m' : Memory) : Prop where
  workflows : ∀ {id w}, m.workflows.lookup id = some w → m'.workflows.lookup id = some w
  events : m'.workflowEvents = m.workflowEvents

theorem Memory.SameFlows.keeps {m m' : Memory} (h : m.SameFlows m') : m.KeepsFlows m' :=
  ⟨fun hw => h.workflows ▸ hw, h.events⟩

/-- The steps of the system, by what they do to tasks. -/
inductive TaskStep (s : State) : Action → State → Prop
  | quiet {a : Action} {t : State} (todo : t.todo = s.todo) (flows : s.store.KeepsFlows t.store)
      (asked : t.asked = s.asked) (emitted : t.emitted = s.emitted) : TaskStep s a t
  /-- The tasks of a process that dies are lost. -/
  | crash {c : Nat} {t : State} (todo : t.todo = Function.update s.todo c [])
      (flows : s.store.KeepsFlows t.store) (asked : t.asked = s.asked)
      (emitted : t.emitted = s.emitted) : TaskStep s (.crash c) t
  | write {c : Nat} {o : ManagerOracle} {t : State} {candidate updated : Workflow}
      {next : ManagerPc} (writes : (s.managers c).pc.writes o = some candidate)
      (update : s.store.updateWorkflow candidate candidate.version = .ok (t.store, updated))
      (pc : (t.managers c).pc = .tasks ((s.managers c).pc.plan updated) next)
      (after : next.todo = [])
      (todo : t.todo = Function.update s.todo c ((s.managers c).pc.plan updated))
      (asked : t.asked = s.asked) (emitted : t.emitted = s.emitted) :
      TaskStep s (.manage c o) t
  | late {c : Nat} {o : ManagerOracle} {t : State} {candidate : Workflow} {cause : Err}
      (pc : (s.managers c).pc = .fail candidate cause)
      (late : (s.managers c).pc.failsLate o s.store = true)
      (todo : t.todo = Function.update s.todo c
        [.emit candidate.id "" "" "workflow.failed" cause.text])
      (store : t.store = s.store) (asked : t.asked = s.asked) (emitted : t.emitted = s.emitted) :
      TaskStep s (.manage c o) t
  | ask {c : Nat} {o : ManagerOracle} {t : State} {runID : String} {rest : List Task}
      (before : s.todo c = .cancelRun runID :: rest) (todo : t.todo = Function.update s.todo c rest)
      (flows : s.store.KeepsFlows t.store) (asked : t.asked = s.asked ++ [runID]) (emitted : t.emitted = s.emitted) :
      TaskStep s (.manage c o) t
  | emit {c : Nat} {o : ManagerOracle} {t : State} {event : WorkflowEvent} {rest : List Task}
      (before : s.todo c = .emit event.workflowID event.stepID event.runID event.type
        event.message :: rest)
      (todo : t.todo = Function.update s.todo c rest) (id : event.id = o.newID)
      (timestamp : event.timestamp = o.now)
      (append : s.store.appendWorkflowEvent event eventRetention eventHistoryLimit o.now
          = .ok t.store ∨
        s.store.workflows.lookup event.workflowID = none ∧ t.store = s.store)
      (asked : t.asked = s.asked) (emitted : t.emitted = s.emitted ++ [event]) :
      TaskStep s (.manage c o) t

section Steps

variable {s t : State} {a : Action} {c : Nat}

theorem State.todo_setManager (s : State) (c : Nat) (manager : Manager) :
    (s.setManager c manager).todo = Function.update s.todo c manager.pc.todo := by
  funext n
  by_cases hn : n = c
  · subst hn
    simp [State.todo, State.setManager]
  · simp [State.todo, State.setManager, hn]

theorem State.todo_managed (s : State) (c : Nat) (pc : ManagerPc) (e : ManagerEffect) :
    (s.managed c pc e).todo = Function.update s.todo c pc.todo :=
  s.todo_setManager c { s.managers c with pc := pc }

theorem ManagerPc.todo_of_isOver {pc : ManagerPc} (h : pc.isOver = true) : pc.todo = [] := by
  cases pc <;> first | rfl | cases h

theorem update_todo_self (h : s.todo c = []) : Function.update s.todo c [] = s.todo := by
  rw [← h, Function.update_eq_self]

theorem taskStep_of_step (ha : step s a = some t) : TaskStep s a t := by
  cases systemMove_of_step ha with
  | other _ workflows _ _ managers _ _ _ asked emitted events =>
      refine .quiet ?_ (Memory.SameFlows.keeps ⟨workflows, events⟩) asked emitted
      funext c
      rw [State.todo, managers, State.todo]
  | worker | request => exact .quiet rfl ⟨id, rfl⟩ rfl rfl
  | worked _ act => exact .quiet rfl (Worker.execute_move act).keeps.1.sameFlows.keeps rfl rfl
  | handled _ move => exact .quiet rfl move.onlyRuns.sameFlows.keeps rfl rfl
  | @called _ c manager _ pc free =>
      have hnone : manager.pc.todo = [] := by
        rcases pc with hpc | ⟨id, hpc⟩ | ⟨id, hpc⟩ | ⟨config, id, -, rfl⟩
        · rw [hpc]; rfl
        · rw [hpc]; rfl
        · rw [hpc]; rfl
        · rfl
      have htodo := s.todo_setManager c manager
      rw [hnone] at htodo
      rcases free with hover | rfl
      · rw [update_todo_self (ManagerPc.todo_of_isOver hover)] at htodo
        exact .quiet htodo ⟨id, rfl⟩ rfl rfl
      · exact .crash htodo ⟨id, rfl⟩ rfl rfl
  | @managed c o pc e _ act =>
      have htodo := s.todo_managed c pc e
      -- the history of the new state is the old one and what the action adds
      have hasked : (s.managed c pc e).asked = s.asked ++ e.asked.toList := rfl
      have hemitted : (s.managed c pc e).emitted = s.emitted ++ e.emitted.toList := rfl
      cases Manager.act_todoMove act with
      | silent todo flows asked emitted =>
          refine .quiet ?_ flows.keeps (by simp [hasked, asked]) (by simp [hemitted, emitted])
          rw [htodo, todo]
          exact Function.update_eq_self c s.todo
      | @write candidate updated next _ writes update after asked emitted =>
          have hpc : ((s.managed c (.tasks ((s.managers c).pc.plan updated) next) e).managers c).pc
              = .tasks ((s.managers c).pc.plan updated) next := by simp [State.managed]
          rw [ManagerPc.todo, after, List.append_nil] at htodo
          exact .write writes update hpc after htodo (by simp [hasked, asked])
            (by simp [hemitted, emitted])
      | late hpc late store after asked emitted =>
          rw [ManagerPc.todo, after, List.append_nil] at htodo
          exact .late hpc late htodo store (by simp [hasked, asked]) (by simp [hemitted, emitted])
      | @ask runID rest next _ hpc flows asked emitted =>
          have hbefore : s.todo c = .cancelRun runID :: (rest ++ next.todo) := by
            rw [State.todo, hpc, ManagerPc.todo, List.cons_append]
          exact .ask hbefore htodo flows.keeps (by simp [hasked, asked]) (by simp [hemitted, emitted])
      | @emit event rest next _ hpc id timestamp append asked emitted =>
          have hbefore : s.todo c = .emit event.workflowID event.stepID event.runID event.type
              event.message :: (rest ++ next.todo) := by
            rw [State.todo, hpc, ManagerPc.todo, List.cons_append]
          exact .emit hbefore htodo id timestamp append (by simp [hasked, asked])
            (by simp [hemitted, emitted])
  | @created _ accepted _ _ create =>
      obtain ⟨-, habs, rfl⟩ := Memory.createWorkflow_ok create
      refine .quiet rfl ⟨?_, rfl⟩ rfl rfl
      intro id w hw
      have hne : id ≠ accepted.id := by
        rintro rfl
        rw [habs] at hw
        cases hw
      simpa [hne] using hw
  | canceled cancel =>
      obtain ⟨existing, -, -, rfl⟩ := Memory.cancelRun_ok cancel
      exact .quiet rfl ⟨id, rfl⟩ rfl rfl
  | recovered _ recover =>
      obtain ⟨hfalse, -⟩ | ⟨-, run, -, -, rfl⟩ := Memory.recoverRun_ok recover
      · cases hfalse
      · exact .quiet rfl ⟨id, rfl⟩ rfl rfl

/-- Where a stored Workflow changes, its writer takes on the tasks of the update. -/
theorem TaskStep.write_of_change (h : TaskStep s a t) {id : String} {w w' : Workflow}
    (hw : s.store.workflows.lookup id = some w) (hw' : t.store.workflows.lookup id = some w')
    (hne : w' ≠ w) : ∃ c o candidate updated next, a = .manage c o ∧
      (s.managers c).pc.writes o = some candidate ∧
      s.store.updateWorkflow candidate candidate.version = .ok (t.store, updated) ∧
      (t.managers c).pc = .tasks ((s.managers c).pc.plan updated) next ∧ next.todo = [] := by
  have hkeep : t.store.workflows.lookup id = some w → False := fun hsame =>
    hne (Option.some.inj (hw'.symm.trans hsame))
  cases h with
  | quiet _ flows | crash _ flows | ask _ _ flows => exact (hkeep (flows.workflows hw)).elim
  | late _ _ _ store => exact (hkeep (store ▸ hw)).elim
  | emit _ _ _ _ append =>
      obtain happend | ⟨-, hstore⟩ := append
      · obtain ⟨events, hm⟩ := Memory.appendWorkflowEvent_ok happend
        exact (hkeep (by rw [hm]; exact hw)).elim
      · exact (hkeep (hstore ▸ hw)).elim
  | write writes update pc after => exact ⟨_, _, _, _, _, rfl, writes, update, pc, after⟩

/-- A call that is asked to write has no tasks. -/
theorem ManagerPc.todo_of_writes {pc : ManagerPc} {o : ManagerOracle} {w : Workflow}
    (h : pc.writes o = some w) : pc.todo = [] := by
  cases pc <;> first | rfl | cases h

/-! ### Control points that write -/

/-- What further rides on a control point: whether the Workflow has ended in the copy, and
which Runs `CancelWorkflow` has noted. -/
def ManagerPc.Planned (m : Memory) : ManagerPc → Prop
  | .storeTerminal c _ => c.isTerminal = true
  | .storeChanged c _ | .assign c _ _ | .startStore c => c.isTerminal = false
  | .cancelStore c active => c.status = .canceled ∧ ∃ w₀ w, active = activeRunIDs w₀ ∧
      c.version = w₀.version ∧ m.workflows.lookup c.id = some w ∧
      Optimistic.Moves Workflow.version Workflow.Next w₀ w
  | .tasks _ next => next.Planned m
  | _ => True

theorem ManagerPc.Planned.of_copy {m : Memory} {pc : ManagerPc} (h : pc.copy = none) :
    pc.Planned m := by
  induction pc with
  | storeTerminal | storeChanged | assign | startStore | cancelStore => cases h
  | tasks _ next ih => exact ih h
  | _ => trivial

theorem ManagerPc.Planned.mono {m m' : Memory} {pc : ManagerPc} (h : pc.Planned m)
    (hflows : m.FlowsTo m') : pc.Planned m' := by
  induction pc with
  | cancelStore c active =>
      obtain ⟨hcanceled, w₀, w, hactive, hversion, hw, hmoves⟩ := h
      obtain ⟨w', hw', hmoves'⟩ := hflows _ _ hw
      exact ⟨hcanceled, w₀, w', hactive, hversion, hw', hmoves.trans Workflow.Next.trans hmoves'⟩
  | tasks _ next ih => exact ih h
  | _ => exact h

theorem skips_isTerminal {w w' : Workflow} {now : Time}
    (h : Relation.ReflTransGen (Workflow.Skip now) w w') : w'.isTerminal = w.isTerminal := by
  induction h with
  | refl => rfl
  | tail _ hskip ih =>
      obtain ⟨i, step, cond, -, -, -, -, -, rfl⟩ := hskip
      exact ih

theorem Manager.schedule_planned {m : Memory} {c : Manager} {candidate : Workflow}
    {previous : Table WorkflowStepStatus} {now : Time} (haccepted : candidate.Accepted)
    (hgoing : candidate.isTerminal = false) : (c.schedule candidate previous now).Planned m := by
  rw [Manager.schedule]
  split
  · exact (skips_isTerminal (applyConditions_skips haccepted now).1).trans hgoing
  · repeat' split
    all_goals trivial

theorem Manager.refreshStep_planned {m : Memory} {c : Manager} {candidate : Workflow}
    {previous : Table WorkflowStepStatus} {index : Nat} {changed allSucceeded : Bool} {now : Time}
    (hok : (ManagerPc.refresh candidate previous index changed allSucceeded).Ok ⊤ m) :
    (c.refreshStep candidate previous index changed allSucceeded now m).Planned m := by
  obtain ⟨hdraft, hgoing, -⟩ := hok
  rw [Manager.refreshStep]
  split
  · rw [Manager.refreshed]
    split
    · exact rfl
    split
    · exact hgoing
    · exact schedule_planned hdraft.sound.accepted hgoing
  simp only
  repeat' split
  any_goals trivial
  -- a failed or canceled Run ends the Workflow
  rw [ManagerPc.Planned, Workflow.terminate]
  split <;> rfl

theorem Manager.FlowMove.planned {c : Manager} {o : ManagerOracle} {m : Memory} {pc : ManagerPc}
    {e : ManagerEffect} (h : c.FlowMove o m pc e) (hc : c.pc.Ok ⊤ m) (hm : m.FlowsOk ⊤)
    (hflows : m.FlowsTo e.store) (hplanned : c.pc.Planned m) : pc.Planned e.store := by
  cases h with
  | free _ free | write _ _ free => exact .of_copy (ManagerPc.copy_of_free free)
  | load | createFails => trivial
  | refresh hpc store =>
      rw [hpc] at hc
      rw [store]
      exact refreshStep_planned hc
  | create hpc =>
      rw [hpc] at hc
      exact hc.2.1
  | start => exact rfl
  | @cancel id w _ _ found _ store =>
      have hw : m.workflows.lookup (w.cancelAt o.now).id = some w := by
        show m.workflows.lookup w.id = some w
        rw [hm.id found, found]
      rw [store]
      exact ⟨rfl, w, w, rfl, rfl, hw, .inl rfl⟩
  | task tasks _ after =>
      have hnext := hplanned.mono hflows
      rw [tasks] at hnext
      rcases after with rfl | ⟨rest, rfl⟩ <;> exact hnext

/-- Every call is at a control point with the facts that ride on it. -/
def PlannedInv (s : State) : Prop := ∀ c, (s.managers c).pc.Planned s.store

theorem PlannedInv.step (h : PlannedInv s) (hr : RunInv s) (hflow : FlowInv ⊤ s)
    (ha : AgentMesh.step s a = some t) : PlannedInv t := by
  have hflows := (hflow.step hr (withinLimit_top s a) ha).2
  intro c
  refine managerPc_of_step ha ((h c).mono hflows) .of_copy fun hmove hstore => ?_
  rw [hstore] at hflows ⊢
  exact hmove.planned (hflow.managers c).pc hflow.flows hflows (h c)

theorem plannedInv_runs {P : State → Action → Prop} (h : Runs step P init s) : PlannedInv s :=
  flow_invariant (fun _ => trivial) (fun hr hflow hI _ ha => hI.step hr hflow ha) h

/-! ### Owed cancellations -/

/-- The engine was asked to cancel the Run, or the call `c` will ask it. -/
def State.Owes (s : State) (c : Nat) (runID : String) : Prop :=
  runID ∈ s.asked ∨ Task.cancelRun runID ∈ s.todo c

/-- Only the death of its process keeps a call from what it owes. -/
theorem State.Owes.step {runID : String} (h : s.Owes c runID) (ha : AgentMesh.step s a = some t)
    (hlive : a ≠ .crash c) : t.Owes c runID := by
  -- an entry of the history stays there
  have hdone : ∀ {more}, t.asked = s.asked ++ more → runID ∈ s.asked → t.Owes c runID := by
    intro more hasked hmem
    exact .inl (hasked ▸ List.mem_append_left more hmem)
  have hkeep : t.asked = s.asked → t.todo c = s.todo c → t.Owes c runID := by
    intro hasked htodo
    rw [State.Owes, hasked, htodo]
    exact h
  cases taskStep_of_step ha with
  | quiet todo _ asked => exact hkeep asked (congrFun todo c)
  | @crash c' _ todo _ asked =>
      have hne : c ≠ c' := fun heq => hlive (heq ▸ rfl)
      exact hkeep asked (by rw [todo, Function.update_of_ne hne])
  | @write c' o _ candidate updated next writes _ _ _ todo asked =>
      rcases h with hmem | hmem
      · exact hdone (by rw [asked, List.append_nil]) hmem
      · have hne : c ≠ c' := by
          rintro rfl
          rw [State.todo, ManagerPc.todo_of_writes writes] at hmem
          cases hmem
        exact .inr (by rwa [todo, Function.update_of_ne hne])
  | @late c' o _ candidate cause hpc _ todo _ asked =>
      rcases h with hmem | hmem
      · exact hdone (by rw [asked, List.append_nil]) hmem
      · have hne : c ≠ c' := by
          rintro rfl
          rw [State.todo, hpc] at hmem
          cases hmem
        exact .inr (by rwa [todo, Function.update_of_ne hne])
  | @ask c' o _ runID' rest before todo _ asked =>
      rcases h with hmem | hmem
      · exact hdone asked hmem
      by_cases hc : c = c'
      · subst hc
        rw [before, List.mem_cons] at hmem
        rcases hmem with heq | hmem
        · refine .inl ?_
          rw [asked, Task.cancelRun.inj heq]
          exact List.mem_append_right _ List.mem_cons_self
        · exact .inr (by rwa [todo, Function.update_self])
      · exact .inr (by rwa [todo, Function.update_of_ne hc])
  | @emit c' o _ event rest before todo _ _ _ asked =>
      rcases h with hmem | hmem
      · exact hdone (by rw [asked, List.append_nil]) hmem
      by_cases hc : c = c'
      · subst hc
        rw [before, List.mem_cons] at hmem
        rcases hmem with heq | hmem
        · cases heq
        · exact .inr (by rwa [todo, Function.update_self])
      · exact .inr (by rwa [todo, Function.update_of_ne hc])

theorem State.Owes.runs {runID : String} (h : s.Owes c runID)
    (ht : Runs AgentMesh.step (fun _ a => a ≠ .crash c) s t) : t.Owes c runID :=
  ht.invariant (I := fun u => u.Owes c runID) h fun hu hlive ha => hu.step ha hlive

/-- A call that is left to itself does its tasks. -/
theorem exec_tasks {todo : List Task} {next : ManagerPc} (o : ManagerOracle)
    (hpc : (s.managers c).pc = .tasks todo next) :
    ∃ u, exec step s (List.replicate todo.length (.manage c o)) = some u ∧
      (u.managers c).pc = .tasks [] next := by
  induction todo generalizing s with
  | nil => exact ⟨s, rfl, hpc⟩
  | cons task rest ih =>
      have hfresh : (s.managers c).fresh o s.store = true := by rw [Manager.fresh, hpc]
      obtain ⟨e, hact⟩ : ∃ e, (s.managers c).act o s.store = some (.tasks rest next, e) := by
        rcases task with runID | ⟨workflowID, stepID, runID, type, message⟩
        · simp only [Manager.act, hpc]
          split <;> exact ⟨_, rfl⟩
        · simp only [Manager.act, hpc]
          split <;> exact ⟨_, rfl⟩
      have hstep : step s (.manage c o) = some (s.managed c (.tasks rest next) e) := by
        simp [step, hfresh, hact]
      obtain ⟨u, hu, hend⟩ := ih (s := s.managed c (.tasks rest next) e) (by simp [State.managed])
      exact ⟨u, by rw [List.length_cons, List.replicate_succ, exec_cons, hstep]; exact hu, hend⟩

end Steps

end AgentMesh
