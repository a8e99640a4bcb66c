/-
AgentMesh/Siblings.lean

The Runs of the steps that a Workflow cancels when it ends.

`reconcile` and `CancelWorkflow` ask the engine to cancel the Run of every
active step that their update has canceled.  `failWorkflow` rewrites the steps
in the same way and asks for nothing: when the Run of one step cannot be
created while a sibling runs, the Workflow fails, its record says that the
sibling is canceled, and the Run of the sibling goes on
(`failWorkflow_leaves_sibling_running`).

`siblings_canceled` is the rest.  A stored update that ends a Workflow, made
by another path or with no active step around, leads to a call of
`engine.Cancel` for every Run concerned: before the call is over, whatever
else happens in the meantime, and by the actions of the call alone.
-/
import AgentMesh.Tasks

namespace AgentMesh

open Machine

variable {s t : State} {c : Nat} {o : ManagerOracle} {id : String} {w w' : Workflow} {i : Nat}
  {step step' : WorkflowStep}

/-- `failWorkflow` is about to write a Workflow of which a step is queued or running. -/
def failsWithActiveSteps (s : State) (c : Nat) : Bool :=
  match (s.managers c).pc with
  | .fail candidate _ =>
      (s.store.workflows.lookup candidate.id).any fun w => activeStepCount w ≠ 0
  | _ => false

theorem activeStepCount_ne_zero (hstep : w.steps[i]? = some step)
    (hactive : step.isActive = true) : activeStepCount w ≠ 0 := by
  rw [activeStepCount, Ne, List.countP_eq_zero]
  intro hnone
  exact hnone step (List.mem_of_getElem? hstep) hactive

theorem mem_activeRunIDs (hstep : w.steps[i]? = some step) (hactive : step.isActive = true) :
    step.runID ∈ activeRunIDs w :=
  List.mem_map_of_mem (List.mem_filter.mpr ⟨List.mem_of_getElem? hstep, hactive⟩)

/-- The plan of a call that ends a Workflow has a task for every active step. -/
theorem mem_plan_of_ends (hflow : FlowInv ⊤ s) (hplanned : PlannedInv s)
    {candidate : Workflow} (hwrites : (s.managers c).pc.writes o = some candidate)
    (hP : failsWithActiveSteps s c = false) (hw : s.store.workflows.lookup candidate.id = some w)
    (hversion : w.version = candidate.version) (hext : w.Extends candidate)
    (hended : candidate.isTerminal = true) (hstep : w.steps[i]? = some step)
    (hactive : step.isActive = true) (hstep' : candidate.steps[i]? = some step')
    (hcanceled : step'.status = .canceled) {updated : Workflow}
    (hupdated : updated.steps = candidate.steps) :
    Task.cancelRun step.runID ∈ (s.managers c).pc.plan updated := by
  have hplan := hplanned c
  have hassigned : step.runID ≠ "" :=
    ((hflow.flows.sound hw).steps step (List.mem_of_getElem? hstep)).assigned (.inl hactive)
  cases hpc : (s.managers c).pc <;> rw [hpc] at hwrites hplan <;>
    simp only [ManagerPc.writes, Option.some.injEq, reduceCtorEq] at hwrites
  case storeTerminal candidate' previous =>
    -- the step has kept its Run, and is among the canceled ones
    obtain ⟨x, hx, hprogress⟩ := Pointwise.getElem?_left hext.steps hstep
    obtain rfl := Option.some.inj (hx.symm.trans hstep')
    have hmem : x ∈ updated.steps := hupdated ▸ List.mem_of_getElem? hx
    have hrunID : x.runID = step.runID := hprogress.runID hassigned
    simp only [ManagerPc.plan, List.mem_append, cancelCanceledStepRuns]
    refine .inl (.inl (List.mem_map.mpr ⟨x, List.mem_filter.mpr ⟨hmem, ?_⟩, by rw [hrunID]⟩))
    simp [hcanceled, hrunID, hassigned]
  case storeChanged | assign | startStore =>
    -- a Workflow that goes on has not ended
    subst hwrites
    rw [ManagerPc.Planned] at hplan
    simp [hplan] at hended
  case fail candidate' cause =>
    subst hwrites
    have hw₀ : s.store.workflows.lookup candidate'.id = some w := hw
    simp only [failsWithActiveSteps, hpc, hw₀, Option.any_some, decide_eq_false_iff_not,
      not_not] at hP
    exact absurd hP (activeStepCount_ne_zero hstep hactive)
  case cancelStore candidate' active =>
    subst hwrites
    obtain ⟨-, w₀, w₁, rfl, hv, hw₁, rfl | ⟨hlt, -⟩⟩ := hplan
    · obtain rfl := Option.some.inj (hw.symm.trans hw₁)
      simp only [ManagerPc.plan, List.mem_append]
      exact .inl (List.mem_map_of_mem (mem_activeRunIDs hstep hactive))
    · obtain rfl := Option.some.inj (hw.symm.trans hw₁)
      exact absurd (hversion.trans hv) hlt.ne'

/-- **Canceled siblings.**  Let an action of a manager call store a Workflow as failed or
canceled, other than in `failWorkflow` with a step queued or running.  For every step that
was queued or running before and is canceled after, the engine is asked to cancel the Run:
when the call is over, unless its process has died, and after some actions of the call
alone. -/
theorem siblings_canceled (hs : Reachable s) (ha : AgentMesh.step s (.manage c o) = some t)
    (hw : s.store.workflows.lookup id = some w) (hw' : t.store.workflows.lookup id = some w')
    (hended : w'.status = .failed ∨ w'.status = .canceled)
    (hstep : w.steps[i]? = some step) (hactive : step.status = .queued ∨ step.status = .running)
    (hstep' : w'.steps[i]? = some step') (hcanceled : step'.status = .canceled)
    (hP : failsWithActiveSteps s c = false) :
    (∀ u, Runs AgentMesh.step (fun _ a => a ≠ .crash c) t u → (u.managers c).pc.isOver = true →
        step.runID ∈ u.asked) ∧
      ∀ o', ∃ n u, exec AgentMesh.step t (List.replicate n (.manage c o')) = some u ∧
        step.runID ∈ u.asked := by
  have hflow := flowInv_free hs
  have hactive' : step.isActive = true := by simpa [WorkflowStep.isActive] using hactive
  -- the Workflow had not ended before, so the action has written it
  have hgoing : w.isTerminal = false := by
    rw [← Bool.not_eq_true]
    intro hterm
    have hquiet := ((hflow.flows.closed hw).ended hterm step (List.mem_of_getElem? hstep)).2
    simp [hactive'] at hquiet
  have hterm : w'.isTerminal = true := by
    rcases hended with h | h <;> simp [Workflow.isTerminal, h]
  obtain ⟨c', o', candidate, updated, next, hact, hwrites, hupdate, hpc, hafter⟩ :=
    (taskStep_of_step ha).write_of_change hw hw' fun heq => by simp [heq, hgoing] at hterm
  obtain ⟨rfl, rfl⟩ := Action.manage.inj hact
  obtain ⟨hupdated, hm, w₀, hw₀, hversion, hnext⟩ :=
    ((hflow.managers c).pc.writes hwrites).update hupdate
  obtain rfl : candidate.id = id := by
    by_contra hid
    have hsame : t.store.workflows.lookup id = s.store.workflows.lookup id := by
      rw [hm, Table.lookup_insert_eq, if_neg fun heq => hid heq.symm]
    rw [hsame, hw] at hw'
    simp [← Option.some.inj hw', hgoing] at hterm
  obtain rfl := Option.some.inj (hw.symm.trans hw₀)
  obtain rfl : w' = updated := by
    rw [hm, AList.lookup_insert] at hw'
    exact (Option.some.inj hw').symm
  -- from here on the call has the task to cancel the Run
  have htask : Task.cancelRun step.runID ∈ (s.managers c).pc.plan w' := by
    rw [hupdated] at hterm hstep'
    exact mem_plan_of_ends hflow (plannedInv_runs hs) hwrites hP hw hversion hnext.2 hterm hstep
      hactive' hstep' hcanceled (by rw [hupdated])
  have howes : t.Owes c step.runID := by
    refine .inr ?_
    rw [State.todo, hpc]
    exact List.mem_append_left next.todo htask
  refine ⟨?_, ?_⟩
  · intro u hu hover
    rcases howes.runs hu with hmem | hmem
    · exact hmem
    · rw [State.todo, ManagerPc.todo_of_isOver hover] at hmem
      cases hmem
  · intro o'
    obtain ⟨u, hu, hend⟩ := exec_tasks o' hpc
    have hlive : ∀ a ∈ List.replicate ((s.managers c).pc.plan w').length (Action.manage c o'),
        ∀ _ : State, a ≠ .crash c := by
      intro a ha _
      rw [List.eq_of_mem_replicate ha]
      simp
    refine ⟨_, u, hu, ?_⟩
    rcases howes.runs (runs_exec_of_forall hlive hu) with hmem | hmem
    · exact hmem
    · rw [State.todo, hend, ManagerPc.todo, hafter] at hmem
      cases hmem

/-- Two steps that do not depend on each other. -/
def pairWorkflow : Workflow :=
  { id := "wf", input := "start"
    steps := [{ id := "a", agentID := "agent_1", input := "go" },
      { id := "b", agentID := "agent_1", input := "go" }] }

/-- The Workflow is started, and manager 1, which may run two steps at once, has queued a
Run for the first step and is about to create the one of the second. -/
def startPair : List Action :=
  List.flatten
    [[.registry (AList.insert "agent_1" { id := "agent_1" } ∅), .createWorkflow pairWorkflow 0,
        .startWorkflow 0 ⟨1, 3⟩ "wf"],
      List.replicate 4 (.manage 0 {}), [.reconcile 1 ⟨2, 3⟩ "wf"], manageOn 1 13 "run_1"]

/-- The Workflow and the statuses of its steps. -/
def State.statuses (s : State) (id : String) : Option (WorkflowStatus × List WorkflowStepStatus) :=
  (s.store.workflows.lookup id).map fun w => (w.status, w.steps.map WorkflowStep.status)

/-- The store refuses the Run of the second step. -/
def refuseSecond : List Action :=
  [.manage 1 { newID := "run_2", createRun := some (errorf "connection reset") }]

/-- `failWorkflow` records that the first step is canceled; its Run stays queued, and the
call ends without a word to the engine. -/
theorem failWorkflow_leaves_sibling_running :
    ∃ s t u, exec AgentMesh.step init (startPair ++ refuseSecond) = some s ∧
      AgentMesh.step s (.manage 1 {}) = some t ∧
      exec AgentMesh.step t (manageOn 1 2 "event_9") = some u ∧
      s.statuses "wf" = some (.running, [.queued, .pending]) ∧
      t.statuses "wf" = some (.failed, [.canceled, .canceled]) ∧
      (u.managers 1).pc.isOver = true ∧ u.asked = [] ∧
      (u.store.runs.lookup "run_1").map Run.status = some .queued := by
  obtain ⟨s, hs, hbefore, hnext⟩ :
      ∃ s, exec AgentMesh.step init (startPair ++ refuseSecond) = some s ∧
        s.statuses "wf" = some (.running, [.queued, .pending]) ∧
        ((AgentMesh.step s (.manage 1 {})).any fun t => decide
          (t.statuses "wf" = some (.failed, [.canceled, .canceled]) ∧
            ((exec AgentMesh.step t (manageOn 1 2 "event_9")).any fun u => decide
              ((u.managers 1).pc.isOver = true ∧ u.asked = [] ∧
                (u.store.runs.lookup "run_1").map Run.status = some .queued)) = true)) = true := by
    refine exists_of_any ?_
    decide +kernel
  obtain ⟨t, ht, hafter, hrest⟩ := exists_of_any hnext
  obtain ⟨u, hu, hend⟩ := exists_of_any hrest
  exact ⟨s, t, u, hs, ht, hu, hbefore, hafter, hend⟩

/-- The Run and the status that a step of a Workflow has recorded. -/
def State.recorded (s : State) (id : String) (i : Nat) : Option (String × WorkflowStepStatus) :=
  ((s.store.workflows.lookup id).bind fun w => w.steps[i]?).map fun step =>
    (step.runID, step.status)

theorem State.recorded_eq {runID : String} {status : WorkflowStepStatus}
    (h : s.recorded id i = some (runID, status)) : ∃ w step,
      s.store.workflows.lookup id = some w ∧ w.steps[i]? = some step ∧ step.runID = runID ∧
        step.status = status := by
  obtain ⟨step, hstep, heq⟩ := Option.map_eq_some_iff.mp h
  obtain ⟨w, hw, hstep⟩ := Option.bind_eq_some_iff.mp hstep
  obtain ⟨hrunID, hstatus⟩ := Prod.mk.inj heq
  exact ⟨w, step, hw, hstep, hrunID, hstatus⟩

/-- The same Workflow is canceled instead: the engine is asked to cancel the Run. -/
theorem siblings_canceled_pair :
    ∃ s t, Reachable s ∧ AgentMesh.step s (.manage 2 {}) = some t ∧
      s.recorded "wf" 0 = some ("run_1", .queued) ∧
      t.recorded "wf" 0 = some ("run_1", .canceled) ∧
      ∀ o', ∃ n u, exec AgentMesh.step t (List.replicate n (.manage 2 o')) = some u ∧
        "run_1" ∈ u.asked := by
  obtain ⟨s, hs, hbefore, hP, hnext⟩ :
      ∃ s, exec AgentMesh.step init
          (startPair ++ [.cancelWorkflow 2 ⟨2, 3⟩ "wf", .manage 2 {}]) = some s ∧
        s.recorded "wf" 0 = some ("run_1", .queued) ∧ failsWithActiveSteps s 2 = false ∧
        ((AgentMesh.step s (.manage 2 {})).any fun t => decide
          (t.recorded "wf" 0 = some ("run_1", .canceled) ∧
            (t.statuses "wf").map Prod.fst = some .canceled)) = true := by
    refine exists_of_any ?_
    decide +kernel
  obtain ⟨t, ht, hafter, hended⟩ := exists_of_any hnext
  have hreach : Reachable s := runs_exec (fun _ _ => trivial) hs
  obtain ⟨w, step, hw, hstep, hrunID, hqueued⟩ := State.recorded_eq hbefore
  obtain ⟨w', step', hw', hstep', -, hcanceled⟩ := State.recorded_eq hafter
  have hstatus : w'.status = .canceled := by simpa [State.statuses, hw'] using hended
  exact ⟨s, t, hreach, ht, hbefore, hafter, hrunID ▸ (siblings_canceled hreach ht hw hw'
    (.inr hstatus) hstep (.inl hqueued) hstep' hcanceled hP).2⟩

end AgentMesh
