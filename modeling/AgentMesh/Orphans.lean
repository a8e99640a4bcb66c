/-
AgentMesh/Orphans.lean

Runs that a Workflow leaves behind.

Creating the Run of a step and recording it in the step are two writes.  If the
Workflow is canceled between them, the second write meets a conflict, the
manager starts over, finds the Workflow ended and returns: the Run stays queued
and nobody knows it (`canceled_leaves_run_behind`).  The same happens when the
Workflow ends after the manager has read it and before it creates the Run.

`LeavesBehind` are these two steps, a Workflow that ends while a Run of it is
not recorded and a Run created for a Workflow that has ended.  In a run of the
system without them there is no orphan (`no_run_left_behind`): a Workflow that
has ended never changes again, a Run that has ended stays so, and no key is
bound anew.
-/
import AgentMesh.Adoption

namespace AgentMesh

open Machine

/-! ### Steps that leave a Run behind -/

/-- A Run was created for a step of the Workflow, is not recorded there and has not
ended. -/
def Memory.Unrecorded (m : Memory) (w : Workflow) : Prop :=
  ∃ step ∈ w.steps, ∃ runID run,
    m.idempotencyKeys.lookup (stepKey w.id step.id) = some runID ∧
      m.runs.lookup runID = some run ∧ step.runID ≠ runID ∧ ¬ run.IsTerminal

/-- A manager call ends the Workflow `id` while a Run of it is not recorded, or creates a
Run for it after it has ended. -/
def LeavesBehind (id : String) (s : State) (a : Action) : Prop :=
  ∃ c o w, a = .manage c o ∧ s.store.workflows.lookup id = some w ∧
    ((∃ candidate, (s.managers c).pc.writes o = some candidate ∧ candidate.id = id ∧
        candidate.version = w.version ∧ candidate.isTerminal = true ∧ s.store.Unrecorded w) ∨
      ∃ candidate next input parentRunID step,
        (s.managers c).pc = .createRun candidate next input parentRunID ∧ candidate.id = id ∧
        candidate.steps[next]? = some step ∧ w.isTerminal = true ∧
        s.store.idempotencyKeys.lookup (stepKey id step.id) = none)

/-- If the Workflow `id` has ended, it has left no Run behind. -/
def NoOrphans (id : String) (s : State) : Prop :=
  ∀ w, s.store.workflows.lookup id = some w → w.isTerminal = true → ¬ s.store.Unrecorded w

variable {s t : State} {a : Action} {id : String}

theorem NoOrphans.step (h : NoOrphans id s) (hr : RunInv s) (hflow : FlowInv ⊤ s)
    (hP : ¬ BindsStepKey id s a) (hQ : ¬ LeavesBehind id s a)
    (ha : AgentMesh.step s a = some t) : NoOrphans id t := by
  have hruns := (hr.step ha).2
  rintro w hw hterm ⟨step, hstep, runID, run, hbound, hrun, hne, hactive⟩
  obtain hold | ⟨given, now, -, -, hnormal⟩ | ⟨c, o, candidate, w₀, rfl, hwrites, hw₀, hversion,
    hext, hid, rfl, hsame⟩ := workflow_of_step hflow ha hw
  · -- the Workflow had ended before
    have hsound := hflow.flows.sound hold
    have hid : w.id = id := hflow.flows.id hold
    have hplain := hsound.accepted.plain step hstep
    rw [hid] at hbound
    rcases hfree : s.store.idempotencyKeys.lookup (stepKey id step.id) with - | runID'
    · obtain ⟨c, o, candidate, next, input, parentRunID, step', run', rfl, hpc, hstep', hcandidate,
        hstepID, -⟩ := binding_of_stepKey hflow hP ha hplain hfree hbound
      exact hQ ⟨c, o, w, rfl, hold, .inr ⟨candidate, next, input, parentRunID, step', hpc,
        hcandidate, hstep', hterm, hstepID ▸ hfree⟩⟩
    · obtain rfl : runID' = runID := Option.some.inj ((hruns.keys hfree).symm.trans hbound)
      obtain ⟨run₀, hrun₀⟩ := hr.ok.keys hfree
      refine h w hold hterm ⟨step, hstep, runID', run₀, hid ▸ hfree, hrun₀, hne, ?_⟩
      intro hended
      -- a Run that has ended is still the same
      obtain ⟨run', hrun', -, hkeeps⟩ := hruns.runs hrun₀
      obtain rfl := hkeeps hended
      obtain rfl := Option.some.inj (hrun.symm.trans hrun')
      exact hactive hended
  · -- a new Workflow has not begun
    simp [Workflow.isTerminal, (initializeForCreate_ok hnormal).2.1] at hterm
  · -- the Workflow ends in this step, and all its Runs were recorded before
    obtain ⟨step₀, hstep₀, hprogress⟩ := Pointwise.mem_right hext.steps hstep
    have hkey : s.store.idempotencyKeys.lookup (stepKey w₀.id step₀.id) = some runID := by
      rw [← hext.id, ← hprogress.definition.id, ← hsame.idempotencyKeys]
      exact hbound
    have hrun₀ : s.store.runs.lookup runID = some run := hsame.runs ▸ hrun
    refine hQ ⟨c, o, w₀, rfl, hw₀, .inl ⟨candidate, hwrites, hid, hversion.symm, hterm, step₀,
      hstep₀, runID, run, hkey, hrun₀, fun hrecorded => hne ?_, hactive⟩⟩
    rw [hprogress.runID (hrecorded ▸ hr.ok.named hrun₀), hrecorded]

/-- **No Run is left behind**, in every run of the system in which no client binds a key
of the Workflow, the Workflow does not end while a Run of it is not recorded, and no Run
is created for it after it has ended: once the Workflow has ended, every Run created for
one of its steps is recorded in that step or has ended. -/
theorem no_run_left_behind {w : Workflow} {step : WorkflowStep} {runID : String} {run : Run}
    (hs : Runs AgentMesh.step (fun s a => ¬ BindsStepKey id s a ∧ ¬ LeavesBehind id s a) init s)
    (hw : s.store.workflows.lookup id = some w) (hterm : w.isTerminal = true)
    (hstep : step ∈ w.steps)
    (hbound : s.store.idempotencyKeys.lookup (stepKey w.id step.id) = some runID)
    (hrun : s.store.runs.lookup runID = some run) : step.runID = runID ∨ run.IsTerminal := by
  have hinit : NoOrphans id init := fun w hw => by simp [init] at hw
  have hinv : NoOrphans id s :=
    flow_invariant hinit (fun hr hflow h hPu ha => h.step hr hflow hPu.1 hPu.2 ha) hs
  by_contra hnot
  rw [not_or] at hnot
  exact hinv w hw hterm ⟨step, hstep, runID, run, hbound, hrun, hnot.1, hnot.2⟩

/-- A test for the steps that cannot leave a Run behind. -/
def tidy (s : State) : Action → Bool
  | .handle _ _ => false
  | .manage c o =>
      (((s.managers c).pc.writes o).all fun candidate =>
        !candidate.isTerminal || (s.store.workflows.lookup candidate.id).all fun w =>
          w.steps.all fun step =>
            (s.store.idempotencyKeys.lookup (stepKey w.id step.id)).all fun runID =>
              step.runID = runID) &&
        match (s.managers c).pc with
        | .createRun candidate _ _ _ =>
            (s.store.workflows.lookup candidate.id).all fun w => !w.isTerminal
        | _ => true
  | _ => true

theorem not_leavesBehind_of_test (id : String) (s : State) (a : Action) (h : tidy s a = true) :
    ¬ BindsStepKey id s a ∧ ¬ LeavesBehind id s a := by
  refine ⟨?_, ?_⟩
  · rintro ⟨n, o, sub, parent, stepID, rfl, -⟩
    cases h
  · rintro ⟨c, o, w, rfl, hw, hwrite | hcreate⟩
    · obtain ⟨candidate, hwrites, rfl, -, hterm, step, hstep, runID, run, hkey, -, hne, -⟩ := hwrite
      simp only [tidy, hwrites, Option.all_some, hterm, hw, Bool.not_true, Bool.false_or,
        Bool.and_eq_true, List.all_eq_true] at h
      have hrecorded := h.1 step hstep
      simp [hkey, hne] at hrecorded
    · obtain ⟨candidate, next, input, parentRunID, step, hpc, rfl, -, hterm, -⟩ := hcreate
      simp [tidy, hpc, hw, hterm] at h

/-- The demonstration is canceled after its first Run was recorded. -/
theorem no_run_left_behind_canceled :
    ∃ s w step run,
      Runs AgentMesh.step (fun s a => ¬ BindsStepKey "wf" s a ∧ ¬ LeavesBehind "wf" s a) init s ∧
      s.store.workflows.lookup "wf" = some w ∧ w.status = .canceled ∧ step ∈ w.steps ∧
      s.store.idempotencyKeys.lookup (stepKey w.id step.id) = some "run_1" ∧
      s.store.runs.lookup "run_1" = some run ∧ (step.runID = "run_1" ∨ run.IsTerminal) := by
  obtain ⟨s, hs, hsome⟩ :
      ∃ s, exec (guarded step tidy) init
          (startDemo ++ manageOn 1 10 "run_1" ++ [.cancelWorkflow 2 ⟨1, 3⟩ "wf"]
            ++ manageOn 2 5 "") = some s ∧
        ((s.store.workflows.lookup "wf").any fun w => w.status = .canceled &&
          (w.findStep "a").any fun step =>
            s.store.idempotencyKeys.lookup (stepKey w.id step.id) = some "run_1" &&
              (s.store.runs.lookup "run_1").isSome) = true := by
    refine exists_of_any ?_
    decide +kernel
  simp only [Option.any_eq_true, Bool.and_eq_true, decide_eq_true_eq,
    Option.isSome_iff_exists] at hsome
  obtain ⟨w, hw, hcanceled, step, hfind, hkey, run, hrun⟩ := hsome
  have hmem := (Workflow.mem_of_findStep hfind).1
  have hruns := runs_exec_guarded (not_leavesBehind_of_test "wf") hs
  exact ⟨s, w, step, run, hruns, hw, hcanceled, hmem, hkey, hrun,
    no_run_left_behind hruns hw (by simp [Workflow.isTerminal, hcanceled]) hmem hkey hrun⟩

/-- Manager 1 creates the Run of the first step; before it records it, the Workflow is
canceled. -/
def cancelBetween : List Action :=
  startDemo ++ manageOn 1 6 "run_1" ++ [.cancelWorkflow 2 ⟨1, 3⟩ "wf"] ++ manageOn 2 4 ""
    ++ manageOn 1 2 ""

/-- The Workflow is canceled and all manager calls are over, and the Run is still queued
and recorded nowhere. -/
theorem canceled_leaves_run_behind :
    ∃ s w step run, Reachable s ∧ s.store.workflows.lookup "wf" = some w ∧
      w.status = .canceled ∧ (∀ c, (s.managers c).pc.isOver = true) ∧ step ∈ w.steps ∧
      s.store.idempotencyKeys.lookup (stepKey w.id step.id) = some "run_1" ∧
      s.store.runs.lookup "run_1" = some run ∧ run.status = .queued ∧ step.runID = "" := by
  obtain ⟨s, hs, hover, hsome⟩ :
      ∃ s, exec step init cancelBetween = some s ∧
        (∀ c ∈ List.range 3, (s.managers c).pc.isOver = true) ∧
        ((s.store.workflows.lookup "wf").any fun w => w.status = .canceled &&
          (w.findStep "a").any fun step =>
            s.store.idempotencyKeys.lookup (stepKey w.id step.id) = some "run_1" &&
              ((s.store.runs.lookup "run_1").any (fun run => run.status = .queued) &&
                step.runID = "")) = true := by
    refine exists_of_any ?_
    decide +kernel
  simp only [Option.any_eq_true, Bool.and_eq_true, decide_eq_true_eq] at hsome
  obtain ⟨w, hw, hcanceled, step, hfind, hkey, ⟨run, hrun, hqueued⟩, hrunID⟩ := hsome
  refine ⟨s, w, step, run, runs_exec (fun _ _ => trivial) hs, hw, hcanceled, ?_,
    (Workflow.mem_of_findStep hfind).1, hkey, hrun, hqueued, hrunID⟩
  intro c
  by_cases hc : c < 3
  · exact hover c (List.mem_range.mpr hc)
  · -- only three calls were ever started
    have hnamed : ∀ a ∈ cancelBetween, a.manager ≠ some c := by
      have hall : ∀ a ∈ cancelBetween, a.manager.all (fun n => n < 3) = true := by decide
      intro a ha hname
      have hlt := hall a ha
      simp [hname, hc] at hlt
    rw [managers_of_exec hs hnamed]
    rfl

end AgentMesh
