/-
AgentMesh/Readiness.lean

The scheduler does not get stuck.

`reconcile` fails a Workflow with the error `no workflow step is ready` when
nothing is queued or running and no pending step has complete dependencies.
This does not happen.  The checks of `InitializeForCreate` leave a Workflow
with a topological order, and the references of a step never change, so the
first step in that order that is not complete is ready
(`Workflow.Ordered.exists_ready`).

What remains is that `refreshSteps` has left some step incomplete when it says
so: `ManagerPc.Unfinished` follows that through its loop.
-/
import AgentMesh.FlowSafety
import AgentMesh.CycleCheck

namespace AgentMesh

open Machine

/-! ### The order of a Workflow -/

/-- A Workflow that has come from one with a topological order. -/
def Workflow.Ordered (w : Workflow) : Prop :=
  ∃ accepted order, TopologicalOrder accepted order ∧ accepted.Extends w

section Order

variable {w c : Workflow}

theorem Workflow.Ordered.extends (h : w.Ordered) (hext : w.Extends c) : c.Ordered := by
  obtain ⟨accepted, order, horder, hw⟩ := h
  exact ⟨accepted, order, horder, hw.trans hext⟩

/-- A copy that agrees with an ordered Workflow has a step with complete dependencies
among the steps that are not complete. -/
theorem Workflow.Ordered.exists_ready (h : w.Ordered) (hext : c.Extends w) (hc : c.Accepted)
    {a : WorkflowStep} (ha : a ∈ c.steps) (hopen : a.isComplete = false) :
    ∃ b ∈ c.steps, b.isComplete = false ∧ c.DepsComplete b := by
  obtain ⟨accepted, order, ⟨hperm, hready⟩, hw⟩ := h
  -- the copy has the steps of the accepted Workflow, in another state
  have hsame : List.Forall₂ WorkflowStep.SameDefinition accepted.steps c.steps := by
    refine Pointwise.trans ?_ hw.steps hext.steps.flip
    intro x y z hxy hyz
    exact hxy.definition.trans hyz.definition.symm
  obtain ⟨i, hi⟩ := List.mem_iff_getElem?.mp ha
  obtain ⟨x, hx, hxa⟩ := Pointwise.getElem?_right hsame hi
  have hstate : ∀ {y b : WorkflowStep}, y.SameDefinition b → b ∈ c.steps →
      c.findStep y.id = some b := by
    intro y b hyb hb
    rw [← hyb.id]
    exact Workflow.findStep_of_mem hc hb
  have hx' : ¬ ∃ b, c.findStep x.id = some b ∧ b.isComplete = true := by
    rintro ⟨b, hb, hcomplete⟩
    obtain rfl := Option.some.inj ((hstate hxa ha).symm.trans hb)
    simp [hopen] at hcomplete
  obtain ⟨y, hy, hy', hdeps⟩ := hready.exists_ready
    (p := fun y => ∃ b, c.findStep y.id = some b ∧ b.isComplete = true)
    (hperm.mem_iff.mpr (List.mem_of_getElem? hx)) hx'
  obtain ⟨j, hj⟩ := List.mem_iff_getElem?.mp (hperm.mem_iff.mp hy)
  obtain ⟨b, hb, hyb⟩ := Pointwise.getElem?_left hsame hj
  have hmem : b ∈ c.steps := List.mem_of_getElem? hb
  refine ⟨b, hmem, ?_, ?_⟩
  · rw [← Bool.not_eq_true]
    exact fun hcomplete => hy' ⟨b, hstate hyb hmem, hcomplete⟩
  · intro d hd
    rw [hyb.dependsOn] at hd
    obtain hnone | ⟨z, -, rfl, hz⟩ := hdeps d hd
    · cases hnone
    · exact hz

/-- Nothing is active and something is not complete: a step is ready. -/
theorem Workflow.Ordered.readyStep_isSome (h : w.Ordered) (hext : c.Extends w) (hc : c.Accepted)
    (hgoing : ∀ step ∈ c.steps, step.status ≠ .failed ∧ step.status ≠ .canceled)
    (hidle : activeStepCount c = 0) {a : WorkflowStep} (ha : a ∈ c.steps)
    (hopen : a.isComplete = false) : (readyStep c).isSome = true := by
  obtain ⟨b, hb, hincomplete, hdeps⟩ := h.exists_ready hext hc ha hopen
  have hquiet : b.isActive = false := by
    rw [activeStepCount, List.countP_eq_zero] at hidle
    simpa using hidle b hb
  have hpending : b.status = .pending := by
    have hend := hgoing b hb
    cases hs : b.status <;> simp_all [WorkflowStep.isComplete, WorkflowStep.isActive]
  rw [readyStep, List.findIdx?_isSome, List.any_eq_true]
  refine ⟨b, hb, ?_⟩
  simp [hpending, (stepStatuses_tracks hc).dependenciesComplete.mpr hdeps]

end Order

/-! ### Control points -/

/-- The error of a scheduler that is stuck. -/
def noStepReady : Err := errorf "no workflow step is ready"

/-- `refreshSteps` has met a step that is not complete if it says so, and a Workflow
does not fail because no step is ready. -/
def ManagerPc.Unfinished : ManagerPc → Prop
  | .refresh c _ index _ allSucceeded => allSucceeded = false →
      ∃ j < index, ∃ step, c.steps[j]? = some step ∧ step.isComplete = false
  | .fail _ cause => cause ≠ noStepReady
  | .tasks _ next => next.Unfinished
  | _ => True

section ControlPoints

variable {m : Memory} {c : Manager} {candidate w : Workflow} {pc : ManagerPc} {o : ManagerOracle}
  {e : ManagerEffect} {previous : Table WorkflowStepStatus} {changed allSucceeded : Bool}
  {index : Nat} {now : Time}

/-- The errors of `resolveInput` begin with the ID of the step. -/
def WorkflowStep.Refused (step : WorkflowStep) (err : Err) : Prop :=
  ∃ rest, err = errorf ("step " ++ step.id ++ rest)

variable {step : WorkflowStep} {err : Err}

theorem resolveParent_error {parentRunID : String} {dependencies : List String}
    (h : resolveParent candidate step parentRunID dependencies = .error err) :
    step.Refused err := by
  induction dependencies generalizing parentRunID with
  | nil => cases h
  | cons d rest ih =>
      rw [resolveParent] at h
      split at h
      · exact ⟨_, (Except.error.inj h).symm⟩
      · split at h
        · exact ⟨_, (Except.error.inj h).symm⟩
        · split at h <;> exact ih h

theorem resolveSource_error {source : String}
    (h : resolveSource candidate step source = .error err) : step.Refused err := by
  have hrefused : step.Refused
      (errorf ("step " ++ step.id ++ " input source " ++ source ++ " is not complete")) :=
    ⟨" input source " ++ source ++ " is not complete", by simp only [String.append_assoc]⟩
  rw [resolveSource] at h
  split at h
  · cases h
  · split at h
    · exact Except.error.inj h ▸ hrefused
    · split at h
      · exact Except.error.inj h ▸ hrefused
      · cases h

theorem resolveValues_error {sources : List String}
    (h : resolveValues candidate step sources = .error err) : step.Refused err := by
  induction sources with
  | nil => cases h
  | cons source rest ih =>
      rw [resolveValues] at h
      split at h
      · rename_i hsource
        obtain rfl := Except.error.inj h
        exact resolveSource_error hsource
      · split at h
        · rename_i hrest
          exact ih (hrest.trans h)
        · cases h

theorem aggregate_error {values : List String} (h : aggregate step values = .error err) :
    step.Refused err := by
  rw [aggregate.eq_def] at h
  split at h
  · cases h
  · split at h
    · exact ⟨_, (Except.error.inj h).symm⟩
    · cases h

theorem resolveInput_error (h : resolveInput candidate step = .error err) : step.Refused err := by
  rw [resolveInput] at h
  split at h
  · rename_i hparent
    obtain rfl := Except.error.inj h
    exact resolveParent_error hparent
  · split at h
    · cases h
    · split at h
      · rename_i hvalues
        obtain rfl := Except.error.inj h
        exact resolveValues_error hvalues
      · split at h
        · rename_i haggregate
          obtain rfl := Except.error.inj h
          exact aggregate_error haggregate
        · cases h

theorem errorf_step_ne (id rest : String) : errorf ("step " ++ id ++ rest) ≠ noStepReady := by
  intro h
  have hchars := congrArg (fun err : Err => err.text.toList) h
  simp [errorf, noStepReady] at hchars

theorem wrap_create_ne (err : Err) (id : String) :
    err.wrap ("create Run for step " ++ id ++ ": ") ≠ noStepReady := by
  intro h
  have hchars := congrArg (fun err : Err => err.text.toList) h
  simp [Err.wrap, errorf, noStepReady] at hchars

theorem ManagerPc.Unfinished.of_copy (h : pc.copy = none) : pc.Unfinished := by
  induction pc with
  | refresh | fail => cases h
  | tasks _ next ih => exact ih h
  | _ => trivial

/-- `reconcile` looks for a step to run and does not get stuck. -/
theorem Manager.schedule_unfinished
    (hready : (applyConditions candidate now).2 = false → activeStepCount candidate = 0 →
      (readyStep candidate).isSome = true) :
    (c.schedule candidate previous now).Unfinished := by
  rw [Manager.schedule]
  split
  · trivial
  rename_i hunchanged
  split
  · trivial
  split
  · rename_i hnone
    split
    · trivial
    · rename_i hidle
      have hsome := hready (by simpa using hunchanged) (by omega)
      simp [hnone] at hsome
  · split
    · trivial
    · split
      · rename_i hinput
        obtain ⟨rest, rfl⟩ := resolveInput_error hinput
        exact errorf_step_ne _ rest
      · trivial

/-- One round of `refreshSteps`. -/
theorem Manager.refreshStep_unfinished
    (hok : (ManagerPc.refresh candidate previous index changed allSucceeded).Ok ⊤ m)
    (hordered : ∀ {id w}, m.workflows.lookup id = some w → w.Ordered)
    (h : (ManagerPc.refresh candidate previous index changed allSucceeded).Unfinished) :
    (c.refreshStep candidate previous index changed allSucceeded now m).Unfinished := by
  obtain ⟨hdraft, hgoing, hsettled, -⟩ := hok
  rw [Manager.refreshStep]
  split
  · -- all steps have been visited
    rw [Manager.refreshed]
    split
    · trivial
    rename_i hsucc
    split
    · trivial
    rename_i hunchanged
    refine schedule_unfinished fun _ hidle => ?_
    obtain ⟨w, hw, hext⟩ := hsettled (by simpa using hunchanged)
    obtain ⟨j, -, step, hstep, hopen⟩ := h (by simpa using hsucc)
    exact (hordered hw).readyStep_isSome hext hdraft.sound.accepted (hdraft.closed.going hgoing)
      hidle (List.mem_of_getElem? hstep) hopen
  rename_i step hstep
  split
  · intro hsucc
    obtain ⟨j, hj, hrest⟩ := h hsucc
    exact ⟨j, by omega, hrest⟩
  rename_i hskipped
  have hlt := (List.getElem?_eq_some_iff.mp hstep).1
  split
  · -- a step without a Run is not complete
    rename_i hrunID
    refine fun _ => ⟨index, by omega, step, hstep, ?_⟩
    have hsound := hdraft.sound.steps step (List.mem_of_getElem? hstep)
    have hsucc : step.status ≠ .succeeded := fun hs => hsound.assigned (.inr hs) hrunID
    simp [WorkflowStep.isComplete, hskipped, hsucc]
  split
  · trivial
  rename_i run hrun
  simp only
  split
  · trivial
  · intro hsucc
    rw [Bool.and_eq_false_iff] at hsucc
    rcases hsucc with hsucc | hincomplete
    · obtain ⟨j, hj, x, hx, hopen⟩ := h hsucc
      refine ⟨j, by omega, x, ?_, hopen⟩
      rw [List.getElem?_set_ne (by omega)]
      exact hx
    · exact ⟨index, by omega, _, List.getElem?_set_self hlt, hincomplete⟩

theorem Manager.FlowMove.unfinished (h : c.FlowMove o m pc e) (hc : c.pc.Ok ⊤ m)
    (hordered : ∀ {id w}, m.workflows.lookup id = some w → w.Ordered)
    (hunfinished : c.pc.Unfinished) : pc.Unfinished := by
  cases h with
  | free _ free | write _ _ free => exact .of_copy (ManagerPc.copy_of_free free)
  | load => exact fun hfalse => by cases hfalse
  | refresh hpc =>
      rw [hpc] at hc hunfinished
      exact refreshStep_unfinished hc hordered hunfinished
  | createFails _ _ wrapped =>
      obtain ⟨err, stepID, rfl⟩ := wrapped
      exact wrap_create_ne err stepID
  | create | start | cancel => trivial
  | task tasks _ after =>
      rw [tasks] at hunfinished
      rcases after with rfl | ⟨rest, rfl⟩ <;> exact hunfinished

end ControlPoints

/-! ### Every run -/

structure ReadyInv (s : State) : Prop where
  ordered : ∀ {id w}, s.store.workflows.lookup id = some w → w.Ordered
  managers : ∀ c, (s.managers c).pc.Unfinished

variable {s t : State} {a : Action}

theorem readyInv_init : ReadyInv init := ⟨by simp [init], fun _ => trivial⟩

theorem ReadyInv.step (h : ReadyInv s) (hflow : FlowInv ⊤ s)
    (ha : AgentMesh.step s a = some t) : ReadyInv t := by
  refine ⟨?_, ?_⟩
  · intro id w hw
    obtain hold | ⟨given, now, -, -, hnormal⟩ |
      ⟨c, o, candidate, w₀, -, -, hw₀, -, hext, -, rfl, -⟩ := workflow_of_step hflow ha hw
    · exact h.ordered hold
    · obtain ⟨order, horder⟩ := exists_topologicalOrder hnormal
      exact ⟨w, order, horder, .refl w⟩
    · exact (h.ordered hw₀).extends (hext.trans (.of_steps rfl rfl rfl rfl))
  · intro c
    exact managerPc_of_step ha (h.managers c) .of_copy fun hmove _ =>
      hmove.unfinished (hflow.managers c).pc h.ordered (h.managers c)

theorem readyInv_runs {P : State → Action → Prop} (h : Runs step P init s) : ReadyInv s :=
  flow_invariant readyInv_init (fun _ hflow hI _ ha => hI.step hflow ha) h

/-- **The scheduler never gets stuck.**  In no reachable state does a manager fail a
Workflow because no step is ready: when `refreshSteps` has gone through all steps and
neither it nor `applyConditions` has changed anything, and no step is queued or
running, then `readyStep` finds a step. -/
theorem scheduler_never_stuck (hs : Reachable s) (c : Nat) :
    (∀ candidate cause, (s.managers c).pc = .fail candidate cause → cause ≠ noStepReady) ∧
      ∀ candidate previous index now,
        (s.managers c).pc = .refresh candidate previous index false false →
        candidate.steps[index]? = none → (applyConditions candidate now).2 = false →
        activeStepCount candidate = 0 → (readyStep candidate).isSome = true := by
  have hinv := readyInv_runs hs
  have hflow := flowInv_free hs
  refine ⟨?_, ?_⟩
  · intro candidate cause hpc
    have hcause := hinv.managers c
    rwa [hpc] at hcause
  · intro candidate previous index now hpc _ _ hidle
    have hok := (hflow.managers c).pc
    have hopen := hinv.managers c
    rw [hpc] at hok hopen
    obtain ⟨hdraft, hgoing, hsettled, -⟩ := hok
    obtain ⟨w, hw, hext⟩ := hsettled rfl
    obtain ⟨j, -, step, hstep, hincomplete⟩ := hopen rfl
    exact (hinv.ordered hw).readyStep_isSome hext hdraft.sound.accepted
      (hdraft.closed.going hgoing) hidle (List.mem_of_getElem? hstep) hincomplete

/-- The control point at the end of a refresh that has changed nothing. -/
def ManagerPc.refreshedCopy : ManagerPc → Option Workflow
  | .refresh candidate _ index false false =>
      if candidate.steps[index]? = none then some candidate else none
  | _ => none

theorem ManagerPc.refreshedCopy_eq {pc : ManagerPc} {w : Workflow}
    (h : pc.refreshedCopy = some w) :
    ∃ previous index, pc = .refresh w previous index false false ∧ w.steps[index]? = none := by
  rw [ManagerPc.refreshedCopy.eq_def] at h
  split at h
  · split at h
    · obtain rfl := Option.some.inj h
      exact ⟨_, _, rfl, ‹_›⟩
    · cases h
  · cases h

/-- The manager has gone through the steps of a Workflow of which none has begun. -/
theorem scheduler_never_stuck_start :
    ∃ s candidate, Reachable s ∧ (s.managers 1).pc.refreshedCopy = some candidate ∧
      (applyConditions candidate 0).2 = false ∧ activeStepCount candidate = 0 ∧
      (readyStep candidate).isSome = true := by
  obtain ⟨s, hs, hcopy⟩ :
      ∃ s, exec step init (startDemo ++ manageOn 1 4 "") = some s ∧
        (s.managers 1).pc.refreshedCopy.map
            (fun candidate => ((applyConditions candidate 0).2, activeStepCount candidate))
          = some (false, 0) := by
    refine exists_of_any ?_
    decide +kernel
  obtain ⟨candidate, hcandidate, htest⟩ := Option.map_eq_some_iff.mp hcopy
  rw [Prod.mk.injEq] at htest
  have hreach : Reachable s := runs_exec (fun _ _ => trivial) hs
  obtain ⟨previous, index, hpc, hend⟩ := ManagerPc.refreshedCopy_eq hcandidate
  exact ⟨s, candidate, hreach, hcandidate, htest.1, htest.2,
    (scheduler_never_stuck hreach 1).2 candidate previous index 0 hpc hend htest.1 htest.2⟩

end AgentMesh
