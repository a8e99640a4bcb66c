/-
AgentMesh/Adoption.lean

Which Run a step adopts.

The manager creates the Run of a step under the key `workflow:<id>:step:<step>`
and takes whatever Run the store returns, new or not.  Keys of clients live in
the same map, so a client that uses such a key first decides what the step
executes: `client_run_adopted` is a run in which this happens.

If no client binds a key of the Workflow, its steps adopt their own Runs only
(`adopts_own_run`).  The invariant behind this speaks of all bound keys, also
of those not recorded in a step yet: what is bound to the key of a step is a
Run of its Agent with the input that `resolveInput` computes for it.  Step IDs
contain no colon, so a key belongs to one step of one Workflow.
-/
import AgentMesh.FlowSafety

namespace AgentMesh

open Machine

/-! ### Keys -/

theorem eq_of_append_colon {l l' k k' : List Char} (hk : ':' ∉ k) (hk' : ':' ∉ k')
    (h : l ++ ':' :: k = l' ++ ':' :: k') : l = l' ∧ k = k' := by
  induction l generalizing l' with
  | nil =>
      cases l' with
      | nil => exact ⟨rfl, (List.cons.inj h).2⟩
      | cons x l' =>
          have htail : k = l' ++ ':' :: k' := (List.cons.inj h).2
          exact absurd (htail ▸ List.mem_append_right l' List.mem_cons_self) hk
  | cons x l ih =>
      cases l' with
      | nil =>
          have htail : l ++ ':' :: k = k' := (List.cons.inj h).2
          exact absurd (htail ▸ List.mem_append_right l List.mem_cons_self) hk'
      | cons x' l' =>
          obtain ⟨rfl, htail⟩ := List.cons.inj h
          obtain ⟨rfl, rfl⟩ := ih htail
          exact ⟨rfl, rfl⟩

/-- A key belongs to one step of one Workflow. -/
theorem stepKey_injective {workflowID workflowID' stepID stepID' : String}
    (hplain : ':' ∉ stepID.toList) (hplain' : ':' ∉ stepID'.toList)
    (h : stepKey workflowID stepID = stepKey workflowID' stepID') :
    workflowID = workflowID' ∧ stepID = stepID' := by
  have hlist : ("workflow:".toList ++ workflowID.toList ++ ":step".toList) ++ ':' :: stepID.toList
      = ("workflow:".toList ++ workflowID'.toList ++ ":step".toList) ++ ':' :: stepID'.toList := by
    have hchars := congrArg String.toList h
    simpa [stepKey] using hchars
  obtain ⟨hpre, hstep⟩ := eq_of_append_colon hplain hplain' hlist
  refine ⟨?_, String.toList_injective hstep⟩
  exact String.toList_injective (List.append_cancel_left (List.append_cancel_right hpre))

/-- The key of an Agent call is not one of a step. -/
theorem agentCallKey_ne_stepKey (parentID idempotencyKey workflowID stepID : String) :
    agentCallKey parentID idempotencyKey ≠ stepKey workflowID stepID := by
  intro h
  have hchars := congrArg String.toList h
  simp [agentCallKey, stepKey] at hchars

variable {s t : State} {a : Action}

/-- Where a new binding of a key comes from: a request of a client, a call of an Agent, or
the manager that creates the Run of a step. -/
theorem binding_of_step (ha : step s a = some t) {key runID : String}
    (hfree : s.store.idempotencyKeys.lookup key = none)
    (hbound : t.store.idempotencyKeys.lookup key = some runID) :
    (∃ h o sub parent, a = .handle h o ∧ (s.submits h).pc = .create sub parent ∧ sub.key = key) ∨
      (∃ h o parentID idempotencyKey, a = .handle h o ∧ agentCallKey parentID idempotencyKey = key) ∨
      ∃ c o candidate next input parentRunID step run, a = .manage c o ∧
        (s.managers c).pc = .createRun candidate next input parentRunID ∧
        candidate.steps[next]? = some step ∧ key = stepKey candidate.id step.id ∧
        t.store.workflows = s.store.workflows ∧ t.store.runs.lookup runID = some run ∧
        run.agentID = step.agentID ∧ run.input = input := by
  -- a step that keeps the keys binds none
  have hkeep : t.store.idempotencyKeys = s.store.idempotencyKeys → False := by
    intro heq
    rw [heq, hfree] at hbound
    cases hbound
  -- a creation that binds the key is one under the key
  have hnew : ∀ {run created : Run} {key' : String},
      s.store.createRun run key' = .ok (t.store, created, true) → key' = key ∧
        runID = created.id ∧ ∃ parent root,
          created = { run with parentRunID := parent, rootRunID := root } := by
    intro run created key' hcreate
    obtain ⟨hfalse, -⟩ | ⟨-, -, hm, hcreated⟩ := Memory.createRun_ok hcreate
    · cases hfalse
    rw [hm, Memory.storeRun_keys] at hbound
    split at hbound
    · rename_i hand
      exact ⟨hand.1.symm, (Option.some.inj hbound).symm, hcreated⟩
    · rw [hfree] at hbound
      cases hbound
  cases systemMove_of_step ha with
  | other runs => exact (hkeep runs.idempotencyKeys).elim
  | worker | request | called => exact (hkeep rfl).elim
  | worked _ act => exact (hkeep (Worker.execute_move act).keeps.2).elim
  | @handled h o pc e created _ move =>
      cases move with
      | silent store =>
          refine (hkeep ?_).elim
          show e.store.idempotencyKeys = _
          rw [store]
      | fail _ _ store =>
          obtain ⟨existing, -, -, -, hm⟩ := Memory.updateRun_ok store
          refine (hkeep ?_).elim
          show e.store.idempotencyKeys = _
          rw [hm]
      | create draft store =>
          obtain ⟨hkey, -⟩ := hnew store
          cases draft with
          | run hpc => exact .inl ⟨h, o, _, _, rfl, hpc, hkey⟩
          | child => exact .inr (.inl ⟨h, o, _, _, rfl, hkey⟩)
  | @managed c o pc e _ act =>
      cases Manager.act_move act with
      | silent runs => exact (hkeep runs.idempotencyKeys).elim
      | cancel store =>
          obtain ⟨existing, -, -, hm⟩ := Memory.cancelRun_ok store
          refine (hkeep ?_).elim
          show e.store.idempotencyKeys = _
          rw [hm]
      | @create candidate next input parentRunID step run hpc hstep store =>
          obtain ⟨hkey, hrunID, p, r, hrun⟩ := hnew store
          refine .inr (.inr ⟨c, o, candidate, next, input, parentRunID, step, run, rfl, hpc, hstep,
            hkey.symm, (Memory.createRun_onlyRuns store).workflows, ?_, ?_, ?_⟩)
          · obtain ⟨hfalse, -⟩ | ⟨-, -, hm, -⟩ := Memory.createRun_ok store
            · cases hfalse
            · show e.store.runs.lookup runID = some run
              rw [hm, hrunID, Memory.storeRun, AList.lookup_insert]
          · rw [hrun]
            rfl
          · rw [hrun]
            rfl
  | created create =>
      obtain ⟨-, -, rfl⟩ := Memory.createWorkflow_ok create
      exact (hkeep rfl).elim
  | canceled cancel =>
      obtain ⟨existing, -, -, rfl⟩ := Memory.cancelRun_ok cancel
      exact (hkeep rfl).elim
  | recovered _ recover =>
      obtain ⟨hfalse, -⟩ | ⟨-, run, -, -, rfl⟩ := Memory.recoverRun_ok recover
      · cases hfalse
      · exact (hkeep rfl).elim

/-- What a manager that creates the Run of a step knows. -/
theorem FlowInv.creates {limit : ℕ∞} (h : FlowInv limit s) {c next : Nat} {candidate : Workflow}
    {input parentRunID : String} {step : WorkflowStep}
    (hpc : (s.managers c).pc = .createRun candidate next input parentRunID)
    (hstep : candidate.steps[next]? = some step) :
    candidate.Accepted ∧ candidate.SettledIn s.store ∧
      resolveInput candidate step = .ok (input, parentRunID) := by
  have hok := (h.managers c).pc
  rw [hpc] at hok
  obtain ⟨hdraft, -, hsettled, step', hstep', -, hinput⟩ := hok
  obtain rfl := Option.some.inj (hstep.symm.trans hstep')
  exact ⟨hdraft.sound.accepted, hsettled, hinput⟩

/-! ### The invariant -/

/-- A client request is about to create the first Run under the key of a step of the
Workflow `id`. -/
def BindsStepKey (id : String) (s : State) (a : Action) : Prop :=
  ∃ h o sub parent stepID, a = .handle h o ∧ (s.submits h).pc = .create sub parent ∧
    ':' ∉ stepID.toList ∧ sub.key = stepKey id stepID ∧
    s.store.idempotencyKeys.lookup sub.key = none

/-- What is bound to the step keys of the Workflow `id`. -/
structure AdoptInv (id : String) (s : State) : Prop where
  own : ∀ {w step runID}, s.store.workflows.lookup id = some w → step ∈ w.steps →
    s.store.idempotencyKeys.lookup (stepKey id step.id) = some runID →
    ∃ run parentRunID, s.store.runs.lookup runID = some run ∧ run.agentID = step.agentID ∧
      resolveInput w step = .ok (run.input, parentRunID)
  absent : ∀ {stepID}, s.store.workflows.lookup id = none → ':' ∉ stepID.toList →
    s.store.idempotencyKeys.lookup (stepKey id stepID) = none

variable {id : String}

theorem adoptInv_init (id : String) : AdoptInv id init := ⟨by simp [init], by simp [init]⟩

/-- A step key that is bound anew is bound by a manager, to a Run for that step. -/
theorem binding_of_stepKey (hflow : FlowInv ⊤ s) (hP : ¬ BindsStepKey id s a)
    (ha : step s a = some t) {stepID runID : String} (hplain : ':' ∉ stepID.toList)
    (hfree : s.store.idempotencyKeys.lookup (stepKey id stepID) = none)
    (hbound : t.store.idempotencyKeys.lookup (stepKey id stepID) = some runID) :
    ∃ c o candidate next input parentRunID step run, a = .manage c o ∧
      (s.managers c).pc = .createRun candidate next input parentRunID ∧
      candidate.steps[next]? = some step ∧ candidate.id = id ∧ step.id = stepID ∧
      t.store.workflows = s.store.workflows ∧ t.store.runs.lookup runID = some run ∧
      run.agentID = step.agentID ∧ run.input = input := by
  obtain ⟨h, o, sub, parent, rfl, hpc, hkey⟩ | ⟨-, -, parentID, idempotencyKey, -, hkey⟩ |
    ⟨c, o, candidate, next, input, parentRunID, step, run, rfl, hpc, hstep, hkey, hrest⟩ :=
    binding_of_step ha hfree hbound
  · exact absurd ⟨h, o, sub, parent, stepID, rfl, hpc, hplain, hkey, hkey ▸ hfree⟩ hP
  · exact absurd hkey (agentCallKey_ne_stepKey parentID idempotencyKey id stepID)
  · have haccepted := (hflow.creates hpc hstep).1
    have hplain' := haccepted.plain step (List.mem_of_getElem? hstep)
    obtain ⟨rfl, rfl⟩ := stepKey_injective hplain hplain' hkey
    exact ⟨c, o, candidate, next, input, parentRunID, step, run, rfl, hpc, hstep, rfl, rfl, hrest⟩

theorem AdoptInv.step (h : AdoptInv id s) (hr : RunInv s) (hflow : FlowInv ⊤ s)
    (hP : ¬ BindsStepKey id s a) (ha : AgentMesh.step s a = some t) : AdoptInv id t := by
  have hruns := (hr.step ha).2
  obtain ⟨hflow', hflows⟩ := hflow.step hr (withinLimit_top s a) ha
  refine ⟨?_, ?_⟩
  · intro w step runID hw hstep hbound
    have haccepted := (hflow'.flows.sound hw).accepted
    have hplain := haccepted.plain step hstep
    rcases hfree : s.store.idempotencyKeys.lookup (stepKey id step.id) with - | runID'
    · -- the key is bound in this step, to a Run for the input that the manager has resolved
      obtain ⟨c, o, candidate, next, input, parentRunID, step', run, rfl, hpc, hstep', hcandidate,
        hstepID, hworkflows, hrun, hagent, hinput⟩ :=
        binding_of_stepKey hflow hP ha hplain hfree hbound
      obtain ⟨haccepted', ⟨w', hw', hext⟩, hresolve⟩ := hflow.creates hpc hstep'
      rw [hcandidate, ← hworkflows, hw] at hw'
      obtain rfl := Option.some.inj hw'
      have hfind := Workflow.findStep_of_mem haccepted' (List.mem_of_getElem? hstep')
      obtain ⟨b, hb, hprogress⟩ := hext.findStep hfind
      rw [hstepID, Workflow.findStep_of_mem haccepted hstep] at hb
      obtain rfl := Option.some.inj hb
      refine ⟨run, parentRunID, hrun, hagent.trans hprogress.definition.agentID.symm, ?_⟩
      rw [hinput]
      exact hext.resolveInput hprogress.definition hresolve
    · -- the key was bound before, so the Workflow existed
      obtain rfl : runID' = runID := Option.some.inj ((hruns.keys hfree).symm.trans hbound)
      rcases hw₀ : s.store.workflows.lookup id with - | w₀
      · rw [h.absent hw₀ hplain] at hfree
        cases hfree
      obtain ⟨w', hw', hext, -⟩ := hflows.next hw₀
      obtain rfl := Option.some.inj (hw.symm.trans hw')
      obtain ⟨step₀, hstep₀, hprogress⟩ := Pointwise.mem_right hext.steps hstep
      have hfree₀ : s.store.idempotencyKeys.lookup (stepKey id step₀.id) = some runID' := by
        rw [← hprogress.definition.id]
        exact hfree
      obtain ⟨run, parentRunID, hrun, hagent, hresolve⟩ := h.own hw₀ hstep₀ hfree₀
      obtain ⟨run', hrun', hreq, -⟩ := hruns.runs hrun
      refine ⟨run', parentRunID, hrun', ?_, ?_⟩
      · rw [hreq.agentID, hagent, hprogress.definition.agentID]
      · rw [hreq.input]
        exact hext.resolveInput hprogress.definition hresolve
  · intro stepID hnone hplain
    rcases hbound : t.store.idempotencyKeys.lookup (stepKey id stepID) with - | runID
    · rfl
    -- the manager that binds the key has read the Workflow, so the Workflow exists
    have hnone₀ : s.store.workflows.lookup id = none := by
      rcases hw₀ : s.store.workflows.lookup id with - | w₀
      · rfl
      · obtain ⟨w', hw', -⟩ := hflows.next hw₀
        rw [hnone] at hw'
        cases hw'
    have hfree := h.absent hnone₀ hplain
    obtain ⟨c, o, candidate, next, input, parentRunID, step, run, rfl, hpc, hstep, rfl, -⟩ :=
      binding_of_stepKey hflow hP ha hplain hfree hbound
    obtain ⟨-, ⟨w, hw, -⟩, -⟩ := hflow.creates hpc hstep
    rw [hnone₀] at hw
    cases hw

theorem adoptInv_runs {P : State → Action → Prop} (hP : ∀ s a, P s a → ¬ BindsStepKey id s a)
    (h : Runs step P init s) : AdoptInv id s :=
  flow_invariant (adoptInv_init id)
    (fun {u _ a} hr hflow hadopt hPu ha => hadopt.step hr hflow (hP u a hPu) ha) h

/-! ### Steps and their Runs -/

/-- **A step adopts its own Run**, in every run of the system in which no client
request creates the first Run under the key of a step of its Workflow: the Run recorded
in a step is a Run of its Agent, with the input that `resolveInput` computes for it. -/
theorem adopts_own_run {w : Workflow} {step : WorkflowStep}
    (hs : Runs AgentMesh.step (fun s a => ¬ BindsStepKey id s a) init s)
    (hw : s.store.workflows.lookup id = some w) (hstep : step ∈ w.steps) (hne : step.runID ≠ "") :
    ∃ run parentRunID, s.store.runs.lookup step.runID = some run ∧
      run.agentID = step.agentID ∧ resolveInput w step = .ok (run.input, parentRunID) := by
  have hflows := (flowInv_free hs).flows
  have hbound := ((hflows.sound hw).steps step hstep).bound hne
  rw [hflows.id hw] at hbound
  exact (adoptInv_runs (fun _ _ h => h) hs).own hw hstep hbound

/-- Runs of the system in which no client creates a Run. -/
def noRequests (_ : State) : Action → Bool
  | .handle _ _ => false
  | _ => true

theorem not_bindsStepKey_of_test (id : String) (s : State) (a : Action)
    (h : noRequests s a = true) : ¬ BindsStepKey id s a := by
  rintro ⟨n, o, sub, parent, stepID, rfl, -⟩
  cases h

/-- The second step of the demonstration, which reads the output of the first one. -/
theorem adopts_own_run_second :
    ∃ s w step run parentRunID, Runs AgentMesh.step (fun s a => ¬ BindsStepKey "wf" s a) init s ∧
      s.store.workflows.lookup "wf" = some w ∧ step ∈ w.steps ∧ step.id = "b" ∧
      s.store.runs.lookup step.runID = some run ∧ run.agentID = step.agentID ∧
      resolveInput w step = .ok (run.input, parentRunID) := by
  obtain ⟨s, hs, hstep⟩ :
      ∃ s, exec (guarded step noRequests) init
          (startDemo ++ manageOn 1 10 "run_1" ++ workOn 0 14 { returned := ⟨.ok "done", false⟩ }
            ++ manageOn 1 26 "run_2") = some s ∧
        ((s.store.workflows.lookup "wf").bind fun w => w.findStep "b").map WorkflowStep.runID
          = some "run_2" := by
    refine exists_of_any ?_
    decide +kernel
  obtain ⟨step, hfind, hrunID⟩ := Option.map_eq_some_iff.mp hstep
  obtain ⟨w, hw, hfind⟩ := Option.bind_eq_some_iff.mp hfind
  obtain ⟨hmem, hid⟩ := Workflow.mem_of_findStep hfind
  have hruns := runs_exec_guarded (not_bindsStepKey_of_test "wf") hs
  obtain ⟨run, parentRunID, hown⟩ := adopts_own_run hruns hw hmem (by simp [hrunID])
  exact ⟨s, w, step, run, parentRunID, hruns, hw, hmem, hid, hown⟩

/-- While the first step runs, a client submits a Run of another Agent under the key of
the second one. -/
def stealStep : List Action :=
  [.registry (AList.insert "agent_2" { id := "agent_2" }
      (AList.insert "agent_1" { id := "agent_1" } ∅)),
    .request 0 3 "req_1" { agentID := "agent_2", input := "other" } "workflow:wf:step:b"]
    ++ List.replicate 5 (.handle 0 { newID := "run_9" })

/-- The second step adopts the Run of the client: another Agent and another input. -/
theorem client_run_adopted :
    ∃ s w step run, Reachable s ∧ s.store.workflows.lookup "wf" = some w ∧ step ∈ w.steps ∧
      s.store.runs.lookup step.runID = some run ∧ step.agentID = "agent_1" ∧
      run.agentID = "agent_2" ∧
      ∀ parentRunID, resolveInput w step ≠ .ok (run.input, parentRunID) := by
  obtain ⟨s, hs, hsome⟩ :
      ∃ s, exec step init
          (startDemo ++ manageOn 1 10 "run_1" ++ stealStep
            ++ workOn 0 14 { returned := ⟨.ok "done", false⟩ } ++ manageOn 1 26 "run_2") = some s ∧
        ((s.store.workflows.lookup "wf").any fun w => (w.findStep "b").any fun step =>
          (s.store.runs.lookup step.runID).any fun run =>
            step.agentID = "agent_1" && run.agentID = "agent_2" && run.input = "other"
              && (resolveInput w step).toOption = some ("done", "run_1")) = true := by
    refine exists_of_any ?_
    decide +kernel
  simp only [Option.any_eq_true, Bool.and_eq_true, decide_eq_true_eq] at hsome
  obtain ⟨w, hw, step, hfind, run, hrun, ⟨⟨hstep, hagent⟩, hinput⟩, hresolve⟩ := hsome
  refine ⟨s, w, step, run, runs_exec (fun _ _ => trivial) hs, hw,
    (Workflow.mem_of_findStep hfind).1, hrun, hstep, hagent, ?_⟩
  intro parentRunID h
  rw [h, hinput] at hresolve
  simp [Except.toOption] at hresolve

end AgentMesh
