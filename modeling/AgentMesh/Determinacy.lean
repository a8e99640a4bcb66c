/-
AgentMesh/Determinacy.lean

The result of a Workflow does not depend on how it was executed.

The meaning of a Workflow is the reference evaluation: visit the steps in any
order that respects the dependencies, skip a step whose condition fails on the
output of its source, and otherwise apply a function of Agent and input to the
input of the step.  The theorem says that whatever managers, workers, crashes
and conflicts did, a Workflow that has succeeded shows for each step the
status and the output of the reference evaluation.

The argument has three parts.  Every stored output is the function applied to
the Agent and the input of its Run (`OutputInv`).  The Run of a step was made
for its Agent and its resolved input (`AdoptInv`).  So the recorded steps
satisfy the rule of the reference evaluation at every step, and the order of
evaluation is irrelevant by `Dataflow.evaluate_eq`.  An accepted Workflow has a
topological order, so any two executions agree.
-/
import AgentMesh.CycleCheck
import AgentMesh.Adoption

namespace AgentMesh

open Machine

/-! ### The reference evaluation -/

/-- How a step ends. -/
structure Outcome where
  status : WorkflowStepStatus
  output : String
  deriving DecidableEq, Repr

/-- What a source yields, given the outcomes so far. -/
def sourceOutput (input : String) (done : String → Option Outcome) (source : String) : String :=
  if source = workflowInputSource then input else ((done source).map Outcome.output).getD ""

/-- The input of a step: its own one, that of its source, or those of its sources as a
JSON array. -/
def referenceInput (input : String) (done : String → Option Outcome) (step : WorkflowStep) :
    String :=
  if step.inputFrom = [] then step.input
  else
    match step.inputFrom.map (sourceOutput input done) with
    | [value] => value
    | values => jsonStrings values

/-- A step is skipped exactly if its condition is false, and otherwise it succeeds. -/
def referenceOutcome (f : String → String → String) (input : String)
    (done : String → Option Outcome) (step : WorkflowStep) : Outcome :=
  if step.condition.any (fun c => !evaluateCondition (sourceOutput input done c.source) c) then
    ⟨.skipped, ""⟩
  else ⟨.succeeded, f step.agentID (referenceInput input done step)⟩

/-- The reference evaluation of a Workflow in a given order of its steps. -/
def referenceEvaluation (f : String → String → String) (w : Workflow)
    (order : List WorkflowStep) : String → Option Outcome :=
  Dataflow.evaluate WorkflowStep.id (referenceOutcome f w.input) (fun _ => none) order

/-! ### Outputs of Runs -/

/-- A runtime that returns an output returns that of the function `f`. -/
def Computes (f : String → String → String) (s : State) (a : Action) : Prop :=
  ∀ w o run fence output, a = .work w o → (s.workers w).pc = .running run fence →
    attemptOutcome (s.workers w).engine run o.returned = .ok output →
    output = f run.agentID run.input

section Workers

variable {w : Worker} {o : Oracle} {m : Memory} {pc : ExecPc} {e : Effect} {run : Run}
  {output id : String}

/-- An output that is not stored yet was there before or has just been returned. -/
theorem Worker.execute_outcome (h : w.execute o m = some (pc, e))
    (hout : pc.outcome = some (run, output)) :
    w.pc.outcome = some (run, output) ∨
      ∃ fence, w.pc = .running run fence ∧
        attemptOutcome w.engine run o.returned = .ok output := by
  cases hpc : w.pc <;> simp only [Worker.execute, hpc, Option.some.injEq, reduceCtorEq] at h
  case running run' fence =>
    obtain ⟨rfl, rfl⟩ := Prod.mk.inj h
    rcases hr : attemptOutcome w.engine run' o.returned with err | out
    · simp [hr, ExecPc.outcome] at hout
    · simp only [hr, ExecPc.outcome, Option.some.injEq, Prod.mk.injEq] at hout
      obtain ⟨rfl, rfl⟩ := hout
      exact .inr ⟨fence, rfl, hr⟩
  case afterLease run' fence out =>
    obtain ⟨-, -, rfl | ⟨err, rfl⟩⟩ := checkLease_eq h
    · rcases out with err | out
      · cases hout
      · exact .inl hout
    · cases hout
  case afterCtx run' fence out =>
    split at h
    all_goals obtain ⟨rfl, rfl⟩ := Prod.mk.inj (Option.some.inj h)
    · cases hout
    · rcases out with err | out
      · cases hout
      · exact .inl hout
  case afterRunCtx run' fence out =>
    repeat' split at h
    all_goals obtain ⟨rfl, rfl⟩ := Prod.mk.inj (Option.some.inj h)
    any_goals cases hout
    exact .inl rfl
  case loopLease | backoffLease =>
    obtain ⟨-, -, rfl | ⟨err, rfl⟩⟩ := checkLease_eq h <;> cases hout
  case persistAttempt | persistSucceeded | persistFailed =>
    split at h
    · obtain ⟨rfl, rfl⟩ := Prod.mk.inj (Option.some.inj h)
      cases hout
    · obtain ⟨-, ⟨-, rfl⟩ | ⟨-, err, rfl⟩⟩ := writeFenced_eq (Option.some.inj h) <;> cases hout
  case invoke | publishSucceeded | publishFailed =>
    obtain ⟨rfl, rfl⟩ := Prod.mk.inj h
    cases hout
  -- everywhere else there is no output before and after
  all_goals
    repeat' split at h
    all_goals cases h
    all_goals cases hout

/-- A Run that a call of `execute` has made succeed has the output that was returned. -/
theorem Worker.Move.succeeded (h : w.Move m pc e) (hrun : e.store.runs.lookup id = some run)
    (hs : run.status = .succeeded) :
    m.runs.lookup id = some run ∨ ∃ run₀, w.pc.outcome = some (run₀, run.output) ∧
      run.agentID = run₀.agentID ∧ run.input = run₀.input := by
  cases h with
  | silent store | reload _ _ store | enter _ _ _ store | invoke _ store =>
      exact .inl (store ▸ hrun)
  | claim _ store =>
      obtain ⟨existing, -, -, -, hm⟩ := Memory.claimRunExecution_ok store
      rw [hm] at hrun
      exact .inl hrun
  | @attempt run₀ run' f now _ _ hnext store =>
      obtain ⟨existing, -, -, -, -, hm⟩ := Memory.updateRunFenced_ok store
      rw [hm, Table.lookup_insert_eq] at hrun
      split at hrun
      · obtain rfl := Option.some.inj hrun
        have hrunning : run'.status = .running := (Run.nextAttempt_ok hnext).2.2.1
        simp [Memory.keepLineage, hrunning] at hs
      · exact .inl hrun
  | @finish _ run₀ run' f _ _ _ hadv store _ _ _ houtcome =>
      obtain ⟨existing, -, -, -, -, hm⟩ := Memory.updateRunFenced_ok store
      rw [hm, Table.lookup_insert_eq] at hrun
      split at hrun
      · obtain rfl := Option.some.inj hrun
        exact .inr ⟨run₀, houtcome hs, hadv.sameRequest.agentID, hadv.sameRequest.input⟩
      · exact .inl hrun

end Workers

/-- Outputs are those of `f`: the stored ones, and those that are about to be stored. -/
structure OutputInv (f : String → String → String) (s : State) : Prop where
  stored : ∀ {id run}, s.store.runs.lookup id = some run → run.status = .succeeded →
    run.output = f run.agentID run.input
  workers : ∀ {w run output}, (s.workers w).pc.outcome = some (run, output) →
    output = f run.agentID run.input

section Outputs

variable {f : String → String → String} {s t : State} {a : Action}

/-- No Run succeeds and no worker moves. -/
theorem OutputInv.frame (h : OutputInv f s)
    (hruns : ∀ {id run}, t.store.runs.lookup id = some run → run.status = .succeeded →
      s.store.runs.lookup id = some run)
    (hworkers : t.workers = s.workers) : OutputInv f t :=
  ⟨fun hrun hs => h.stored (hruns hrun hs) hs, fun hout => h.workers (hworkers ▸ hout)⟩

/-- A Run is stored that has not succeeded. -/
theorem lookup_of_put {m : Memory} {id id' : String} {run run' : Run}
    (hs' : run'.status ≠ .succeeded)
    (hrun : (m.runs.insert id' run').lookup id = some run) (hs : run.status = .succeeded) :
    m.runs.lookup id = some run := by
  rw [Table.lookup_insert_eq] at hrun
  split at hrun
  · rw [Option.some.inj hrun] at hs'
    exact absurd hs hs'
  · exact hrun

theorem OutputInv.cancel (h : OutputInv f s) {id : String} {now : Time} {run : Run}
    (hcancel : s.store.cancelRun id now = .ok (t.store, run)) (hworkers : t.workers = s.workers) :
    OutputInv f t := by
  obtain ⟨existing, -, hc, hm⟩ := Memory.cancelRun_ok hcancel
  obtain ⟨-, hrun⟩ := Run.cancel_ok hc
  refine h.frame (fun hr hs => ?_) hworkers
  rw [hm] at hr
  exact lookup_of_put (by simp [hrun]) hr hs

theorem OutputInv.create (h : OutputInv f s) {run created : Run} {key : String}
    (hqueued : run.status = .queued)
    (hcreate : s.store.createRun run key = .ok (t.store, created, true))
    (hworkers : t.workers = s.workers) : OutputInv f t := by
  obtain ⟨hfalse, -⟩ | ⟨-, -, hm, p, r, rfl⟩ := Memory.createRun_ok hcreate
  · cases hfalse
  refine h.frame (fun hr hs => ?_) hworkers
  rw [hm] at hr
  exact lookup_of_put (by simp [hqueued]) hr hs

theorem OutputInv.worked (h : OutputInv f s) {w : Nat} {o : Oracle} {pc : ExecPc} {e : Effect}
    (hact : (s.workers w).execute o s.store = some (pc, e)) (hP : Computes f s (.work w o)) :
    OutputInv f (s.worked w pc e) := by
  refine ⟨?_, ?_⟩
  · intro id run hrun hs
    rcases (Worker.execute_move hact).succeeded hrun hs with hold | ⟨run₀, hout, hagent, hinput⟩
    · exact h.stored hold hs
    · rw [hagent, hinput]
      exact h.workers hout
  · intro n run output hout
    by_cases hn : n = w
    · subst hn
      have hpc : pc.outcome = some (run, output) := by simpa [State.worked] using hout
      rcases Worker.execute_outcome hact hpc with hold | ⟨fence, hrunning, hreturned⟩
      · exact h.workers hold
      · exact hP n o run fence output rfl hrunning hreturned
    · exact h.workers (w := n) (by simpa [State.worked, hn] using hout)

theorem OutputInv.step (h : OutputInv f s) (hP : Computes f s a)
    (ha : AgentMesh.step s a = some t) : OutputInv f t := by
  cases systemMove_of_step ha with
  | other runs _ workers => exact h.frame (fun hr _ => runs.runs ▸ hr) workers
  | @worker _ w worker pc =>
      refine ⟨h.stored, ?_⟩
      intro n run output hout
      by_cases hn : n = w
      · subst hn
        rcases pc with hpc | hpc
        · exact h.workers (w := n) (by simpa [State.setWorker, hpc] using hout)
        · simp [State.setWorker, hpc, ExecPc.outcome] at hout
      · exact h.workers (w := n) (by simpa [State.setWorker, hn] using hout)
  | worked _ act => exact h.worked act hP
  | request | called => exact h.frame (fun hr _ => hr) rfl
  | @handled n o pc e created _ move =>
      cases move with
      | silent store => exact h.frame (fun hr _ => store ▸ hr) rfl
      | create draft store => exact h.create draft.new.2.1 store rfl
      | fail _ fail store =>
          obtain ⟨-, err, -, hrun'⟩ := Run.fail_ok fail
          obtain ⟨existing, -, -, -, hm⟩ := Memory.updateRun_ok store
          refine h.frame (fun hr hs => ?_) rfl
          have hput : e.store.runs.lookup _ = some _ := hr
          rw [hm] at hput
          exact lookup_of_put (by simp [Memory.keepLineage, hrun']) hput hs
  | managed _ act =>
      cases Manager.act_move act with
      | silent runs => exact h.frame (fun hr _ => runs.runs ▸ hr) rfl
      | cancel store => exact h.cancel store rfl
      | create _ _ store => exact h.create rfl store rfl
  | created create =>
      obtain ⟨-, -, rfl⟩ := Memory.createWorkflow_ok create
      exact h.frame (fun hr _ => hr) rfl
  | canceled cancel => exact h.cancel cancel rfl
  | recovered _ recover =>
      obtain ⟨hfalse, -⟩ | ⟨-, run, -, -, rfl⟩ := Memory.recoverRun_ok recover
      · cases hfalse
      · exact h.frame (fun hr hs => lookup_of_put (by simp [Run.requeue]) hr hs) rfl

theorem outputInv_runs {P : State → Action → Prop} (hP : ∀ s a, P s a → Computes f s a)
    (h : Runs AgentMesh.step P init s) : OutputInv f s :=
  h.invariant ⟨by simp [init], by simp [init, ExecPc.outcome]⟩
    fun {u v a} hu hPu ha => hu.step (hP u a hPu) ha

end Outputs

/-! ### The recorded steps satisfy the rule -/

section Rule

variable {f : String → String → String} {m : Memory} {limit : ℕ∞} {accepted w : Workflow}
  {a b : WorkflowStep} {done : String → Option Outcome}

/-- The outcomes that a Workflow has recorded. -/
def Workflow.outcomes (w : Workflow) (id : String) : Option Outcome :=
  (w.findStep id).map fun step => ⟨step.status, step.output⟩

/-- What a source yields is what the Workflow has recorded. -/
theorem sourceOutput_eq (hext : accepted.Extends w)
    (hdone : ∀ d ∈ a.dependsOn, done d = w.outcomes d)
    {source v : String} (hsource : source = workflowInputSource ∨ source ∈ a.dependsOn)
    (hv : w.sourceValue source = some v) : sourceOutput accepted.input done source = v := by
  rw [Workflow.sourceValue] at hv
  rw [sourceOutput]
  split at hv
  · rw [if_pos ‹_›, ← hext.input, ← Option.some.inj hv]
  · rename_i hne
    obtain ⟨dep, hdep, rfl⟩ := Option.map_eq_some_iff.mp hv
    rw [if_neg hne, hdone source (hsource.resolve_left hne), Workflow.outcomes, hdep]
    rfl

theorem Workflow.Reads.sourceValue {source v : String} (h : w.Reads source v) :
    w.sourceValue source = some v := by
  rw [Workflow.sourceValue]
  rcases h with ⟨hs, rfl⟩ | ⟨hs, dep, hdep, -, rfl⟩
  · rw [if_pos hs]
  · rw [if_neg hs, hdep, Option.map_some]

/-- The resolved input of a step is its reference input. -/
theorem referenceInput_eq (hext : accepted.Extends w) (haccepted : accepted.Accepted)
    (ha : a ∈ accepted.steps) (hab : a.SameDefinition b)
    (hdone : ∀ d ∈ a.dependsOn, done d = w.outcomes d) {input parentRunID : String}
    (hinput : resolveInput w b = .ok (input, parentRunID)) :
    referenceInput accepted.input done a = input := by
  obtain ⟨-, ⟨hfrom, rfl⟩ | ⟨hfrom, values, hvalues, hagg⟩⟩ := resolveInput_ok.mp hinput
  · rw [hab.inputFrom] at hfrom
    rw [referenceInput, if_pos hfrom, hab.input]
  · rw [hab.inputFrom] at hfrom hvalues
    have hsources : ∀ source ∈ a.inputFrom,
        source = workflowInputSource ∨ source ∈ a.dependsOn := haccepted.inputFrom a ha
    -- source by source, what the manager has read is what the evaluation reads
    have hmap : a.inputFrom.map (sourceOutput accepted.input done) = values := by
      clear hagg hfrom
      generalize a.inputFrom = sources at hvalues hsources
      induction hvalues with
      | nil => rfl
      | cons hread _ ih =>
          rw [List.forall_mem_cons] at hsources
          rw [List.map_cons, ih hsources.2, sourceOutput_eq hext hdone hsources.1 hread.sourceValue]
    rw [referenceInput, if_neg hfrom, hmap]
    rcases aggregate_ok.mp hagg with rfl | ⟨hlen, -, rfl⟩
    · rfl
    · rcases values with - | ⟨v, - | ⟨v', vs⟩⟩
      · rfl
      · simp at hlen
      · rfl

/-- A complete step has the outcome of the reference evaluation, if its output is that of
the function on its resolved input. -/
theorem referenceOutcome_eq (hext : accepted.Extends w) (haccepted : accepted.Accepted)
    (ha : a ∈ accepted.steps) (hab : a.SameDefinition b) (hb : b.Sound m w)
    (hcomplete : b.isComplete = true)
    (hout : b.status = .succeeded → ∃ input parentRunID,
      resolveInput w b = .ok (input, parentRunID) ∧ b.output = f b.agentID input)
    (hdone : ∀ d ∈ a.dependsOn, done d = w.outcomes d) :
    referenceOutcome f accepted.input done a = ⟨b.status, b.output⟩ := by
  have hvalue : ∀ {c v}, a.condition = some c → w.ConditionIs c v →
      evaluateCondition (sourceOutput accepted.input done c.source) c = v := by
    rintro c v hc ⟨actual, hactual, heval⟩
    rw [sourceOutput_eq hext hdone (haccepted.condition a ha c hc) hactual, heval]
  have hstatus : b.status = .succeeded ∨ b.status = .skipped := by
    simpa [WorkflowStep.isComplete] using hcomplete
  rcases hstatus with hs | hs
  · -- the condition holds, so the step is not skipped
    have hrun : b.runID ≠ "" := hb.assigned (.inr hs)
    have hpass : a.condition.any
        (fun c => !evaluateCondition (sourceOutput accepted.input done c.source) c) = false := by
      rcases hc : a.condition with - | c
      · rfl
      · have htrue := hb.condition hrun c (hab.condition.trans hc)
        simp [hvalue hc htrue]
    obtain ⟨input, parentRunID, hinput, houtput⟩ := hout hs
    rw [referenceOutcome, hpass, if_neg (by simp),
      referenceInput_eq hext haccepted ha hab hdone hinput, hs, houtput, hab.agentID]
  · -- the condition fails
    obtain ⟨c, hc, hfalse⟩ := hb.skipped hs
    rw [hab.condition] at hc
    have houtput : b.output = "" := hb.output (by simp [hs])
    rw [referenceOutcome, hc, Option.any_some, hvalue hc hfalse, Bool.not_false, if_pos rfl, hs,
      houtput]

end Rule

/-! ### Determinacy -/

/-- No client uses the step keys of the Workflow `id`, and runtimes compute the function
`f`. -/
def Deterministic (id : String) (f : String → String → String) (s : State) (a : Action) : Prop :=
  ¬ BindsStepKey id s a ∧ Computes f s a

/-- **Workflows are determinate.**  Let a Workflow be accepted and stored, and let it
have succeeded in some later state, whatever happened in between.  Then every step has
the status and the output of the reference evaluation in any topological order, and
there is such an order. -/
theorem workflow_determinate {f : String → String → String} {s t : State}
    {given accepted w : Workflow} {now : Time} {m : Memory}
    (hs : Runs step (Deterministic accepted.id f) init s)
    (hcreate : s.store.createWorkflow given now = .ok (m, accepted))
    (ht : Runs step (Deterministic accepted.id f) { s with store := m } t)
    (hw : t.store.workflows.lookup accepted.id = some w) (hsucceeded : w.status = .succeeded) :
    (∃ order, TopologicalOrder accepted order) ∧
      ∀ order, TopologicalOrder accepted order → ∀ a ∈ accepted.steps,
        ∃ b, w.findStep a.id = some b ∧
          referenceEvaluation f accepted order a.id = some ⟨b.status, b.output⟩ := by
  -- the state after the creation, and what holds there and at the end
  have hcreated : Runs step Free init { s with store := m } :=
    hs.free.snoc (a := .createWorkflow given now) trivial (by simp [step, hcreate])
  have hall : Runs step (Deterministic accepted.id f) init t := by
    refine hs.trans (Runs.trans (Runs.refl.snoc (a := .createWorkflow given now) ⟨?_, ?_⟩ ?_) ht)
    · rintro ⟨n, o, sub, parent, stepID, hname, -⟩
      cases hname
    · rintro n o run fence output hname
      cases hname
    · simp [step, hcreate]
  obtain ⟨hnormal, -, rfl⟩ := Memory.createWorkflow_ok hcreate
  have haccepted : accepted.Accepted := (initializeForCreate_ok hnormal).1
  obtain ⟨w', hw', hext, -⟩ :=
    (flowsTo_runs (runInv_runs hcreated) (flowInv_free hcreated) ht).next (AList.lookup_insert _)
  obtain rfl := Option.some.inj (hw.symm.trans hw')
  have hflows := (flowInv_free hall).flows
  have hsound := hflows.sound hw
  have houtputs := outputInv_runs (fun _ _ h => h.2) hall
  have hadopts := adoptInv_runs (fun _ _ h => h.1) hall
  -- the recorded outcomes satisfy the rule at every step
  have hsolves : ∀ a ∈ accepted.steps, Dataflow.Solves WorkflowStep.id WorkflowStep.dependsOn
      (referenceOutcome f accepted.input) w.outcomes a := by
    intro a ha done hdone
    obtain ⟨b, hb, hprogress⟩ := hext.findStep (Workflow.findStep_of_mem haccepted ha)
    have hmem : b ∈ w.steps := (Workflow.mem_of_findStep hb).1
    have hbsound := hsound.steps b hmem
    rw [Workflow.outcomes, hb, Option.map_some, referenceOutcome_eq hext haccepted ha
      hprogress.definition hbsound ((hflows.closed hw).succeeded hsucceeded b hmem) ?_ hdone]
    intro hs
    -- the output is that of the Run, and the Run was made for the resolved input
    obtain ⟨run, hrun, hstatus, houtput⟩ := hbsound.result hs
    obtain ⟨run', parentRunID, hrun', hagent, hinput⟩ :=
      hadopts.own hw hmem (hflows.id hw ▸ hbsound.bound (hbsound.assigned (.inr hs)))
    obtain rfl := Option.some.inj (hrun.symm.trans hrun')
    exact ⟨run.input, parentRunID, hinput, by rw [← houtput, houtputs.stored hrun hstatus, hagent]⟩
  refine ⟨exists_topologicalOrder hnormal, ?_⟩
  intro order horder a ha
  obtain ⟨b, hb, -⟩ := hext.findStep (Workflow.findStep_of_mem haccepted ha)
  refine ⟨b, hb, ?_⟩
  have hvisited : ∀ a ∈ order, Dataflow.Solves WorkflowStep.id WorkflowStep.dependsOn
      (referenceOutcome f accepted.input) w.outcomes a :=
    fun a ha => hsolves a (horder.1.mem_iff.mp ha)
  have hmem : a.id ∈ order.map WorkflowStep.id :=
    List.mem_map_of_mem (horder.1.mem_iff.mpr ha)
  rw [referenceEvaluation, Dataflow.evaluate_eq hvisited horder.2 (by simp) (.inr hmem),
    Workflow.outcomes, hb, Option.map_some]

/-- What the Agent of the demonstration computes. -/
def demoFunction (_ input : String) : String := if input = "go" then "done" else "ok"

def deterministic (f : String → String → String) (s : State) : Action → Bool
  | .handle _ _ => false
  | .work w o =>
      match (s.workers w).pc with
      | .running run _ =>
          match attemptOutcome (s.workers w).engine run o.returned with
          | .ok output => output = f run.agentID run.input
          | .error _ => true
      | _ => true
  | _ => true

theorem deterministic_of_test (id : String) (f : String → String → String) (s : State) (a : Action)
    (h : deterministic f s a = true) : Deterministic id f s a := by
  refine ⟨?_, ?_⟩
  · rintro ⟨n, o, sub, parent, stepID, rfl, -⟩
    cases h
  · rintro w o run fence output rfl hpc hreturned
    simpa [deterministic, hpc, hreturned] using h

/-- The demonstration from its start to its end. -/
def demoRun : List Action :=
  [.startWorkflow 0 ⟨1, 3⟩ "wf"] ++ List.replicate 4 (.manage 0 {})
    ++ [.reconcile 1 ⟨1, 3⟩ "wf"] ++ manageOn 1 10 "run_1"
    ++ workOn 0 14 { returned := ⟨.ok "done", false⟩ } ++ manageOn 1 26 "run_2"
    ++ .deliver 1 demoEngine "run_2" :: List.replicate 14 (.work 1 { returned := ⟨.ok "ok", false⟩ })
    ++ manageOn 1 6 ""

/-- The second step succeeds on the output of the first one, and the third one is skipped. -/
theorem workflow_determinate_demo :
    ∃ s t m accepted w, Runs step (Deterministic accepted.id demoFunction) init s ∧
      s.store.createWorkflow demoWorkflow 0 = .ok (m, accepted) ∧
      Runs step (Deterministic accepted.id demoFunction) { s with store := m } t ∧
      t.store.workflows.lookup accepted.id = some w ∧ w.status = .succeeded ∧
      w.steps.map (fun step => (step.status, step.output))
        = [(.succeeded, "done"), (.succeeded, "ok"), (.skipped, "")] ∧
      (∃ order, TopologicalOrder accepted order) ∧
      ∀ order, TopologicalOrder accepted order → ∀ a ∈ accepted.steps,
        ∃ b, w.findStep a.id = some b ∧
          referenceEvaluation demoFunction accepted order a.id = some ⟨b.status, b.output⟩ := by
  obtain ⟨s, hs, hsome⟩ :
      ∃ s, exec (guarded step (deterministic demoFunction)) init
          [.registry (AList.insert "agent_1" { id := "agent_1" } ∅)] = some s ∧
        ((s.store.createWorkflow demoWorkflow 0).toOption.any fun r =>
          (exec (guarded step (deterministic demoFunction)) { s with store := r.1 } demoRun).any
            fun t => (t.store.workflows.lookup r.2.id).any fun w =>
              w.status = .succeeded
                && w.steps.map (fun step => (step.status, step.output))
                  = [(.succeeded, "done"), (.succeeded, "ok"), (.skipped, "")]) = true := by
    refine exists_of_any ?_
    decide +kernel
  simp only [Option.any_eq_true, Bool.and_eq_true, decide_eq_true_eq] at hsome
  obtain ⟨⟨m, accepted⟩, hcreate, t, ht, w, hw, hstatus, hsteps⟩ := hsome
  have hcreate : s.store.createWorkflow demoWorkflow 0 = .ok (m, accepted) := by
    rcases hr : s.store.createWorkflow demoWorkflow 0 with err | r
    · simp [hr, Except.toOption] at hcreate
    · simpa [hr, Except.toOption] using hcreate
  have hruns := runs_exec_guarded (deterministic_of_test accepted.id demoFunction) hs
  have hruns' := runs_exec_guarded (deterministic_of_test accepted.id demoFunction) ht
  exact ⟨s, t, m, accepted, w, hruns, hcreate, hruns', hw, hstatus, hsteps,
    workflow_determinate hruns hcreate hruns' hw hstatus⟩

end AgentMesh
