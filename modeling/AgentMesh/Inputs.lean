/-
AgentMesh/Inputs.lean

What the definition of a step says about its input, and what `resolveInput` computes.

A source that is named in `DependsOn` stands for the output of that step, and the
source `workflow` otherwise for the input of the Workflow (`Workflow.Supplies`).
`resolveInput` looks at the reserved name first.  As `workflow` is also a legal step
ID, a step that depends on a step of this name never reads its output: it gets the
input of the Workflow instead.  Apart from these steps `resolveInput` never fails on
what was accepted, and it returns what the definition says (`resolveInput_demands_iff`).
-/
import AgentMesh.FlowSafety
import AgentMesh.Reinitialize
import AgentMesh.Marshal

namespace AgentMesh

open Machine

/-! ### The definition -/

/-- What a complete step passes on. -/
def WorkflowStep.result (step : WorkflowStep) : String :=
  if step.status = .skipped then "" else step.output

/-- The value that a source of the step stands for. -/
def Workflow.Supplies (w : Workflow) (step : WorkflowStep) (source value : String) : Prop :=
  source ∈ step.dependsOn ∧ (∃ dep ∈ w.steps, dep.id = source ∧ value = dep.result) ∨
    source ∉ step.dependsOn ∧ source = workflowInputSource ∧ value = w.input

/-- The Run of the first dependency that has one, or the empty string. -/
def Workflow.firstRun (w : Workflow) (dependsOn : List String) : String :=
  (((dependsOn.filterMap w.findStep).map WorkflowStep.runID).find? fun id => id ≠ "").getD ""

/-- The input and the parent that the definition of a step asks for. -/
structure Workflow.Demands (w : Workflow) (step : WorkflowStep) (input parentRunID : String) :
    Prop where
  literal : step.inputFrom = [] → input = step.input
  single : ∀ source, step.inputFrom = [source] → w.Supplies step source input
  several : 1 < step.inputFrom.length → ∃ values,
    Json.unmarshalStrings (Url.encode input) = some values ∧
      List.Forall₂ (w.Supplies step) step.inputFrom values
  parent : parentRunID = w.firstRun step.dependsOn

/-- A state of the execution of an accepted Workflow: the definitions are still the same, and
steps that were skipped have no output. -/
structure Workflow.Executes (accepted w : Workflow) : Prop where
  input : w.input = accepted.input
  steps : List.Forall₂ WorkflowStep.SameDefinition accepted.steps w.steps
  skipped : ∀ step ∈ w.steps, step.status = .skipped → step.output = ""

/-- What the checks leave to rely on for the input of a step. -/
structure Workflow.Resolvable (w : Workflow) (step : WorkflowStep) : Prop where
  nodup : (w.steps.map WorkflowStep.id).Nodup
  complete : ∀ d ∈ step.dependsOn, ∃ dep ∈ w.steps, dep.id = d ∧ dep.isComplete = true
  skipped : ∀ dep ∈ w.steps, dep.status = .skipped → dep.output = ""
  sources : ∀ source ∈ step.inputFrom, source = workflowInputSource ∨ source ∈ step.dependsOn
  several : 1 < step.inputFrom.length → step.inputAggregation = workflowInputJSONArray

section Definitions

variable {given accepted w : Workflow} {now : Time} {step : WorkflowStep}

/-- The accepted steps have passed the checks, and the table has the IDs of these steps. -/
theorem initializeForCreate_valid (h : given.initializeForCreate now = .ok accepted) :
    ∃ ids : Table Nat, (∀ d, (ids.lookup d).isSome → ∃ a ∈ accepted.steps, a.id = d) ∧
      ∀ a ∈ accepted.steps, a.Valid ids given.input := by
  obtain ⟨-, -, -, steps, ids, hnormal, hvalidate, -, -⟩ := initializeForCreate_iff.mp h
  obtain ⟨-, -, rfl⟩ := initializeSteps_iff.mp hnormal
  obtain ⟨hvalid, hdefault⟩ := validateSteps_iff.mp hvalidate
  refine ⟨indexSteps 0 ∅ (steps.map WorkflowStep.id), ?_, ?_⟩
  · intro d hd
    obtain hd | hd := isSome_lookup_indexSteps.mp hd
    · cases hd
    · obtain ⟨a, ha, rfl⟩ := List.mem_map.mp hd
      refine ⟨a.withDefault, hdefault ▸ List.mem_map_of_mem ha, ?_⟩
      obtain ⟨aggregation, heq⟩ := a.withDefault_eq
      rw [heq]
  · intro b hb
    rw [← hdefault] at hb
    obtain ⟨a, ha, rfl⟩ := List.mem_map.mp hb
    exact (hvalid a ha).withDefault.1

theorem Workflow.Executes.resolvable (hw : accepted.Executes w)
    (h : given.initializeForCreate now = .ok accepted) (hstep : step ∈ w.steps)
    (hdeps : ∀ dep ∈ w.steps, dep.id ∈ step.dependsOn →
      dep.status = .succeeded ∨ dep.status = .skipped) : w.Resolvable step := by
  obtain ⟨ids, hids, hvalid⟩ := initializeForCreate_valid h
  obtain ⟨a, ha, hsame⟩ := Pointwise.mem_right hw.steps hstep
  have hcheck := hvalid a ha
  refine ⟨?_, ?_, hw.skipped, ?_, ?_⟩
  · rw [← Pointwise.map_eq hw.steps fun hab => hab.id.symm]
    exact (initializeForCreate_ok h).1.nodup
  · intro d hd
    obtain ⟨b, hb, rfl⟩ := hids d (hcheck.dependsOn d (hsame.dependsOn ▸ hd)).2
    obtain ⟨dep, hdep, hbdep⟩ := Pointwise.mem_right hw.steps.flip hb
    refine ⟨dep, hdep, hbdep.id, ?_⟩
    simpa [WorkflowStep.isComplete] using hdeps dep hdep (hbdep.id ▸ hd)
  · intro source hsource
    rw [hsame.inputFrom] at hsource
    rw [hsame.dependsOn]
    exact (initializeForCreate_ok h).1.inputFrom a ha source hsource
  · intro hlength
    rw [hsame.inputFrom] at hlength
    rw [hsame.inputAggregation]
    exact hcheck.input.several hlength

end Definitions

/-! ### What is computed -/

section Resolvable

variable {w : Workflow} {step dep : WorkflowStep} {source value : String}

theorem WorkflowStep.result_eq (h : dep.status = .skipped → dep.output = "") :
    dep.result = dep.output := by
  rw [WorkflowStep.result]
  split
  · rw [h ‹_›]
  · rfl

theorem resolveParent_eq (parentRunID : String) {dependsOn : List String}
    (h : ∀ d ∈ dependsOn, ∃ dep, w.findStep d = some dep ∧ dep.isComplete = true) :
    resolveParent w step parentRunID dependsOn
      = .ok (if parentRunID = "" then w.firstRun dependsOn else parentRunID) := by
  induction dependsOn generalizing parentRunID with
  | nil => by_cases hp : parentRunID = "" <;> simp [resolveParent, Workflow.firstRun, hp]
  | cons d rest ih =>
      obtain ⟨⟨dep, hdep, hcomplete⟩, hrest⟩ := List.forall_mem_cons.mp h
      have hfirst : w.firstRun (d :: rest) = if dep.runID = "" then w.firstRun rest else dep.runID := by
        by_cases hr : dep.runID = "" <;> simp [Workflow.firstRun, hdep, hr]
      simp only [resolveParent, hdep, hcomplete, hfirst, ih _ hrest]
      by_cases hp : parentRunID = ""
      · by_cases hr : dep.runID = "" <;> simp [hp, hr]
      · simp [hp]

namespace Workflow.Resolvable

variable (h : w.Resolvable step)

include h

theorem findStep {d : String} (hd : d ∈ step.dependsOn) :
    ∃ dep, w.findStep d = some dep ∧ dep.isComplete = true := by
  obtain ⟨dep, hdep, rfl, hcomplete⟩ := h.complete d hd
  exact ⟨dep, Pointwise.find?_key h.nodup hdep, hcomplete⟩

theorem findStep_eq (hdep : dep ∈ w.steps) : w.findStep dep.id = some dep :=
  Pointwise.find?_key h.nodup hdep

/-- A source yields what it stands for, unless it is the reserved name and the name of a
dependency that yields something else. -/
theorem supplies_iff (hsource : source ∈ step.inputFrom) :
    (∃ value, w.Reads source value ∧ w.Supplies step source value) ↔
      (source = workflowInputSource → source ∈ step.dependsOn →
        ∀ dep ∈ w.steps, dep.id = source → dep.result = w.input) := by
  by_cases hdepends : source ∈ step.dependsOn
  · obtain ⟨dep, hdep, rfl, hcomplete⟩ := h.complete source hdepends
    have hfound := h.findStep_eq hdep
    have honly : ∀ dep' ∈ w.steps, dep'.id = dep.id → dep' = dep := by
      intro dep' hdep' hid
      rw [← hid, h.findStep_eq hdep'] at hfound
      exact Option.some.inj hfound
    by_cases hreserved : dep.id = workflowInputSource
    · constructor
      · rintro ⟨value, ⟨-, rfl⟩ | ⟨hne, -⟩, ⟨-, dep', hdep', hid, hvalue⟩ | ⟨hnot, -⟩⟩ - - dep'' hdep''
          hid'
        · rw [honly dep'' hdep'' hid', hvalue, honly dep' hdep' hid]
        · exact absurd hdepends hnot
        · exact absurd hreserved hne
        · exact absurd hreserved hne
      · intro hsame
        refine ⟨w.input, .inl ⟨hreserved, rfl⟩, .inl ⟨hdepends, dep, hdep, rfl, ?_⟩⟩
        exact (hsame hreserved hdepends dep hdep rfl).symm
    · refine ⟨fun _ heq => absurd heq hreserved, fun _ => ?_⟩
      have hresult := WorkflowStep.result_eq (h.skipped dep hdep)
      exact ⟨dep.output, .inr ⟨hreserved, dep, hfound, hcomplete, rfl⟩,
        .inl ⟨hdepends, dep, hdep, rfl, hresult.symm⟩⟩
  · have hreserved := (h.sources source hsource).resolve_right hdepends
    refine ⟨fun _ _ hnot => absurd hnot hdepends, fun _ => ?_⟩
    exact ⟨w.input, .inl ⟨hreserved, rfl⟩, .inr ⟨hdepends, hreserved, rfl⟩⟩

/-- The values that are read are put together as the definition says. -/
theorem resolves_iff :
    (∃ input parentRunID, resolveInput w step = .ok (input, parentRunID) ∧
        w.Demands step input parentRunID) ↔
      ∀ source ∈ step.inputFrom, ∃ value, w.Reads source value ∧ w.Supplies step source value := by
  have hparent : resolveParent w step "" step.dependsOn = .ok (w.firstRun step.dependsOn) :=
    resolveParent_eq "" fun d => h.findStep
  constructor
  · rintro ⟨input, parentRunID, hresolve, hdemands⟩ source hsource
    obtain ⟨-, ⟨hnil, -⟩ | ⟨hne, values, hreads, haggregate⟩⟩ := resolveInput_ok.mp hresolve
    · rw [hnil] at hsource
      cases hsource
    have hsupplies : List.Forall₂ (w.Supplies step) step.inputFrom values := by
      have hlength := hreads.length_eq
      rcases aggregate_ok.mp haggregate with rfl | ⟨hother, -, rfl⟩
      · obtain ⟨only, honly⟩ := List.length_eq_one_iff.mp hlength
        rw [honly]
        exact .cons (hdemands.single only honly) .nil
      · -- the array that is written is read as the values
        have hpos : 0 < step.inputFrom.length := List.length_pos_iff.mpr hne
        obtain ⟨values', hdecode, hvalues'⟩ := hdemands.several (by omega)
        rw [Json.unmarshalStrings_jsonStrings] at hdecode
        obtain rfl := Option.some.inj hdecode
        exact hvalues'
    obtain ⟨i, hi⟩ := List.mem_iff_getElem?.mp hsource
    obtain ⟨value, hvalue, hread⟩ := Pointwise.getElem?_left hreads hi
    obtain ⟨value', hvalue', hsupply⟩ := Pointwise.getElem?_left hsupplies hi
    obtain rfl := Option.some.inj (hvalue.symm.trans hvalue')
    exact ⟨value, hread, hsupply⟩
  · intro hall
    by_cases hnil : step.inputFrom = []
    · refine ⟨step.input, _, resolveInput_ok.mpr ⟨hparent, .inl ⟨hnil, rfl⟩⟩, ?_⟩
      exact ⟨fun _ => rfl, by simp [hnil], by simp [hnil], rfl⟩
    obtain ⟨values, hboth⟩ := Pointwise.exists_right hall
    have hlength := hboth.length_eq
    have hreads : List.Forall₂ w.Reads step.inputFrom values := hboth.imp fun _ _ hv => hv.1
    have hsupplies : List.Forall₂ (w.Supplies step) step.inputFrom values :=
      hboth.imp fun _ _ hv => hv.2
    by_cases hone : values.length = 1
    · obtain ⟨value, rfl⟩ := List.length_eq_one_iff.mp hone
      refine ⟨value, _, resolveInput_ok.mpr ⟨hparent, .inr ⟨hnil, [value], hreads, rfl⟩⟩,
        fun hno => absurd hno hnil, ?_, fun hmany => by omega, rfl⟩
      intro source hsource
      rw [hsource] at hsupplies
      exact (List.forall₂_cons.mp hsupplies).1
    · have hpos : 0 < step.inputFrom.length := List.length_pos_iff.mpr hnil
      have haggregate : aggregate step values = .ok (jsonStrings values) :=
        aggregate_ok.mpr (.inr ⟨hone, h.several (by omega), rfl⟩)
      refine ⟨jsonStrings values, _,
        resolveInput_ok.mpr ⟨hparent, .inr ⟨hnil, values, hreads, haggregate⟩⟩,
        fun hno => absurd hno hnil, ?_, ?_, rfl⟩
      · intro source hsource
        rw [hsource] at hlength
        exact absurd hlength.symm hone
      · exact fun _ => ⟨values, Json.unmarshalStrings_jsonStrings values, hsupplies⟩

end Workflow.Resolvable

end Resolvable

/-! ### Step inputs -/

section Main

variable {given accepted : Workflow} {now : Time}

/-- The states that a stored Workflow goes through, whatever happens. -/
theorem executes_of_runs {s t : State} {m : Memory} {w : Workflow} (hs : Reachable s)
    (hcreate : s.store.createWorkflow given now = .ok (m, accepted))
    (ht : Runs step Free { s with store := m } t)
    (hw : t.store.workflows.lookup accepted.id = some w) : accepted.Executes w := by
  have hcreated : Runs step Free init { s with store := m } :=
    hs.snoc (a := .createWorkflow given now) trivial (by simp [step, hcreate])
  obtain ⟨-, -, rfl⟩ := Memory.createWorkflow_ok hcreate
  obtain ⟨w', hw', hext, -⟩ :=
    (flowsTo_runs (runInv_runs hcreated) (flowInv_free hcreated) ht).next (AList.lookup_insert _)
  obtain rfl := Option.some.inj (hw.symm.trans hw')
  have hsound := (flowInv_free (hcreated.trans ht)).flows.sound hw
  refine ⟨hext.input, hext.steps.imp fun _ _ hab => hab.definition, ?_⟩
  exact fun a ha hskipped => (hsound.steps a ha).output (by simp [hskipped])

/-- **Steps get the input that their definition says**, except those that take their input from
a dependency with the reserved name `workflow`: they get the input of the Workflow.  The
states of a Workflow that are considered are all that it can reach after it was stored. -/
theorem resolveInput_demands_iff (h : given.initializeForCreate now = .ok accepted) :
    (∀ s m t w, Reachable s → s.store.createWorkflow given now = .ok (m, accepted) →
      Runs step Free { s with store := m } t →
      t.store.workflows.lookup accepted.id = some w → accepted.Executes w) ∧
    ∀ w, accepted.Executes w → ∀ a ∈ w.steps, a.status = .pending →
      (∀ dep ∈ w.steps, dep.id ∈ a.dependsOn →
        dep.status = .succeeded ∨ dep.status = .skipped) →
      ((∃ input parentRunID, resolveInput w a = .ok (input, parentRunID) ∧
          w.Demands a input parentRunID) ↔
        (workflowInputSource ∈ a.inputFrom → workflowInputSource ∈ a.dependsOn →
          ∀ dep ∈ w.steps, dep.id = workflowInputSource → dep.result = w.input)) := by
  refine ⟨fun s m t w hs hcreate ht hw => executes_of_runs hs hcreate ht hw, ?_⟩
  intro w hw a ha _ hdeps
  have hresolvable := hw.resolvable h ha hdeps
  rw [hresolvable.resolves_iff]
  constructor
  · intro hall hfrom
    exact (hresolvable.supplies_iff hfrom).mp (hall _ hfrom) rfl
  · intro hname source hsource
    refine (hresolvable.supplies_iff hsource).mpr ?_
    rintro rfl
    exact hname hsource

/-- The Workflow after one step has succeeded. -/
def Workflow.finished (w : Workflow) (id runID output : String) : Workflow :=
  { w with
    steps := w.steps.map fun a =>
      if a.id = id then { a with status := .succeeded, runID := runID, output := output } else a }

theorem Workflow.executes_finished (h : given.initializeForCreate now = .ok accepted)
    (id runID output : String) : accepted.Executes (accepted.finished id runID output) := by
  refine ⟨rfl, Pointwise.map (fun a => ?_) accepted.steps, ?_⟩
  · split
    · exact ⟨rfl, rfl, rfl, rfl, rfl, rfl, rfl, rfl, rfl⟩
    · exact .refl a
  · intro a ha hskipped
    obtain ⟨b, hb, rfl⟩ := List.mem_map.mp ha
    split at hskipped
    · cases hskipped
    · rw [((initializeForCreate_ok h).2.2 b hb).status] at hskipped
      cases hskipped

end Main

/-- A Workflow with a step that has two sources, as it is stored. -/
def gatherWorkflow : Workflow :=
  { id := "wf"
    input := "hello"
    steps := [
      { id := "draft", workflowID := "wf", agentID := "agent_1", input := "hi" },
      { id := "report", workflowID := "wf", agentID := "agent_1", inputFrom := ["workflow", "draft"]
        inputAggregation := "json-array", dependsOn := ["draft"] }]
    version := 1 }

/-- The step gets both values. -/
theorem resolveInput_demands_pair :
    ∃ a ∈ (gatherWorkflow.finished "draft" "run_1" "done").steps, ∃ input parentRunID,
      gatherWorkflow.initializeForCreate 0 = .ok gatherWorkflow ∧
      resolveInput (gatherWorkflow.finished "draft" "run_1" "done") a = .ok (input, parentRunID) ∧
      a.inputFrom = ["workflow", "draft"] ∧
      (gatherWorkflow.finished "draft" "run_1" "done").Demands a input parentRunID := by
  have haccepted : gatherWorkflow.initializeForCreate 0 = .ok gatherWorkflow := by decide
  have hexecutes := Workflow.executes_finished haccepted "draft" "run_1" "done"
  refine ⟨_, List.mem_cons_of_mem _ List.mem_cons_self, ?_⟩
  have hiff := (resolveInput_demands_iff haccepted).2 _ hexecutes _
    (List.mem_cons_of_mem _ List.mem_cons_self) (by decide) (by decide)
  obtain ⟨input, parentRunID, hresolve, hdemands⟩ := hiff.mpr (by decide)
  exact ⟨input, parentRunID, haccepted, hresolve, by decide, hdemands⟩

/-- A Workflow with a step that has the reserved name, as it is stored. -/
def reservedWorkflow : Workflow :=
  { id := "wf"
    input := "hello"
    steps := [
      { id := "workflow", workflowID := "wf", agentID := "agent_1", input := "hi" },
      { id := "report", workflowID := "wf", agentID := "agent_1", inputFrom := ["workflow"]
        inputAggregation := "single", dependsOn := ["workflow"] }]
    version := 1 }

/-- The first step of `reservedWorkflow` is the only one of this name. -/
theorem reservedWorkflow_supplies {a : WorkflowStep} {value : String}
    (ha : "workflow" ∈ a.dependsOn)
    (h : (reservedWorkflow.finished "workflow" "run_1" "done").Supplies a "workflow" value) :
    value = "done" := by
  have hresult : ∀ dep ∈ (reservedWorkflow.finished "workflow" "run_1" "done").steps,
      dep.id = "workflow" → dep.result = "done" := by decide
  rcases h with ⟨-, dep, hdep, hid, rfl⟩ | ⟨hnot, -⟩
  · exact hresult dep hdep hid
  · exact absurd ha hnot

/-- Its second step does not get the output of the first one, `done`, but the input of the
Workflow. -/
theorem reserved_name_hides_output :
    reservedWorkflow.initializeForCreate 0 = .ok reservedWorkflow ∧
    reservedWorkflow.Executes (reservedWorkflow.finished "workflow" "run_1" "done") ∧
    ∃ a ∈ (reservedWorkflow.finished "workflow" "run_1" "done").steps,
      a.status = .pending ∧ a.inputFrom = ["workflow"] ∧ a.dependsOn = ["workflow"] ∧
      resolveInput (reservedWorkflow.finished "workflow" "run_1" "done") a
        = .ok ("hello", "run_1") ∧
      ¬ (reservedWorkflow.finished "workflow" "run_1" "done").Demands a "hello" "run_1" := by
  have haccepted : reservedWorkflow.initializeForCreate 0 = .ok reservedWorkflow := by
    decide
  refine ⟨haccepted, Workflow.executes_finished haccepted "workflow" "run_1" "done", _,
    List.mem_cons_of_mem _ List.mem_cons_self, by decide, by decide, by decide, by decide, ?_⟩
  intro hdemands
  have hdone := reservedWorkflow_supplies (by decide) (hdemands.single "workflow" rfl)
  exact absurd hdone (by decide)

end AgentMesh
