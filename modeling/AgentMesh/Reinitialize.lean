/-
AgentMesh/Reinitialize.lean

Initialising a Workflow twice, and the handler `createWorkflow` of
`internal/httpapi/server.go`.

The handler initialises the Workflow that it is asked for, and `CreateWorkflow`
of the store initialises it again.  The second pass does not meet what the first
one met: the names are in lower case by then, the references are without
repetitions, and a default was written into a step.  But what was accepted is in
normal form (`WorkflowStep.Normal`), and a step in normal form is a fixed point
of the normalisation.  So the second pass makes the same checks on the same
steps, and changes nothing but the times (`Workflow.stamp`).

The second pass is read off the lemmas that say when each loop of
`InitializeForCreate` succeeds and with which result.
-/
import AgentMesh.Acceptance

namespace AgentMesh

/-! ### Names in normal form -/

/-- A text that trimming and lower-casing leave as it is. -/
def TrimmedLower (s : String) : Prop := toLower (trimSpace s) = s

instance (s : String) : Decidable (TrimmedLower s) := by
  unfold TrimmedLower; infer_instance

theorem plain_of_stepIDChar {c : Char} (h : isStepIDChar c = true) :
    isSpace c = false ∧ toLowerRune c = c := by
  simp only [isStepIDChar, isStepIDStart, Bool.or_eq_true, Bool.and_eq_true, decide_eq_true_eq,
    beq_iff_eq] at h
  have hrange : (97 ≤ c.toNat ∧ c.toNat ≤ 122) ∨ (48 ≤ c.toNat ∧ c.toNat ≤ 57) ∨
      c.toNat = 46 ∨ c.toNat = 95 ∨ c.toNat = 45 := by
    rcases h with (((⟨h1, h2⟩ | ⟨h1, h2⟩) | rfl) | rfl) | rfl
    · exact .inl ⟨h1, h2⟩
    · exact .inr (.inl ⟨h1, h2⟩)
    · exact .inr (.inr (.inl rfl))
    · exact .inr (.inr (.inr (.inl rfl)))
    · exact .inr (.inr (.inr (.inr rfl)))
  exact plain_of_ascii (by omega) (by omega)

section Names

variable {s : String}

/-- A step ID is trimmed, in lower case and not empty. -/
theorem trimmedLower_of_matchesStepIDPattern (h : matchesStepIDPattern s = true) :
    TrimmedLower s ∧ s ≠ "" := by
  rw [matchesStepIDPattern] at h
  rcases hs : s.toList with - | ⟨c, cs⟩
  · rw [hs] at h
    cases h
  · simp only [hs, Bool.and_eq_true, List.all_eq_true] at h
    obtain ⟨⟨hc, -⟩, hcs⟩ := h
    refine ⟨toLower_trimSpace_of_plain ?_, ?_⟩
    · intro d hd
      rw [hs] at hd
      rcases List.mem_cons.mp hd with rfl | hd
      · exact plain_of_stepIDChar (by rw [isStepIDChar, hc]; rfl)
      · exact plain_of_stepIDChar (hcs d hd)
    · rintro rfl
      cases hs

theorem trimmedLower_workflowInputSource :
    TrimmedLower workflowInputSource ∧ workflowInputSource ≠ "" := by
  decide

theorem trimmedLower_of_isConditionOperator (h : isConditionOperator s = true) : TrimmedLower s := by
  simp only [isConditionOperator, Bool.or_eq_true, decide_eq_true_eq] at h
  rcases h with ((rfl | rfl) | rfl) | rfl <;> decide

/-- The round of `normalizeWorkflowRefs` for one value. -/
def addRef (result : List String) (value : String) : List String :=
  if toLower (trimSpace value) = "" ∨ toLower (trimSpace value) ∈ result then result
  else result ++ [toLower (trimSpace value)]

theorem normalizeWorkflowRefs_eq (values : List String) :
    normalizeWorkflowRefs values = values.foldl addRef [] := rfl

/-- References come out without blanks and without repetitions. -/
theorem foldl_addRef_spec {values result : List String} (hne : "" ∉ result)
    (hnodup : result.Nodup) :
    "" ∉ values.foldl addRef result ∧ (values.foldl addRef result).Nodup := by
  induction values generalizing result with
  | nil => exact ⟨hne, hnodup⟩
  | cons value rest ih =>
      rw [List.foldl_cons, addRef]
      split
      · exact ih hne hnodup
      · rename_i hnew
        rw [not_or] at hnew
        apply ih
        · rw [List.mem_append, List.mem_singleton, not_or]
          exact ⟨hne, fun h => hnew.1 h.symm⟩
        · rw [List.nodup_append]
          refine ⟨hnodup, List.nodup_singleton _, ?_⟩
          rintro a ha b hb rfl
          exact hnew.2 (List.mem_singleton.mp hb ▸ ha)

/-- References that are trimmed and in lower case are left as they are. -/
theorem foldl_addRef_trimmedLower {values result : List String}
    (hlower : ∀ v ∈ values, TrimmedLower v)
    (hne : "" ∉ values) (hnodup : (result ++ values).Nodup) :
    values.foldl addRef result = result ++ values := by
  induction values generalizing result with
  | nil => simp
  | cons value rest ih =>
      rw [List.forall_mem_cons] at hlower
      rw [List.mem_cons, not_or] at hne
      have hnew : value ∉ result := by
        intro hmem
        rw [List.nodup_append] at hnodup
        exact hnodup.2.2 value hmem value List.mem_cons_self rfl
      have hvalue : addRef result value = result ++ [value] := by
        rw [addRef, show toLower (trimSpace value) = value from hlower.1,
          if_neg (not_or.mpr ⟨fun h => hne.1 h.symm, hnew⟩)]
      rw [List.foldl_cons, hvalue, ih hlower.2 hne.2 (by simpa using hnodup)]
      simp

theorem normalizeWorkflowRefs_trimmedLower {values : List String}
    (hlower : ∀ v ∈ values, TrimmedLower v)
    (hne : "" ∉ values) (hnodup : values.Nodup) : normalizeWorkflowRefs values = values := by
  rw [normalizeWorkflowRefs_eq, foldl_addRef_trimmedLower hlower hne (by simpa using hnodup),
    List.nil_append]

end Names

/-! ### Steps in normal form -/

/-- A step with another time of creation. -/
def WorkflowStep.stamp (step : WorkflowStep) (at_ : Time) : WorkflowStep :=
  { step with createdAt := at_ }

/-- A Workflow with another time of creation. -/
def Workflow.stamp (w : Workflow) (at_ : Time) : Workflow :=
  { w with createdAt := at_, steps := w.steps.map fun step => step.stamp at_ }

/-- A step that normalisation leaves as it is, but for its time. -/
def WorkflowStep.Normal (step : WorkflowStep) (workflowID : String) : Prop :=
  ∀ at_, step.normalize workflowID at_ = step.stamp at_

section Checks

variable {ids ids' : Table Nat} {input : String} {step step' : WorkflowStep}

/-- The aggregations that are accepted. -/
theorem WorkflowStep.ValidInput.trimmedLower (h : step.ValidInput input) :
    TrimmedLower step.inputAggregation := by
  have hempty : TrimmedLower "" := by decide
  have hsingle : TrimmedLower workflowInputSingle := by decide
  have hjson : TrimmedLower workflowInputJSONArray := by decide
  rcases hlength : step.inputFrom with - | ⟨a, - | ⟨b, rest⟩⟩
  · rw [(h.literal hlength).2]
    exact hempty
  · rcases h.single (by rw [hlength]; rfl) with hagg | hagg
    · rw [hagg]
      exact hempty
    · rw [hagg]
      exact hsingle
  · rw [h.several (by rw [hlength, List.length_cons, List.length_cons]; omega)]
    exact hjson

/-- A step that was checked passes the checks with its default, which is not changed again. -/
theorem WorkflowStep.Valid.withDefault (h : step.Valid ids input) :
    step.withDefault.Valid ids input ∧ step.withDefault.withDefault = step.withDefault := by
  rw [WorkflowStep.withDefault]
  split
  · rename_i hone
    obtain ⟨hdepends, hcondition, hinput⟩ := h
    have hfrom : step.inputFrom ≠ [] := by
      intro hnil
      rw [hnil] at hone
      cases hone.1
    refine ⟨⟨hdepends, hcondition, ?_⟩, ?_⟩
    · exact ⟨fun hnil => absurd hnil hfrom, hinput.sources, fun _ => .inr rfl,
        fun hlength => absurd hone.1 (by simp only at hlength; omega)⟩
    · simp [WorkflowStep.withDefault, workflowInputSingle]
  · rename_i hother
    exact ⟨h, if_neg hother⟩

/-- Times are not checked. -/
theorem WorkflowStep.Valid.stamp (h : step.Valid ids input) (at_ : Time) :
    (step.stamp at_).Valid ids input :=
  ⟨h.dependsOn, h.condition, ⟨h.input.literal, h.input.sources, h.input.single, h.input.several⟩⟩

theorem WorkflowStep.withDefault_stamp (step : WorkflowStep) (at_ : Time) :
    (step.stamp at_).withDefault = step.withDefault.stamp at_ := by
  unfold WorkflowStep.withDefault WorkflowStep.stamp
  split <;> rfl

end Checks

/-! ### The two loops -/

section Loops

variable {ids ids' : Table Nat} {workflowID input : String} {now : Time} {index : Nat}
  {step : WorkflowStep} {given steps rest : List WorkflowStep}

theorem WellNamed.stamp (h : WellNamed ids steps) (at_ : Time) :
    WellNamed ids (steps.map fun step => step.stamp at_) where
  nodup := by
    rw [List.map_map]
    exact h.nodup
  matching := List.forall_mem_map.mpr h.matching
  new := List.forall_mem_map.mpr h.new
  agent := List.forall_mem_map.mpr h.agent

theorem WellNamed.withDefault (h : WellNamed ids steps) :
    WellNamed ids (steps.map WorkflowStep.withDefault) := by
  have hsame : ∀ step : WorkflowStep, step.withDefault.id = step.id ∧
      step.withDefault.agentID = step.agentID := by
    intro step
    obtain ⟨aggregation, hstep⟩ := step.withDefault_eq
    rw [hstep]
    exact ⟨rfl, rfl⟩
  refine ⟨?_, ?_, ?_, ?_⟩
  · rw [WorkflowStep.ids_withDefault]
    exact h.nodup
  · refine List.forall_mem_map.mpr fun step hstep => ?_
    rw [(hsame step).1]
    exact h.matching step hstep
  · refine List.forall_mem_map.mpr fun step hstep => ?_
    rw [(hsame step).1]
    exact h.new step hstep
  · refine List.forall_mem_map.mpr fun step hstep => ?_
    rw [(hsame step).2]
    exact h.agent step hstep

/-- The cycle check looks at nothing but the dependencies. -/
theorem validateWorkflowDAG_stamp (steps : List WorkflowStep) (ids : Table Nat) (at_ : Time) :
    validateWorkflowDAG (steps.map fun step => step.stamp at_) ids =
      validateWorkflowDAG steps ids := by
  have hdependents : dependentsOf ids (steps.map fun step => step.stamp at_) =
      dependentsOf ids steps := by
    rw [dependentsOf, dependentsOf, List.zipIdx_map, List.foldl_map, List.length_map]
    rfl
  have hdegrees : (steps.map fun step => step.stamp at_).map
      (fun step => (step.dependsOn.length : Int)) =
        steps.map fun step => (step.dependsOn.length : Int) := by
    rw [List.map_map]
    rfl
  rw [validateWorkflowDAG, validateWorkflowDAG, hdependents, hdegrees, List.length_map]

end Loops

/-! ### The second pass -/

section Workflows

variable {w accepted : Workflow} {now : Time}

/-- A step that has passed both loops is in normal form. -/
theorem WorkflowStep.normal_withDefault {given : WorkflowStep} {workflowID : String}
    {ids : Table Nat} (hvalid : (given.normalize workflowID now).Valid ids w.input)
    (hpattern : matchesStepIDPattern (given.normalize workflowID now).id = true)
    (hids : ∀ d, (ids.lookup d).isSome → matchesStepIDPattern d = true) :
    (given.normalize workflowID now).withDefault.Normal workflowID := by
  have hdepends : ∀ d ∈ (given.normalize workflowID now).dependsOn, TrimmedLower d := fun d hd =>
    (trimmedLower_of_matchesStepIDPattern (hids d (hvalid.dependsOn d hd).2)).1
  have hsources : ∀ v ∈ (given.normalize workflowID now).inputFrom, TrimmedLower v := by
    intro v hv
    rcases (hvalid.input.sources (List.ne_nil_of_mem hv)).2 v hv with ⟨rfl, -⟩ | ⟨-, hmem⟩
    · exact trimmedLower_workflowInputSource.1
    · exact hdepends v hmem
  have hrefs : ∀ values : List String, (∀ v ∈ normalizeWorkflowRefs values, TrimmedLower v) →
      normalizeWorkflowRefs (normalizeWorkflowRefs values) = normalizeWorkflowRefs values := by
    intro values hlower
    obtain ⟨hne, hnodup⟩ : "" ∉ values.foldl addRef [] ∧ (values.foldl addRef []).Nodup :=
      foldl_addRef_spec List.not_mem_nil List.nodup_nil
    exact normalizeWorkflowRefs_trimmedLower hlower hne hnodup
  have hcondition : (given.normalize workflowID now).condition.map WorkflowCondition.normalize =
      (given.normalize workflowID now).condition := by
    rcases hc : (given.normalize workflowID now).condition with - | c
    · rfl
    · obtain ⟨-, hsource, hoperator⟩ := hvalid.condition c hc
      have hlower : TrimmedLower c.source := by
        rcases hsource with h | h
        · rw [h]
          exact trimmedLower_workflowInputSource.1
        · exact hdepends _ h
      have hoperator' : TrimmedLower c.operator := trimmedLower_of_isConditionOperator hoperator
      rw [TrimmedLower] at hlower hoperator'
      rw [Option.map_some, WorkflowCondition.normalize, hlower, hoperator']
  have haggregation := hvalid.withDefault.1.input.trimmedLower
  obtain ⟨aggregation, heq⟩ := (given.normalize workflowID now).withDefault_eq
  rw [heq] at haggregation ⊢
  intro at_
  simp only [WorkflowStep.normalize, WorkflowStep.stamp, WorkflowStep.mk.injEq, and_true, true_and]
  refine ⟨?_, ?_, ?_, haggregation, ?_, ?_⟩
  · exact (trimmedLower_of_matchesStepIDPattern hpattern).1
  · exact trimSpace_trimSpace given.agentID
  · exact hrefs given.inputFrom hsources
  · exact hrefs given.dependsOn hdepends
  · exact hcondition

theorem initializeForCreate_again (h : w.initializeForCreate now = .ok accepted) (now' : Time) :
    accepted.initializeForCreate now' = .ok (accepted.stamp now') := by
  obtain ⟨hid, hsteps, hlength, steps, ids, hnormal, hvalidate, hdag, heq⟩ :=
    initializeForCreate_iff.mp h
  obtain ⟨hgiven, hnamed, hids⟩ := initializeSteps_iff.mp hnormal
  obtain ⟨hvalid, hdefault⟩ := validateSteps_iff.mp hvalidate
  have hpattern : ∀ d, (ids.lookup d).isSome → matchesStepIDPattern d = true := by
    intro d hd
    rw [← hids, isSome_lookup_indexSteps] at hd
    rcases hd with hd | hd
    · cases hd
    · obtain ⟨step, hstep, rfl⟩ := List.mem_map.mp hd
      exact hnamed.matching step hstep
  have hid' : accepted.id = trimSpace w.id := by rw [heq]
  have hnormalForm : ∀ step ∈ accepted.steps, step.Normal accepted.id := by
    intro step hstep
    rw [← hdefault] at hstep
    obtain ⟨a, ha, rfl⟩ := List.mem_map.mp hstep
    have hmatching := hnamed.matching a ha
    have hchecked := hvalid a ha
    rw [← hgiven] at ha
    obtain ⟨given, -, rfl⟩ := List.mem_map.mp ha
    rw [hid']
    exact WorkflowStep.normal_withDefault hchecked hmatching hpattern
  -- the second pass meets the same names
  have hnamed' : WellNamed ∅ accepted.steps := hdefault ▸ hnamed.withDefault
  have hnames : (accepted.steps.map fun step => step.stamp now').map WorkflowStep.id =
      steps.map WorkflowStep.id := by
    rw [← hdefault, List.map_map, List.map_map]
    exact List.map_congr_left fun step _ => by
      obtain ⟨aggregation, hstep⟩ := step.withDefault_eq
      simp only [Function.comp, WorkflowStep.stamp, hstep]
  have hcount : accepted.steps.length = w.steps.length := by
    rw [← hdefault, List.length_map, ← hgiven, List.length_map]
  refine initializeForCreate_iff.mpr ⟨?_, ?_, ?_, accepted.steps.map fun step => step.stamp now', ids,
    initializeSteps_iff.mpr ⟨?_, hnamed'.stamp now', hnames ▸ hids⟩,
    validateSteps_iff.mpr ⟨?_, ?_⟩, ?_, ?_⟩
  · rw [hid', trimSpace_trimSpace]
    exact hid
  · intro hnil
    rw [hnil, List.length_nil] at hcount
    exact hsteps (List.length_eq_zero_iff.mp hcount.symm)
  · rw [hcount]
    exact hlength
  · apply List.map_congr_left
    intro step hstep
    rw [hid', trimSpace_trimSpace, ← hid']
    exact hnormalForm step hstep now'
  · have hinput : accepted.input = w.input := by rw [heq]
    rw [hinput, ← hdefault, List.map_map]
    refine List.forall_mem_map.mpr fun step hstep => ?_
    exact ((hvalid step hstep).withDefault.1).stamp now'
  · rw [Workflow.stamp, ← hdefault, List.map_map, List.map_map, List.map_map]
    apply List.map_congr_left
    intro step hstep
    simp only [Function.comp, WorkflowStep.withDefault_stamp, (hvalid step hstep).withDefault.2]
  · rw [Workflow.stamp, validateWorkflowDAG_stamp]
    exact hdag
  · rw [Workflow.stamp, hid', trimSpace_trimSpace, heq]

/-- **Initialisation is idempotent.**  A Workflow that was accepted is accepted again, and
nothing but its times changes; so the store keeps the Workflow that the handler has checked. -/
theorem initialize_idempotent (h : w.initializeForCreate now = .ok accepted) :
    (∀ now', accepted.initializeForCreate now' = .ok (accepted.stamp now')) ∧
      ∀ m m' now' stored, Memory.createWorkflow m accepted now' = .ok (m', stored) →
        stored = accepted.stamp now' ∧ m'.getWorkflow accepted.id = .ok stored := by
  refine ⟨initializeForCreate_again h, ?_⟩
  intro m m' now' stored hcreate
  obtain ⟨hinit, -, rfl⟩ := Memory.createWorkflow_ok hcreate
  rw [initializeForCreate_again h now'] at hinit
  obtain rfl := Except.ok.inj hinit
  refine ⟨rfl, Memory.getWorkflow_ok.mpr ?_⟩
  exact AList.lookup_insert _

end Workflows

/-- A Workflow as a client may write it: with blanks, upper case and repetitions. -/
def looseWorkflow : Workflow :=
  { id := " wf "
    input := "hello"
    steps := [
      { id := " First ", agentID := " agent_1 ", input := "hi" },
      { id := "Second", agentID := "agent_1", inputFrom := ["Workflow", "FIRST ", "first"]
        inputAggregation := "JSON-Array", dependsOn := ["FIRST", " first", ""]
        condition := some ⟨"First", " Equals", "Done"⟩ },
      { id := "third", agentID := "agent_1", inputFrom := [" SECOND"], dependsOn := ["second"] }] }

/-- It is accepted, and accepted again at another time. -/
theorem initialize_idempotent_loose :
    ∃ accepted, looseWorkflow.initializeForCreate 1 = .ok accepted ∧
      accepted.steps.map WorkflowStep.inputFrom = [[], ["workflow", "first"], ["second"]] ∧
      accepted.initializeForCreate 2 = .ok (accepted.stamp 2) := by
  obtain ⟨accepted, haccepted, hsources⟩ : ∃ accepted,
      looseWorkflow.initializeForCreate 1 = .ok accepted ∧
        accepted.steps.map WorkflowStep.inputFrom = [[], ["workflow", "first"], ["second"]] := by
    rcases hresult : looseWorkflow.initializeForCreate 1 with err | accepted
    · have hok : (looseWorkflow.initializeForCreate 1).toOption.isSome = true := by decide +kernel
      rw [hresult] at hok
      cases hok
    · refine ⟨accepted, rfl, ?_⟩
      have hmap : (looseWorkflow.initializeForCreate 1).toOption.map
          (fun w => w.steps.map WorkflowStep.inputFrom) =
            some [[], ["workflow", "first"], ["second"]] := by
        decide +kernel
      rw [hresult] at hmap
      exact Option.some.inj hmap
  exact ⟨accepted, haccepted, hsources, (initialize_idempotent haccepted).1 2⟩

/-! ### The handler -/

/-- `createWorkflowStepRequest`. -/
structure WorkflowStepRequest where
  id : String := ""
  agentID : String := ""
  input : String := ""
  inputFrom : List String := []
  inputAggregation : String := ""
  dependsOn : List String := []
  condition : Option WorkflowCondition := none

/-- `createWorkflowRequest`. -/
structure WorkflowRequest where
  input : String := ""
  steps : List WorkflowStepRequest := []

def WorkflowStepRequest.step (request : WorkflowStepRequest) : WorkflowStep :=
  { id := request.id, agentID := request.agentID, input := request.input
    inputFrom := request.inputFrom, inputAggregation := request.inputAggregation
    dependsOn := request.dependsOn, condition := request.condition }

def WorkflowRequest.workflow (request : WorkflowRequest) (newID : String) : Workflow :=
  { id := newID, input := request.input, steps := request.steps.map WorkflowStepRequest.step }

structure WorkflowReply where
  code : Nat
  text : String := ""
  workflow : Option Workflow := none

/-- The Agents of the steps are read one by one; `reads` is the store at each of the reads. -/
def readStepAgents (reads : Nat → Memory) : Nat → List WorkflowStep → Except WorkflowReply Unit
  | _, [] => .ok ()
  | index, step :: rest =>
      match (reads index).getAgent step.agentID with
      | .error err =>
          if err.is .notFound then
            .error { code := 404, text := "agent " ++ step.agentID ++ " not found" }
          else .error { code := 500, text := "could not validate workflow agents" }
      | .ok _ => readStepAgents reads (index + 1) rest

/-- The handler `createWorkflow`; the clock is read by it and by the store. -/
def receiveWorkflow (request : WorkflowRequest) (newID : String) (createdAt now : Time)
    (reads : Nat → Memory) (m : Memory) : Memory × WorkflowReply :=
  match (request.workflow newID).initializeForCreate createdAt with
  | .error err => (m, { code := 400, text := err.text })
  | .ok workflow =>
      match readStepAgents reads 0 workflow.steps with
      | .error reply => (m, reply)
      | .ok () =>
          match m.createWorkflow workflow now with
          | .error _ => (m, { code := 500, text := "could not create workflow" })
          | .ok (m, created) => (m, { code := 201, workflow := some created })

/-- The answer is the Workflow that the handler has checked, with the time of the store, and the
store has it; with any other answer the store is as it was. -/
theorem receiveWorkflow_stores (request : WorkflowRequest) (newID : String) (createdAt now : Time)
    (reads : Nat → Memory) (m : Memory) :
    (receiveWorkflow request newID createdAt now reads m).1 = m ∨
      ∃ accepted, (request.workflow newID).initializeForCreate createdAt = .ok accepted ∧
        (receiveWorkflow request newID createdAt now reads m).2 =
          { code := 201, workflow := some (accepted.stamp now) } ∧
        (receiveWorkflow request newID createdAt now reads m).1.getWorkflow accepted.id =
          .ok (accepted.stamp now) := by
  rw [receiveWorkflow]
  rcases haccepted : (request.workflow newID).initializeForCreate createdAt with err | accepted
  · exact .inl rfl
  simp only
  rcases readStepAgents reads 0 accepted.steps with reply | ⟨⟩
  · exact .inl rfl
  simp only
  rcases hcreate : m.createWorkflow accepted now with err | ⟨m', stored⟩
  · exact .inl rfl
  -- the store has initialised what the handler had initialised before
  obtain ⟨hinit, -, rfl⟩ := Memory.createWorkflow_ok hcreate
  rw [initializeForCreate_again haccepted now] at hinit
  obtain rfl := Except.ok.inj hinit
  exact .inr ⟨accepted, rfl, rfl, Memory.getWorkflow_ok.mpr (AList.lookup_insert _)⟩

end AgentMesh
