/-
AgentMesh/Acceptance.lean

What `InitializeForCreate` accepts, and what it guarantees of it.

The checks run in two loops, the first over the names of the steps and the
second over their references, and the second needs the names that the first
has collected.  Each check and each loop has one lemma that says when it
succeeds and with which result (`validateStep_iff`, `initializeSteps_iff`), and
`initializeForCreate_ok` is read off these: step IDs are distinct and free of
colons, a condition or an input reads the Workflow input or a dependency, and
no step has begun.
-/
import AgentMesh.Flow

namespace AgentMesh

/-- A step that has not begun. -/
structure WorkflowStep.Initial (step : WorkflowStep) : Prop where
  status : step.status = .pending
  runID : step.runID = ""
  output : step.output = ""

theorem colon_not_mem_of_matchesStepIDPattern {s : String} (h : matchesStepIDPattern s = true) :
    ':' ∉ s.toList := by
  rw [matchesStepIDPattern] at h
  rcases hs : s.toList with - | ⟨c, cs⟩
  · simp
  · simp only [hs, Bool.and_eq_true, List.all_eq_true] at h
    obtain ⟨⟨hc, -⟩, hcs⟩ := h
    intro hmem
    rcases List.mem_cons.mp hmem with hcolon | hcolon
    · rw [← hcolon] at hc
      exact absurd hc (by decide)
    · exact absurd (hcs ':' hcolon) (by decide)

/-! ### The checks of a step -/

/-- The default that `validateStep` writes into a step. -/
def WorkflowStep.withDefault (step : WorkflowStep) : WorkflowStep :=
  if step.inputFrom.length = 1 ∧ step.inputAggregation = "" then
    { step with inputAggregation := workflowInputSingle }
  else step

theorem WorkflowStep.withDefault_eq (step : WorkflowStep) :
    ∃ aggregation, step.withDefault = { step with inputAggregation := aggregation } := by
  rw [WorkflowStep.withDefault]
  split
  · exact ⟨workflowInputSingle, rfl⟩
  · exact ⟨step.inputAggregation, rfl⟩

theorem WorkflowStep.ids_withDefault (steps : List WorkflowStep) :
    (steps.map WorkflowStep.withDefault).map WorkflowStep.id = steps.map WorkflowStep.id := by
  rw [List.map_map]
  refine List.map_congr_left fun step _ => ?_
  obtain ⟨aggregation, hdefault⟩ := step.withDefault_eq
  rw [Function.comp_apply, hdefault]

/-- The checks that `validateStep` makes of the input of a step. -/
structure WorkflowStep.ValidInput (step : WorkflowStep) (workflowInput : String) : Prop where
  literal : step.inputFrom = [] → trimSpace step.input ≠ "" ∧ step.inputAggregation = ""
  sources : step.inputFrom ≠ [] → trimSpace step.input = "" ∧
    ∀ source ∈ step.inputFrom, (source = workflowInputSource ∧ trimSpace workflowInput ≠ "") ∨
      (source ≠ workflowInputSource ∧ source ∈ step.dependsOn)
  single : step.inputFrom.length = 1 → step.inputAggregation = "" ∨
    step.inputAggregation = workflowInputSingle
  several : 1 < step.inputFrom.length → step.inputAggregation = workflowInputJSONArray

/-- The checks of `validateStep`. -/
structure WorkflowStep.Valid (step : WorkflowStep) (ids : Table Nat) (workflowInput : String) :
    Prop where
  dependsOn : ∀ d ∈ step.dependsOn, d ≠ step.id ∧ (ids.lookup d).isSome
  condition : ∀ c, step.condition = some c → c.source ≠ "" ∧
    (c.source = workflowInputSource ∨ c.source ∈ step.dependsOn) ∧
    isConditionOperator c.operator = true
  input : step.ValidInput workflowInput

section Checks

variable {ids : Table Nat} {input : String} {step step' : WorkflowStep}

theorem validateDependencies_iff {dependsOn : List String} :
    validateDependencies ids step dependsOn = .ok () ↔
      ∀ d ∈ dependsOn, d ≠ step.id ∧ (ids.lookup d).isSome := by
  induction dependsOn with
  | nil => simp [validateDependencies]
  | cons d rest ih =>
      rw [validateDependencies, List.forall_mem_cons, ← ih]
      split
      · simp [*]
      · split
        · simp_all
        · simp_all [Option.isSome_iff_ne_none]

theorem validateCondition_iff {c : WorkflowCondition}
    (hknown : ∀ d ∈ step.dependsOn, (ids.lookup d).isSome) :
    validateCondition ids step c = .ok () ↔ c.source ≠ "" ∧
      (c.source = workflowInputSource ∨ c.source ∈ step.dependsOn) ∧
      isConditionOperator c.operator = true := by
  have hnone : c.source ∈ step.dependsOn → (ids.lookup c.source).isNone = false := fun h => by
    simpa [Option.isSome_iff_ne_none] using hknown c.source h
  rw [validateCondition]
  by_cases hempty : c.source = ""
  · simp [hempty]
  by_cases hsource : c.source = workflowInputSource
  · have hne : workflowInputSource ≠ "" := by decide
    by_cases hop : isConditionOperator c.operator = true <;> simp [hsource, hop, hne]
  by_cases hdep : c.source ∈ step.dependsOn
  · by_cases hop : isConditionOperator c.operator = true <;>
      simp [hempty, hsource, hdep, hnone hdep, hop]
  · by_cases hlookup : (ids.lookup c.source).isNone <;> simp [hempty, hsource, hdep, hlookup]

theorem validateInputFrom_iff {sources : List String}
    (hknown : ∀ d ∈ step.dependsOn, (ids.lookup d).isSome) :
    validateInputFrom ids input step sources = .ok () ↔
      ∀ source ∈ sources, (source = workflowInputSource ∧ trimSpace input ≠ "") ∨
        (source ≠ workflowInputSource ∧ source ∈ step.dependsOn) := by
  induction sources with
  | nil => simp [validateInputFrom]
  | cons source rest ih =>
      rw [validateInputFrom, List.forall_mem_cons, ← ih]
      by_cases hsource : source = workflowInputSource
      · by_cases htrim : trimSpace input = "" <;> simp [hsource, htrim]
      by_cases hdep : source ∈ step.dependsOn
      · have hsome : (ids.lookup source).isNone = false := by
          simpa [Option.isSome_iff_ne_none] using hknown source hdep
        simp [hsource, hdep, hsome]
      · by_cases hlookup : (ids.lookup source).isNone <;> simp [hsource, hdep, hlookup]

theorem WorkflowStep.ValidInput.source (h : step.ValidInput input) {source : String}
    (hsource : source ∈ step.inputFrom) :
    source = workflowInputSource ∨ source ∈ step.dependsOn := by
  obtain ⟨hinput, -⟩ | ⟨-, hdep⟩ := (h.sources (List.ne_nil_of_mem hsource)).2 source hsource
  · exact .inl hinput
  · exact .inr hdep

theorem validateInput_iff (hknown : ∀ d ∈ step.dependsOn, (ids.lookup d).isSome) :
    validateInput ids input step = .ok step' ↔
      step.ValidInput input ∧ step.withDefault = step' := by
  have hvalid : validateInputFrom ids input step step.inputFrom = .ok () ↔ _ :=
    validateInputFrom_iff hknown
  rw [validateInput, WorkflowStep.withDefault]
  by_cases hfrom : step.inputFrom = []
  · have hbad : step.ValidInput input ↔
        trimSpace step.input ≠ "" ∧ step.inputAggregation = "" :=
      ⟨fun h => h.literal hfrom, fun h => ⟨fun _ => h, by simp [hfrom], by simp [hfrom],
        by simp [hfrom]⟩⟩
    by_cases htrim : trimSpace step.input = ""
    · simp [hbad, hfrom, htrim]
    · by_cases hagg : step.inputAggregation = "" <;> simp [hbad, hfrom, htrim, hagg]
  rw [if_neg hfrom]
  by_cases htrim : trimSpace step.input = ""
  swap
  · have hbad : ¬ step.ValidInput input := fun h => htrim (h.sources hfrom).1
    simp [hbad, htrim]
  rw [if_neg (not_not.mpr htrim)]
  -- the sources are checked before the aggregation
  rcases hsources : validateInputFrom ids input step step.inputFrom with err | ⟨⟩
  · have hbad : ¬ step.ValidInput input := by
      intro h
      rw [hvalid.mpr (h.sources hfrom).2] at hsources
      cases hsources
    simp [hbad]
  have hgood := hvalid.mp hsources
  have hpos := List.length_pos_of_ne_nil hfrom
  by_cases hone : step.inputFrom.length = 1
  · have hiff : step.ValidInput input ↔ step.inputAggregation = "" ∨
        step.inputAggregation = workflowInputSingle :=
      ⟨fun h => h.single hone, fun h => ⟨fun hnil => absurd hnil hfrom,
        fun _ => ⟨htrim, hgood⟩, fun _ => h, fun hlength => absurd hone (by omega)⟩⟩
    by_cases hagg : step.inputAggregation = ""
    · simp [hiff, hone, hagg]
    · by_cases hsingle : step.inputAggregation = workflowInputSingle
      · simp [hiff, hone, hsingle, workflowInputSingle]
      · simp [hiff, hone, hagg, hsingle]
  · have hiff : step.ValidInput input ↔ step.inputAggregation = workflowInputJSONArray :=
      ⟨fun h => h.several (by omega), fun h => ⟨fun hnil => absurd hnil hfrom,
        fun _ => ⟨htrim, hgood⟩, fun hlength => absurd hlength hone, fun _ => h⟩⟩
    by_cases hagg : step.inputAggregation = workflowInputJSONArray
    · simp [hiff, hone, hagg]
    · simp [hiff, hone, hagg]

theorem validateStep_iff :
    validateStep ids input step = .ok step' ↔
      step.Valid ids input ∧ step.withDefault = step' := by
  rw [validateStep]
  rcases hdeps : validateDependencies ids step step.dependsOn with err | ⟨⟩
  · have hbad : ¬ step.Valid ids input := by
      intro h
      rw [validateDependencies_iff.mpr h.dependsOn] at hdeps
      cases hdeps
    simp [hbad]
  have hdepends := validateDependencies_iff.mp hdeps
  have hknown : ∀ d ∈ step.dependsOn, (ids.lookup d).isSome := fun d hd => (hdepends d hd).2
  have hinput : validateInput ids input step = .ok step' ↔ _ := validateInput_iff hknown
  rcases hc : step.condition with - | c
  · simp only [hinput]
    exact and_congr_left fun _ => ⟨fun h => ⟨hdepends, by simp [hc], h⟩, fun h => h.input⟩
  · have hcondition := validateCondition_iff (c := c) hknown
    simp only
    rcases hcheck : validateCondition ids step c with err | ⟨⟩
    · have hbad : ¬ step.Valid ids input := by
        intro h
        rw [hcondition.mpr (h.condition c hc)] at hcheck
        cases hcheck
      simp [hbad]
    · simp only [hinput]
      refine and_congr_left fun _ => ⟨fun h => ⟨hdepends, ?_, h⟩, fun h => h.input⟩
      intro c' hc'
      obtain rfl := Option.some.inj (hc.symm.trans hc')
      exact hcondition.mp hcheck

theorem validateSteps_iff {steps steps' : List WorkflowStep} :
    validateSteps ids input steps = .ok steps' ↔
      (∀ step ∈ steps, step.Valid ids input) ∧ steps.map WorkflowStep.withDefault = steps' := by
  induction steps generalizing steps' with
  | nil => simp [validateSteps]
  | cons step rest ih =>
      rw [validateSteps, List.forall_mem_cons, List.map_cons]
      rcases hstep : validateStep ids input step with err | step''
      · have hbad : ¬ step.Valid ids input := by
          intro h
          rw [validateStep_iff.mpr ⟨h, rfl⟩] at hstep
          cases hstep
        simp [hbad]
      obtain ⟨hvalid, rfl⟩ := validateStep_iff.mp hstep
      rcases hrest : validateSteps ids input rest with err | rest'
      · have hbad : ¬ ∀ step ∈ rest, step.Valid ids input := by
          intro h
          rw [ih.mpr ⟨h, rfl⟩] at hrest
          cases hrest
        simp [hbad]
      · obtain ⟨hall, rfl⟩ := ih.mp hrest
        simp only [Except.ok.injEq]
        exact ⟨fun h => ⟨⟨hvalid, hall⟩, h⟩, fun h => h.2⟩

end Checks

/-! ### The two loops -/

/-- The table of step IDs that the first loop collects. -/
def indexSteps : Nat → Table Nat → List String → Table Nat
  | _, ids, [] => ids
  | index, ids, id :: rest => indexSteps (index + 1) (ids.insert id index) rest

/-- The checks that the first loop makes of the steps that it has normalised. -/
structure WellNamed (ids : Table Nat) (steps : List WorkflowStep) : Prop where
  nodup : (steps.map WorkflowStep.id).Nodup
  matching : ∀ step ∈ steps, matchesStepIDPattern step.id = true
  new : ∀ step ∈ steps, ids.lookup step.id = none
  agent : ∀ step ∈ steps, step.agentID ≠ ""

section Loops

variable {ids ids' : Table Nat} {workflowID : String} {now : Time} {index : Nat}
  {step : WorkflowStep} {given steps rest : List WorkflowStep}

theorem isSome_lookup_indexSteps {names : List String} {k : String} :
    ((indexSteps index ids names).lookup k).isSome ↔ (ids.lookup k).isSome ∨ k ∈ names := by
  induction names generalizing index ids with
  | nil => simp [indexSteps]
  | cons id rest ih =>
      rw [indexSteps, ih, Table.lookup_insert_eq, List.mem_cons]
      split
      · simp [*]
      · simp [*]

/-- The table has the position of each ID. -/
theorem lookup_indexSteps {names : List String} {k : String} {j : Nat}
    (h : (indexSteps index ids names).lookup k = some j) :
    ids.lookup k = some j ∨ ∃ i, j = index + i ∧ names[i]? = some k := by
  induction names generalizing index ids with
  | nil => exact .inl h
  | cons id rest ih =>
      rw [indexSteps] at h
      rcases ih h with hlookup | ⟨i, rfl, hi⟩
      · rw [Table.lookup_insert_eq] at hlookup
        split at hlookup
        · rename_i hid
          exact .inr ⟨0, (Option.some.inj hlookup).symm, by rw [hid]; rfl⟩
        · exact .inl hlookup
      · exact .inr ⟨i + 1, by omega, hi⟩

theorem wellNamed_cons :
    WellNamed ids (step :: rest) ↔ matchesStepIDPattern step.id = true ∧
      ids.lookup step.id = none ∧ step.agentID ≠ "" ∧
        WellNamed (ids.insert step.id index) rest := by
  constructor
  · rintro ⟨hnodup, hmatching, hnew, hagent⟩
    rw [List.map_cons, List.nodup_cons] at hnodup
    refine ⟨hmatching step List.mem_cons_self, hnew step List.mem_cons_self,
      hagent step List.mem_cons_self, hnodup.2, fun a ha => hmatching a (List.mem_cons_of_mem _ ha),
      ?_, fun a ha => hagent a (List.mem_cons_of_mem _ ha)⟩
    intro a ha
    have hne : a.id ≠ step.id := fun h => hnodup.1 (h ▸ List.mem_map_of_mem ha)
    rw [Table.lookup_insert_eq, if_neg hne]
    exact hnew a (List.mem_cons_of_mem _ ha)
  · rintro ⟨hmatching, hnew, hagent, hrest⟩
    -- the rest is new to a table that has this step
    have hother : ∀ a ∈ rest, a.id ≠ step.id ∧ ids.lookup a.id = none := by
      intro a ha
      have hlookup := hrest.new a ha
      rw [Table.lookup_insert_eq] at hlookup
      split at hlookup
      · cases hlookup
      · exact ⟨‹_›, hlookup⟩
    refine ⟨?_, List.forall_mem_cons.mpr ⟨hmatching, hrest.matching⟩,
      List.forall_mem_cons.mpr ⟨hnew, fun a ha => (hother a ha).2⟩,
      List.forall_mem_cons.mpr ⟨hagent, hrest.agent⟩⟩
    rw [List.map_cons, List.nodup_cons]
    refine ⟨?_, hrest.nodup⟩
    intro hmem
    obtain ⟨a, ha, hid⟩ := List.mem_map.mp hmem
    exact (hother a ha).1 hid

theorem initializeSteps_iff :
    initializeSteps workflowID now index ids given = .ok (steps, ids') ↔
      given.map (fun step => step.normalize workflowID now) = steps ∧ WellNamed ids steps ∧
        indexSteps index ids (steps.map WorkflowStep.id) = ids' := by
  induction given generalizing index ids steps with
  | nil =>
      simp only [initializeSteps, Except.ok.injEq, Prod.mk.injEq, List.map_nil]
      constructor
      · rintro ⟨rfl, rfl⟩
        exact ⟨rfl, ⟨List.nodup_nil, by simp, by simp, by simp⟩, rfl⟩
      · rintro ⟨rfl, -, rfl⟩
        exact ⟨rfl, rfl⟩
  | cons step rest ih =>
      rw [initializeSteps, List.map_cons]
      constructor
      · intro h
        split at h
        · cases h
        rename_i hpattern
        split at h
        · cases h
        rename_i hnew
        split at h
        · cases h
        rename_i hagent
        split at h
        · cases h
        rename_i steps' ids'' hrest
        obtain ⟨rfl, rfl⟩ := Prod.mk.inj (Except.ok.inj h)
        obtain ⟨hsteps, hnamed, hids⟩ := ih.mp hrest
        rw [hsteps]
        refine ⟨rfl, wellNamed_cons.mpr ⟨?_, ?_, hagent, hnamed⟩, hids⟩
        · simpa using hpattern
        · simpa using hnew
      · rintro ⟨rfl, hnamed, hids⟩
        obtain ⟨hpattern, hnew, hagent, hrest⟩ := wellNamed_cons.mp hnamed
        rw [if_neg (by simp [hpattern]), if_neg (by simp [hnew]), if_neg hagent,
          ih.mpr ⟨rfl, hrest, hids⟩]

end Loops

/-! ### Acceptance -/

section Acceptance

variable {w accepted : Workflow} {now : Time}

theorem initializeForCreate_iff :
    w.initializeForCreate now = .ok accepted ↔
      trimSpace w.id ≠ "" ∧ w.steps ≠ [] ∧ w.steps.length ≤ maxWorkflowSteps ∧
      ∃ steps ids, initializeSteps (trimSpace w.id) now 0 ∅ w.steps = .ok (steps, ids) ∧
        validateSteps ids w.input steps = .ok accepted.steps ∧
        validateWorkflowDAG accepted.steps ids = .ok () ∧
        accepted = { id := trimSpace w.id, input := w.input, steps := accepted.steps
                     version := 1, createdAt := now } := by
  rw [Workflow.initializeForCreate]
  constructor
  · intro h
    split at h
    · cases h
    split at h
    · cases h
    split at h
    · cases h
    rename_i hid hsteps hlength
    split at h
    · cases h
    rename_i steps ids hnormal
    split at h
    · cases h
    rename_i steps' hvalidate
    split at h
    · cases h
    rename_i hdag
    obtain rfl := Except.ok.inj h
    exact ⟨hid, hsteps, by omega, steps, ids, hnormal, hvalidate, hdag, rfl⟩
  · rintro ⟨hid, hsteps, hlength, steps, ids, hnormal, hvalidate, hdag, heq⟩
    simp only [if_neg hid, if_neg hsteps, if_neg (not_lt.mpr hlength), hnormal, hvalidate, hdag]
    exact congrArg Except.ok heq.symm

/-- **What is accepted is well formed** and has not begun. -/
theorem initializeForCreate_ok (h : w.initializeForCreate now = .ok accepted) :
    accepted.Accepted ∧ accepted.status = .pending ∧ ∀ step ∈ accepted.steps, step.Initial := by
  obtain ⟨-, -, -, steps, ids, hnormal, hvalidate, -, heq⟩ := initializeForCreate_iff.mp h
  obtain ⟨hsteps, hnamed, -⟩ := initializeSteps_iff.mp hnormal
  obtain ⟨hvalid, haccepted⟩ := validateSteps_iff.mp hvalidate
  refine ⟨⟨?_, ?_, ?_, ?_⟩, by rw [heq], ?_⟩
  · rw [← haccepted, WorkflowStep.ids_withDefault]
    exact hnamed.nodup
  all_goals
    rw [← haccepted, List.forall_mem_map]
    intro a ha
    obtain ⟨aggregation, hdefault⟩ := a.withDefault_eq
    rw [hdefault]
  · exact colon_not_mem_of_matchesStepIDPattern (hnamed.matching a ha)
  · exact fun c hc => ((hvalid a ha).condition c hc).2.1
  · exact fun source => (hvalid a ha).input.source
  · -- the first loop has begun no step
    rw [← hsteps] at ha
    obtain ⟨given, -, rfl⟩ := List.mem_map.mp ha
    exact ⟨rfl, rfl, rfl⟩

end Acceptance

end AgentMesh
