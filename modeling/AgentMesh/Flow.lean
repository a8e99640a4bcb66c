/-
AgentMesh/Flow.lean

How Workflows develop, apart from where they are stored.

`Workflow.Extends` is the order in which a Workflow moves: the definition stays,
a Run once assigned stays, and a step that is complete stays as it is.  All
that the manager does to a Workflow (refreshing, skipping, assigning, canceling)
goes up in this order, so what holds of complete steps holds for good.

The rest of the module says what the functions of the manager decide, in terms
of the Workflow alone: that the status map is the map of statuses, that
`applyConditions` skips exactly the steps whose condition fails, and that
`readyStep` finds a pending step with complete dependencies.
-/
import AgentMesh.Pointwise
import AgentMesh.Manager

namespace AgentMesh

/-! ### Progress of a step -/

/-- Two steps with the same definition, whatever their execution state. -/
structure WorkflowStep.SameDefinition (a b : WorkflowStep) : Prop where
  id : b.id = a.id
  workflowID : b.workflowID = a.workflowID
  agentID : b.agentID = a.agentID
  input : b.input = a.input
  inputFrom : b.inputFrom = a.inputFrom
  inputAggregation : b.inputAggregation = a.inputAggregation
  dependsOn : b.dependsOn = a.dependsOn
  condition : b.condition = a.condition
  createdAt : b.createdAt = a.createdAt

structure WorkflowStep.Progress (a b : WorkflowStep) : Prop where
  definition : a.SameDefinition b
  runID : a.runID ≠ "" → b.runID = a.runID
  complete : a.isComplete = true → b.status = a.status ∧ b.output = a.output ∧ b.runID = a.runID

section Steps

variable {a b c : WorkflowStep}

theorem WorkflowStep.SameDefinition.refl (a : WorkflowStep) : a.SameDefinition a :=
  ⟨rfl, rfl, rfl, rfl, rfl, rfl, rfl, rfl, rfl⟩

theorem WorkflowStep.SameDefinition.symm (h : a.SameDefinition b) : b.SameDefinition a :=
  ⟨h.id.symm, h.workflowID.symm, h.agentID.symm, h.input.symm, h.inputFrom.symm,
    h.inputAggregation.symm, h.dependsOn.symm, h.condition.symm, h.createdAt.symm⟩

theorem WorkflowStep.SameDefinition.trans (h : a.SameDefinition b) (h' : b.SameDefinition c) :
    a.SameDefinition c :=
  ⟨h'.id.trans h.id, h'.workflowID.trans h.workflowID, h'.agentID.trans h.agentID,
    h'.input.trans h.input, h'.inputFrom.trans h.inputFrom,
    h'.inputAggregation.trans h.inputAggregation, h'.dependsOn.trans h.dependsOn,
    h'.condition.trans h.condition, h'.createdAt.trans h.createdAt⟩

/-- The execution state of a step, put into its own definition, is the step. -/
theorem WorkflowStep.SameDefinition.withState (h : a.SameDefinition b) : a.withState b = b := by
  obtain ⟨h₁, h₂, h₃, h₄, h₅, h₆, h₇, h₈, h₉⟩ := h
  rw [WorkflowStep.withState, ← h₁, ← h₂, ← h₃, ← h₄, ← h₅, ← h₆, ← h₇, ← h₈, ← h₉]

theorem WorkflowStep.Progress.refl (a : WorkflowStep) : a.Progress a :=
  ⟨.refl a, fun _ => rfl, fun _ => ⟨rfl, rfl, rfl⟩⟩

theorem WorkflowStep.Progress.isComplete (h : a.Progress b) (ha : a.isComplete = true) :
    b.isComplete = true := by
  rw [WorkflowStep.isComplete, (h.complete ha).1]
  exact ha

theorem WorkflowStep.Progress.trans (h : a.Progress b) (h' : b.Progress c) : a.Progress c := by
  refine ⟨h.definition.trans h'.definition, ?_, ?_⟩
  · intro ha
    have hb := h.runID ha
    rw [h'.runID (hb ▸ ha), hb]
  · intro ha
    obtain ⟨hs, ho, hr⟩ := h.complete ha
    obtain ⟨hs', ho', hr'⟩ := h'.complete (h.isComplete ha)
    exact ⟨hs'.trans hs, ho'.trans ho, hr'.trans hr⟩

/-- A change of an incomplete step that keeps its definition and its Run. -/
theorem WorkflowStep.Progress.of_incomplete (hd : a.SameDefinition b)
    (ha : a.isComplete = false) (hr : a.runID ≠ "" → b.runID = a.runID) : a.Progress b :=
  ⟨hd, hr, fun h => by simp [ha] at h⟩

theorem WorkflowStep.cancelNonterminal_progress (a : WorkflowStep) (now : Time) :
    a.Progress (a.cancelNonterminal now) := by
  rw [WorkflowStep.cancelNonterminal]
  split
  · rename_i hs
    refine .of_incomplete ⟨rfl, rfl, rfl, rfl, rfl, rfl, rfl, rfl, rfl⟩ ?_ fun _ => rfl
    rcases hs with hs | hs | hs <;> simp [WorkflowStep.isComplete, hs]
  · exact .refl a

theorem WorkflowStep.progress_skip (a : WorkflowStep) {now : Time} (hs : a.status = .pending) :
    a.Progress { a with status := .skipped, completedAt := some now } :=
  .of_incomplete ⟨rfl, rfl, rfl, rfl, rfl, rfl, rfl, rfl, rfl⟩
    (by simp [WorkflowStep.isComplete, hs]) fun _ => rfl

end Steps

/-! ### Progress of a Workflow -/

structure Workflow.Extends (w w' : Workflow) : Prop where
  id : w'.id = w.id
  input : w'.input = w.input
  createdAt : w'.createdAt = w.createdAt
  steps : List.Forall₂ WorkflowStep.Progress w.steps w'.steps

/-- All dependencies of the step are complete. -/
def Workflow.DepsComplete (w : Workflow) (step : WorkflowStep) : Prop :=
  ∀ d ∈ step.dependsOn, ∃ dep, w.findStep d = some dep ∧ dep.isComplete = true

/-- The condition of a step, if it has one, has the value `b` on the recorded
output of its source. -/
def Workflow.ConditionIs (w : Workflow) (c : WorkflowCondition) (b : Bool) : Prop :=
  ∃ v, w.sourceValue c.source = some v ∧ evaluateCondition v c = b

/-- What the checks of `InitializeForCreate` leave to rely on. -/
structure Workflow.Accepted (w : Workflow) : Prop where
  nodup : (w.steps.map WorkflowStep.id).Nodup
  plain : ∀ step ∈ w.steps, ':' ∉ step.id.toList
  condition : ∀ step ∈ w.steps, ∀ c, step.condition = some c →
    c.source = workflowInputSource ∨ c.source ∈ step.dependsOn
  inputFrom : ∀ step ∈ w.steps, ∀ source ∈ step.inputFrom,
    source = workflowInputSource ∨ source ∈ step.dependsOn

section Workflows

variable {w w' w'' : Workflow} {a b : WorkflowStep}

theorem Workflow.Extends.refl (w : Workflow) : w.Extends w :=
  ⟨rfl, rfl, rfl, List.forall₂_same.mpr fun a _ => .refl a⟩

theorem Workflow.Extends.trans (h : w.Extends w') (h' : w'.Extends w'') : w.Extends w'' :=
  ⟨h'.id.trans h.id, h'.input.trans h.input, h'.createdAt.trans h.createdAt,
    Pointwise.trans (fun h₁ h₂ => h₁.trans h₂) h.steps h'.steps⟩

theorem Workflow.Extends.findStep (h : w.Extends w') {d : String} (hd : w.findStep d = some a) :
    ∃ b, w'.findStep d = some b ∧ a.Progress b := by
  refine Pointwise.find?_left h.steps (fun hab => ?_) hd
  rw [hab.definition.id]

theorem Workflow.Extends.depsComplete (h : w.Extends w') (hdef : b.dependsOn = a.dependsOn)
    (hdeps : w.DepsComplete a) : w'.DepsComplete b := by
  intro d hd
  obtain ⟨dep, hdep, hc⟩ := hdeps d (hdef ▸ hd)
  obtain ⟨dep', hdep', hprogress⟩ := h.findStep hdep
  exact ⟨dep', hdep', hprogress.isComplete hc⟩

/-- What a complete source has recorded stays. -/
theorem Workflow.Extends.sourceValue (h : w.Extends w') {source v : String}
    (hsource : source = workflowInputSource ∨
      ∃ dep, w.findStep source = some dep ∧ dep.isComplete = true)
    (hv : w.sourceValue source = some v) : w'.sourceValue source = some v := by
  rw [Workflow.sourceValue] at hv ⊢
  split at hv
  · rw [if_pos ‹_›, h.input, hv]
  · rename_i hne
    obtain ⟨dep, hdep, hc⟩ := hsource.resolve_left hne
    obtain ⟨dep', hdep', hprogress⟩ := h.findStep hdep
    rw [if_neg hne, hdep', Option.map_some, (hprogress.complete hc).2.1, ← hv, hdep,
      Option.map_some]

theorem Workflow.Extends.conditionIs (h : w.Extends w') (hdeps : w.DepsComplete a)
    {c : WorkflowCondition} (hc : c.source = workflowInputSource ∨ c.source ∈ a.dependsOn)
    {v : Bool} (hv : w.ConditionIs c v) : w'.ConditionIs c v := by
  obtain ⟨value, hvalue, heval⟩ := hv
  exact ⟨value, h.sourceValue (hc.imp_right (hdeps c.source)) hvalue, heval⟩

theorem Workflow.Extends.accepted (h : w.Extends w') (hw : w.Accepted) : w'.Accepted := by
  refine ⟨?_, fun b hb => ?_, fun b hb c hc => ?_, fun b hb source hsource => ?_⟩
  · rw [← Pointwise.map_eq h.steps fun hab => hab.definition.id.symm]
    exact hw.nodup
  all_goals obtain ⟨a, ha, hab⟩ := Pointwise.mem_right h.steps hb
  · rw [hab.definition.id]
    exact hw.plain a ha
  · rw [hab.definition.dependsOn]
    rw [hab.definition.condition] at hc
    exact hw.condition a ha c hc
  · rw [hab.definition.dependsOn]
    rw [hab.definition.inputFrom] at hsource
    exact hw.inputFrom a ha source hsource

/-- A Workflow that differs in nothing but its status, error and times. -/
theorem Workflow.Extends.of_steps (hid : w'.id = w.id) (hinput : w'.input = w.input)
    (hcreated : w'.createdAt = w.createdAt) (hsteps : w'.steps = w.steps) : w.Extends w' :=
  ⟨hid, hinput, hcreated, hsteps ▸ List.forall₂_same.mpr fun a _ => .refl a⟩

theorem Workflow.extends_set {i : Nat} (ha : w.steps[i]? = some a) (hab : a.Progress b) :
    w.Extends { w with steps := w.steps.set i b } :=
  ⟨rfl, rfl, rfl, Pointwise.set .refl ha hab⟩

theorem cancelNonterminalSteps_extends (w : Workflow) (now : Time) :
    w.Extends (cancelNonterminalSteps w now) :=
  ⟨rfl, rfl, rfl, Pointwise.map (fun a => a.cancelNonterminal_progress now) w.steps⟩

theorem Workflow.findStep_of_mem (hw : w.Accepted) (ha : a ∈ w.steps) : w.findStep a.id = some a :=
  Pointwise.find?_key hw.nodup ha

theorem Workflow.mem_of_findStep {d : String} (h : w.findStep d = some a) :
    a ∈ w.steps ∧ a.id = d := by
  rw [Workflow.findStep] at h
  exact ⟨List.mem_of_find?_eq_some h, by simpa using List.find?_some h⟩

/-- The Workflow that `UpdateWorkflow` stores for one that extends the stored one is
the given one. -/
theorem mergeSteps_of_progress {steps steps' : List WorkflowStep}
    (h : List.Forall₂ WorkflowStep.Progress steps steps') :
    Memory.mergeSteps steps steps' = .ok steps' := by
  induction h with
  | nil => rfl
  | cons hab _ ih =>
      rw [Memory.mergeSteps, if_neg (by simp [hab.definition.id]), ih,
        hab.definition.withState]

end Workflows

/-! ### Inputs -/

/-- A source of input: the Workflow input, or the output of a complete step. -/
def Workflow.Reads (w : Workflow) (source v : String) : Prop :=
  source = workflowInputSource ∧ v = w.input ∨
    source ≠ workflowInputSource ∧
      ∃ dep, w.findStep source = some dep ∧ dep.isComplete = true ∧ v = dep.output

section Inputs

variable {w w' : Workflow} {a b : WorkflowStep}

theorem Workflow.Extends.resolveParent (h : w.Extends w') {dependencies : List String}
    {parent r : String} (hr : resolveParent w a parent dependencies = .ok r) :
    resolveParent w' b parent dependencies = .ok r := by
  induction dependencies generalizing parent with
  | nil => exact hr
  | cons d rest ih =>
      rcases hd : w.findStep d with - | dep
      · simp [AgentMesh.resolveParent, hd] at hr
      rcases hc : dep.isComplete with - | -
      · simp [AgentMesh.resolveParent, hd, hc] at hr
      obtain ⟨dep', hd', hprogress⟩ := h.findStep hd
      have hc' : dep'.isComplete = true := hprogress.isComplete hc
      have hrun : dep'.runID = dep.runID := (hprogress.complete hc).2.2
      simp only [AgentMesh.resolveParent, hd, hc] at hr
      simp only [AgentMesh.resolveParent, hd', hc', hrun]
      split at hr
      · cases ‹true = false›
      rw [if_neg (by simp)]
      split at hr
      · rw [if_pos ‹_›]
        exact ih hr
      · rw [if_neg ‹_›]
        exact ih hr

theorem resolveSource_ok {source v : String} :
    resolveSource w a source = .ok v ↔ w.Reads source v := by
  unfold resolveSource Workflow.Reads
  by_cases hs : source = workflowInputSource
  · simpa [hs] using (eq_comm : w.input = v ↔ v = w.input)
  rcases w.findStep source with - | dep
  · simp [hs]
  rcases hc : dep.isComplete with - | -
  · simp [hs, hc]
  · simpa [hs, hc] using (eq_comm : dep.output = v ↔ v = dep.output)

theorem resolveValues_ok {sources values : List String} :
    resolveValues w a sources = .ok values ↔ List.Forall₂ w.Reads sources values := by
  induction sources generalizing values with
  | nil => simp [resolveValues, eq_comm]
  | cons source rest ih =>
      rw [List.forall₂_cons_left_iff]
      rcases hv : resolveSource w a source with err | v
      · have hnone : ∀ v, ¬ w.Reads source v := fun v h => by
          rw [resolveSource_ok.mpr h] at hv
          cases hv
        simp [resolveValues, hv, hnone]
      have hread : ∀ v', w.Reads source v' ↔ v = v' := fun v' => by
        rw [← resolveSource_ok (a := a), hv, Except.ok.injEq]
      rcases hvs : resolveValues w a rest with err | vs
      · have hnone : ∀ vs, ¬ List.Forall₂ w.Reads rest vs := fun vs h => by
          rw [ih.mpr h] at hvs
          cases hvs
        simp [resolveValues, hv, hvs, hnone]
      · have hrest : ∀ vs', List.Forall₂ w.Reads rest vs' ↔ vs = vs' := fun vs' => by
          rw [← ih, hvs, Except.ok.injEq]
        simp [resolveValues, hv, hvs, hread, hrest, eq_comm]

theorem Workflow.Extends.reads (h : w.Extends w') {source v : String} (hv : w.Reads source v) :
    w'.Reads source v := by
  rcases hv with ⟨hs, rfl⟩ | ⟨hs, dep, hdep, hc, rfl⟩
  · exact .inl ⟨hs, h.input.symm⟩
  · obtain ⟨dep', hdep', hprogress⟩ := h.findStep hdep
    exact .inr ⟨hs, dep', hdep', hprogress.isComplete hc, (hprogress.complete hc).2.1.symm⟩

theorem aggregate_ok {values : List String} {input : String} :
    aggregate a values = .ok input ↔ values = [input] ∨
      values.length ≠ 1 ∧ a.inputAggregation = workflowInputJSONArray ∧
        input = jsonStrings values := by
  rcases values with - | ⟨v, - | ⟨v', vs⟩⟩
  · by_cases ha : a.inputAggregation = workflowInputJSONArray <;> simp [aggregate, ha, eq_comm]
  · simp [aggregate]
  · by_cases ha : a.inputAggregation = workflowInputJSONArray <;> simp [aggregate, ha, eq_comm]

theorem resolveInput_ok {input parentRunID : String} :
    resolveInput w a = .ok (input, parentRunID) ↔
      resolveParent w a "" a.dependsOn = .ok parentRunID ∧
        (a.inputFrom = [] ∧ input = a.input ∨
          a.inputFrom ≠ [] ∧ ∃ values, List.Forall₂ w.Reads a.inputFrom values ∧
            aggregate a values = .ok input) := by
  rw [resolveInput]
  rcases resolveParent w a "" a.dependsOn with err | parent
  · simp
  by_cases hfrom : a.inputFrom = []
  · simp [hfrom, and_comm, eq_comm]
  rcases hvs : resolveValues w a a.inputFrom with err | vs
  · have hnone : ∀ vs, ¬ List.Forall₂ w.Reads a.inputFrom vs := fun vs h => by
      rw [resolveValues_ok.mpr h] at hvs
      cases hvs
    simp [hfrom, hnone]
  · have hsome : ∀ vs', List.Forall₂ w.Reads a.inputFrom vs' ↔ vs = vs' := fun vs' => by
      rw [← resolveValues_ok (a := a), hvs, Except.ok.injEq]
    rcases hagg : aggregate a vs with err | v
    · simp [hfrom, hsome, hagg]
    · simp [hfrom, hsome, hagg, and_comm]

/-- The input that `resolveInput` computes for a step does not change any more. -/
theorem Workflow.Extends.resolveInput (h : w.Extends w') (hab : a.SameDefinition b)
    {input parentRunID : String} (hr : resolveInput w a = .ok (input, parentRunID)) :
    resolveInput w' b = .ok (input, parentRunID) := by
  rw [resolveInput_ok] at hr ⊢
  rw [hab.dependsOn, hab.inputFrom, hab.input]
  obtain ⟨hparent, hinput⟩ := hr
  refine ⟨h.resolveParent hparent, hinput.imp_right ?_⟩
  rintro ⟨hne, values, hvalues, hagg⟩
  refine ⟨hne, values, hvalues.imp fun _ _ => h.reads, ?_⟩
  rw [aggregate_ok] at hagg ⊢
  rw [hab.inputAggregation]
  exact hagg

end Inputs

/-! ### The status map -/

/-- A status map that agrees with the steps of a Workflow. -/
def Tracks (statuses : Table WorkflowStepStatus) (w : Workflow) : Prop :=
  ∀ d, statuses.lookup d = (w.findStep d).map WorkflowStep.status

section Statuses

variable {w : Workflow} {step : WorkflowStep} {statuses : Table WorkflowStepStatus}

theorem lookup_foldl_statuses {steps : List WorkflowStep}
    (hnodup : (steps.map WorkflowStep.id).Nodup) (acc : Table WorkflowStepStatus) (d : String) :
    (steps.foldl (fun result step => result.insert step.id step.status) acc).lookup d
      = ((steps.find? fun step => step.id = d).map WorkflowStep.status).or (acc.lookup d) := by
  induction steps generalizing acc with
  | nil => rfl
  | cons a rest ih =>
      rw [List.map_cons, List.nodup_cons] at hnodup
      rw [List.foldl_cons, ih hnodup.2, Table.lookup_insert_eq]
      by_cases hd : d = a.id
      · subst hd
        have hrest : rest.find? (fun step => step.id = a.id) = none := by
          rw [List.find?_eq_none]
          intro b hb hbd
          exact hnodup.1 (List.mem_map.mpr ⟨b, hb, by simpa using hbd⟩)
        simp [hrest]
      · have hne : a.id ≠ d := fun h => hd h.symm
        simp [hd, hne]

theorem stepStatuses_tracks (hw : w.Accepted) : Tracks (stepStatuses w) w := by
  intro d
  rw [stepStatuses, lookup_foldl_statuses hw.nodup]
  show ((w.findStep d).map WorkflowStep.status).or _ = _
  rcases w.findStep d with - | a <;> rfl

theorem Tracks.dependenciesComplete (h : Tracks statuses w) :
    dependenciesComplete statuses step = true ↔ w.DepsComplete step := by
  rw [AgentMesh.dependenciesComplete, List.all_eq_true]
  apply forall₂_congr
  intro d _
  rw [h d]
  rcases w.findStep d with - | dep
  · simp
  · simp [WorkflowStep.isComplete]

theorem readyStep_some (hw : w.Accepted) {next : Nat} (h : readyStep w = some next) :
    ∃ step, w.steps[next]? = some step ∧ step.status = .pending ∧ w.DepsComplete step := by
  obtain ⟨hlt, hp, -⟩ := List.findIdx?_eq_some_iff_getElem.mp h
  simp only [Bool.and_eq_true, decide_eq_true_eq] at hp
  exact ⟨w.steps[next], List.getElem?_eq_getElem hlt, hp.1,
    (stepStatuses_tracks hw).dependenciesComplete.mp hp.2⟩

end Statuses

/-! ### Conditions -/

/-- A pending step whose condition fails is skipped. -/
def Workflow.Skip (now : Time) (w w' : Workflow) : Prop :=
  ∃ (i : Nat) (step : WorkflowStep) (c : WorkflowCondition), w.steps[i]? = some step ∧
    step.status = .pending ∧ w.DepsComplete step ∧ step.condition = some c ∧
    w.ConditionIs c false ∧
    w' = { w with
      steps := w.steps.set i { step with status := .skipped, completedAt := some now } }

/-- The step at `i` is not one to be skipped. -/
def Workflow.Passes (w : Workflow) (i : Nat) : Prop :=
  ∀ step c, w.steps[i]? = some step → step.status = .pending → w.DepsComplete step →
    step.condition = some c → ∀ v, w.sourceValue c.source = some v → evaluateCondition v c = true

section Conditions

variable {w w' : Workflow} {now : Time} {statuses : Table WorkflowStepStatus} {changed : Bool}

theorem Workflow.Skip.extends (h : w.Skip now w') : w.Extends w' := by
  obtain ⟨i, step, c, hi, hs, -, -, -, rfl⟩ := h
  exact Workflow.extends_set hi (step.progress_skip hs)

theorem Workflow.findStep_set (hw : w.Accepted) {i : Nat} {a b : WorkflowStep}
    (ha : w.steps[i]? = some a) (hab : b.id = a.id) (d : String) :
    Workflow.findStep { w with steps := w.steps.set i b } d
      = if d = a.id then some b else w.findStep d :=
  Pointwise.find?_set_key hw.nodup ha hab d

theorem applyCondition_cases (hw : w.Accepted) (ht : Tracks statuses w) (i : Nat) :
    (applyCondition now i (w, statuses, changed) = (w, statuses, changed) ∧ w.Passes i) ∨
      ∃ w' statuses', applyCondition now i (w, statuses, changed) = (w', statuses', true) ∧
        w.Skip now w' ∧ Tracks statuses' w' := by
  rcases hi : w.steps[i]? with - | step
  · exact .inl ⟨by simp [applyCondition, hi], fun step c h => by simp [hi] at h⟩
  rcases hc : step.condition with - | c
  · refine .inl ⟨by simp [applyCondition, hi, hc], ?_⟩
    intro step' c h _ _ hc'
    obtain rfl := Option.some.inj (hi.symm.trans h)
    simp [hc] at hc'
  by_cases hskip : step.status ≠ .pending ∨ dependenciesComplete statuses step = false
  · -- the step is not considered in this pass
    refine .inl ⟨by simp only [applyCondition, hi, hc, if_pos hskip], ?_⟩
    intro step' c' h hs hdeps hc' v _
    obtain rfl := Option.some.inj (hi.symm.trans h)
    rcases hskip with hne | hdep
    · exact absurd hs hne
    · rw [ht.dependenciesComplete.mpr hdeps] at hdep
      cases hdep
  have hready : step.status = .pending ∧ w.DepsComplete step := by
    rw [not_or, not_not, Bool.not_eq_false] at hskip
    exact ⟨hskip.1, ht.dependenciesComplete.mp hskip.2⟩
  rcases hv : w.sourceValue c.source with - | v
  · -- its source does not exist, and the code leaves it alone
    refine .inl ⟨by simp only [applyCondition, hi, hc, if_neg hskip, hv], ?_⟩
    intro step' c' h _ _ hc' v' hv'
    obtain rfl := Option.some.inj (hi.symm.trans h)
    obtain rfl := Option.some.inj (hc.symm.trans hc')
    simp [hv] at hv'
  rcases heval : evaluateCondition v c with - | -
  · -- the condition fails: the step is skipped, in the Workflow and in the status map
    refine .inr ⟨{ w with
        steps := w.steps.set i { step with status := .skipped, completedAt := some now } },
      statuses.insert step.id .skipped, ?_,
      ⟨i, step, c, hi, hready.1, hready.2, hc, ⟨v, hv, heval⟩, rfl⟩, fun d => ?_⟩
    · simp [applyCondition, hi, hc, hready.1, ht.dependenciesComplete.mpr hready.2, hv, heval]
    rw [Table.lookup_insert_eq, Workflow.findStep_set hw hi
      (b := { step with status := .skipped, completedAt := some now }) rfl]
    split
    · rfl
    · exact ht d
  · refine .inl ⟨by simp only [applyCondition, hi, hc, if_neg hskip, hv, heval, if_true], ?_⟩
    intro step' c' h _ _ hc' v' hv'
    obtain rfl := Option.some.inj (hi.symm.trans h)
    obtain rfl := Option.some.inj (hc.symm.trans hc')
    obtain rfl := Option.some.inj (hv.symm.trans hv')
    exact heval

theorem foldl_applyCondition (hw : w.Accepted) (ht : Tracks statuses w) (indexes : List Nat) :
    ∃ w' statuses' changed',
      indexes.foldl (fun acc index => applyCondition now index acc) (w, statuses, changed)
        = (w', statuses', changed') ∧
      Relation.ReflTransGen (Workflow.Skip now) w w' ∧
      (changed' = false → changed = false ∧ w' = w ∧ ∀ i ∈ indexes, w.Passes i) := by
  induction indexes generalizing w statuses changed with
  | nil => exact ⟨w, statuses, changed, rfl, .refl, fun h => ⟨h, rfl, by simp⟩⟩
  | cons i rest ih =>
      rw [List.foldl_cons]
      rcases applyCondition_cases hw ht i with ⟨heq, hpass⟩ | ⟨w₁, statuses₁, heq, hskip, ht₁⟩
      · rw [heq]
        obtain ⟨w', statuses', changed', hfold, hskips, hsame⟩ := ih hw ht
        refine ⟨w', statuses', changed', hfold, hskips, ?_⟩
        intro h
        obtain ⟨hchanged, hw', hrest⟩ := hsame h
        exact ⟨hchanged, hw', List.forall_mem_cons.mpr ⟨hpass, hrest⟩⟩
      · rw [heq]
        obtain ⟨w', statuses', changed', hfold, hskips, hsame⟩ := ih (hskip.extends.accepted hw) ht₁
        refine ⟨w', statuses', changed', hfold, .head hskip hskips, ?_⟩
        intro h
        cases (hsame h).1

/-- `applyConditions` skips steps one after the other, and if it skips none then
no step was to be skipped. -/
theorem applyConditions_skips (hw : w.Accepted) (now : Time) :
    Relation.ReflTransGen (Workflow.Skip now) w (applyConditions w now).1 ∧
      ((applyConditions w now).2 = false → (applyConditions w now).1 = w ∧ ∀ i, w.Passes i) := by
  obtain ⟨w', statuses', changed', hfold, hskips, hsame⟩ :=
    foldl_applyCondition hw (stepStatuses_tracks hw)
      (List.range w.steps.length)
  have heq : applyConditions w now = (w', changed') := by rw [applyConditions, hfold]
  rw [heq]
  refine ⟨hskips, fun h => ⟨(hsame h).2.1, ?_⟩⟩
  intro i step c hi
  refine (hsame h).2.2 i (List.mem_range.mpr ?_) step c hi
  exact (List.getElem?_eq_some_iff.mp hi).1

/-- A step that is not to be skipped has a condition that holds. -/
theorem Workflow.Passes.conditionIs (hw : w.Accepted) {i : Nat} (hpass : w.Passes i)
    {step : WorkflowStep} (hi : w.steps[i]? = some step) (hs : step.status = .pending)
    (hdeps : w.DepsComplete step) {c : WorkflowCondition} (hc : step.condition = some c) :
    w.ConditionIs c true := by
  obtain ⟨v, hv⟩ : ∃ v, w.sourceValue c.source = some v := by
    rw [Workflow.sourceValue]
    split
    · exact ⟨w.input, rfl⟩
    · rename_i hne
      have hsource := hw.condition step (List.mem_of_getElem? hi) c hc
      obtain ⟨dep, hdep, -⟩ := hdeps c.source (hsource.resolve_left hne)
      exact ⟨dep.output, by rw [hdep, Option.map_some]⟩
  exact ⟨v, hv, hpass step c hi hs hdeps hc v hv⟩

end Conditions

end AgentMesh
