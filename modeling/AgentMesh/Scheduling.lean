/-
AgentMesh/Scheduling.lean

What the scheduler guarantees of a Workflow.

`WorkflowStep.Sound` says of one step what its recorded state is based on: its
Run is the one bound to its key, its output is the output of that Run, its
dependencies are complete and its condition holds, or fails where it is
skipped.  All of this is about complete steps and ended Runs, so it survives
whatever else happens to the Workflow (`WorkflowStep.Sound.extends`) and to
the store (`WorkflowStep.Sound.evolves`).

`Workflow.Sound` is this for all steps, with a bound on the steps that are
queued or running at once.  Each change that the manager makes to its copy of
a Workflow has one lemma that it keeps the Workflow sound.  The bound is
extended by `⊤`, which stands for no bound.
-/
import AgentMesh.Ownership
import AgentMesh.Acceptance
import Mathlib.Data.ENat.Basic

namespace AgentMesh

/-! ### Steps -/

structure WorkflowStep.Sound (step : WorkflowStep) (m : Memory) (w : Workflow) : Prop where
  output : step.status ≠ .succeeded → step.output = ""
  unassigned : step.status = .pending ∨ step.status = .skipped → step.runID = ""
  assigned : step.isActive = true ∨ step.status = .succeeded → step.runID ≠ ""
  result : step.status = .succeeded → ∃ run, m.runs.lookup step.runID = some run ∧
    run.status = .succeeded ∧ run.output = step.output
  failure : step.status = .failed → ∃ run, m.runs.lookup step.runID = some run ∧
    run.status = .failed ∧ run.error = step.error
  bound : step.runID ≠ "" → m.idempotencyKeys.lookup (stepKey w.id step.id) = some step.runID
  ready : step.runID ≠ "" ∨ step.status = .skipped → w.DepsComplete step
  condition : step.runID ≠ "" → ∀ c, step.condition = some c → w.ConditionIs c true
  skipped : step.status = .skipped → ∃ c, step.condition = some c ∧ w.ConditionIs c false

section Steps

variable {m m' : Memory} {w w' : Workflow} {a b : WorkflowStep} {run : Run} {now : Time}

theorem WorkflowStep.Initial.sound (h : a.Initial) : a.Sound m w where
  output _ := h.output
  unassigned _ := h.runID
  assigned hs := by simp [WorkflowStep.isActive, h.status] at hs
  result hs := by simp [h.status] at hs
  failure hs := by simp [h.status] at hs
  bound hr := absurd h.runID hr
  ready hs := by simp [h.status, h.runID] at hs
  condition hr := absurd h.runID hr
  skipped hs := by simp [h.status] at hs

theorem WorkflowStep.Sound.evolves (h : a.Sound m w) (hm : m.Evolves m') : a.Sound m' w where
  output := h.output
  unassigned := h.unassigned
  assigned := h.assigned
  result hs := by
    obtain ⟨run, hrun, hstatus, houtput⟩ := h.result hs
    obtain ⟨run', hrun', -, hterm⟩ := hm.runs hrun
    obtain rfl := hterm (.inl hstatus)
    exact ⟨run', hrun', hstatus, houtput⟩
  failure hs := by
    obtain ⟨run, hrun, hstatus, herror⟩ := h.failure hs
    obtain ⟨run', hrun', -, hterm⟩ := hm.runs hrun
    obtain rfl := hterm (.inr (.inl hstatus))
    exact ⟨run', hrun', hstatus, herror⟩
  bound hr := hm.keys (h.bound hr)
  ready := h.ready
  condition := h.condition
  skipped := h.skipped

/-- A step `b` that stands in the place of `a` stays sound while the Workflow moves on. -/
theorem WorkflowStep.Sound.extends (h : b.Sound m w) (hw : w.Accepted) (ha : a ∈ w.steps)
    (hab : a.SameDefinition b) (hext : w.Extends w') : b.Sound m w' := by
  have hsource : ∀ c, b.condition = some c →
      c.source = workflowInputSource ∨ c.source ∈ b.dependsOn := by
    intro c hc
    rw [hab.dependsOn]
    exact hw.condition a ha c (hab.condition ▸ hc)
  refine ⟨h.output, h.unassigned, h.assigned, h.result, h.failure, ?_, ?_, ?_, ?_⟩
  · intro hr
    rw [hext.id]
    exact h.bound hr
  · intro hr
    exact hext.depsComplete rfl (h.ready hr)
  · intro hr c hc
    exact hext.conditionIs (h.ready (.inl hr)) (hsource c hc) (h.condition hr c hc)
  · intro hs
    obtain ⟨c, hc, hfalse⟩ := h.skipped hs
    exact ⟨c, hc, hext.conditionIs (h.ready (.inr hs)) (hsource c hc) hfalse⟩

theorem WorkflowStep.refresh_sameDefinition (a : WorkflowStep) (run : Run) :
    a.SameDefinition (a.refresh run) := by
  rw [WorkflowStep.refresh]
  split <;> exact ⟨rfl, rfl, rfl, rfl, rfl, rfl, rfl, rfl, rfl⟩

theorem WorkflowStep.refresh_runID (a : WorkflowStep) (run : Run) :
    (a.refresh run).runID = a.runID := by
  rw [WorkflowStep.refresh]
  split <;> rfl

/-- A step whose Run has not succeeded is not complete, unless it was skipped. -/
theorem WorkflowStep.Sound.incomplete (h : a.Sound m w) (hs : a.status ≠ .skipped)
    (hrun : m.runs.lookup a.runID = some run) (hne : run.status ≠ .succeeded) :
    a.status ≠ .succeeded ∧ a.isComplete = false := by
  have hsucc : a.status ≠ .succeeded := by
    intro hsucc
    obtain ⟨run', hrun', hstatus, -⟩ := h.result hsucc
    obtain rfl := Option.some.inj (hrun.symm.trans hrun')
    exact hne hstatus
  exact ⟨hsucc, by simp [WorkflowStep.isComplete, hs, hsucc]⟩

/-- A step that keeps its Run keeps all that it was based on. -/
theorem WorkflowStep.Sound.keepsRun (h : a.Sound m w) (hr : a.runID ≠ "")
    (hab : a.SameDefinition b) (hid : b.runID = a.runID)
    (hopen : b.status ≠ .pending ∧ b.status ≠ .skipped)
    (houtput : b.status ≠ .succeeded → b.output = "")
    (hresult : b.status = .succeeded → ∃ run, m.runs.lookup a.runID = some run ∧
      run.status = .succeeded ∧ run.output = b.output)
    (hfailure : b.status = .failed → ∃ run, m.runs.lookup a.runID = some run ∧
      run.status = .failed ∧ run.error = b.error) : b.Sound m w where
  output := houtput
  unassigned hs := by
    rcases hs with hs | hs
    · exact absurd hs hopen.1
    · exact absurd hs hopen.2
  assigned _ := hid ▸ hr
  result hs := by
    rw [hid]
    exact hresult hs
  failure hs := by
    rw [hid]
    exact hfailure hs
  bound _ := by
    rw [hab.id, hid]
    exact h.bound hr
  ready _ := fun d hd => h.ready (.inl hr) d (hab.dependsOn ▸ hd)
  condition _ c hc := h.condition hr c (hab.condition ▸ hc)
  skipped hs := absurd hs hopen.2

theorem WorkflowStep.Sound.refresh (h : a.Sound m w) (hs : a.status ≠ .skipped)
    (hr : a.runID ≠ "") (hrun : m.runs.lookup a.runID = some run) (hset : run.status ≠ .unset) :
    (a.refresh run).Sound m w := by
  apply h.keepsRun hr (a.refresh_sameDefinition run) (a.refresh_runID run)
  · cases hstatus : run.status <;> simp [WorkflowStep.refresh, hstatus] at hset ⊢
  · intro hne
    cases hstatus : run.status with
    | unset => exact absurd hstatus hset
    | queued | running =>
        -- the output stays, and there was none as long as the Run has not succeeded
        have hinc := (h.incomplete hs hrun (by simp [hstatus])).1
        simpa [WorkflowStep.refresh, hstatus] using h.output hinc
    | succeeded | failed | canceled => simp_all [WorkflowStep.refresh]
  · intro hsucc
    cases hstatus : run.status <;> simp [WorkflowStep.refresh, hstatus] at hset hsucc ⊢
    exact ⟨run, hrun, hstatus, rfl⟩
  · intro hfailed
    cases hstatus : run.status <;> simp [WorkflowStep.refresh, hstatus] at hset hfailed ⊢
    exact ⟨run, hrun, hstatus, rfl⟩

theorem WorkflowStep.Sound.refresh_progress (h : a.Sound m w) (hs : a.status ≠ .skipped)
    (hrun : m.runs.lookup a.runID = some run) : a.Progress (a.refresh run) := by
  refine ⟨a.refresh_sameDefinition run, fun _ => a.refresh_runID run, ?_⟩
  intro hc
  have hsucc : a.status = .succeeded := by simpa [WorkflowStep.isComplete, hs] using hc
  obtain ⟨run', hrun', hstatus, houtput⟩ := h.result hsucc
  obtain rfl := Option.some.inj (hrun.symm.trans hrun')
  simp [WorkflowStep.refresh, hstatus, houtput, hsucc]

/-- A step becomes active only through an assignment. -/
theorem WorkflowStep.Sound.refresh_active (h : a.Sound m w) (hs : a.status ≠ .skipped)
    (hr : a.runID ≠ "") (hrun : m.runs.lookup a.runID = some run)
    (hopen : a.status ≠ .failed ∧ a.status ≠ .canceled)
    (hactive : (a.refresh run).isActive = true) : a.isActive = true := by
  -- an active step has a Run that is queued or running, so it was not complete
  have hne : run.status ≠ .succeeded := by
    intro hstatus
    simp [WorkflowStep.refresh, hstatus, WorkflowStep.isActive] at hactive
  have hsucc := (h.incomplete hs hrun hne).1
  have hpending : a.status ≠ .pending := fun hp => hr (h.unassigned (.inl hp))
  cases hstatus : a.status <;> simp_all [WorkflowStep.isActive]

theorem WorkflowStep.Sound.cancelNonterminal (h : a.Sound m w) :
    (a.cancelNonterminal now).Sound m w := by
  rw [WorkflowStep.cancelNonterminal]
  split
  · rename_i hs
    have hsucc : a.status ≠ .succeeded := by
      rcases hs with hs | hs | hs <;> simp [hs]
    exact {
      output := fun _ => h.output hsucc
      unassigned := by simp
      assigned := by simp [WorkflowStep.isActive]
      result := by simp
      failure := by simp
      bound := h.bound
      ready := fun hr => h.ready (.inl (by simpa using hr))
      condition := h.condition
      skipped := by simp }
  · exact h

theorem WorkflowStep.Sound.skip (h : a.Sound m w) (hs : a.status = .pending)
    (hdeps : w.DepsComplete a) {c : WorkflowCondition} (hc : a.condition = some c)
    (hfalse : w.ConditionIs c false) :
    WorkflowStep.Sound { a with status := .skipped, completedAt := some now } m w where
  output _ := h.output (by simp [hs])
  unassigned _ := h.unassigned (.inl hs)
  assigned := by simp [WorkflowStep.isActive]
  result := by simp
  failure := by simp
  bound := h.bound
  ready _ := hdeps
  condition := h.condition
  skipped _ := ⟨c, hc, hfalse⟩

theorem WorkflowStep.Sound.assign (h : a.Sound m w) (hs : a.status = .pending)
    (hdeps : w.DepsComplete a) (hcond : ∀ c, a.condition = some c → w.ConditionIs c true)
    {runID : String} (hne : runID ≠ "")
    (hkey : m.idempotencyKeys.lookup (stepKey w.id a.id) = some runID) :
    WorkflowStep.Sound { a with runID := runID, status := .queued } m w where
  output _ := h.output (by simp [hs])
  unassigned := by simp
  assigned _ := hne
  result := by simp
  failure := by simp
  bound _ := hkey
  ready _ := hdeps
  condition _ := hcond
  skipped := by simp

end Steps

/-! ### Workflows -/

structure Workflow.Sound (w : Workflow) (limit : ℕ∞) (m : Memory) : Prop where
  accepted : w.Accepted
  steps : ∀ step ∈ w.steps, step.Sound m w
  active : (activeStepCount w : ℕ∞) ≤ limit

/-- The status of a Workflow agrees with the statuses of its steps. -/
structure Workflow.Closed (w : Workflow) : Prop where
  going : w.isTerminal = false → ∀ step ∈ w.steps,
    step.status ≠ .failed ∧ step.status ≠ .canceled
  ended : w.isTerminal = true → ∀ step ∈ w.steps,
    step.status ≠ .pending ∧ step.isActive = false
  succeeded : w.status = .succeeded → ∀ step ∈ w.steps, step.isComplete = true

section Workflows

variable {m m' : Memory} {limit : ℕ∞} {w w' : Workflow} {a : WorkflowStep} {run : Run}
  {i : Nat} {now : Time}

/-- A Workflow that has not ended and in which nothing has failed. -/
theorem Workflow.Closed.of_going (hgoing : w.isTerminal = false)
    (hopen : ∀ step ∈ w.steps, step.status ≠ .failed ∧ step.status ≠ .canceled) : w.Closed where
  going _ := hopen
  ended hterm := by simp [hgoing] at hterm
  succeeded hs := by simp [Workflow.isTerminal, hs] at hgoing

theorem Workflow.Sound.evolves (h : w.Sound limit m) (hm : m.Evolves m') : w.Sound limit m' :=
  ⟨h.accepted, fun step hstep => (h.steps step hstep).evolves hm, h.active⟩

/-- A Workflow moves on to steps that are sound in the old one. -/
theorem Workflow.Sound.advance (h : w.Sound limit m) (hext : w.Extends w')
    (hsteps : ∀ b ∈ w'.steps, b.Sound m w) (hactive : (activeStepCount w' : ℕ∞) ≤ limit) :
    w'.Sound limit m := by
  refine ⟨hext.accepted h.accepted, ?_, hactive⟩
  intro b hb
  obtain ⟨a, ha, hab⟩ := Pointwise.mem_right hext.steps hb
  exact (hsteps b hb).extends h.accepted ha hab.definition hext

/-- A Workflow in which no step becomes active. -/
theorem Workflow.Sound.settle (h : w.Sound limit m) (hext : w.Extends w')
    (hsteps : ∀ b ∈ w'.steps, b.Sound m w)
    (hquiet : List.Forall₂ (fun a b => b.isActive = true → a.isActive = true) w.steps w'.steps) :
    w'.Sound limit m := by
  apply h.advance hext hsteps
  have hcount : activeStepCount w' ≤ activeStepCount w :=
    Pointwise.countP_le hquiet fun hab => hab
  exact le_trans (Nat.cast_le.mpr hcount) h.active

theorem Workflow.Sound.of_steps (h : w.Sound limit m) (hext : w.Extends w')
    (hsteps : w'.steps = w.steps) : w'.Sound limit m := by
  apply h.advance hext (hsteps ▸ h.steps)
  rw [activeStepCount, hsteps]
  exact h.active

/-- Another step in the place of the step `i`, which is active only if that one was. -/
theorem Workflow.Sound.set (h : w.Sound limit m) (hi : w.steps[i]? = some a) {b : WorkflowStep}
    (hab : a.Progress b) (hb : b.Sound m w) (hactive : b.isActive = true → a.isActive = true) :
    Workflow.Sound { w with steps := w.steps.set i b } limit m := by
  apply h.settle (Workflow.extends_set hi hab)
  · intro step hstep
    rcases List.mem_or_eq_of_mem_set hstep with hmem | rfl
    · exact h.steps step hmem
    · exact hb
  · exact Pointwise.set (fun _ h => h) hi hactive

theorem Workflow.Sound.refresh (h : w.Sound limit m)
    (hopen : ∀ step ∈ w.steps, step.status ≠ .failed ∧ step.status ≠ .canceled)
    (hi : w.steps[i]? = some a) (hs : a.status ≠ .skipped) (hr : a.runID ≠ "")
    (hrun : m.runs.lookup a.runID = some run) (hset : run.status ≠ .unset) :
    Workflow.Sound { w with steps := w.steps.set i (a.refresh run) } limit m := by
  have hmem : a ∈ w.steps := List.mem_of_getElem? hi
  have ha := h.steps a hmem
  exact h.set hi (ha.refresh_progress hs hrun) (ha.refresh hs hr hrun hset)
    (ha.refresh_active hs hr hrun (hopen a hmem))

theorem Workflow.Sound.skip (h : w.Sound limit m) (hskip : w.Skip now w') :
    w'.Sound limit m := by
  obtain ⟨i, a, c, hi, hs, hdeps, hc, hfalse, rfl⟩ := hskip
  have ha := h.steps a (List.mem_of_getElem? hi)
  exact h.set hi (a.progress_skip hs) (ha.skip hs hdeps hc hfalse) (by simp [WorkflowStep.isActive])

theorem Workflow.Sound.cancelNonterminalSteps (h : w.Sound limit m) :
    (AgentMesh.cancelNonterminalSteps w now).Sound limit m := by
  apply h.settle (cancelNonterminalSteps_extends w now)
  · intro b hb
    obtain ⟨a, ha, rfl⟩ := List.mem_map.mp hb
    exact (h.steps a ha).cancelNonterminal
  · refine Pointwise.map ?_ w.steps
    intro a hb
    rw [WorkflowStep.cancelNonterminal] at hb
    split at hb
    · simp [WorkflowStep.isActive] at hb
    · exact hb

/-- An assignment makes one more step active. -/
theorem Workflow.Sound.assignRun (h : w.Sound limit m) (hi : w.steps[i]? = some a)
    (hs : a.status = .pending) (hdeps : w.DepsComplete a)
    (hcond : ∀ c, a.condition = some c → w.ConditionIs c true) {runID : String} (hne : runID ≠ "")
    (hkey : m.idempotencyKeys.lookup (stepKey w.id a.id) = some runID)
    (hroom : ((activeStepCount w + 1 : ℕ) : ℕ∞) ≤ limit) :
    w.Extends (w.assignRun i runID) ∧ (w.assignRun i runID).Sound limit m := by
  have hmem : a ∈ w.steps := List.mem_of_getElem? hi
  have ha := h.steps a hmem
  have heq : w.assignRun i runID
      = { w with steps := w.steps.set i { a with runID := runID, status := .queued } } := by
    rw [Workflow.assignRun, Pointwise.modify_eq_set _ hi]
  have hext : w.Extends (w.assignRun i runID) := by
    rw [heq]
    refine Workflow.extends_set hi (.of_incomplete ⟨rfl, rfl, rfl, rfl, rfl, rfl, rfl, rfl, rfl⟩ ?_
      fun hr => absurd (ha.unassigned (.inl hs)) hr)
    simp [WorkflowStep.isComplete, hs]
  refine ⟨hext, h.advance hext ?_ ?_⟩
  · intro step hstep
    rw [heq] at hstep
    rcases List.mem_or_eq_of_mem_set hstep with hmem | rfl
    · exact h.steps step hmem
    · exact ha.assign hs hdeps hcond hne hkey
  · refine le_trans (Nat.cast_le.mpr ?_) hroom
    rw [heq, activeStepCount, activeStepCount]
    have hlt : i < w.steps.length := (List.getElem?_eq_some_iff.mp hi).1
    rw [List.countP_set hlt]
    split <;> split <;> omega

end Workflows

end AgentMesh
