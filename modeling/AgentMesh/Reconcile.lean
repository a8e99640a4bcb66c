/-
AgentMesh/Reconcile.lean

What a manager call knows at each of its control points.

A call works on a copy of a Workflow that it has read.  The copy is a draft in
the sense of `Optimistic`: never newer than the stored Workflow, and made from
it if as new.  It is sound at all times, although the Runs it speaks of go on,
because what makes it sound is about complete steps and ended Runs only.

`ManagerPc.Ok` says which further facts ride on a control point: how far
`refreshSteps` has come, and that the step for which a Run is created is ready
for it.  `Manager.act_ok` goes through the actions of a call once; it gives
what happens to the stored Workflows (`Memory.FlowsTo`) and that the facts
hold at the next control point.
-/
import AgentMesh.Optimistic
import AgentMesh.Scheduling
import AgentMesh.Moves

namespace AgentMesh

/-! ### Stored Workflows -/

/-- How a Workflow that is worked on moves. -/
def Workflow.Next (w w' : Workflow) : Prop := w.isTerminal = false ∧ w.Extends w'

theorem Workflow.Next.trans (a b c : Workflow) (h : a.Next b) (h' : b.Next c) : a.Next c :=
  ⟨h.1, h.2.trans h'.2⟩

/-- No Workflow is removed, each one only moves on, and none moves on after its end. -/
def Memory.FlowsTo (m m' : Memory) : Prop :=
  Optimistic.Grows Workflow.version Workflow.Next (fun id => m.workflows.lookup id)
    fun id => m'.workflows.lookup id

structure Memory.FlowsOk (m : Memory) (limit : ℕ∞) : Prop where
  id : ∀ {id w}, m.workflows.lookup id = some w → w.id = id
  sound : ∀ {id w}, m.workflows.lookup id = some w → w.Sound limit m
  closed : ∀ {id w}, m.workflows.lookup id = some w → w.Closed

/-- The copy of a Workflow that a call works on. -/
structure Workflow.DraftIn (c : Workflow) (limit : ℕ∞) (m : Memory) : Prop where
  stored : ∃ w, m.workflows.lookup c.id = some w ∧
    Optimistic.Draft Workflow.version Workflow.Next w c
  sound : c.Sound limit m
  closed : c.Closed

/-- What is complete in the copy is complete in the store, with the same result. -/
def Workflow.SettledIn (c : Workflow) (m : Memory) : Prop :=
  ∃ w, m.workflows.lookup c.id = some w ∧ c.Extends w

section Stored

variable {m m' : Memory} {limit : ℕ∞} {c c' w updated : Workflow} {id : String} {now : Time}

theorem Memory.FlowsTo.of_eq (h : m'.workflows = m.workflows) : m.FlowsTo m' := by
  rw [Memory.FlowsTo, h]
  exact Optimistic.Grows.refl _

theorem Memory.FlowsOk.of_eq (hm : m.FlowsOk limit) (h : m'.workflows = m.workflows)
    (hruns : m.Evolves m') : m'.FlowsOk limit where
  id hw := hm.id (h ▸ hw)
  sound hw := (hm.sound (h ▸ hw)).evolves hruns
  closed hw := hm.closed (h ▸ hw)

theorem Memory.FlowsTo.next (h : m.FlowsTo m') (hw : m.workflows.lookup id = some w) :
    ∃ w', m'.workflows.lookup id = some w' ∧ w.Extends w' ∧ (w.isTerminal = true → w' = w) := by
  obtain ⟨w', hw', rfl | ⟨-, hgoing, hext⟩⟩ := h id w hw
  · exact ⟨w', hw', .refl w', fun _ => rfl⟩
  · exact ⟨w', hw', hext, fun hterm => by simp [hgoing] at hterm⟩

theorem Workflow.DraftIn.mono (h : c.DraftIn limit m) (hflows : m.FlowsTo m')
    (hruns : m.Evolves m') : c.DraftIn limit m' := by
  obtain ⟨w, hw, hdraft⟩ := h.stored
  obtain ⟨w', hw', hmoves⟩ := hflows c.id w hw
  exact ⟨⟨w', hw', hdraft.moves hmoves⟩, h.sound.evolves hruns, h.closed⟩

theorem Workflow.SettledIn.mono (h : c.SettledIn m) (hflows : m.FlowsTo m') : c.SettledIn m' := by
  obtain ⟨w, hw, hext⟩ := h
  obtain ⟨w', hw', hext', -⟩ := hflows.next hw
  exact ⟨w', hw', hext.trans hext'⟩

/-- A Workflow just read is a draft of itself. -/
theorem Memory.FlowsOk.draft (hm : m.FlowsOk limit) (hw : m.workflows.lookup id = some w)
    (hgoing : w.isTerminal = false) : w.DraftIn limit m := by
  refine ⟨⟨w, ?_, le_rfl, fun _ => ⟨hgoing, .refl w⟩⟩, hm.sound hw, hm.closed hw⟩
  rw [hm.id hw]
  exact hw

/-- The call changes its copy. -/
theorem Workflow.DraftIn.change (h : c.DraftIn limit m) (hext : c.Extends c')
    (hversion : c'.version = c.version) (hsound : c'.Sound limit m) (hclosed : c'.Closed) :
    c'.DraftIn limit m := by
  obtain ⟨w, hw, hdraft⟩ := h.stored
  refine ⟨⟨w, ?_, ?_, ?_⟩, hsound, hclosed⟩
  · rw [hext.id]
    exact hw
  · rw [hversion]
    exact hdraft.le
  · intro hv
    obtain ⟨hgoing, hext'⟩ := hdraft.made (hversion ▸ hv)
    exact ⟨hgoing, hext'.trans hext⟩

/-- An accepted write stores the draft under the next version. -/
theorem Workflow.DraftIn.update (h : c.DraftIn limit m)
    (hupdate : m.updateWorkflow c c.version = .ok (m', updated)) :
    updated = { c with version := c.version + 1 } ∧
      m' = { m with workflows := m.workflows.insert c.id updated } ∧
      ∃ w, m.workflows.lookup c.id = some w ∧ w.version = c.version ∧ w.Next c := by
  obtain ⟨existing, steps, he, hv, -, hsteps, rfl, rfl⟩ := Memory.updateWorkflow_ok hupdate
  obtain ⟨w, hw, hdraft⟩ := h.stored
  obtain rfl := Option.some.inj (he.symm.trans hw)
  -- the versions agree, so the draft was made from what is stored now
  have hnext := hdraft.made hv.symm
  obtain rfl : c.steps = steps :=
    Except.ok.inj ((mergeSteps_of_progress hnext.2.steps).symm.trans hsteps)
  refine ⟨?_, rfl, existing, he, hv, hnext⟩
  rw [← hnext.2.id, ← hnext.2.input, ← hnext.2.createdAt, hv]

theorem Workflow.DraftIn.flowsTo (h : c.DraftIn limit m)
    (hupdate : m.updateWorkflow c c.version = .ok (m', updated)) : m.FlowsTo m' := by
  obtain ⟨rfl, rfl, w, hw, hv, hnext⟩ := h.update hupdate
  apply Optimistic.Grows.write (fun id => Table.lookup_insert_eq _ _ _ _)
  intro w' hw'
  obtain rfl := Option.some.inj (hw.symm.trans hw')
  refine .inr ⟨?_, hnext.1, hnext.2.trans (.of_steps rfl rfl rfl rfl)⟩
  show w.version < c.version + 1
  omega

theorem Workflow.DraftIn.flowsOk (h : c.DraftIn limit m) (hm : m.FlowsOk limit)
    (hupdate : m.updateWorkflow c c.version = .ok (m', updated)) : m'.FlowsOk limit := by
  have hruns := (Memory.updateWorkflow_sameRuns hupdate).evolves
  obtain ⟨rfl, rfl, -⟩ := h.update hupdate
  have hext : c.Extends { c with version := c.version + 1 } := .of_steps rfl rfl rfl rfl
  have hsound := (h.sound.evolves hruns).of_steps hext rfl
  have hclosed : Workflow.Closed { c with version := c.version + 1 } :=
    ⟨h.closed.going, h.closed.ended, h.closed.succeeded⟩
  exact {
    id := Table.of_lookup_insert (P := fun id (w : Workflow) => w.id = id) rfl hm.id
    sound := Table.of_lookup_insert (P := fun _ (w : Workflow) => w.Sound limit _) hsound
      fun hw => (hm.sound hw).evolves hruns
    closed := Table.of_lookup_insert (P := fun _ (w : Workflow) => w.Closed) hclosed hm.closed }

end Stored

/-- A step that a Run may be created for. -/
structure Workflow.Ready (w : Workflow) (limit : ℕ∞) (step : WorkflowStep) : Prop where
  pending : step.status = .pending
  dependencies : w.DepsComplete step
  condition : ∀ c, step.condition = some c → w.ConditionIs c true
  room : ((activeStepCount w + 1 : ℕ) : ℕ∞) ≤ limit

/-! ### Changes of a draft -/

section Changes

variable {m : Memory} {limit : ℕ∞} {c c' : Workflow} {a b : WorkflowStep} {i : Nat} {run : Run}
  {now : Time}

/-- A call ends a Workflow: what is not finished is canceled. -/
theorem Workflow.DraftIn.stop (h : c.DraftIn limit m) (hext : c.Extends c')
    (hversion : c'.version = c.version) (hsound : c'.Sound limit m)
    (hterm : c'.isTerminal = true) (hne : c'.status ≠ .succeeded) :
    (cancelNonterminalSteps c' now).DraftIn limit m := by
  refine h.change (hext.trans (cancelNonterminalSteps_extends c' now)) hversion
    hsound.cancelNonterminalSteps ⟨?_, ?_, fun hs => absurd hs hne⟩
  · intro hgoing
    have hsame : (cancelNonterminalSteps c' now).isTerminal = c'.isTerminal := rfl
    simp [hsame, hterm] at hgoing
  · intro _ step hstep
    obtain ⟨a, -, rfl⟩ := List.mem_map.mp hstep
    rw [WorkflowStep.cancelNonterminal]
    split
    · simp [WorkflowStep.isActive]
    · rename_i hs
      simp only [not_or] at hs
      simp [WorkflowStep.isActive, hs.1, hs.2.1, hs.2.2]

theorem Workflow.DraftIn.failWith (h : c.DraftIn limit m) (cause : Err) :
    (c.failWith cause now).DraftIn limit m :=
  h.stop (.of_steps rfl rfl rfl rfl) rfl (h.sound.of_steps (.of_steps rfl rfl rfl rfl) rfl) rfl
    (by simp)

theorem Workflow.DraftIn.cancelAt (h : c.DraftIn limit m) : (c.cancelAt now).DraftIn limit m :=
  h.stop (.of_steps rfl rfl rfl rfl) rfl (h.sound.of_steps (.of_steps rfl rfl rfl rfl) rfl) rfl
    (by simp)

theorem Workflow.DraftIn.start (h : c.DraftIn limit m) (hs : c.status = .pending) :
    Workflow.DraftIn { c with status := .running, startedAt := some now } limit m := by
  refine h.change (.of_steps rfl rfl rfl rfl) rfl (h.sound.of_steps (.of_steps rfl rfl rfl rfl) rfl)
    (.of_going rfl (h.closed.going ?_))
  simp [Workflow.isTerminal, hs]

theorem Workflow.DraftIn.succeed (h : c.DraftIn limit m)
    (hall : ∀ step ∈ c.steps, step.isComplete = true) :
    Workflow.DraftIn { c with status := .succeeded, error := "", completedAt := some now }
      limit m := by
  refine h.change (.of_steps rfl rfl rfl rfl) rfl (h.sound.of_steps (.of_steps rfl rfl rfl rfl) rfl)
    ⟨by simp [Workflow.isTerminal], ?_, fun _ => hall⟩
  intro _ step hstep
  have hcomplete := hall step hstep
  cases hs : step.status <;> simp_all [WorkflowStep.isComplete, WorkflowStep.isActive]

theorem Workflow.DraftIn.refresh (h : c.DraftIn limit m) (hm : m.RunsOk)
    (hgoing : c.isTerminal = false) (hi : c.steps[i]? = some a) (hs : a.status ≠ .skipped)
    (hr : a.runID ≠ "") (hrun : m.runs.lookup a.runID = some run)
    (hok : (a.refresh run).status ≠ .failed ∧ (a.refresh run).status ≠ .canceled) :
    Workflow.DraftIn { c with steps := c.steps.set i (a.refresh run) } limit m := by
  have hopen := h.closed.going hgoing
  have ha := h.sound.steps a (List.mem_of_getElem? hi)
  refine h.change (Workflow.extends_set hi (ha.refresh_progress hs hrun)) rfl
    (h.sound.refresh hopen hi hs hr hrun (hm.status hrun)) (.of_going hgoing ?_)
  intro step hstep
  rcases List.mem_or_eq_of_mem_set hstep with hmem | rfl
  · exact hopen step hmem
  · exact hok

/-- `refreshSteps` meets a failed or canceled Run. -/
theorem Workflow.DraftIn.terminate (h : c.DraftIn limit m) (hm : m.RunsOk)
    (hgoing : c.isTerminal = false) (hi : c.steps[i]? = some a) (hs : a.status ≠ .skipped)
    (hr : a.runID ≠ "") (hrun : m.runs.lookup a.runID = some run) :
    (Workflow.terminate { c with steps := c.steps.set i (a.refresh run) } (a.refresh run)
      now).DraftIn limit m := by
  have ha := h.sound.steps a (List.mem_of_getElem? hi)
  have hext := Workflow.extends_set hi (ha.refresh_progress hs hrun)
  have hsound := h.sound.refresh (h.closed.going hgoing) hi hs hr hrun (hm.status hrun)
  rw [Workflow.terminate]
  split
  · exact h.stop (hext.trans (.of_steps rfl rfl rfl rfl)) rfl
      (hsound.of_steps (.of_steps rfl rfl rfl rfl) rfl) rfl (by simp)
  · exact h.stop (hext.trans (.of_steps rfl rfl rfl rfl)) rfl
      (hsound.of_steps (.of_steps rfl rfl rfl rfl) rfl) rfl (by simp)

theorem Workflow.DraftIn.skip (h : c.DraftIn limit m) (hgoing : c.isTerminal = false)
    (hskip : c.Skip now c') : c'.DraftIn limit m ∧ c'.isTerminal = false := by
  have hext := hskip.extends
  have hsound := h.sound.skip hskip
  obtain ⟨i, a, cond, hi, hs, -, -, -, rfl⟩ := hskip
  refine ⟨h.change hext rfl hsound (.of_going hgoing ?_), hgoing⟩
  intro step hstep
  rcases List.mem_or_eq_of_mem_set hstep with hmem | rfl
  · exact h.closed.going hgoing step hmem
  · simp

theorem Workflow.DraftIn.skips (h : c.DraftIn limit m) (hgoing : c.isTerminal = false)
    (hskips : Relation.ReflTransGen (Workflow.Skip now) c c') : c'.DraftIn limit m := by
  have key : c'.DraftIn limit m ∧ c'.isTerminal = false := by
    induction hskips with
    | refl => exact ⟨h, hgoing⟩
    | tail _ hskip ih => exact ih.1.skip ih.2 hskip
  exact key.1

/-- A refreshed step with the status that it had before. -/
theorem Workflow.SettledIn.set (h : c.SettledIn m) (hi : c.steps[i]? = some a)
    (hab : a.Progress b) (hr : b.runID = a.runID) (hs : b.status = a.status) :
    Workflow.SettledIn { c with steps := c.steps.set i b } m := by
  obtain ⟨w, hw, hext⟩ := h
  refine ⟨w, hw, hext.id, hext.input, hext.createdAt, Pointwise.set_left hext.steps hi ?_⟩
  intro x hax
  refine ⟨hab.definition.symm.trans hax.definition, ?_, ?_⟩
  · intro hne
    rw [hr] at hne ⊢
    exact hax.runID hne
  · intro hc
    have hac : a.isComplete = true := by rw [WorkflowStep.isComplete, ← hs]; exact hc
    obtain ⟨hs₁, ho₁, hr₁⟩ := hax.complete hac
    obtain ⟨hs₂, ho₂, hr₂⟩ := hab.complete hac
    exact ⟨hs₁.trans hs₂.symm, ho₁.trans ho₂.symm, hr₁.trans hr₂.symm⟩

theorem Workflow.DraftIn.assignRun (h : c.DraftIn limit m) (hgoing : c.isTerminal = false)
    (hi : c.steps[i]? = some a) (hready : c.Ready limit a) {runID : String} (hne : runID ≠ "")
    (hkey : m.idempotencyKeys.lookup (stepKey c.id a.id) = some runID) :
    (c.assignRun i runID).DraftIn limit m := by
  obtain ⟨hext, hsound⟩ := h.sound.assignRun hi hready.pending hready.dependencies hready.condition
    hne hkey hready.room
  refine h.change hext rfl hsound (.of_going hgoing ?_)
  intro step hstep
  rw [Workflow.assignRun, Pointwise.modify_eq_set _ hi] at hstep
  rcases List.mem_or_eq_of_mem_set hstep with hmem | rfl
  · exact h.closed.going hgoing step hmem
  · simp

end Changes

/-! ### Control points -/

/-- What rides on a control point. -/
def ManagerPc.Ok (limit : ℕ∞) (m : Memory) : ManagerPc → Prop
  | .refresh c _ index changed allSucceeded =>
      c.DraftIn limit m ∧ c.isTerminal = false ∧ (changed = false → c.SettledIn m) ∧
        (allSucceeded = true → ∀ j < index, ∀ step, c.steps[j]? = some step →
          step.isComplete = true)
  | .createRun c next input parentRunID =>
      c.DraftIn limit m ∧ c.isTerminal = false ∧ c.SettledIn m ∧
        ∃ step, c.steps[next]? = some step ∧ c.Ready limit step ∧
          resolveInput c step = .ok (input, parentRunID)
  | .storeTerminal c _ | .storeChanged c _ | .assign c _ _ | .fail c _ | .startStore c
  | .cancelStore c _ => c.DraftIn limit m
  | .tasks _ next => next.Ok limit m
  | _ => True

/-- The control points of `reconcile`, where the concurrency limit counts. -/
def ManagerPc.reconciling : ManagerPc → Bool
  | .load _ | .refresh _ _ _ _ _ | .storeTerminal _ _ | .storeChanged _ _ | .createRun _ _ _ _
  | .assign _ _ _ | .enqueue _ _ | .fail _ _ => true
  | .tasks _ next => next.reconciling
  | _ => false

/-- The Workflow that a call is about to write. -/
def ManagerPc.writes (o : ManagerOracle) : ManagerPc → Option Workflow
  | .storeTerminal c _ | .storeChanged c _ | .assign c _ _ | .startStore c | .cancelStore c _ =>
      some c
  | .fail c cause => some (c.failWith cause o.now)
  | _ => none

/-- The copy of a Workflow that a call holds. -/
def ManagerPc.copy : ManagerPc → Option Workflow
  | .refresh c _ _ _ _ | .createRun c _ _ _ | .storeTerminal c _ | .storeChanged c _ | .assign c _ _
  | .fail c _ | .startStore c | .cancelStore c _ => some c
  | .tasks _ next => next.copy
  | _ => none

section ControlPoints

variable {m m' : Memory} {limit : ℕ∞} {c : Manager} {candidate : Workflow} {pc : ManagerPc}
  {o : ManagerOracle} {e : ManagerEffect} {previous : Table WorkflowStepStatus}
  {changed allSucceeded : Bool} {index : Nat} {now : Time}

theorem ManagerPc.Ok.mono (h : pc.Ok limit m) (hflows : m.FlowsTo m') (hruns : m.Evolves m') :
    pc.Ok limit m' := by
  induction pc with
  | refresh c _ index changed allSucceeded =>
      obtain ⟨hdraft, hgoing, hsettled, hall⟩ := h
      exact ⟨hdraft.mono hflows hruns, hgoing, fun hc => (hsettled hc).mono hflows, hall⟩
  | createRun c next input parentRunID =>
      obtain ⟨hdraft, hgoing, hsettled, hstep⟩ := h
      exact ⟨hdraft.mono hflows hruns, hgoing, hsettled.mono hflows, hstep⟩
  | storeTerminal c _ | storeChanged c _ | assign c _ _ | fail c _ | startStore c
  | cancelStore c _ => exact Workflow.DraftIn.mono h hflows hruns
  | tasks _ next ih => exact ih h
  | _ => trivial

/-- A control point whose facts hold in every store is one without a copy. -/
theorem ManagerPc.copy_of_free (h : ∀ limit m, pc.Ok limit m) : pc.copy = none := by
  have hempty : ∀ {c : Workflow}, ¬ c.DraftIn ⊤ {} := by
    rintro c ⟨⟨w, hw, -⟩, -⟩
    cases hw
  have hpc := h ⊤ {}
  clear h
  induction pc with
  | refresh | createRun => exact absurd hpc.1 hempty
  | storeTerminal | storeChanged | assign | fail | startStore | cancelStore =>
      exact absurd hpc hempty
  | tasks _ next ih => exact ih hpc
  | _ => rfl

theorem ManagerPc.Ok.writes (h : pc.Ok limit m) (hw : pc.writes o = some candidate) :
    candidate.DraftIn limit m := by
  cases pc
  case fail c cause =>
    obtain rfl := Option.some.inj hw
    exact Workflow.DraftIn.failWith h cause
  case storeTerminal | storeChanged | assign | startStore | cancelStore =>
    obtain rfl := Option.some.inj hw
    exact h
  all_goals cases hw

/-- `reconcile` looks for a step to run. -/
theorem Manager.schedule_ok (hlimit : (c.limit : ℕ∞) ≤ limit) (h : candidate.DraftIn limit m)
    (hgoing : candidate.isTerminal = false) (hsettled : candidate.SettledIn m) :
    (c.schedule candidate previous now).Ok limit m := by
  obtain ⟨hskips, hsame⟩ := applyConditions_skips h.sound.accepted now
  rw [Manager.schedule]
  split
  · -- a step was skipped, and the copy is to be stored
    exact h.skips hgoing hskips
  rename_i hunchanged
  split
  · -- as many steps are active as may be
    trivial
  rename_i hroom
  split
  · -- no step is ready: wait for an active one, or fail
    split
    · trivial
    · exact h
  rename_i next hready
  split
  · trivial
  rename_i step hstep
  split
  · exact h
  rename_i input parentRunID hinput
  -- the step is pending, its dependencies are complete and its condition holds
  obtain ⟨step', hstep', hpending, hdeps⟩ := readyStep_some h.sound.accepted hready
  obtain rfl := Option.some.inj (hstep.symm.trans hstep')
  have hpass := (hsame (by simpa using hunchanged)).2 next
  refine ⟨h, hgoing, hsettled, step, hstep, ⟨hpending, hdeps, ?_, ?_⟩, hinput⟩
  · intro cond hcond
    exact hpass.conditionIs h.sound.accepted hstep hpending hdeps hcond
  · refine le_trans (Nat.cast_le.mpr ?_) hlimit
    omega

theorem Manager.refreshed_ok (hlimit : (c.limit : ℕ∞) ≤ limit) (h : candidate.DraftIn limit m)
    (hgoing : candidate.isTerminal = false) (hsettled : changed = false → candidate.SettledIn m)
    (hall : allSucceeded = true → ∀ step ∈ candidate.steps, step.isComplete = true) :
    (c.refreshed candidate previous changed allSucceeded now).Ok limit m := by
  rw [Manager.refreshed]
  split
  · rename_i hsucc
    exact h.succeed (hall hsucc)
  split
  · exact h
  · rename_i hunchanged
    exact schedule_ok hlimit h hgoing (hsettled (by simpa using hunchanged))

/-- One round of `refreshSteps`. -/
theorem Manager.refreshStep_ok (hm : m.RunsOk) (hlimit : (c.limit : ℕ∞) ≤ limit)
    (h : (ManagerPc.refresh candidate previous index changed allSucceeded).Ok limit m) :
    (c.refreshStep candidate previous index changed allSucceeded now m).Ok limit m := by
  obtain ⟨hdraft, hgoing, hsettled, hall⟩ := h
  rw [Manager.refreshStep]
  split
  · -- all steps have been visited
    rename_i hnone
    apply refreshed_ok hlimit hdraft hgoing hsettled
    intro hsucc step hstep
    obtain ⟨j, hj⟩ := List.mem_iff_getElem?.mp hstep
    refine hall hsucc j ?_ step hj
    have hlt := (List.getElem?_eq_some_iff.mp hj).1
    have hge := List.getElem?_eq_none_iff.mp hnone
    omega
  rename_i step hstep
  -- the steps before `index + 1` are complete if this one is
  have hnext : ∀ {steps : List WorkflowStep} {step' : WorkflowStep}, steps[index]? = some step' →
      (∀ j < index, steps[j]? = candidate.steps[j]?) → allSucceeded = true →
      step'.isComplete = true → ∀ j < index + 1, ∀ x, steps[j]? = some x → x.isComplete = true := by
    intro steps step' hindex hbefore hsucc hcomplete j hj x hx
    rcases Nat.lt_succ_iff_lt_or_eq.mp hj with hlt | rfl
    · exact hall hsucc j hlt x (hbefore j hlt ▸ hx)
    · obtain rfl := Option.some.inj (hindex.symm.trans hx)
      exact hcomplete
  split
  · -- a skipped step is complete
    rename_i hskipped
    exact ⟨hdraft, hgoing, hsettled, fun hsucc =>
      hnext hstep (fun _ _ => rfl) hsucc (by simp [WorkflowStep.isComplete, hskipped])⟩
  rename_i hskipped
  split
  · -- a step without a Run is not
    exact ⟨hdraft, hgoing, hsettled, by simp⟩
  rename_i hrunID
  split
  · trivial
  rename_i run hrun
  rw [Memory.getRun_ok] at hrun
  simp only
  split
  · -- its Run has failed or was canceled, which ends the Workflow
    exact hdraft.terminate hm hgoing hstep hskipped hrunID hrun
  rename_i hok
  rw [not_or] at hok
  have hsound := hdraft.sound.steps step (List.mem_of_getElem? hstep)
  have hlt := (List.getElem?_eq_some_iff.mp hstep).1
  refine ⟨hdraft.refresh hm hgoing hstep hskipped hrunID hrun hok, hgoing, ?_, ?_⟩
  · -- without a change of status the copy still agrees with the store
    intro hunchanged
    simp only [Bool.or_eq_false_iff, decide_eq_false_iff_not, not_not] at hunchanged
    exact (hsettled hunchanged.1).set hstep (hsound.refresh_progress hskipped hrun)
      (step.refresh_runID run) hunchanged.2.symm
  · intro hsucc
    rw [Bool.and_eq_true] at hsucc
    refine hnext (List.getElem?_set_self hlt) (fun j hj => ?_) hsucc.1 hsucc.2
    rw [List.getElem?_set_ne (by omega)]

end ControlPoints

/-! ### Actions -/

/-- The actions of a manager call, by what they do to Workflows. -/
inductive Manager.FlowMove (c : Manager) (o : ManagerOracle) (m : Memory) :
    ManagerPc → ManagerEffect → Prop
  /-- The copy is given up, or there was none. -/
  | free {pc : ManagerPc} {e : ManagerEffect} (workflows : e.store.workflows = m.workflows)
      (free : ∀ limit m, pc.Ok limit m)
      (mode : pc.reconciling = true → c.pc.reconciling = true) : FlowMove c o m pc e
  /-- The copy is stored. -/
  | write {candidate updated : Workflow} {pc : ManagerPc} {e : ManagerEffect}
      (writes : c.pc.writes o = some candidate)
      (update : m.updateWorkflow candidate candidate.version = .ok (e.store, updated))
      (free : ∀ limit m, pc.Ok limit m)
      (mode : pc.reconciling = true → c.pc.reconciling = true) : FlowMove c o m pc e
  | load {id : String} {w : Workflow} {e : ManagerEffect} (pc : c.pc = .load id)
      (found : m.workflows.lookup id = some w) (going : w.isTerminal = false)
      (store : e.store = m) : FlowMove c o m (.refresh w (stepStatuses w) 0 false true) e
  | refresh {candidate : Workflow} {previous : Table WorkflowStepStatus} {index : Nat}
      {changed allSucceeded : Bool} {e : ManagerEffect}
      (pc : c.pc = .refresh candidate previous index changed allSucceeded) (store : e.store = m) :
      FlowMove c o m (c.refreshStep candidate previous index changed allSucceeded o.now m) e
  | create {candidate : Workflow} {next : Nat} {input parentRunID : String} {step : WorkflowStep}
      {created : Run} {isNew : Bool} {e : ManagerEffect}
      (pc : c.pc = .createRun candidate next input parentRunID)
      (found : candidate.steps[next]? = some step)
      (store : m.createRun (c.newRun candidate step o.newID input parentRunID o.now)
        (stepKey candidate.id step.id) = .ok (e.store, created, isNew)) :
      FlowMove c o m (.assign (candidate.assignRun next created.id) next created) e
  | createFails {candidate : Workflow} {next : Nat} {input parentRunID : String} {cause : Err}
      {e : ManagerEffect} (pc : c.pc = .createRun candidate next input parentRunID)
      (store : e.store = m)
      (wrapped : ∃ (err : Err) (stepID : String),
        cause = err.wrap ("create Run for step " ++ stepID ++ ": ")) :
      FlowMove c o m (.fail candidate cause) e
  | start {id : String} {w : Workflow} {e : ManagerEffect} (pc : c.pc = .startLoad id)
      (found : m.workflows.lookup id = some w) (pending : w.status = .pending)
      (store : e.store = m) :
      FlowMove c o m (.startStore { w with status := .running, startedAt := some o.now }) e
  | cancel {id : String} {w : Workflow} {e : ManagerEffect} (pc : c.pc = .cancelLoad id)
      (found : m.workflows.lookup id = some w) (going : w.isTerminal = false)
      (store : e.store = m) :
      FlowMove c o m (.cancelStore (w.cancelAt o.now) (activeRunIDs w)) e
  | task {todo : List Task} {next pc : ManagerPc} {e : ManagerEffect}
      (tasks : c.pc = .tasks todo next) (workflows : e.store.workflows = m.workflows)
      (after : pc = next ∨ ∃ rest, pc = .tasks rest next) : FlowMove c o m pc e

section Actions

variable {m : Memory} {limit : ℕ∞} {c : Manager} {pc : ManagerPc} {o : ManagerOracle}
  {e : ManagerEffect} {candidate : Workflow}

theorem Manager.FlowMove.of_reconcileUpdate {next : Workflow → ManagerPc}
    (hw : c.pc.writes o = some candidate) (hmode : c.pc.reconciling = true)
    (h : reconcileUpdate m candidate next = (pc, e))
    (hnext : ∀ updated limit m, (next updated).Ok limit m) : c.FlowMove o m pc e := by
  obtain ⟨-, -, ⟨updated, hupdate, rfl⟩ | ⟨hstore, rfl | ⟨err, rfl⟩⟩⟩ := reconcileUpdate_eq h
  · exact .write hw hupdate (hnext updated) fun _ => hmode
  · exact .free (by rw [hstore]) (fun _ _ => trivial) fun _ => hmode
  · exact .free (by rw [hstore]) (fun _ _ => trivial) fun _ => hmode

/-- Every action of a manager call is in one of the classes. -/
theorem Manager.act_flowMove (h : c.act o m = some (pc, e)) : c.FlowMove o m pc e := by
  cases hpc : c.pc <;> simp only [Manager.act, hpc, Option.some.injEq, reduceCtorEq] at h
  case load id =>
    split at h
    · cases h
      exact .free rfl (fun _ _ => trivial) (by simp [ManagerPc.reconciling])
    split at h
    · cases h
      exact .free rfl (fun _ _ => trivial) (by simp [ManagerPc.reconciling])
    rename_i w hw
    split at h
    · cases h
      exact .free rfl (fun _ _ => trivial) (by simp [ManagerPc.reconciling])
    · rename_i hgoing
      cases h
      exact .load hpc (Memory.getWorkflow_ok.mp hw) (by simpa using hgoing) rfl
  case refresh candidate previous index changed allSucceeded =>
    cases h
    exact .refresh hpc rfl
  case storeTerminal | storeChanged | assign =>
    exact .of_reconcileUpdate (by rw [hpc]; rfl) (by rw [hpc]; rfl) h fun _ _ _ => trivial
  case createRun candidate next input parentRunID =>
    split at h
    · cases h
    rename_i step hstep
    split at h
    · cases h
      exact .createFails hpc rfl ⟨_, step.id, rfl⟩
    · rename_i hcreate
      cases h
      exact .create hpc hstep (createStepRun_ok hcreate)
  case enqueue id created =>
    have hmode : c.pc.reconciling = true := by rw [hpc]; rfl
    repeat' split at h
    all_goals cases h
    all_goals exact .free rfl (fun _ _ => trivial) fun _ => hmode
  case fail candidate cause =>
    have hmode : c.pc.reconciling = true := by rw [hpc]; rfl
    split at h
    · split at h
      all_goals cases h
      all_goals exact .free rfl (fun _ _ => trivial) fun _ => hmode
    · rename_i hupdate
      cases h
      exact .write (by rw [hpc]; rfl) hupdate (fun _ _ => trivial) fun _ => hmode
  case startLoad id =>
    split at h
    · cases h
      exact .free rfl (fun _ _ => trivial) (by simp [ManagerPc.reconciling])
    rename_i w hw
    split at h
    · cases h
      exact .free rfl (fun _ _ => trivial) (by simp [ManagerPc.reconciling])
    · rename_i hpending
      cases h
      exact .start hpc (Memory.getWorkflow_ok.mp hw) (not_not.mp hpending) rfl
  -- `StartWorkflow` and `CancelWorkflow` give up at a conflict, they do not start over
  case startStore | cancelStore =>
    split at h
    · cases h
      exact .free rfl (fun _ _ => trivial) (by simp [ManagerPc.reconciling])
    · rename_i hupdate
      cases h
      exact .write (by rw [hpc]; rfl) hupdate (fun _ _ => trivial) (by simp [ManagerPc.reconciling])
  case cancelLoad id =>
    split at h
    · cases h
      exact .free rfl (fun _ _ => trivial) (by simp [ManagerPc.reconciling])
    rename_i w hw
    split at h
    · cases h
      exact .free rfl (fun _ _ => trivial) (by simp [ManagerPc.reconciling])
    · rename_i hgoing
      cases h
      refine .cancel hpc (Memory.getWorkflow_ok.mp hw) ?_ rfl
      cases hs : w.status <;> simp_all [Workflow.isTerminal]
  case tasks todo next =>
    rcases todo with - | ⟨task | task, rest⟩
    · cases h
      exact .task hpc rfl (.inl rfl)
    · simp only at h
      split at h
      · cases h
        exact .task hpc rfl (.inr ⟨rest, rfl⟩)
      · rename_i hcancel
        cases h
        obtain ⟨existing, -, -, hstore⟩ := Memory.cancelRun_ok hcancel
        exact .task hpc (by rw [hstore]) (.inr ⟨rest, rfl⟩)
    · simp only at h
      split at h
      · cases h
        exact .task hpc rfl (.inr ⟨rest, rfl⟩)
      · rename_i hevent
        cases h
        obtain ⟨events, rfl⟩ := Memory.appendWorkflowEvent_ok hevent
        exact .task hpc rfl (.inr ⟨rest, rfl⟩)

theorem stepKey_ne_empty (workflowID stepID : String) : stepKey workflowID stepID ≠ "" := by
  simp [stepKey]

theorem Manager.FlowMove.flows (h : c.FlowMove o m pc e) (hc : c.pc.Ok limit m)
    (hm : m.FlowsOk limit) (hruns : m.Evolves e.store) :
    m.FlowsTo e.store ∧ e.store.FlowsOk limit := by
  have hsame : e.store.workflows = m.workflows → m.FlowsTo e.store ∧ e.store.FlowsOk limit :=
    fun heq => ⟨.of_eq heq, hm.of_eq heq hruns⟩
  cases h with
  | free workflows | task _ workflows => exact hsame workflows
  | write writes update =>
      have hdraft := hc.writes writes
      exact ⟨hdraft.flowsTo update, hdraft.flowsOk hm update⟩
  | create _ _ store => exact hsame (Memory.createRun_onlyRuns store).workflows
  | load _ _ _ store | refresh _ store | createFails _ store | start _ _ _ store
  | cancel _ _ _ store => exact hsame (by rw [store])

/-- A manager call as it stands: the facts at its control point, and its limit. -/
structure Manager.Ok (c : Manager) (limit : ℕ∞) (m : Memory) : Prop where
  pc : c.pc.Ok limit m
  limit : c.pc.reconciling = true → (c.limit : ℕ∞) ≤ limit

/-- A call goes on from facts to facts. -/
theorem Manager.FlowMove.ok (h : c.FlowMove o m pc e) (hc : c.Ok limit m) (hm : m.FlowsOk limit)
    (hruns : m.RunsOk) (hruns' : e.store.RunsOk) (hevolves : m.Evolves e.store) :
    Manager.Ok { c with pc := pc } limit e.store := by
  have hflows := (h.flows hc.pc hm hevolves).1
  cases h with
  | free _ free mode => exact ⟨free limit e.store, fun hp => hc.limit (mode hp)⟩
  | write _ _ free mode => exact ⟨free limit e.store, fun hp => hc.limit (mode hp)⟩
  | @load id w _ pc found going store =>
      have hdraft := hm.draft found going
      have hsettled : w.SettledIn m := ⟨w, by rw [hm.id found, found], .refl w⟩
      refine ⟨?_, fun _ => hc.limit (by rw [pc]; rfl)⟩
      rw [store]
      exact ⟨hdraft, going, fun _ => hsettled, fun _ j hj => absurd hj (by omega)⟩
  | refresh pc store =>
      have hlimit := hc.limit (by rw [pc]; rfl)
      refine ⟨?_, fun _ => hlimit⟩
      rw [store]
      exact Manager.refreshStep_ok hruns hlimit (pc ▸ hc.pc)
  | @create candidate next input parentRunID step created isNew _ pc found store =>
      -- whether the Run is new or was there, it is the one bound to the key of the step
      have hpc := hc.pc.mono hflows hevolves
      rw [pc] at hpc
      obtain ⟨hdraft, hgoing, -, step', hstep', hready, -⟩ := hpc
      obtain rfl := Option.some.inj (found.symm.trans hstep')
      obtain ⟨hkey, -, hne⟩ := hruns.created hruns' (stepKey_ne_empty _ _) store
      exact ⟨hdraft.assignRun hgoing found hready hne hkey, fun _ => hc.limit (by rw [pc]; rfl)⟩
  | createFails pc store =>
      have hpc := hc.pc.mono hflows hevolves
      rw [pc] at hpc
      exact ⟨hpc.1, fun _ => hc.limit (by rw [pc]; rfl)⟩
  | start pc found pending store =>
      refine ⟨?_, by simp [ManagerPc.reconciling]⟩
      rw [store]
      exact (hm.draft found (by simp [Workflow.isTerminal, pending])).start pending
  | cancel pc found going store =>
      refine ⟨?_, by simp [ManagerPc.reconciling]⟩
      rw [store]
      exact (hm.draft found going).cancelAt
  | @task todo next pc _ tasks _ after =>
      have hpc := hc.pc.mono hflows hevolves
      have hmode := hc.limit
      rw [tasks] at hpc hmode
      rcases after with rfl | ⟨rest, rfl⟩
      · exact ⟨hpc, hmode⟩
      · exact ⟨hpc, hmode⟩

end Actions

end AgentMesh
