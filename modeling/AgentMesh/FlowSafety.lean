/-
AgentMesh/FlowSafety.lean

The invariant of Workflows: what the scheduler guarantees in every reachable
state, and how stored Workflows develop.

`FlowInv` says that the stored Workflows are sound and that each manager call
knows what its control point says.  It is proved for the runs in which no
manager reconciles with a limit above a given one, with `⊤` for all runs.
`FlowInv.step` also gives `Memory.FlowsTo`, from which it follows that a Run
once assigned to a step stays assigned to it.

The second half counts the Runs created under a key.
-/
import AgentMesh.Reconcile
import AgentMesh.RunSafety

namespace AgentMesh

open Machine

/-! ### The invariant -/

structure FlowInv (limit : ℕ∞) (s : State) : Prop where
  flows : s.store.FlowsOk limit
  managers : ∀ c, (s.managers c).Ok limit s.store

/-- No manager reconciles with a concurrency limit above `limit`. -/
def WithinLimit (limit : ℕ∞) (_ : State) (a : Action) : Prop :=
  ∀ c config id, a = .reconcile c config id → ((max 1 config.concurrency : ℕ) : ℕ∞) ≤ limit

variable {s t : State} {limit : ℕ∞}

theorem flowInv_init (limit : ℕ∞) : FlowInv limit init where
  flows := ⟨by simp [init], by simp [init], by simp [init]⟩
  managers c := ⟨trivial, by simp [init, ManagerPc.reconciling]⟩

/-- The store moves on and the manager calls stay where they are. -/
theorem FlowInv.frame (h : FlowInv limit s) (hflows : s.store.FlowsTo t.store)
    (hok : t.store.FlowsOk limit) (hruns : s.store.Evolves t.store)
    (hmanagers : t.managers = s.managers) : FlowInv limit t ∧ s.store.FlowsTo t.store := by
  refine ⟨⟨hok, ?_⟩, hflows⟩
  intro c
  rw [hmanagers]
  exact ⟨(h.managers c).pc.mono hflows hruns, (h.managers c).limit⟩

theorem FlowInv.same (h : FlowInv limit s) (hruns : s.store.Evolves t.store)
    (hworkflows : t.store.workflows = s.store.workflows) (hmanagers : t.managers = s.managers) :
    FlowInv limit t ∧ s.store.FlowsTo t.store :=
  h.frame (.of_eq hworkflows) (h.flows.of_eq hworkflows hruns) hruns hmanagers

/-- A Workflow is created. -/
theorem FlowInv.create (h : FlowInv limit s) {workflow accepted : Workflow} {now : Time}
    {m : Memory} (hcreate : s.store.createWorkflow workflow now = .ok (m, accepted)) :
    FlowInv limit { s with store := m } ∧ s.store.FlowsTo m := by
  obtain ⟨hinit, habs, rfl⟩ := Memory.createWorkflow_ok hcreate
  obtain ⟨haccepted, hpending, hsteps⟩ := initializeForCreate_ok hinit
  have hruns : s.store.Evolves
      { s.store with workflows := s.store.workflows.insert accepted.id accepted } :=
    Memory.SameRuns.evolves ⟨rfl, rfl, rfl⟩
  have hactive : activeStepCount accepted = 0 := by
    rw [activeStepCount, List.countP_eq_zero]
    intro step hstep
    simp [WorkflowStep.isActive, (hsteps step hstep).status]
  have hsound : accepted.Sound limit s.store :=
    ⟨haccepted, fun step hstep => (hsteps step hstep).sound, by simp [hactive]⟩
  have hclosed : accepted.Closed := by
    refine .of_going (by simp [Workflow.isTerminal, hpending]) ?_
    intro step hstep
    simp [(hsteps step hstep).status]
  refine h.frame ?_ ?_ hruns rfl
  · -- its ID was free, so no stored Workflow changes
    refine Optimistic.Grows.write (fun id => Table.lookup_insert_eq _ _ _ _) fun hw => ?_
    rw [habs] at hw
    cases hw
  · exact {
      id := Table.of_lookup_insert (P := fun id (w : Workflow) => w.id = id) rfl h.flows.id
      sound := Table.of_lookup_insert (P := fun _ (w : Workflow) => w.Sound limit _) (hsound.evolves hruns)
        fun hw => (h.flows.sound hw).evolves hruns
      closed := Table.of_lookup_insert (P := fun _ (w : Workflow) => w.Closed) hclosed h.flows.closed }

/-- A manager call starts or dies. -/
theorem FlowInv.call (h : FlowInv limit s) {c : Nat} {manager : Manager}
    (hok : manager.Ok limit s.store) :
    FlowInv limit (s.setManager c manager) ∧ s.store.FlowsTo (s.setManager c manager).store := by
  refine ⟨⟨h.flows, ?_⟩, .of_eq rfl⟩
  intro n
  by_cases hn : n = c
  · subst hn
    simpa [State.setManager] using hok
  · simpa [State.setManager, hn] using h.managers n

theorem FlowInv.managed (h : FlowInv limit s) (hr : RunInv s) {c : Nat} {o : ManagerOracle}
    {pc : ManagerPc} {e : ManagerEffect} (hmove : (s.managers c).FlowMove o s.store pc e)
    (hr' : RunInv (s.managed c pc e)) (hruns : s.store.Evolves e.store) :
    FlowInv limit (s.managed c pc e) ∧ s.store.FlowsTo e.store := by
  obtain ⟨hflows, hok⟩ := hmove.flows (h.managers c).pc h.flows hruns
  refine ⟨⟨hok, ?_⟩, hflows⟩
  intro n
  by_cases hn : n = c
  · subst hn
    have hnext := hmove.ok (h.managers n) h.flows hr.ok hr'.ok hruns
    simpa [State.managed] using hnext
  · have hother := h.managers n
    have hsame : (s.managed c pc e).managers n = s.managers n := by simp [State.managed, hn]
    rw [hsame]
    exact ⟨hother.pc.mono hflows hruns, hother.limit⟩

theorem FlowInv.step {a : Action} (h : FlowInv limit s) (hr : RunInv s)
    (hP : WithinLimit limit s a) (ha : step s a = some t) :
    FlowInv limit t ∧ s.store.FlowsTo t.store := by
  obtain ⟨hr', hruns⟩ := hr.step ha
  cases systemMove_of_step ha with
  | other _ workflows _ _ managers => exact h.same hruns workflows managers
  | worker | request => exact h.same hruns rfl rfl
  | worked _ act => exact h.same hruns (Worker.execute_move act).keeps.1.workflows rfl
  | handled _ move => exact h.same hruns move.onlyRuns.workflows rfl
  | @called a c manager _ pc =>
      apply h.call
      rcases pc with hpc | ⟨id, hpc⟩ | ⟨id, hpc⟩ | ⟨config, id, rfl, rfl⟩
      · exact ⟨by rw [hpc]; trivial, by simp [hpc, ManagerPc.reconciling]⟩
      · exact ⟨by rw [hpc]; trivial, by simp [hpc, ManagerPc.reconciling]⟩
      · exact ⟨by rw [hpc]; trivial, by simp [hpc, ManagerPc.reconciling]⟩
      · exact ⟨trivial, fun _ => hP c config id rfl⟩
  | managed _ act => exact h.managed hr (Manager.act_flowMove act) hr' hruns
  | created create => exact h.create create
  | canceled cancel =>
      obtain ⟨existing, -, -, rfl⟩ := Memory.cancelRun_ok cancel
      exact h.same hruns rfl rfl
  | recovered _ recover =>
      obtain ⟨hfalse, -⟩ | ⟨-, run, -, -, rfl⟩ := Memory.recoverRun_ok recover
      · cases hfalse
      · exact h.same hruns rfl rfl

/-- Where the stored Workflows of the next state come from. -/
theorem workflow_of_step {a : Action} {id : String} (hflow : FlowInv ⊤ s)
    (ha : step s a = some t) {w : Workflow} (hw : t.store.workflows.lookup id = some w) :
    s.store.workflows.lookup id = some w ∨
      (∃ (given : Workflow) (now : Time), s.store.workflows.lookup id = none ∧
        (∀ step ∈ w.steps, ∃ agent, s.store.agents.lookup step.agentID = some agent) ∧
        given.initializeForCreate now = .ok w) ∨
      ∃ c o candidate w₀, a = .manage c o ∧ (s.managers c).pc.writes o = some candidate ∧
        s.store.workflows.lookup id = some w₀ ∧ w₀.version = candidate.version ∧
        w₀.Extends candidate ∧ candidate.id = id ∧
        w = { candidate with version := candidate.version + 1 } ∧
        s.store.SameRuns t.store := by
  have hkeep : t.store.workflows = s.store.workflows → s.store.workflows.lookup id = some w :=
    fun heq => heq ▸ hw
  cases systemMove_of_step ha with
  | other _ workflows => exact .inl (hkeep workflows)
  | worker | request | called => exact .inl hw
  | worked _ act => exact .inl (hkeep (Worker.execute_move act).keeps.1.workflows)
  | handled _ move => exact .inl (hkeep move.onlyRuns.workflows)
  | @managed c o pc e _ act =>
      cases Manager.act_flowMove act with
      | free workflows | task _ workflows => exact .inl (hkeep workflows)
      | create _ _ store => exact .inl (hkeep (Memory.createRun_onlyRuns store).workflows)
      | load _ _ _ store | refresh _ store | createFails _ store | start _ _ _ store
      | cancel _ _ _ store => exact .inl (hkeep (congrArg Memory.workflows store))
      | @write candidate updated _ _ writes update =>
          -- the only step that changes a stored Workflow
          have hsame := Memory.updateWorkflow_sameRuns update
          obtain ⟨hupdated, hm, w₀, hw₀, hversion, hnext⟩ :=
            ((hflow.managers c).pc.writes writes).update update
          have hlookup : e.store.workflows.lookup id = some w := hw
          rw [hm, Table.lookup_insert_eq] at hlookup
          split at hlookup
          · rename_i hid
            refine .inr (.inr ⟨c, o, candidate, w₀, rfl, writes, hid ▸ hw₀, hversion, hnext.2,
              hid.symm, ?_, hsame⟩)
            rw [← Option.some.inj hlookup, hupdated]
          · exact .inl hlookup
  | created create =>
      have hagents := Memory.createWorkflow_agents create
      obtain ⟨hinit, habs, rfl⟩ := Memory.createWorkflow_ok create
      rw [Table.lookup_insert_eq] at hw
      split at hw
      · rename_i hid
        obtain rfl := Option.some.inj hw
        exact .inr (.inl ⟨_, _, hid ▸ habs, hagents, hinit⟩)
      · exact .inl hw
  | canceled cancel =>
      obtain ⟨existing, -, -, rfl⟩ := Memory.cancelRun_ok cancel
      exact .inl hw
  | recovered _ recover =>
      obtain ⟨hfalse, -⟩ | ⟨-, run, -, -, rfl⟩ := Memory.recoverRun_ok recover
      · cases hfalse
      · exact .inl hw

theorem withinLimit_top (s : State) (a : Action) : WithinLimit ⊤ s a := fun _ _ _ _ => le_top

theorem flowInv_runs {P : State → Action → Prop} (hP : ∀ s a, P s a → WithinLimit limit s a)
    (h : Runs step P init s) : FlowInv limit s := by
  have key : RunInv s ∧ FlowInv limit s :=
    h.invariant (I := fun s => RunInv s ∧ FlowInv limit s) ⟨runInv_init, flowInv_init limit⟩
      fun hu hPu ha => ⟨(hu.1.step ha).1, (hu.2.step hu.1 (hP _ _ hPu) ha).1⟩
  exact key.2

theorem flowInv_free {P : State → Action → Prop} (h : Runs step P init s) : FlowInv ⊤ s :=
  flowInv_runs (fun s a _ => withinLimit_top s a) h

/-- The rule for everything that rests on the Runs and the Workflows being in order. -/
theorem flow_invariant {P : State → Action → Prop} {I : State → Prop} (hinit : I init)
    (hstep : ∀ {u v a}, RunInv u → FlowInv ⊤ u → I u → P u a → step u a = some v → I v)
    (h : Runs step P init s) : I s := by
  have key : (RunInv s ∧ FlowInv ⊤ s) ∧ I s := by
    apply h.invariant (I := fun s => (RunInv s ∧ FlowInv ⊤ s) ∧ I s)
    · exact ⟨⟨runInv_init, flowInv_init ⊤⟩, hinit⟩
    · intro u v a hu hPu ha
      obtain ⟨⟨hr, hf⟩, hI⟩ := hu
      have hf' := (hf.step hr (withinLimit_top u a) ha).1
      exact ⟨⟨(hr.step ha).1, hf'⟩, hstep hr hf hI hPu ha⟩
  exact key.2

theorem flowsTo_runs {P : State → Action → Prop} (hr : RunInv s) (hf : FlowInv ⊤ s)
    (h : Runs step P s t) : s.store.FlowsTo t.store :=
  h.related (I := fun s => RunInv s ∧ FlowInv ⊤ s) (R := fun s t => s.store.FlowsTo t.store)
    ⟨hr, hf⟩
    (fun hu _ ha => ⟨(hu.1.step ha).1, (hu.2.step hu.1 (withinLimit_top _ _) ha).1⟩)
    (fun _ => .of_eq rfl) (fun h₁ h₂ => Optimistic.Grows.trans Workflow.Next.trans h₁ h₂)
    fun hu _ ha => (hu.2.step hu.1 (withinLimit_top _ _) ha).2

/-- The rule for what rides on the control point of a call: it is to hold where the call
stays, at every control point without a copy, and after each action of the call. -/
theorem managerPc_of_step {Q : ManagerPc → Prop} {a : Action} {c : Nat} (ha : step s a = some t)
    (hstays : Q (s.managers c).pc) (hfree : ∀ {pc : ManagerPc}, pc.copy = none → Q pc)
    (hmove : ∀ {o pc} {e : ManagerEffect}, (s.managers c).FlowMove o s.store pc e →
      t.store = e.store → Q pc) : Q (t.managers c).pc := by
  cases systemMove_of_step ha with
  | other _ _ _ _ managers =>
      rw [managers]
      exact hstays
  | worker | worked | request | handled | created | canceled | recovered => exact hstays
  | @called _ c' manager _ pc =>
      by_cases hc : c = c'
      · subst hc
        have hmanager : (s.setManager c manager).managers c = manager := by
          simp [State.setManager]
        rw [hmanager]
        rcases pc with hpc | ⟨id, hpc⟩ | ⟨id, hpc⟩ | ⟨config, id, -, rfl⟩
        · exact hfree (by rw [hpc]; rfl)
        · exact hfree (by rw [hpc]; rfl)
        · exact hfree (by rw [hpc]; rfl)
        · exact hfree rfl
      · simpa [State.setManager, hc] using hstays
  | @managed c' o pc e _ act =>
      by_cases hc : c = c'
      · subst hc
        simpa [State.managed] using hmove (Manager.act_flowMove act) rfl
      · simpa [State.managed, hc] using hstays

/-! ### Scheduling -/

/-- **Scheduling is safe.**  In every state that managers with limits up to `n` can
reach, a step with a Run has complete dependencies and a condition that holds, a
skipped step has no Run and a condition that fails, and at most `n` steps of a
Workflow are queued or running. -/
theorem scheduling_safe {n : ℕ} {id : String} {w : Workflow}
    (hs : Runs step (WithinLimit n) init s) (hw : s.store.workflows.lookup id = some w) :
    (∀ step ∈ w.steps,
      (step.runID ≠ "" → w.DepsComplete step ∧
        ∀ c, step.condition = some c → w.ConditionIs c true) ∧
      (step.status = .skipped → step.runID = "" ∧
        ∃ c, step.condition = some c ∧ w.ConditionIs c false)) ∧
      activeStepCount w ≤ n := by
  have hsound : w.Sound n s.store := (flowInv_runs (fun _ _ h => h) hs).flows.sound hw
  refine ⟨fun step hstep => ⟨?_, ?_⟩, Nat.cast_le.mp hsound.active⟩
  · intro hr
    have hstep' := hsound.steps step hstep
    exact ⟨hstep'.ready (.inl hr), hstep'.condition hr⟩
  · intro hskipped
    have hstep' := hsound.steps step hstep
    exact ⟨hstep'.unassigned (.inr hskipped), hstep'.skipped hskipped⟩

/-- A Workflow whose second step runs and whose third step is skipped when the first
one returns `done`. -/
def demoWorkflow : Workflow :=
  { id := "wf", input := "start"
    steps := [{ id := "a", agentID := "agent_1", input := "go" },
      { id := "b", agentID := "agent_1", inputFrom := ["a"], dependsOn := ["a"]
        condition := some ⟨"a", "equals", "done"⟩ },
      { id := "c", agentID := "agent_1", input := "go", dependsOn := ["a"]
        condition := some ⟨"a", "equals", "other"⟩ }] }

/-- The Workflow is created and started, and manager 1 begins to reconcile it. -/
def startDemo : List Action :=
  [.registry (AList.insert "agent_1" { id := "agent_1" } ∅), .createWorkflow demoWorkflow 0,
    .startWorkflow 0 ⟨1, 3⟩ "wf"] ++ List.replicate 4 (.manage 0 {}) ++ [.reconcile 1 ⟨1, 3⟩ "wf"]

/-- Manager `c` takes `n` actions, with `newID` for the Run that it may create. -/
def manageOn (c n : Nat) (newID : String) : List Action :=
  List.replicate n (.manage c { newID := newID })

def withinLimit (n : Nat) (_ : State) : Action → Bool
  | .reconcile _ config _ => max 1 config.concurrency ≤ n
  | _ => true

theorem withinLimit_of_test (n : Nat) (s : State) (a : Action) (h : withinLimit n s a = true) :
    WithinLimit n s a := by
  rintro c config id rfl
  exact Nat.cast_le.mpr (of_decide_eq_true h)

/-- The first step has succeeded, the second one is queued and the third one skipped. -/
theorem scheduling_safe_skipped :
    ∃ s w, Runs step (WithinLimit (1 : ℕ)) init s ∧ s.store.workflows.lookup "wf" = some w ∧
      w.steps.map (fun step => (step.status, step.runID))
        = [(.succeeded, "run_1"), (.queued, "run_2"), (.skipped, "")] ∧
      (∀ step ∈ w.steps,
        (step.runID ≠ "" → w.DepsComplete step ∧
          ∀ c, step.condition = some c → w.ConditionIs c true) ∧
        (step.status = .skipped → step.runID = "" ∧
          ∃ c, step.condition = some c ∧ w.ConditionIs c false)) ∧
      activeStepCount w ≤ 1 := by
  obtain ⟨s, hs, hsteps⟩ :
      ∃ s, exec (guarded step (withinLimit 1)) init
          (startDemo ++ manageOn 1 10 "run_1" ++ workOn 0 14 { returned := ⟨.ok "done", false⟩ }
            ++ manageOn 1 26 "run_2") = some s ∧
        (s.store.workflows.lookup "wf").map
            (fun w => w.steps.map fun step => (step.status, step.runID))
          = some [(.succeeded, "run_1"), (.queued, "run_2"), (.skipped, "")] := by
    refine exists_of_any ?_
    decide +kernel
  obtain ⟨w, hw, hstatus⟩ := Option.map_eq_some_iff.mp hsteps
  have hruns := runs_exec_guarded (withinLimit_of_test 1) hs
  exact ⟨s, w, hruns, hw, hstatus, scheduling_safe hruns hw⟩

/-! ### The end of a Workflow -/

/-- **Workflows end closed and agree with their Runs.**  In every reachable state a
succeeded Workflow has only succeeded or skipped steps, a Workflow that has ended has no
step left to do and never changes again, and what a step records of its Run is how that
Run has ended. -/
theorem workflow_closed {id : String} {w : Workflow} (hs : Reachable s)
    (hw : s.store.workflows.lookup id = some w) :
    (w.status = .succeeded →
      ∀ step ∈ w.steps, step.status = .succeeded ∨ step.status = .skipped) ∧
      (w.isTerminal = true →
        (∀ step ∈ w.steps,
          step.status ≠ .pending ∧ step.status ≠ .queued ∧ step.status ≠ .running) ∧
        ∀ t, Runs step Free s t → t.store.workflows.lookup id = some w) ∧
      ∀ step ∈ w.steps,
        (step.status = .succeeded → ∃ run, s.store.runs.lookup step.runID = some run ∧
          run.status = .succeeded ∧ run.output = step.output) ∧
        (step.status = .failed → ∃ run, s.store.runs.lookup step.runID = some run ∧
          run.status = .failed ∧ run.error = step.error) := by
  have hinv := flowInv_free hs
  have hclosed := hinv.flows.closed hw
  refine ⟨?_, fun hterm => ⟨?_, ?_⟩, ?_⟩
  · intro hsucc step hstep
    simpa [WorkflowStep.isComplete] using hclosed.succeeded hsucc step hstep
  · intro step hstep
    obtain ⟨hpending, hactive⟩ := hclosed.ended hterm step hstep
    exact ⟨hpending, by simpa [WorkflowStep.isActive] using hactive⟩
  · intro t ht
    obtain ⟨w', hw', -, hsame⟩ := (flowsTo_runs (runInv_runs hs) hinv ht).next hw
    rw [hw', hsame hterm]
  · intro step hstep
    have hsound := (hinv.flows.sound hw).steps step hstep
    exact ⟨hsound.result, hsound.failure⟩

/-- The Run of the first step fails, and with it the Workflow; a cancellation comes too late. -/
theorem workflow_closed_failed :
    ∃ s t w, Reachable s ∧ s.store.workflows.lookup "wf" = some w ∧
      w.status = .failed ∧ w.steps.map WorkflowStep.status = [.failed, .canceled, .canceled] ∧
      exec step s (.cancelWorkflow 2 ⟨1, 3⟩ "wf" :: manageOn 2 1 "") = some t ∧
      t.store.workflows.lookup "wf" = some w ∧
      ∀ step ∈ w.steps, step.status = .failed → ∃ run, s.store.runs.lookup step.runID = some run ∧
        run.status = .failed ∧ run.error = step.error := by
  obtain ⟨s, hs, hended, hnext⟩ :
      ∃ s, exec step init (startDemo ++ manageOn 1 10 "run_1"
          ++ workOn 0 34 { returned := ⟨.error (errorf "refused"), false⟩ }
          ++ manageOn 1 3 "") = some s ∧
        (s.store.workflows.lookup "wf").map
            (fun w => (w.status, w.steps.map WorkflowStep.status))
          = some (.failed, [.failed, .canceled, .canceled]) ∧
        (exec step s (.cancelWorkflow 2 ⟨1, 3⟩ "wf" :: manageOn 2 1 "")).isSome := by
    refine exists_of_any ?_
    decide +kernel
  obtain ⟨w, hw, hstatus⟩ := Option.map_eq_some_iff.mp hended
  obtain ⟨hfailed, hsteps⟩ := Prod.mk.inj hstatus
  obtain ⟨t, ht⟩ := Option.isSome_iff_exists.mp hnext
  have hreach : Reachable s := runs_exec (fun _ _ => trivial) hs
  obtain ⟨-, hended, hruns⟩ := workflow_closed hreach hw
  obtain ⟨-, hsame⟩ := hended (by simp [Workflow.isTerminal, hfailed])
  exact ⟨s, t, w, hreach, hw, hfailed, hsteps, ht, hsame t (runs_exec (fun _ _ => trivial) ht),
    fun step hstep => (hruns step hstep).2⟩

/-! ### One Run for each step -/

/-- The number of Runs ever created under a key. -/
def State.created (s : State) (key : String) : Nat := s.creations.countP fun c => c.1 = key

/-- A key under which no Run was created is free, and no key is used twice. -/
def CreatedOnce (s : State) : Prop :=
  ∀ key, key ≠ "" → s.created key ≤ 1 ∧
    (s.store.idempotencyKeys.lookup key = none → s.created key = 0)

theorem createdOnce_frame (h : CreatedOnce s) (hruns : s.store.Evolves t.store)
    (hcreations : t.creations = s.creations) : CreatedOnce t := by
  intro key hkey
  have hsame : t.created key = s.created key := by rw [State.created, hcreations, State.created]
  rw [hsame]
  refine ⟨(h key hkey).1, fun hnone => (h key hkey).2 ?_⟩
  rcases hs : s.store.idempotencyKeys.lookup key with - | id
  · rfl
  · rw [hruns.keys hs] at hnone
    cases hnone

theorem createdOnce_create (h : CreatedOnce s) {run : Run} {key : String}
    (hkey : key ≠ "" → s.store.idempotencyKeys.lookup key = none)
    (hstore : t.store = s.store.storeRun run key)
    (hcreations : t.creations = s.creations ++ [(key, run.id)]) : CreatedOnce t := by
  intro key' hne
  have hcount : t.created key' = s.created key' + if key = key' then 1 else 0 := by
    rw [State.created, hcreations, List.countP_append, List.countP_singleton, State.created]
    simp
  rw [hcount, hstore, Memory.storeRun_keys]
  by_cases heq : key = key'
  · subst heq
    have hzero := (h key hne).2 (hkey hne)
    simp only [if_true, hzero]
    exact ⟨by omega, by simp [hne]⟩
  · have hold := h key' hne
    rw [if_neg heq, if_neg fun hand => heq hand.1.symm]
    exact hold

theorem CreatedOnce.step {a : Action} (h : CreatedOnce s) (hr : RunInv s)
    (ha : step s a = some t) : CreatedOnce t := by
  have hruns := (hr.step ha).2
  cases systemMove_of_step ha with
  | other _ _ _ _ _ _ _ creations => exact createdOnce_frame h hruns creations
  | worker | worked | request | called | created | canceled | recovered =>
      exact createdOnce_frame h hruns rfl
  | handled _ move =>
      cases move with
      | silent | fail => exact createdOnce_frame h hruns (by simp [State.handled])
      | create _ store =>
          obtain ⟨hfalse, -⟩ | ⟨-, hkey, hm, -⟩ := Memory.createRun_ok store
          · cases hfalse
          · exact createdOnce_create h hkey hm rfl
  | managed _ act =>
      cases Manager.act_move act with
      | silent _ _ created | cancel _ _ created =>
          exact createdOnce_frame h hruns (by simp [State.managed, created])
      | create _ _ store _ created =>
          obtain ⟨hfalse, -⟩ | ⟨-, hkey, hm, -⟩ := Memory.createRun_ok store
          · cases hfalse
          · exact createdOnce_create h hkey hm (by simp [State.managed, created])

theorem createdOnce_runs {P : State → Action → Prop} (h : Runs step P init s) : CreatedOnce s := by
  have key : RunInv s ∧ CreatedOnce s :=
    h.invariant (I := fun s => RunInv s ∧ CreatedOnce s)
      ⟨runInv_init, fun key _ => by simp [State.created, init]⟩
      fun hu _ ha => ⟨(hu.1.step ha).1, hu.2.step hu.1 ha⟩
  exact key.2

/-- **At most one Run for each step.**  Whatever the managers do and whenever they
die, at most one Run is created under the key of a step, and a Run once assigned to
a step stays the one assigned to it. -/
theorem one_run_per_step (hs : Reachable s) :
    (∀ workflowID stepID, s.created (stepKey workflowID stepID) ≤ 1) ∧
      ∀ t, Runs step Free s t → ∀ id w, s.store.workflows.lookup id = some w →
        ∀ step ∈ w.steps, step.runID ≠ "" → ∃ w' step',
          t.store.workflows.lookup id = some w' ∧ w'.findStep step.id = some step' ∧
            step'.runID = step.runID := by
  have hinv := flowInv_free hs
  refine ⟨fun workflowID stepID => (createdOnce_runs hs _ (stepKey_ne_empty _ _)).1, ?_⟩
  intro t ht id w hw step hstep hne
  obtain ⟨w', hw', hext, -⟩ := (flowsTo_runs (runInv_runs hs) hinv ht).next hw
  have hfind := Workflow.findStep_of_mem (hinv.flows.sound hw).accepted hstep
  obtain ⟨step', hstep', hprogress⟩ := hext.findStep hfind
  exact ⟨w', step', hw', hstep', hprogress.runID hne⟩

/-- Manager 1 dies after it has created the Run of the first step and before it has
recorded it; manager 2 finds the Run and records it. -/
theorem one_run_per_step_takeover :
    ∃ s t w step, Reachable s ∧ Runs AgentMesh.step Free s t ∧
      s.store.workflows.lookup "wf" = some w ∧ step ∈ w.steps ∧ step.runID = "run_1" ∧
      s.created (stepKey "wf" "a") ≤ 1 ∧
      ∃ w' step', t.store.workflows.lookup "wf" = some w' ∧ w'.findStep step.id = some step' ∧
        step'.runID = step.runID := by
  obtain ⟨s, hs, hstep, hnext⟩ :
      ∃ s, exec step init (startDemo ++ manageOn 1 6 "run_1"
          ++ [.crash 1, .reconcile 2 ⟨1, 3⟩ "wf"] ++ manageOn 2 10 "run_2") = some s ∧
        ((s.store.workflows.lookup "wf").bind fun w => w.steps.head?).map WorkflowStep.runID
          = some "run_1" ∧
        (exec step s (workOn 0 14 { returned := ⟨.ok "done", false⟩ }
          ++ manageOn 2 9 "run_2")).isSome := by
    refine exists_of_any ?_
    decide +kernel
  obtain ⟨step, hhead, hrunID⟩ := Option.map_eq_some_iff.mp hstep
  obtain ⟨w, hw, hhead⟩ := Option.bind_eq_some_iff.mp hhead
  obtain ⟨t, ht⟩ := Option.isSome_iff_exists.mp hnext
  have hmem : step ∈ w.steps := List.mem_of_mem_head? hhead
  have hreach : Reachable s := runs_exec (fun _ _ => trivial) hs
  have hruns : Runs AgentMesh.step Free s t := runs_exec (fun _ _ => trivial) ht
  obtain ⟨honce, hkeeps⟩ := one_run_per_step hreach
  exact ⟨s, t, w, step, hreach, hruns, hw, hmem, hrunID, honce "wf" "a",
    hkeeps t hruns "wf" w hw step hmem (by simp [hrunID])⟩

/-! ### What was asked for -/

/-- **Nobody rewrites a request.**  From every reachable state on, whatever managers, executions and
requests do: no Run is removed or asked to do something else, a key stays bound to its Run, and a
Workflow keeps its input, its definition and the results of its complete steps. -/
theorem requests_kept (hs : Reachable s) (ht : Runs step Free s t) :
    (∀ id run, s.store.runs.lookup id = some run →
      ∃ run', t.store.runs.lookup id = some run' ∧ run.SameRequest run') ∧
    (∀ key id, s.store.idempotencyKeys.lookup key = some id →
      t.store.idempotencyKeys.lookup key = some id) ∧
    ∀ id w, s.store.workflows.lookup id = some w →
      ∃ w', t.store.workflows.lookup id = some w' ∧ w.Extends w' := by
  have hruns := Evolves_runs (runInv_runs hs) ht
  refine ⟨fun id run hrun => ?_, fun key id => hruns.keys, fun id w hw => ?_⟩
  · obtain ⟨run', hrun', hreq, -⟩ := hruns.runs hrun
    exact ⟨run', hrun', hreq⟩
  · obtain ⟨w', hw', hext, -⟩ := (flowsTo_runs (runInv_runs hs) (flowInv_free hs) ht).next hw
    exact ⟨w', hw', hext⟩

/-- A manager goes on with a Workflow after it has started its first step. -/
theorem requests_kept_started :
    ∃ s t w w', exec step init (startDemo ++ manageOn 1 6 "run_1") = some s ∧
      exec step s (manageOn 1 3 "") = some t ∧ s.store.workflows.lookup "wf" = some w ∧
      t.store.workflows.lookup "wf" = some w' ∧ w.Extends w' := by
  obtain ⟨s, hs, hw, hnext⟩ : ∃ s, exec step init (startDemo ++ manageOn 1 6 "run_1") = some s ∧
      (s.store.workflows.lookup "wf").isSome ∧ (exec step s (manageOn 1 3 "")).isSome := by
    refine exists_of_any ?_
    decide +kernel
  obtain ⟨w, hw⟩ := Option.isSome_iff_exists.mp hw
  obtain ⟨t, ht⟩ := Option.isSome_iff_exists.mp hnext
  obtain ⟨-, -, hkept⟩ :=
    requests_kept (runs_exec (fun _ _ => trivial) hs) (runs_exec (fun _ _ => trivial) ht)
  obtain ⟨w', hw', hext⟩ := hkept "wf" w hw
  exact ⟨s, t, w, w', hs, ht, hw, hw', hext⟩

end AgentMesh
