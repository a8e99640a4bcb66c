/-
AgentMesh/FlowEvents.lean

The event that tells how a Workflow has ended.

A call that has stored the end of a Workflow emits `workflow.succeeded`,
`workflow.failed` or `workflow.canceled` as one of its tasks.  The stored
Workflow never changes after that, and no other call can store an end, so the
event is true and the only one.

`failWorkflow` is the exception: it emits `workflow.failed` also where its
update met a conflict.  If the Workflow was canceled in the meantime, it is
announced both as canceled and as failed (`late_failure_is_announced`).  In a
run without such a late failure there is one terminal event at most, and it
matches the stored status (`terminal_event_true`).
-/
import AgentMesh.Announce
import AgentMesh.Siblings

namespace AgentMesh

open Machine

/-! ### Terminal events -/

/-- The event that belongs to the end of a Workflow. -/
def terminalEvent : WorkflowStatus → Option String
  | .succeeded => some "workflow.succeeded"
  | .failed => some "workflow.failed"
  | .canceled => some "workflow.canceled"
  | _ => none

def isTerminalEvent (type : String) : Bool :=
  type = "workflow.succeeded" || type = "workflow.failed" || type = "workflow.canceled"

/-- The type of a task that emits a terminal event of the Workflow `id`. -/
def Task.ending (id : String) : Task → Option String
  | .emit workflowID _ _ type _ => if workflowID = id ∧ isTerminalEvent type then some type else none
  | .cancelRun _ => none

/-- The type of a terminal event of the Workflow `id`. -/
def WorkflowEvent.ending (id : String) (event : WorkflowEvent) : Option String :=
  if event.workflowID = id ∧ isTerminalEvent event.type then some event.type else none

/-- The terminal events of the Workflow `id` that were emitted, in order. -/
def State.endings (s : State) (id : String) : List String :=
  s.emitted.filterMap fun event => event.ending id

/-- The terminal events of the Workflow `id` that the call `c` will emit. -/
def State.owedEndings (s : State) (id : String) (c : Nat) : List String :=
  (s.todo c).filterMap fun task => task.ending id

/-- The stored Workflow has ended in the way that the event says. -/
def State.EndedAs (s : State) (id type : String) : Prop :=
  ∃ w, s.store.workflows.lookup id = some w ∧ terminalEvent w.status = some type

/-- `failWorkflow` announces a failure of the Workflow `id` that it could not store. -/
def lateFailure (id : String) (s : State) : Action → Bool
  | .manage c o =>
      (s.managers c).pc.copy.any (fun w => w.id = id) && (s.managers c).pc.failsLate o s.store
  | _ => false

section Plans

variable {id : String} {m : Memory} {w updated candidate : Workflow} {o : ManagerOracle}
  {pc : ManagerPc}

theorem terminalEvent_isSome : (terminalEvent w.status).isSome = w.isTerminal := by
  cases hs : w.status <;> simp [terminalEvent, Workflow.isTerminal, hs]

theorem workflowTerminalEvent_eq (h : w.isTerminal = true) :
    terminalEvent w.status = some (workflowTerminalEvent w.status) := by
  cases hs : w.status <;> simp_all [terminalEvent, Workflow.isTerminal, workflowTerminalEvent]

theorem isTerminalEvent_workflowTerminalEvent (status : WorkflowStatus) :
    isTerminalEvent (workflowTerminalEvent status) = true := by
  cases status <;> rfl

theorem isTerminalEvent_step (status : WorkflowStepStatus) :
    isTerminalEvent ("workflow.step_" ++ status.text) = false := by
  cases status <;> decide

/-- The events of steps are not terminal ones. -/
theorem endings_emitStepTransitions (w : Workflow) (previous : Table WorkflowStepStatus) :
    (emitStepTransitions w previous).filterMap (Task.ending id) = [] := by
  rw [emitStepTransitions, List.filterMap_map, List.filterMap_eq_nil_iff]
  intro step _
  simp [Task.ending, isTerminalEvent_step]

theorem endings_cancelCanceledStepRuns (w : Workflow) :
    (cancelCanceledStepRuns w).filterMap (Task.ending id) = [] := by
  rw [cancelCanceledStepRuns, List.filterMap_map, List.filterMap_eq_nil_iff]
  intro step _
  rfl

theorem endings_cancelRuns (active : List String) :
    (active.map Task.cancelRun).filterMap (Task.ending id) = [] := by
  rw [List.filterMap_map, List.filterMap_eq_nil_iff]
  intro runID _
  rfl

theorem terminalEvent_eq_none (h : w.isTerminal = false) : terminalEvent w.status = none := by
  rw [← Option.not_isSome_iff_eq_none, terminalEvent_isSome, h]
  simp

/-- The plan of an update holds the terminal event of the Workflow that it stores. -/
theorem ManagerPc.Planned.endings (h : pc.Planned m) (hwrites : pc.writes o = some candidate)
    (hid : updated.id = candidate.id) :
    (pc.plan updated).filterMap (Task.ending id)
      = if candidate.id = id then (terminalEvent candidate.status).toList else [] := by
  cases pc <;> simp only [ManagerPc.writes, Option.some.injEq, reduceCtorEq] at hwrites
  case storeTerminal c previous =>
    subst hwrites
    rw [ManagerPc.Planned] at h
    simp only [ManagerPc.plan, List.filterMap_append, endings_cancelCanceledStepRuns,
      endings_emitStepTransitions, workflowTerminalEvent_eq h]
    by_cases hc : c.id = id <;>
      simp [Task.ending, hc, isTerminalEvent_workflowTerminalEvent]
  case storeChanged c previous =>
    subst hwrites
    simp [ManagerPc.plan, endings_emitStepTransitions, terminalEvent_eq_none h]
  case assign c next created =>
    subst hwrites
    have hqueued : isTerminalEvent "workflow.step_queued" = false := by decide
    simp only [ManagerPc.plan, terminalEvent_eq_none h]
    split <;> simp [Task.ending, hqueued]
  case startStore c =>
    subst hwrites
    have hstarted : isTerminalEvent "workflow.started" = false := by decide
    simp [ManagerPc.plan, Task.ending, hstarted, terminalEvent_eq_none h]
  case fail c cause =>
    subst hwrites
    have hfailed : isTerminalEvent "workflow.failed" = true := by decide
    have hsame : (c.failWith cause o.now).id = c.id := rfl
    have hstatus : terminalEvent (c.failWith cause o.now).status = some "workflow.failed" := rfl
    rw [hsame, hstatus]
    by_cases hc : c.id = id <;> simp [ManagerPc.plan, Task.ending, hc, hfailed]
  case cancelStore c active =>
    subst hwrites
    have hcanceled : isTerminalEvent "workflow.canceled" = true := by decide
    simp only [ManagerPc.plan, List.filterMap_append, endings_cancelRuns, h.1, terminalEvent]
    by_cases hc : c.id = id <;> simp [Task.ending, hid, hc, hcanceled]

end Plans

/-! ### The invariant -/

variable {s t : State} {a : Action} {id type : String} {c : Nat}

/-- The end of the Workflow `id` is announced once, by the call that has stored it. -/
def EndingInv (id : String) (s : State) : Prop :=
  Announce.Once (s.EndedAs id) (s.endings id) (s.owedEndings id)

theorem endingInv_init (id : String) : EndingInv id init := by
  constructor <;> simp [init, State.endings, State.owedEndings, State.todo, ManagerPc.todo]

/-- A Workflow that has ended stays as it is. -/
theorem State.EndedAs.flowsTo (h : s.EndedAs id type) (hflows : s.store.FlowsTo t.store) :
    t.EndedAs id type := by
  obtain ⟨w, hw, htype⟩ := h
  obtain ⟨w', hw', -, hsame⟩ := hflows.next hw
  have hterm : w.isTerminal = true := by rw [← terminalEvent_isSome, htype]; rfl
  exact ⟨w, hsame hterm ▸ hw', htype⟩

theorem State.endings_eq (h : t.emitted = s.emitted) : t.endings id = s.endings id := by
  rw [State.endings, h, State.endings]

theorem State.endings_append {event : WorkflowEvent} (h : t.emitted = s.emitted ++ [event]) :
    t.endings id = s.endings id ++ (event.ending id).toList := by
  rw [State.endings, h, Announce.filterMap_append_singleton, State.endings]

section Owed

variable {todo : List Task}

theorem State.owedEndings_self (h : t.todo = Function.update s.todo c todo) :
    t.owedEndings id c = todo.filterMap (Task.ending id) := by
  simp [State.owedEndings, h]

theorem State.owedEndings_of_ne (h : t.todo = Function.update s.todo c todo) (n : Nat)
    (hn : n ≠ c) : t.owedEndings id n = s.owedEndings id n := by
  simp [State.owedEndings, h, hn]

/-- A call that has no terminal event in its new tasks owes no more than before. -/
theorem State.owedEndings_subperm (h : t.todo = Function.update s.todo c todo)
    (htodo : (todo.filterMap (Task.ending id)).Subperm (s.owedEndings id c)) (n : Nat) :
    (t.owedEndings id n).Subperm (s.owedEndings id n) := by
  by_cases hn : n = c
  · rw [hn, State.owedEndings_self h]
    exact htodo
  · rw [State.owedEndings_of_ne h n hn]

/-- A call emits the first of its events. -/
theorem State.owedEndings_emit {event : WorkflowEvent} {rest : List Task}
    (h : s.todo c = .emit event.workflowID event.stepID event.runID event.type
      event.message :: rest) :
    s.owedEndings id c = (event.ending id).toList ++ rest.filterMap (Task.ending id) := by
  rw [State.owedEndings, h, Announce.filterMap_cons]
  rfl

end Owed

theorem EndingInv.step (h : EndingInv id s) (hr : RunInv s) (hflow : FlowInv ⊤ s)
    (hplanned : PlannedInv s) (hP : lateFailure id s a = false)
    (ha : AgentMesh.step s a = some t) : EndingInv id t := by
  have hflows := (hflow.step hr (withinLimit_top s a) ha).2
  have htruth : ∀ type, s.EndedAs id type → t.EndedAs id type := fun _ h => h.flowsTo hflows
  unfold EndingInv at h ⊢
  cases taskStep_of_step ha with
  | quiet todo _ _ emitted =>
      rw [State.endings_eq emitted]
      refine h.frame htruth fun n => ?_
      rw [State.owedEndings, todo, State.owedEndings]
  | crash todo _ _ emitted =>
      rw [State.endings_eq emitted]
      exact h.frame htruth (State.owedEndings_subperm todo List.nil_subperm)
  | ask before todo _ _ emitted =>
      rw [State.endings_eq emitted]
      refine h.frame htruth (State.owedEndings_subperm todo ?_)
      rw [State.owedEndings, before]
      exact List.Subperm.refl _
  | emit before todo _ _ _ _ emitted =>
      rw [State.endings_append emitted]
      exact h.tell htruth (.of_eq (State.owedEndings_emit before)) (State.owedEndings_self todo)
        (State.owedEndings_of_ne todo)
  | @late c o _ candidate cause hpc late todo _ _ emitted =>
      -- by assumption the failure is one of another Workflow
      have hid : candidate.id ≠ id := by
        intro hid
        rw [lateFailure, late, hpc, Bool.and_true] at hP
        simp [ManagerPc.copy, hid] at hP
      rw [State.endings_eq emitted]
      exact h.frame htruth (State.owedEndings_subperm todo (by simp [Task.ending, hid]))
  | @write c o _ candidate updated next writes update _ _ todo _ emitted =>
      obtain ⟨hupdated, hm, w, hw, -, hnext⟩ := ((hflow.managers c).pc.writes writes).update update
      have hsame : updated.id = candidate.id := by rw [hupdated]
      have hplan : ((s.managers c).pc.plan updated).filterMap (Task.ending id) = _ :=
        (hplanned c).endings writes hsame
      rw [State.endings_eq emitted]
      by_cases hid : candidate.id = id
      · -- the Workflow went on until now, so there was nothing to announce
        subst hid
        have hfalse : ∀ type, ¬ s.EndedAs candidate.id type := by
          rintro type ⟨w₀, hw₀, htype⟩
          obtain rfl := Option.some.inj (hw.symm.trans hw₀)
          rw [terminalEvent_eq_none hnext.1] at htype
          cases htype
        have hw' : t.store.workflows.lookup candidate.id = some updated := by
          rw [hm, AList.lookup_insert]
        have hself : t.owedEndings candidate.id c
            = s.owedEndings candidate.id c ++ (terminalEvent candidate.status).toList := by
          rw [State.owedEndings_self todo, hplan, if_pos rfl, (h.silent hfalse).2,
            List.nil_append]
        refine h.start hfalse ?_ hself (State.owedEndings_of_ne todo)
        intro type htype
        exact ⟨updated, hw', by rw [hupdated]; exact htype⟩
      · refine h.frame htruth (State.owedEndings_subperm todo ?_)
        rw [hplan, if_neg hid]
        exact List.nil_subperm

theorem endingInv_runs (hs : Runs step (fun s a => lateFailure id s a = false) init s) :
    EndingInv id s := by
  have key : PlannedInv s ∧ EndingInv id s := by
    refine flow_invariant (I := fun s => PlannedInv s ∧ EndingInv id s)
      ⟨fun _ => trivial, endingInv_init id⟩ ?_ hs
    intro u v a hr hflow hI hP ha
    exact ⟨hI.1.step hr hflow ha, hI.2.step hr hflow hI.1 hP ha⟩
  exact key.2

/-- The end of a Workflow is announced, or some call owes its announcement. -/
def EndingCovered (id : String) (s : State) : Prop :=
  ∀ type, s.EndedAs id type → Announce.Covered (s.endings id) (s.owedEndings id)

/-- What is announced or owed stays so as long as no process dies. -/
theorem TaskStep.covered (h : TaskStep s a t)
    (hs : Announce.Covered (s.endings id) (s.owedEndings id)) (hlive : ∀ c, a ≠ .crash c) :
    Announce.Covered (t.endings id) (t.owedEndings id) := by
  cases h with
  | quiet todo _ _ emitted =>
      have howed : t.owedEndings id = s.owedEndings id := by
        funext n
        rw [State.owedEndings, todo, State.owedEndings]
      rw [State.endings_eq emitted, howed]
      exact hs
  | crash => exact absurd rfl (hlive _)
  | @ask c o _ runID rest before todo _ _ emitted =>
      have howed : s.owedEndings id c
          = (none : Option String).toList ++ rest.filterMap (Task.ending id) := by
        rw [State.owedEndings, before]
        rfl
      have hcovered :=
        hs.tell (.of_eq howed) (State.owedEndings_self todo) (State.owedEndings_of_ne todo)
      rw [Option.toList_none, List.append_nil] at hcovered
      rw [State.endings_eq emitted]
      exact hcovered
  | emit before todo _ _ _ _ emitted =>
      rw [State.endings_append emitted]
      exact hs.tell (.of_eq (State.owedEndings_emit before)) (State.owedEndings_self todo)
        (State.owedEndings_of_ne todo)
  | @late c o _ candidate cause hpc _ todo _ _ emitted =>
      have hnone : s.owedEndings id c = [] := by rw [State.owedEndings, State.todo, hpc]; rfl
      rw [State.endings_eq emitted]
      exact hs.frame hnone (State.owedEndings_of_ne todo)
  | @write c o _ candidate updated next writes _ _ _ todo _ emitted =>
      have hnone : s.owedEndings id c = [] := by
        rw [State.owedEndings, State.todo, ManagerPc.todo_of_writes writes]
        rfl
      rw [State.endings_eq emitted]
      exact hs.frame hnone (State.owedEndings_of_ne todo)

/-- Only the death of a process leaves the end of a Workflow unannounced. -/
theorem EndingCovered.step (h : EndingCovered id s) (hflow : FlowInv ⊤ s)
    (hplanned : PlannedInv s) (hlive : ∀ c, a ≠ .crash c) (ha : AgentMesh.step s a = some t) :
    EndingCovered id t := by
  rintro type ⟨w', hw', htype⟩
  have htask := taskStep_of_step ha
  by_cases hsame : s.store.workflows.lookup id = some w'
  · exact htask.covered (h type ⟨w', hsame, htype⟩) hlive
  rcases hw : s.store.workflows.lookup id with - | w
  · -- a new Workflow has not ended
    obtain hw₀ | ⟨given, now, -, -, hinit⟩ | ⟨-, -, -, w₀, -, -, hw₀, -⟩ :=
      workflow_of_step hflow ha hw'
    · exact absurd hw₀ hsame
    · rw [(initializeForCreate_ok hinit).2.1] at htype
      cases htype
    · rw [hw] at hw₀
      cases hw₀
  · -- the call that has stored the end has its announcement among its tasks
    have hne : w' ≠ w := fun heq => hsame (heq ▸ hw)
    obtain ⟨c, o, candidate, updated, next, rfl, writes, update, hpc, after⟩ :=
      htask.write_of_change hw hw' hne
    obtain ⟨hupdated, hm, -⟩ := ((hflow.managers c).pc.writes writes).update update
    rw [hm, Table.lookup_insert_eq] at hw'
    split at hw'
    · rename_i hid
      obtain rfl := Option.some.inj hw'
      have hplan : ((s.managers c).pc.plan updated).filterMap (Task.ending id) = _ :=
        (hplanned c).endings writes (by rw [hupdated])
      have htodo : t.todo c = (s.managers c).pc.plan updated := by
        rw [State.todo, hpc, ManagerPc.todo, after, List.append_nil]
      refine .inr ⟨c, ?_⟩
      rw [hupdated] at htype
      rw [State.owedEndings, htodo, hplan, if_pos hid.symm]
      simp [htype]
    · exact absurd hw' hsame

theorem endingCovered_runs (hs : Runs step (fun _ a => ∀ c, a ≠ .crash c) init s) :
    EndingCovered id s := by
  have key : PlannedInv s ∧ EndingCovered id s := by
    refine flow_invariant (I := fun s => PlannedInv s ∧ EndingCovered id s)
      ⟨fun _ => trivial, ?_⟩ ?_ hs
    · rintro type ⟨w, hw, -⟩
      simp [init] at hw
    · intro u v a hr hflow hI hlive ha
      exact ⟨hI.1.step hr hflow ha, hI.2.step hflow hI.1 hlive ha⟩
  exact key.2

/-- **Terminal events tell the truth.**  In a run in which no failure of the Workflow is
announced that could not be stored, at most one terminal event of the Workflow is emitted,
and the stored Workflow has ended in the way that it says. -/
theorem terminal_event_true (hs : Runs step (fun s a => lateFailure id s a = false) init s) :
    (s.endings id).length ≤ 1 ∧ ∀ type ∈ s.endings id, ∃ w,
      s.store.workflows.lookup id = some w ∧ terminalEvent w.status = some type := by
  have hinv := endingInv_runs hs
  refine ⟨?_, hinv.told_true⟩
  have honce := hinv.once 0
  omega

/-- Manager 1 has queued a Run for the first of two steps; a client cancels the Workflow,
and manager 1 finds that out. -/
def cancelPair : List Action :=
  List.flatten
    [startPair, [.cancelWorkflow 2 ⟨2, 3⟩ "wf"],
      List.replicate 5 (.manage 2 { newID := "event_9" })]

theorem terminal_event_true_canceled :
    ∃ s, Runs step (fun s a => lateFailure "wf" s a = false) init s ∧
      s.endings "wf" = ["workflow.canceled"] ∧
      ∃ w, s.store.workflows.lookup "wf" = some w ∧
        terminalEvent w.status = some "workflow.canceled" := by
  obtain ⟨s, hs, hendings⟩ :
      ∃ s, exec (guarded step fun s a => !lateFailure "wf" s a) init cancelPair = some s ∧
        s.endings "wf" = ["workflow.canceled"] := by
    refine exists_of_any ?_
    decide +kernel
  have hruns : Runs step (fun s a => lateFailure "wf" s a = false) init s :=
    runs_exec_guarded (fun _ _ h => by simpa using h) hs
  exact ⟨s, hruns, hendings, (terminal_event_true hruns).2 _ (by simp [hendings])⟩

/-- The store refuses the Run of the second step and a client cancels the Workflow before
the failure is stored: it is announced as canceled and then as failed. -/
theorem late_failure_is_announced :
    ∃ s, exec step init (startPair ++ refuseSecond ++ [.cancelWorkflow 2 ⟨2, 3⟩ "wf"]
        ++ List.replicate 5 (.manage 2 { newID := "event_9" })
        ++ List.replicate 2 (.manage 1 { newID := "event_10" })) = some s ∧
      s.endings "wf" = ["workflow.canceled", "workflow.failed"] ∧
      (s.statuses "wf").map Prod.fst = some .canceled := by
  refine exists_of_any ?_
  decide +kernel

end AgentMesh
