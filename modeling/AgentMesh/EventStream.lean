/-
AgentMesh/EventStream.lean

`GET /api/v1/workflows/{id}/events`: the handler `workflowEvents` of
`internal/httpapi/server.go`, which streams the events of a Workflow to a
client.

The handler polls.  It lists the stored events, sends those whose ID it has not
seen, then loads the Workflow, and returns once that has ended.  List and load
are two store calls, and so are the two writes of a manager that ends a
Workflow: the status, then the event.  `feedStep` runs any number of handlers
beside the whole system.

If a manager stores the end between the list and the load of a handler, or a
handler lists between the two writes of a manager, the handler returns without
the last event (`stream_misses_ending`).  In a run without these two
interleavings a handler that has returned because the Workflow has ended has
sent all its events (`stream_delivers_ending`).
-/
import Mathlib.Data.List.TakeWhile
import AgentMesh.FlowEvents
import AgentMesh.Keyed

namespace AgentMesh

open Machine

/-! ### The handler -/

/-- Why a handler has returned. -/
inductive StreamEnd
  | notFound
  | storeError
  | terminal
  | disconnected
  deriving DecidableEq, Repr

inductive StreamPc
  | idle
  /-- The first `GetWorkflow`. -/
  | load
  /-- `ListWorkflowEvents`. -/
  | list
  /-- `GetWorkflow` after the events are sent. -/
  | check
  /-- The `select` between the ticker and the context of the request. -/
  | wait
  | done (reason : StreamEnd)
  deriving DecidableEq, Repr

/-- One call of `workflowEvents`. -/
structure EventStream where
  workflowID : String := ""
  pc : StreamPc := .idle
  seen : List String := []
  /-- What the client has been sent. -/
  sent : List WorkflowEvent := []

/-- The body of the loop over the listed events. -/
def EventStream.send (x : EventStream) (event : WorkflowEvent) : EventStream :=
  if event.id ∈ x.seen then x
  else { x with seen := x.seen ++ [event.id], sent := x.sent ++ [event] }

/-- The next action of a handler. -/
def EventStream.poll (x : EventStream) (m : Memory) : Option EventStream :=
  match x.pc with
  | .idle => none
  | .load =>
      match m.getWorkflow x.workflowID with
      | .error _ => some { x with pc := .done .notFound }
      | .ok _ => some { x with pc := .list }
  | .list =>
      match m.listWorkflowEvents x.workflowID 1000 with
      | .error _ => some { x with pc := .done .storeError }
      | .ok events => some { events.foldl EventStream.send x with pc := .check }
  | .check =>
      match m.getWorkflow x.workflowID with
      | .error _ => some { x with pc := .done .storeError }
      | .ok workflow =>
          if workflow.isTerminal then some { x with pc := .done .terminal }
          else some { x with pc := .wait }
  | .wait => some { x with pc := .list }
  | .done _ => none

/-! ### The system with its handlers -/

structure Feed where
  mesh : State := init
  streams : Nat → EventStream := fun _ => {}

inductive FeedAction
  /-- A step of the system below. -/
  | mesh (a : Action)
  /-- A client connects. -/
  | connect (n : Nat) (workflowID : String)
  /-- A handler takes its next action. -/
  | poll (n : Nat)
  /-- The context of the request is done. -/
  | disconnect (n : Nat)

/-- A call that is about to emit an event generates an unused ID for it. -/
def State.freshEvent (s : State) : Action → Bool
  | .manage c o =>
      match s.todo c with
      | .emit _ _ _ _ _ :: _ => o.newID ∉ s.emitted.map WorkflowEvent.id
      | _ => true
  | _ => true

def Feed.setStream (s : Feed) (n : Nat) (x : EventStream) : Feed :=
  { s with streams := Function.update s.streams n x }

def feedStep (s : Feed) : FeedAction → Option Feed
  | .mesh a =>
      if s.mesh.freshEvent a then (step s.mesh a).map fun t => { s with mesh := t } else none
  | .connect n workflowID =>
      match (s.streams n).pc with
      | .idle | .done _ => some (s.setStream n { workflowID := workflowID, pc := .load })
      | _ => none
  | .poll n => ((s.streams n).poll s.mesh.store).map (s.setStream n)
  | .disconnect n =>
      if (s.streams n).pc = .wait then
        some (s.setStream n { s.streams n with pc := .done .disconnected })
      else none

/-! ### The interleavings that matter -/

/-- The events of the Workflow that the store keeps. -/
def State.history (s : State) (id : String) : List WorkflowEvent :=
  Table.getD s.store.workflowEvents id []

/-- The stored Workflow has ended. -/
def State.ended (s : State) (id : String) : Bool :=
  (s.store.workflows.lookup id).any Workflow.isTerminal

/-- A task that emits an event of the Workflow `id`. -/
def Task.isEventOf (id : String) : Task → Bool
  | .emit workflowID _ _ _ _ => workflowID = id
  | .cancelRun _ => false

/-- Some call has stored an update of the Workflow and not yet emitted all its events. -/
def State.OwesEvents (s : State) (id : String) : Prop :=
  ∃ c, ∃ task ∈ s.todo c, task.isEventOf id = true

/-- The step stores the end of the Workflow. -/
def endsWorkflow (id : String) (s : State) (a : Action) : Bool :=
  !s.ended id && (step s a).any fun t => t.ended id

/-- The history of the Workflow is below its bound, in number and in age. -/
def belowBound (id : String) (s : State) : Action → Bool
  | .manage _ o =>
      (s.history id).length < eventHistoryLimit
        && (s.history id).all fun event => o.now - eventRetention ≤ event.timestamp
  | _ => true

/-- What the system below is allowed: no process dies, and no failure of the Workflow is
announced that could not be stored. -/
def Orderly (id : String) (s : State) (a : Action) : Prop :=
  (∀ c, a ≠ .crash c) ∧ lateFailure id s a = false

/-- No handler lists the events while a call still has to emit some of an ended Workflow,
and no call stores the end of the Workflow between the list and the check of a handler. -/
def Feed.Apart (id : String) (s : Feed) : FeedAction → Prop
  | .mesh a => Orderly id s.mesh a ∧ belowBound id s.mesh a = true ∧
      ∀ n, (s.streams n).workflowID = id → (s.streams n).pc = .check →
        endsWorkflow id s.mesh a = false
  | .poll n => (s.streams n).workflowID = id → (s.streams n).pc = .list →
      s.mesh.ended id = true → ¬ s.mesh.OwesEvents id
  | _ => True

/-! ### What a list sends -/

section Send

variable {x : EventStream} {events : List WorkflowEvent}

/-- The IDs that a handler has seen are those of the events that it has sent. -/
def EventStream.Noted (x : EventStream) : Prop := x.seen = x.sent.map WorkflowEvent.id

theorem EventStream.send_eq (h : x.Noted) (event : WorkflowEvent) :
    x.send event = { x with
      seen := (Keyed.addNew WorkflowEvent.id x.sent event).map WorkflowEvent.id
      sent := Keyed.addNew WorkflowEvent.id x.sent event } := by
  rw [EventStream.send, Keyed.addNew, ← h]
  split
  · rw [← h]
  · rw [List.map_append, ← h]
    rfl

/-- What a pass over listed events sends: those with an ID that was not sent before. -/
theorem EventStream.foldl_send (h : x.Noted) (events : List WorkflowEvent) :
    events.foldl EventStream.send x = { x with
      seen := (Keyed.addAll WorkflowEvent.id x.sent events).map WorkflowEvent.id
      sent := Keyed.addAll WorkflowEvent.id x.sent events } := by
  induction events generalizing x with
  | nil =>
      rw [List.foldl_nil, Keyed.addAll_nil, ← h]
  | cons event rest ih =>
      rw [List.foldl_cons, EventStream.send_eq h, Keyed.addAll_cons]
      exact ih rfl

theorem EventStream.foldl_send_workflowID (events : List WorkflowEvent) :
    (events.foldl EventStream.send x).workflowID = x.workflowID := by
  induction events generalizing x with
  | nil => rfl
  | cons event rest ih =>
      rw [List.foldl_cons, ih, EventStream.send]
      split <;> rfl

theorem EventStream.poll_workflowID {y : EventStream} {m : Memory} (h : x.poll m = some y) :
    y.workflowID = x.workflowID := by
  cases hpc : x.pc <;> simp only [EventStream.poll, hpc, reduceCtorEq] at h
  case list =>
    split at h
    · obtain rfl := Option.some.inj h
      rfl
    · obtain rfl := Option.some.inj h
      exact EventStream.foldl_send_workflowID _
  case load | check | wait =>
    repeat' split at h
    all_goals
      obtain rfl := Option.some.inj h
      rfl

end Send

/-! ### The history of a Workflow -/

variable {s t : State} {a : Action} {id : String}

/-- The store keeps every event that was emitted for the Workflow. -/
structure HistoryInv (id : String) (s : State) : Prop where
  kept : s.history id = s.emitted.filter fun event => event.workflowID = id
  short : (s.history id).length ≤ eventHistoryLimit
  fresh : (s.emitted.map WorkflowEvent.id).Nodup
  known : s.OwesEvents id → ∃ w, s.store.workflows.lookup id = some w

theorem historyInv_init (id : String) : HistoryInv id init := by
  refine ⟨rfl, Nat.zero_le _, List.nodup_nil, ?_⟩
  rintro ⟨c, task, htask, -⟩
  cases htask

/-- The tasks of an update emit events of the Workflow that is updated. -/
theorem ManagerPc.isEventOf_plan {pc : ManagerPc} {o : ManagerOracle} {candidate updated : Workflow}
    (hwrites : pc.writes o = some candidate) (hid : updated.id = candidate.id) {task : Task}
    (htask : task ∈ pc.plan updated) (hevent : task.isEventOf id = true) : candidate.id = id := by
  have htransition : ∀ {previous}, task ∈ emitStepTransitions updated previous → updated.id = id := by
    intro previous hmem
    obtain ⟨step, -, rfl⟩ := List.mem_map.mp hmem
    simpa [Task.isEventOf] using hevent
  have hcancel : ∀ {runID}, task ≠ .cancelRun runID := by
    rintro runID rfl
    cases hevent
  cases pc <;> simp only [ManagerPc.writes, Option.some.injEq, reduceCtorEq] at hwrites
  case storeTerminal c previous =>
    subst hwrites
    simp only [ManagerPc.plan, List.mem_append, List.mem_singleton] at htask
    rcases htask with (htask | htask) | rfl
    · obtain ⟨step, -, rfl⟩ := List.mem_map.mp htask
      exact absurd rfl hcancel
    · exact hid ▸ htransition htask
    · simpa [Task.isEventOf] using hevent
  case storeChanged c previous =>
    subst hwrites
    exact hid ▸ htransition htask
  case assign c next created =>
    subst hwrites
    simp only [ManagerPc.plan] at htask
    split at htask
    · cases htask
    · obtain rfl := List.mem_singleton.mp htask
      simpa [Task.isEventOf, hid] using hevent
  case startStore c =>
    subst hwrites
    obtain rfl := List.mem_singleton.mp htask
    simpa [Task.isEventOf, hid] using hevent
  case fail c cause =>
    obtain rfl := List.mem_singleton.mp htask
    have hsame : c.id = id := by simpa [Task.isEventOf] using hevent
    rw [← hwrites]
    exact hsame
  case cancelStore c active =>
    subst hwrites
    simp only [ManagerPc.plan, List.mem_append, List.mem_singleton] at htask
    rcases htask with htask | rfl
    · obtain ⟨runID, -, rfl⟩ := List.mem_map.mp htask
      exact absurd rfl hcancel
    · simpa [Task.isEventOf, hid] using hevent

/-- A call has fewer tasks than before. -/
theorem State.OwesEvents.of_update {c : Nat} {todo : List Task}
    (htodo : t.todo = Function.update s.todo c todo) (h : t.OwesEvents id)
    (hless : ∀ task ∈ todo, task.isEventOf id = true → s.OwesEvents id) : s.OwesEvents id := by
  obtain ⟨n, task, htask, hevent⟩ := h
  by_cases hn : n = c
  · rw [htodo, hn, Function.update_self] at htask
    exact hless task htask hevent
  · rw [htodo, Function.update_of_ne hn] at htask
    exact ⟨n, task, htask, hevent⟩

/-- A call takes on events of a Workflow only where it updates it, and then the Workflow
went on until now. -/
theorem State.OwesEvents.before (h : t.OwesEvents id) (hflow : FlowInv ⊤ s) (hP : Orderly id s a)
    (ha : step s a = some t) :
    s.OwesEvents id ∨ ∃ w, s.store.workflows.lookup id = some w ∧ w.isTerminal = false := by
  cases taskStep_of_step ha with
  | quiet todo =>
      obtain ⟨c, task, htask, hevent⟩ := h
      exact .inl ⟨c, task, todo ▸ htask, hevent⟩
  | crash => exact absurd rfl (hP.1 _)
  | @ask c _ _ runID rest before todo =>
      refine .inl (h.of_update todo fun task htask hevent => ⟨c, task, ?_, hevent⟩)
      rw [before]
      exact List.mem_cons_of_mem _ htask
  | @emit c _ _ event rest before todo =>
      refine .inl (h.of_update todo fun task htask hevent => ⟨c, task, ?_, hevent⟩)
      rw [before]
      exact List.mem_cons_of_mem _ htask
  | @late c o _ candidate cause hpc late todo =>
      refine .inl (h.of_update todo fun task htask hevent => ?_)
      obtain rfl := List.mem_singleton.mp htask
      have hlate := hP.2
      rw [lateFailure, late, hpc, Bool.and_true] at hlate
      simp_all [ManagerPc.copy, Task.isEventOf]
  | @write c o _ candidate updated next writes update _ _ todo =>
      obtain ⟨hupdated, -, w, hw, -, hnext⟩ := ((hflow.managers c).pc.writes writes).update update
      by_cases hid : candidate.id = id
      · exact .inr ⟨w, hid ▸ hw, hnext.1⟩
      · refine .inl (h.of_update todo fun task htask hevent => absurd ?_ hid)
        exact ManagerPc.isEventOf_plan writes (by rw [hupdated]) htask hevent

/-- What a step emits for a Workflow is among the tasks of some call. -/
theorem emitted_of_step (ha : step s a = some t) {event : WorkflowEvent}
    (h : event ∈ t.emitted) : event ∈ s.emitted ∨ s.OwesEvents event.workflowID := by
  cases taskStep_of_step ha with
  | quiet _ _ _ emitted | crash _ _ _ emitted | ask _ _ _ _ emitted | late _ _ _ _ _ emitted
  | write _ _ _ _ _ _ emitted => exact .inl (emitted ▸ h)
  | @emit c _ _ new rest before _ _ _ _ _ emitted =>
      rw [emitted, List.mem_append, List.mem_singleton] at h
      refine h.imp id ?_
      rintro rfl
      exact ⟨c, _, before ▸ List.mem_cons_self, by simp [Task.isEventOf]⟩

theorem emitted_subset_of_step (ha : step s a = some t) : s.emitted ⊆ t.emitted := by
  cases taskStep_of_step ha with
  | quiet _ _ _ emitted | crash _ _ _ emitted | ask _ _ _ _ emitted | late _ _ _ _ _ emitted
  | write _ _ _ _ _ _ emitted => exact emitted ▸ List.Subset.refl _
  | emit _ _ _ _ _ _ emitted => exact emitted ▸ List.subset_append_left _ _

/-- Below its bound the history of a Workflow takes every event. -/
theorem Memory.appendWorkflowEvent_below {m m' : Memory} {event : WorkflowEvent} {now : Time}
    (h : m.appendWorkflowEvent event eventRetention eventHistoryLimit now = .ok m')
    (hnow : event.timestamp = now)
    (hshort : (Table.getD m.workflowEvents event.workflowID []).length < eventHistoryLimit)
    (hyoung : ∀ e ∈ Table.getD m.workflowEvents event.workflowID [],
      now - eventRetention ≤ e.timestamp) :
    m'.workflowEvents = m.workflowEvents.insert event.workflowID
      (Table.getD m.workflowEvents event.workflowID [] ++ [event]) := by
  rw [Memory.appendWorkflowEvent] at h
  split at h
  · cases h
  · have hkeep : (Table.getD m.workflowEvents event.workflowID [] ++ [event]).dropWhile
        (fun e => e.timestamp < now - eventRetention)
        = Table.getD m.workflowEvents event.workflowID [] ++ [event] := by
      rw [List.dropWhile_eq_self_iff]
      intro hlt hold
      have hyoung' : ∀ e ∈ Table.getD m.workflowEvents event.workflowID [] ++ [event],
          now - eventRetention ≤ e.timestamp := by
        intro e he
        rcases List.mem_append.mp he with he | he
        · exact hyoung e he
        · rw [List.mem_singleton.mp he, hnow]
          exact Int.sub_le_self now (by decide)
      rw [decide_eq_true_eq] at hold
      exact absurd hold (not_lt.mpr (hyoung' _ (List.getElem_mem hlt)))
    have hfits : ¬ (0 < eventHistoryLimit ∧ eventHistoryLimit
        < (Table.getD m.workflowEvents event.workflowID [] ++ [event]).length) := by
      rw [List.length_append, List.length_singleton]
      omega
    have hretention : 0 < eventRetention := by decide
    simp only [if_pos hretention, hkeep, if_neg hfits] at h
    rw [← Except.ok.inj h]

theorem HistoryInv.step (h : HistoryInv id s) (hr : RunInv s) (hflow : FlowInv ⊤ s)
    (hP : Orderly id s a) (hbound : belowBound id s a = true) (hfresh : s.freshEvent a = true)
    (ha : AgentMesh.step s a = some t) : HistoryInv id t := by
  have hflows := (hflow.step hr (withinLimit_top s a) ha).2
  have hknown : t.OwesEvents id → ∃ w, t.store.workflows.lookup id = some w := by
    intro howes
    obtain ⟨w, hw⟩ : ∃ w, s.store.workflows.lookup id = some w := by
      rcases howes.before hflow hP ha with howes | ⟨w, hw, -⟩
      · exact h.known howes
      · exact ⟨w, hw⟩
    obtain ⟨w', hw', -⟩ := hflows.next hw
    exact ⟨w', hw'⟩
  -- where no event is stored or emitted
  have hsame : t.store.workflowEvents = s.store.workflowEvents → t.emitted = s.emitted →
      HistoryInv id t := by
    intro hevents hemitted
    have hhistory : t.history id = s.history id := by
      rw [State.history, hevents, State.history]
    refine ⟨?_, hhistory ▸ h.short, hemitted ▸ h.fresh, hknown⟩
    rw [hhistory, hemitted, h.kept]
  cases taskStep_of_step ha with
  | quiet _ flows _ emitted | crash _ flows _ emitted | ask _ _ flows _ emitted =>
      exact hsame flows.events emitted
  | late _ _ _ store _ emitted => exact hsame (by rw [store]) emitted
  | write _ update _ _ _ _ emitted =>
      obtain ⟨existing, steps, -, -, -, -, -, hm⟩ := Memory.updateWorkflow_ok update
      exact hsame (by rw [hm]) emitted
  | @emit c o _ event rest before todo hid htime append _ emitted =>
      have hnew : event.id ∉ s.emitted.map WorkflowEvent.id := by
        simpa [State.freshEvent, before, hid] using hfresh
      have hnodup : (t.emitted.map WorkflowEvent.id).Nodup := by
        rw [emitted, List.map_append, List.map_singleton]
        exact h.fresh.append (List.nodup_singleton _) (by simpa using hnew)
      by_cases hev : event.workflowID = id
      · subst hev
        obtain ⟨w, hw⟩ := h.known ⟨c, _, before ▸ List.mem_cons_self, by simp [Task.isEventOf]⟩
        obtain happend | ⟨habs, -⟩ := append
        · simp only [belowBound, Bool.and_eq_true, decide_eq_true_eq, List.all_eq_true] at hbound
          have hhistory : t.history event.workflowID = s.history event.workflowID ++ [event] := by
            rw [State.history, Memory.appendWorkflowEvent_below happend htime hbound.1 hbound.2,
              Table.getD_insert_self, State.history]
          refine ⟨?_, ?_, hnodup, hknown⟩
          · rw [hhistory, emitted, List.filter_append, h.kept]
            simp
          · rw [hhistory, List.length_append]
            exact hbound.1
        · rw [hw] at habs
          cases habs
      · have hhistory : t.history id = s.history id := by
          obtain happend | ⟨-, hstore⟩ := append
          · obtain ⟨events, hm⟩ := Memory.appendWorkflowEvent_ok happend
            rw [State.history, hm, Table.getD_insert_ne _ _ _ (Ne.symm hev), State.history]
          · rw [State.history, hstore, State.history]
        refine ⟨?_, hhistory ▸ h.short, hnodup, hknown⟩
        rw [hhistory, emitted, List.filter_append, h.kept]
        simp [hev]

/-! ### Streams -/

/-- What holds of a handler for the Workflow: it has sent what was emitted, and where it is
about to find that the Workflow has ended, or has found it, it has sent everything. -/
structure StreamOk (s : State) (x : EventStream) : Prop where
  noted : x.Noted
  sent : ∀ event ∈ x.sent, event ∈ s.emitted
  complete : x.pc = .check ∨ x.pc = .done .terminal → s.ended x.workflowID = true →
    ¬ s.OwesEvents x.workflowID ∧
      ∀ event ∈ s.emitted, event.workflowID = x.workflowID → event ∈ x.sent
  terminal : x.pc = .done .terminal → s.ended x.workflowID = true

theorem State.ended_iff : s.ended id = true ↔
    ∃ w, s.store.workflows.lookup id = some w ∧ w.isTerminal = true := by
  rcases hw : s.store.workflows.lookup id with - | w <;> simp [State.ended, hw]

theorem ended_of_step (hr : RunInv s) (hflow : FlowInv ⊤ s) (ha : step s a = some t)
    (h : s.ended id = true) : t.ended id = true := by
  obtain ⟨w, hw, hterm⟩ := State.ended_iff.mp h
  obtain ⟨w', hw', -, hsame⟩ := (hflow.step hr (withinLimit_top s a) ha).2.next hw
  exact State.ended_iff.mpr ⟨w', hw', hsame hterm ▸ hterm⟩

/-- Once a Workflow has ended and all its events are emitted, there are no more. -/
theorem OwesEvents_of_ended (hflow : FlowInv ⊤ s) (hP : Orderly id s a) (ha : step s a = some t)
    (hended : s.ended id = true) (hnone : ¬ s.OwesEvents id) : ¬ t.OwesEvents id := by
  intro howes
  rcases howes.before hflow hP ha with howes | ⟨w, hw, hgoing⟩
  · exact hnone howes
  · obtain ⟨w', hw', hterm⟩ := State.ended_iff.mp hended
    obtain rfl := Option.some.inj (hw.symm.trans hw')
    rw [hgoing] at hterm
    cases hterm

/-- The system takes a step beside a handler. -/
theorem StreamOk.mesh {x : EventStream} (h : StreamOk s x) (hr : RunInv s) (hflow : FlowInv ⊤ s)
    (hP : Orderly x.workflowID s a)
    (hapart : x.pc = .check → endsWorkflow x.workflowID s a = false) (ha : step s a = some t) :
    StreamOk t x := by
  refine ⟨h.noted, fun event hevent => emitted_subset_of_step ha (h.sent event hevent), ?_,
    fun hpc => ended_of_step hr hflow ha (h.terminal hpc)⟩
  intro hpc hended
  -- the Workflow had ended before
  have hbefore : s.ended x.workflowID = true := by
    rcases hpc with hpc | hpc
    · have hnot := hapart hpc
      simpa [endsWorkflow, ha, hended] using hnot
    · exact h.terminal hpc
  obtain ⟨hnone, hall⟩ := h.complete hpc hbefore
  refine ⟨OwesEvents_of_ended hflow hP ha hbefore hnone, ?_⟩
  intro event hevent hid
  rcases emitted_of_step ha hevent with hevent | howes
  · exact hall event hevent hid
  · exact absurd (hid ▸ howes) hnone

/-- A list that is not cut off sends everything. -/
theorem StreamOk.list {x : EventStream} (h : StreamOk s x) (hhistory : HistoryInv x.workflowID s)
    (hquiet : s.ended x.workflowID = true → ¬ s.OwesEvents x.workflowID) :
    StreamOk s { (s.history x.workflowID).foldl EventStream.send x with pc := .check } := by
  have hfrom : ∀ event ∈ Keyed.addAll WorkflowEvent.id x.sent (s.history x.workflowID),
      event ∈ s.emitted := by
    intro event hevent
    rcases Keyed.mem_addAll hevent with hevent | hevent
    · exact h.sent event hevent
    · rw [hhistory.kept] at hevent
      exact List.mem_of_mem_filter hevent
  rw [EventStream.foldl_send h.noted]
  refine ⟨rfl, hfrom, ?_, fun hpc => by cases hpc⟩
  intro _ hended
  refine ⟨hquiet hended, ?_⟩
  intro event hevent hev
  have hmem : event ∈ s.history x.workflowID := by
    rw [hhistory.kept, List.mem_filter]
    exact ⟨hevent, by simpa using hev⟩
  -- an event with an ID that was sent is the one that was sent under it
  have hkey : event.id ∈ (Keyed.addAll WorkflowEvent.id x.sent (s.history x.workflowID)).map
      WorkflowEvent.id := Keyed.keys_addAll.mpr (.inr (List.mem_map_of_mem hmem))
  obtain ⟨event', hevent', hsame⟩ := List.mem_map.mp hkey
  have heq : event' = event :=
    List.inj_on_of_nodup_map hhistory.fresh (hfrom event' hevent') hevent hsame
  exact heq ▸ hevent'

/-- A handler that sends nothing. -/
theorem StreamOk.move {x : EventStream} (h : StreamOk s x) (pc : StreamPc)
    (hcheck : pc ≠ .check) (hterm : pc = .done .terminal → x.pc = .check ∧ s.ended x.workflowID = true) :
    StreamOk s { x with pc := pc } := by
  refine ⟨h.noted, h.sent, ?_, fun hpc => (hterm hpc).2⟩
  intro hpc hended
  exact h.complete (.inl (hterm (hpc.resolve_left hcheck)).1) hended

theorem Memory.listWorkflowEvents_short {m : Memory} {events : List WorkflowEvent}
    (h : m.listWorkflowEvents id 1000 = .ok events)
    (hshort : (Table.getD m.workflowEvents id []).length ≤ 1000) :
    events = Table.getD m.workflowEvents id [] := by
  rw [Memory.listWorkflowEvents] at h
  split at h
  · cases h
  · simp only [if_neg (show ¬ (0 < 1000 ∧ 1000 < (Table.getD m.workflowEvents id []).length) by omega)]
      at h
    exact (Except.ok.inj h).symm

/-- A handler takes its next action. -/
theorem StreamOk.poll {x y : EventStream} (h : StreamOk s x)
    (hhistory : HistoryInv x.workflowID s)
    (hquiet : x.pc = .list → s.ended x.workflowID = true → ¬ s.OwesEvents x.workflowID)
    (hpoll : x.poll s.store = some y) : StreamOk s y := by
  cases hpc : x.pc <;> simp only [EventStream.poll, hpc, reduceCtorEq] at hpoll
  case load =>
    split at hpoll
    all_goals
      obtain rfl := Option.some.inj hpoll
      exact h.move _ (by simp) (by simp)
  case list =>
    split at hpoll
    · obtain rfl := Option.some.inj hpoll
      exact h.move _ (by simp) (by simp)
    · rename_i events hevents
      obtain rfl := Option.some.inj hpoll
      obtain rfl := Memory.listWorkflowEvents_short hevents hhistory.short
      exact h.list hhistory (hquiet hpc)
  case check =>
    split at hpoll
    · obtain rfl := Option.some.inj hpoll
      exact h.move _ (by simp) (by simp)
    · rename_i w hw
      split at hpoll
      · rename_i hterm
        obtain rfl := Option.some.inj hpoll
        refine h.move _ (by simp) fun _ => ⟨hpc, ?_⟩
        exact State.ended_iff.mpr ⟨w, Memory.getWorkflow_ok.mp hw, hterm⟩
      · obtain rfl := Option.some.inj hpoll
        exact h.move _ (by simp) (by simp)
  case wait =>
    obtain rfl := Option.some.inj hpoll
    exact h.move _ (by simp) (by simp)

/-! ### Runs of the whole -/

/-- The system below has run in order, and every handler for the Workflow is as it should be. -/
structure FeedInv (id : String) (s : Feed) : Prop where
  reached : Runs step (Orderly id) init s.mesh
  history : HistoryInv id s.mesh
  streams : ∀ n, (s.streams n).workflowID = id → StreamOk s.mesh (s.streams n)

theorem StreamOk.fresh (s : State) (id : String) {pc : StreamPc} (hcheck : pc ≠ .check)
    (hterm : pc ≠ .done .terminal) : StreamOk s { workflowID := id, pc := pc } :=
  ⟨rfl, by simp, fun hpc => by simp_all, fun hpc => absurd hpc hterm⟩

theorem FeedInv.setStream {s : Feed} (h : FeedInv id s) {n : Nat} {x : EventStream}
    (hx : x.workflowID = id → StreamOk s.mesh x) : FeedInv id (s.setStream n x) := by
  refine ⟨h.reached, h.history, fun k hk => ?_⟩
  by_cases hkn : k = n
  · subst hkn
    simp only [Feed.setStream, Function.update_self] at hk ⊢
    exact hx hk
  · simp only [Feed.setStream, Function.update_of_ne hkn] at hk ⊢
    exact h.streams k hk

theorem FeedInv.step {s t : Feed} {a : FeedAction} (h : FeedInv id s) (hP : s.Apart id a)
    (ha : feedStep s a = some t) : FeedInv id t := by
  cases a <;> simp only [feedStep] at ha
  case mesh a =>
    obtain ⟨horder, hbound, hapart⟩ := hP
    have hr := runInv_runs h.reached
    have hflow := flowInv_free h.reached
    split at ha
    · rename_i hfresh
      obtain ⟨u, hu, rfl⟩ := Option.map_eq_some_iff.mp ha
      refine ⟨h.reached.snoc horder hu, h.history.step hr hflow horder hbound hfresh hu, ?_⟩
      intro n hn
      obtain rfl := hn
      exact (h.streams n rfl).mesh hr hflow horder (hapart n rfl) hu
    · cases ha
  case connect n workflowID =>
    split at ha
    · obtain rfl := Option.some.inj ha
      exact h.setStream fun _ => .fresh _ _ (by simp) (by simp)
    · obtain rfl := Option.some.inj ha
      exact h.setStream fun _ => .fresh _ _ (by simp) (by simp)
    · cases ha
  case poll n =>
    obtain ⟨x, hx, rfl⟩ := Option.map_eq_some_iff.mp ha
    refine h.setStream fun hid => ?_
    obtain rfl := (EventStream.poll_workflowID hx).symm.trans hid
    exact (h.streams n rfl).poll h.history (hP rfl) hx
  case disconnect n =>
    split at ha
    · obtain rfl := Option.some.inj ha
      exact h.setStream fun hid => (h.streams n hid).move _ (by simp) (by simp)
    · cases ha

theorem feedInv_runs {s : Feed} (hs : Runs feedStep (Feed.Apart id) {} s) : FeedInv id s := by
  refine hs.invariant (I := FeedInv id) ⟨.refl, historyInv_init id, fun n hn => ?_⟩ fun h => h.step
  exact .fresh _ _ (by simp) (by simp)

/-- **A stream delivers the ending.**  In a run in which the handlers for the Workflow and
the calls that end it keep apart, a handler that has returned because the Workflow has ended
has sent every event of it, and among them the one that tells how it has ended. -/
theorem stream_delivers_ending {s : Feed} {n : Nat}
    (hs : Runs feedStep (Feed.Apart id) {} s) (hid : (s.streams n).workflowID = id)
    (hdone : (s.streams n).pc = .done .terminal) :
    (∀ event ∈ s.mesh.emitted, event.workflowID = id → event ∈ (s.streams n).sent) ∧
      ∃ w, s.mesh.store.workflows.lookup id = some w ∧ ∃ event ∈ (s.streams n).sent,
        event.workflowID = id ∧ terminalEvent w.status = some event.type := by
  have hinv := feedInv_runs hs
  obtain ⟨-, -, hcomplete, hterminal⟩ := hinv.streams n hid
  rw [hid] at hcomplete hterminal
  obtain ⟨hnone, hall⟩ := hcomplete (.inr hdone) (hterminal hdone)
  refine ⟨hall, ?_⟩
  obtain ⟨w, hw, hterm⟩ := State.ended_iff.mp (hterminal hdone)
  -- nobody owes the announcement, so it was made
  have hended : s.mesh.EndedAs id (workflowTerminalEvent w.status) :=
    ⟨w, hw, workflowTerminalEvent_eq hterm⟩
  have hcovered : EndingCovered id s.mesh :=
    endingCovered_runs (hinv.reached.mono fun _ _ hP => hP.1)
  have honce : EndingInv id s.mesh := endingInv_runs (hinv.reached.mono fun _ _ hP => hP.2)
  rcases hcovered _ hended with htold | ⟨c, howed⟩
  · obtain ⟨type, htype⟩ := List.exists_mem_of_ne_nil _ htold
    obtain ⟨w', hw', htrue⟩ := honce.told_true type htype
    obtain rfl := Option.some.inj (hw.symm.trans hw')
    obtain ⟨event, hevent, hending⟩ := List.mem_filterMap.mp htype
    rw [WorkflowEvent.ending] at hending
    split at hending
    · rename_i hof
      obtain rfl := Option.some.inj hending
      exact ⟨w, hw, event, hall event hevent hof.1, hof.1, htrue⟩
    · cases hending
  · obtain ⟨type, htype⟩ := List.exists_mem_of_ne_nil _ howed
    obtain ⟨task, htask, hending⟩ := List.mem_filterMap.mp htype
    refine absurd ⟨c, task, htask, ?_⟩ hnone
    rcases task with runID | ⟨workflowID, stepID, runID, taskType, message⟩
    · cases hending
    · rw [Task.ending] at hending
      split at hending
      · rename_i hof
        simpa [Task.isEventOf] using hof.1
      · cases hending

/-! ### Two runs -/

/-- A Workflow is started, a client connects, and its handler has sent the first event. -/
def watchPair : List FeedAction :=
  List.flatten
    [[.mesh (.registry (AList.insert "agent_1" { id := "agent_1" } ∅)),
        .mesh (.createWorkflow pairWorkflow 0), .mesh (.startWorkflow 0 ⟨1, 3⟩ "wf")],
      List.replicate 4 (.mesh (.manage 0 { newID := "event_1" })),
      [.connect 0 "wf", .poll 0, .poll 0]]

/-- `CancelWorkflow` has stored the cancellation. -/
def storeCanceled : List FeedAction :=
  [.mesh (.cancelWorkflow 1 ⟨1, 3⟩ "wf"), .mesh (.manage 1 {}), .mesh (.manage 1 {})]

/-- The Workflow is canceled after the handler has listed its events: the handler returns,
and then the event is emitted. -/
theorem stream_misses_ending :
    ∃ s, exec feedStep {} (watchPair ++ storeCanceled
        ++ [.poll 0, .mesh (.manage 1 { newID := "event_2" })]) = some s ∧
      (s.streams 0).pc = .done .terminal ∧
      s.mesh.emitted.map WorkflowEvent.type = ["workflow.started", "workflow.canceled"] ∧
      (s.streams 0).sent.map WorkflowEvent.type = ["workflow.started"] := by
  refine exists_of_any ?_
  decide +kernel

def Action.isCrash : Action → Bool
  | .crash _ => true
  | _ => false

/-- The condition of `stream_delivers_ending`, decided for runs of one handler and two calls. -/
def apartPair (s : Feed) : FeedAction → Bool
  | .mesh a => !a.isCrash && a.manager.all (· < 2) && !lateFailure "wf" s.mesh a
      && belowBound "wf" s.mesh a && ((s.streams 0).pc ≠ .check || !endsWorkflow "wf" s.mesh a)
  | .connect n _ | .disconnect n => n = 0
  | .poll n => n = 0 && ((s.streams 0).pc ≠ .list || !s.mesh.ended "wf"
      || (s.mesh.todo 0 ++ s.mesh.todo 1).all fun task => !task.isEventOf "wf")

/-- Handler 0 and calls 0 and 1 are the only ones. -/
structure PairOnly (s : Feed) : Prop where
  streams : ∀ n, n ≠ 0 → (s.streams n).pc = .idle
  todo : ∀ c, 2 ≤ c → s.mesh.todo c = []

theorem PairOnly.apart {s : Feed} {a : FeedAction} (h : PairOnly s) (ha : apartPair s a = true) :
    s.Apart "wf" a := by
  cases a with
  | connect | disconnect => trivial
  | mesh a =>
      simp only [apartPair, Bool.and_eq_true, Bool.not_eq_true', Bool.or_eq_true,
        decide_eq_true_eq] at ha
      obtain ⟨⟨⟨⟨hlive, -⟩, hlate⟩, hbound⟩, hends⟩ := ha
      refine ⟨⟨?_, hlate⟩, hbound, fun n _ hpc => ?_⟩
      · rintro c rfl
        cases hlive
      · by_cases hn : n = 0
        · subst hn
          exact hends.resolve_left (absurd hpc)
        · rw [h.streams n hn] at hpc
          cases hpc
  | poll n =>
      simp only [apartPair, Bool.and_eq_true, Bool.not_eq_true', Bool.or_eq_true,
        decide_eq_true_eq, List.all_eq_true] at ha
      obtain ⟨rfl, hlist⟩ := ha
      rintro - hpc hended ⟨c, task, htask, hevent⟩
      have hnone := hlist.resolve_left (by simp [hpc, hended])
      have hmem : task ∈ s.mesh.todo 0 ++ s.mesh.todo 1 := by
        rcases c with - | - | c
        · exact List.mem_append_left _ htask
        · exact List.mem_append_right _ htask
        · rw [h.todo _ (by omega)] at htask
          cases htask
      rw [hnone task hmem] at hevent
      cases hevent

theorem PairOnly.setStream {s : Feed} (h : PairOnly s) (x : EventStream) :
    PairOnly (s.setStream 0 x) := by
  refine ⟨fun n hn => ?_, h.todo⟩
  simp only [Feed.setStream, Function.update_of_ne hn]
  exact h.streams n hn

theorem PairOnly.step {s t : Feed} {a : FeedAction} (h : PairOnly s) (hok : apartPair s a = true)
    (ha : feedStep s a = some t) : PairOnly t := by
  cases a with
  | mesh a =>
      simp only [apartPair, Bool.and_eq_true] at hok
      simp only [feedStep] at ha
      split at ha
      · obtain ⟨u, hu, rfl⟩ := Option.map_eq_some_iff.mp ha
        refine ⟨h.streams, fun c hc => ?_⟩
        have hslot : a.manager ≠ some c := by
          intro hslot
          have hlt := hok.1.1.1.2
          rw [hslot] at hlt
          simp at hlt
          omega
        rw [State.todo, managers_of_step hu hslot]
        exact h.todo c hc
      · cases ha
  | connect n workflowID =>
      obtain rfl : n = 0 := of_decide_eq_true hok
      simp only [feedStep] at ha
      split at ha
      all_goals cases ha
      all_goals exact h.setStream _
  | poll n =>
      simp only [apartPair, Bool.and_eq_true, decide_eq_true_eq] at hok
      obtain ⟨rfl, -⟩ := hok
      obtain ⟨x, -, rfl⟩ := Option.map_eq_some_iff.mp ha
      exact h.setStream x
  | disconnect n =>
      obtain rfl : n = 0 := of_decide_eq_true hok
      simp only [feedStep] at ha
      split at ha
      · cases ha
        exact h.setStream _
      · cases ha

/-- The handler that looks again after the event is emitted sends it. -/
theorem stream_delivers_ending_canceled :
    ∃ s, Runs feedStep (Feed.Apart "wf") {} s ∧ (s.streams 0).pc = .done .terminal ∧
      ∀ event ∈ s.mesh.emitted, event.workflowID = "wf" → event ∈ (s.streams 0).sent := by
  obtain ⟨s, hs, hid, hdone⟩ :
      ∃ s, exec (guarded feedStep apartPair) {} (watchPair ++ [.poll 0] ++ storeCanceled
          ++ [.mesh (.manage 1 { newID := "event_2" }), .poll 0, .poll 0, .poll 0]) = some s ∧
        (s.streams 0).workflowID = "wf" ∧ (s.streams 0).pc = .done .terminal := by
    refine exists_of_any ?_
    decide +kernel
  have hruns : Runs feedStep (Feed.Apart "wf") {} s :=
    runs_exec_invariant (I := PairOnly) (fun h => h.apart) (fun h => h.step)
      ⟨fun _ _ => rfl, fun _ _ => rfl⟩ hs
  exact ⟨s, hruns, hdone, (stream_delivers_ending hruns hid hdone).1⟩

end AgentMesh
