/-
AgentMesh/Histories.lean

The event history of a Run, in the Memory store and in PostgreSQL.

`AppendRunEvent` of the store appends to a list, drops the expired events in front
of it, and then all but the newest `maxPerRun`.  The repository inserts a row unless
one has its ID, whatever the Run, deletes the older rows of the Run, and then the
expired rows of every Run.

Both are run on the same sequence of calls.  As long as every call is `Regular` in
the state that it finds, both histories are windows over the events of the calls
(`Window.Kept`), although the database loses expired events earlier than the store.
-/
import AgentMesh.Window
import AgentMesh.Bus
import AgentMesh.Postgres
import AgentMesh.Sorting

namespace AgentMesh

open Machine Window Sorting

/-! ### The Memory store -/

/-- The store with the histories of its Runs. -/
structure EventMemory extends Memory where
  runEvents : Table (List BusEvent) := ∅

namespace EventMemory

def appendRunEvent (m : EventMemory) (event : BusEvent) (retention : Int) (maxPerRun : Nat)
    (now : Time) : Except Err EventMemory :=
  match m.runs.lookup event.runID with
  | none => .error Sentinel.notFound.err
  | some _ =>
      let events := Table.getD m.runEvents event.runID [] ++ [event]
      let events :=
        if 0 < retention then events.dropWhile fun e => e.timestamp < now - retention else events
      let events :=
        if 0 < maxPerRun ∧ maxPerRun < events.length then events.drop (events.length - maxPerRun)
        else events
      .ok { m with runEvents := m.runEvents.insert event.runID events }

def listRunEvents (m : EventMemory) (runID : String) (limit : Nat) :
    Except Err (List BusEvent) :=
  match m.runs.lookup runID with
  | none => .error Sentinel.notFound.err
  | some _ =>
      let events := Table.getD m.runEvents runID []
      .ok (if 0 < limit ∧ limit < events.length then events.drop (events.length - limit) else events)

end EventMemory

/-! ### The table `run_events` -/

structure EventRow where
  sequence : Nat
  eventID : String
  runID : String
  childRunID : Option String
  parentRunID : Option String
  rootRunID : Option String
  type : String
  message : String
  attempt : Int
  timestamp : Time
  deriving DecidableEq, Repr

/-- An event as the table keeps it. -/
def BusEvent.stored (event : BusEvent) : BusEvent :=
  { event with timestamp := AgentMesh.timestamp event.timestamp }

/-- The row that is inserted for an event. -/
def EventRow.ofEvent (sequence : Nat) (event : BusEvent) : EventRow :=
  { sequence := sequence, eventID := event.id, runID := event.runID
    childRunID := nullableString event.childRunID, parentRunID := nullableString event.parentRunID
    rootRunID := nullableString event.rootRunID, type := event.type, message := event.message
    attempt := event.attempt, timestamp := AgentMesh.timestamp event.timestamp }

/-- `rows.Scan` on the columns of `ListRunEvents`. -/
def EventRow.scan (row : EventRow) : BusEvent :=
  { id := row.eventID, runID := row.runID, childRunID := row.childRunID.getD ""
    parentRunID := row.parentRunID.getD "", rootRunID := row.rootRunID.getD "", type := row.type
    message := row.message, attempt := row.attempt, timestamp := row.timestamp }

/-- The parameters of an insertion can be sent. -/
def EventRow.encodes (row : EventRow) : Bool :=
  [row.eventID, row.runID, row.type, row.message].all isText && row.childRunID.all isText
    && row.parentRunID.all isText && row.rootRunID.all isText && isInteger row.attempt

/-- The `CHECK` constraint. -/
def EventRow.checks (row : EventRow) : Bool := 0 ≤ row.attempt

/-- The database with the events, and the last number that `BIGSERIAL` has given. -/
structure EventDatabase extends Database where
  runEvents : List EventRow := []
  lastSequence : Nat := 0

namespace EventDatabase

/-- The references of a row to its Runs. -/
def eventReferences (db : EventDatabase) (row : EventRow) : Bool :=
  (db.find row.runID).isSome && row.childRunID.all (fun id => (db.find id).isSome)
    && row.parentRunID.all (fun id => (db.find id).isSome)
    && row.rootRunID.all fun id => (db.find id).isSome

/-- `INSERT INTO run_events … ON CONFLICT (event_id) DO NOTHING`. -/
def insertEvent (db : EventDatabase) (event : BusEvent) : Except Err EventDatabase :=
  let row := EventRow.ofEvent (db.lastSequence + 1) event
  if row.encodes = false ∨ row.checks = false then .error (errorf "insert run event")
  else if db.runEvents.any fun other => other.eventID = row.eventID then
    .ok { db with lastSequence := db.lastSequence + 1 }
  else if db.eventReferences row = false then .error (errorf "insert run event")
  else .ok { db with runEvents := db.runEvents ++ [row], lastSequence := db.lastSequence + 1 }

/-- `… WHERE run_id = $1`. -/
def eventsOf (db : EventDatabase) (runID : String) : List EventRow :=
  db.runEvents.filter fun row => row.runID = runID

/-- `ORDER BY sequence DESC`. -/
def newestFirst (rows : List EventRow) : List EventRow :=
  rows.insertionSort fun a b => b.sequence ≤ a.sequence

/-- `DELETE FROM run_events WHERE run_id = $1 AND sequence < COALESCE(…, 0)`. -/
def limitHistory (db : EventDatabase) (runID : String) (maxPerRun : Nat) : EventDatabase :=
  let bound := ((newestFirst (db.eventsOf runID))[maxPerRun - 1]?.map EventRow.sequence).getD 0
  { db with
    runEvents := db.runEvents.filter fun row => !(row.runID = runID && row.sequence < bound) }

/-- `DELETE FROM run_events WHERE timestamp < $1`. -/
def retain (db : EventDatabase) (cutoff : Time) : EventDatabase :=
  { db with runEvents := db.runEvents.filter fun row => !(row.timestamp < timestamp cutoff) }

def appendRunEvent (db : EventDatabase) (event : BusEvent) (retention : Int) (maxPerRun : Nat)
    (now : Time) : Except Err EventDatabase :=
  match db.insertEvent event with
  | .error err => .error err
  | .ok db =>
      let db := if 0 < maxPerRun then db.limitHistory event.runID maxPerRun else db
      .ok (if 0 < retention then db.retain (now - retention) else db)

def listRunEvents (db : EventDatabase) (runID : String) (limit : Nat) :
    Except Err (List BusEvent) :=
  if isText runID = false then .error (errorf "list run events")
  else
    let limit := if limit = 0 then 1000 else limit
    let recent := (newestFirst (db.eventsOf runID)).take limit
    .ok ((recent.insertionSort fun a b => a.sequence ≤ b.sequence).map EventRow.scan)

end EventDatabase

/-! ### Sequences of calls -/

/-- A call of `AppendRunEvent`, with the time that both stores read. -/
structure Append where
  event : BusEvent
  now : Time
  deriving DecidableEq, Repr

/-- The event is older at the call than the retention allows. -/
def Append.expires (call : Append) (retention : Int) (event : BusEvent) : Bool :=
  event.timestamp < call.now - retention

/-- Both stores, and the calls that were made. -/
structure Histories where
  memory : EventMemory
  database : EventDatabase
  calls : List Append := []

/-- A call that fails leaves the store as it is. -/
def historyStep (retention : Int) (maxPerRun : Nat) (s : Histories) (call : Append) :
    Option Histories :=
  some {
    memory :=
      (s.memory.appendRunEvent call.event retention maxPerRun call.now).toOption.getD s.memory
    database :=
      (s.database.appendRunEvent call.event retention maxPerRun call.now).toOption.getD s.database
    calls := s.calls ++ [call] }

/-- The events of a Run, in the order of the calls. -/
def runEventsOf (calls : List Append) (runID : String) : List BusEvent :=
  (calls.map Append.event).filter fun event => event.runID = runID

/-- What a history is for: the newest events of the Run with different IDs, without those that
the last call finds expired. -/
def newestEvents (retention : Int) (maxPerRun : Nat) (calls : List Append) (call : Append) :
    List BusEvent :=
  ((Keyed.addAll BusEvent.id [] (runEventsOf calls call.event.runID)).rtake maxPerRun).filter
    fun event => !call.expires retention event

/-- A call that both stores treat alike. -/
structure Regular (retention : Int) (s : Histories) (call : Append) : Prop where
  /-- The Run exists. -/
  known : (s.memory.runs.lookup call.event.runID).isSome
  /-- The columns and the references of the table admit the event. -/
  encodes : (EventRow.ofEvent (s.database.lastSequence + 1) call.event).encodes = true
  checks : (EventRow.ofEvent (s.database.lastSequence + 1) call.event).checks = true
  references : s.database.eventReferences
    (EventRow.ofEvent (s.database.lastSequence + 1) call.event) = true
  /-- The ID is new, in all Runs. -/
  fresh : call.event.id ∉ s.calls.map fun prev => prev.event.id
  /-- No event is from the microsecond in which the retention ends, and before that end. -/
  cutoff : ∀ c ∈ s.calls ++ [call],
    timestamp c.event.timestamp < timestamp (call.now - retention) ↔
      c.event.timestamp < call.now - retention
  /-- What a call has found expired stays expired. -/
  clock : ∀ prev ∈ s.calls, ∀ c ∈ s.calls ++ [call],
    prev.expires retention c.event = true → call.expires retention c.event = true
  /-- In every Run the expired events were appended before the others. -/
  order : (s.calls ++ [call]).Pairwise fun a b => a.event.runID = b.event.runID →
    call.expires retention b.event = true → call.expires retention a.event = true

/-! ### One statement -/

section Statements

variable {db : EventDatabase} {event : BusEvent} {rows : List EventRow} {runID id : String}

theorem EventRow.scan_ofEvent (n : Nat) (event : BusEvent) :
    (EventRow.ofEvent n event).scan = event.stored := by
  have hnull : ∀ value, (nullableString value).getD "" = value := by
    intro value
    rw [nullableString]
    split
    · exact Eq.symm ‹_›
    · rfl
  rw [EventRow.scan, EventRow.ofEvent, hnull, hnull, hnull]
  rfl

theorem EventDatabase.newestFirst_eq (h : rows.Pairwise fun a b => a.sequence < b.sequence) :
    newestFirst rows = rows.reverse := by
  refine insertionSort_key_eq (fun a b => (OrderDual.toDual_le_toDual (a := a.sequence)).symm)
    (List.reverse_perm rows).symm ?_
  exact List.pairwise_reverse.mpr h

/-- The rows of a Run that the first deletion leaves. -/
theorem EventDatabase.eventsOf_limitHistory {n : Nat} (hn : 0 < n)
    (h : (db.eventsOf runID).Pairwise fun a b => a.sequence < b.sequence) :
    (db.limitHistory runID n).eventsOf runID = (db.eventsOf runID).rtake n := by
  have hkept : ∀ bound, (db.runEvents.filter fun row =>
      !(row.runID = runID && row.sequence < bound)).filter (fun row => row.runID = runID)
        = (db.eventsOf runID).filter fun row => !(row.sequence < bound : Bool) := by
    intro bound
    rw [EventDatabase.eventsOf, List.filter_filter, List.filter_filter]
    refine List.filter_congr fun row _ => ?_
    by_cases hrow : row.runID = runID
    · simp [hrow]
    · simp [hrow]
  rw [EventDatabase.eventsOf, limitHistory, hkept, newestFirst_eq h]
  generalize db.eventsOf runID = rows at h ⊢
  by_cases hmany : n ≤ rows.length
  · -- the bound is the number of the oldest row that stays
    obtain ⟨older, row, newer, rfl, hlength⟩ :
        ∃ older row newer, rows = older ++ row :: newer ∧ newer.length + 1 = n := by
      refine ⟨rows.take (rows.length - n), rows.get ⟨rows.length - n, by omega⟩,
        rows.drop (rows.length - n + 1), ?_, ?_⟩
      · simp
      · rw [List.length_drop]
        omega
    rw [List.pairwise_append, List.pairwise_cons] at h
    obtain ⟨-, ⟨hnewer, -⟩, holder⟩ := h
    have hbound : ((older ++ row :: newer).reverse)[n - 1]? = some row := by
      rw [List.reverse_append, List.reverse_cons, List.append_assoc,
        List.getElem?_append_right (by rw [List.length_reverse]; omega), List.length_reverse]
      simp [← hlength]
    have hdrop : (older ++ row :: newer).rtake n = row :: newer := by
      rw [List.rtake, List.drop_left']
      rw [List.length_append, List.length_cons]
      omega
    have hnone : older.filter (fun other => !(other.sequence < row.sequence : Bool)) = [] := by
      rw [List.filter_eq_nil_iff]
      intro other hother
      simpa using holder other hother row List.mem_cons_self
    rw [hbound, hdrop, Option.map_some, Option.getD_some, List.filter_append, hnone,
      List.nil_append, List.filter_eq_self]
    intro other hother
    rcases List.mem_cons.mp hother with rfl | hother
    · simp
    · simpa using (hnewer other hother).le
  · rw [List.getElem?_eq_none (by rw [List.length_reverse]; omega), List.rtake,
      Nat.sub_eq_zero_of_le (by omega), List.drop_zero, List.filter_eq_self]
    intro row _
    rw [Option.map_none, Option.getD_none, decide_eq_false (Nat.not_lt_zero _), Bool.not_false]

theorem EventDatabase.eventsOf_limitHistory_ne {n : Nat} (hid : id ≠ runID) :
    (db.limitHistory runID n).eventsOf id = db.eventsOf id := by
  rw [EventDatabase.eventsOf, limitHistory, List.filter_filter]
  refine List.filter_congr fun row _ => ?_
  by_cases hrow : row.runID = id
  · simp [hrow, hid]
  · simp [hrow]

theorem EventDatabase.eventsOf_retain (cutoff : Time) :
    (db.retain cutoff).eventsOf id
      = (db.eventsOf id).filter fun row => !(row.timestamp < timestamp cutoff) := by
  rw [EventDatabase.eventsOf, retain, List.filter_filter, EventDatabase.eventsOf,
    List.filter_filter]
  exact List.filter_congr fun row _ => Bool.and_comm _ _

/-- The rows are in the order of their numbers. -/
structure EventDatabase.Numbered (db : EventDatabase) : Prop where
  ascending : db.runEvents.Pairwise fun a b => a.sequence < b.sequence
  given : ∀ row ∈ db.runEvents, row.sequence ≤ db.lastSequence

theorem EventDatabase.Numbered.eventsOf (h : db.Numbered) (id : String) :
    (db.eventsOf id).Pairwise fun a b => a.sequence < b.sequence :=
  h.ascending.sublist List.filter_sublist

/-- A row is added with the next number. -/
def EventDatabase.withEvent (db : EventDatabase) (event : BusEvent) : EventDatabase :=
  { db with
    runEvents := db.runEvents ++ [EventRow.ofEvent (db.lastSequence + 1) event]
    lastSequence := db.lastSequence + 1 }

theorem EventDatabase.Numbered.withEvent (h : db.Numbered) (event : BusEvent) :
    (db.withEvent event).Numbered where
  ascending := by
    refine List.pairwise_append.mpr ⟨h.ascending, List.pairwise_singleton _ _, ?_⟩
    intro row hrow other hother
    rw [List.mem_singleton.mp hother]
    exact Nat.lt_succ_of_le (h.given row hrow)
  given := by
    intro row hrow
    rcases List.mem_append.mp hrow with hrow | hrow
    · exact (h.given row hrow).trans (Nat.le_succ _)
    · rw [List.mem_singleton.mp hrow]
      exact Nat.le_refl _

theorem EventDatabase.Numbered.deleted {db' : EventDatabase} (h : db.Numbered)
    (hrows : db'.runEvents.Sublist db.runEvents) (hlast : db'.lastSequence = db.lastSequence) :
    db'.Numbered :=
  ⟨h.ascending.sublist hrows, fun row hrow => hlast ▸ h.given row (hrows.subset hrow)⟩

/-- `AppendRunEvent` of an event that the table admits. -/
theorem EventDatabase.appendRunEvent_eq {retention : Int} {n : Nat} {now : Time}
    (hretention : 0 < retention) (hn : 0 < n)
    (hencodes : (EventRow.ofEvent (db.lastSequence + 1) event).encodes = true)
    (hchecks : (EventRow.ofEvent (db.lastSequence + 1) event).checks = true)
    (hreferences : db.eventReferences (EventRow.ofEvent (db.lastSequence + 1) event) = true)
    (hfresh : ∀ row ∈ db.runEvents, row.eventID ≠ event.id) :
    db.appendRunEvent event retention n now
      = .ok (((db.withEvent event).limitHistory event.runID n).retain (now - retention)) := by
  have hconflict : (db.runEvents.any fun other => other.eventID
      = (EventRow.ofEvent (db.lastSequence + 1) event).eventID) = false := by
    rw [List.any_eq_false]
    intro row hrow
    rw [decide_eq_true_eq]
    exact hfresh row hrow
  have hinsert : db.insertEvent event = .ok (db.withEvent event) := by
    rw [insertEvent, if_neg (by simp [hencodes, hchecks]), hconflict,
      if_neg Bool.false_ne_true, if_neg (by simp [hreferences])]
    rfl
  rw [EventDatabase.appendRunEvent, hinsert]
  simp only [if_pos hretention, if_pos hn]

theorem EventDatabase.eventsOf_withEvent (db : EventDatabase) (event : BusEvent) :
    (db.withEvent event).eventsOf event.runID
      = db.eventsOf event.runID ++ [EventRow.ofEvent (db.lastSequence + 1) event] := by
  rw [EventDatabase.eventsOf, withEvent, List.filter_append]
  congr 1
  exact List.filter_cons_of_pos (decide_eq_true rfl)

theorem EventDatabase.eventsOf_withEvent_ne (hid : id ≠ event.runID) :
    (db.withEvent event).eventsOf id = db.eventsOf id := by
  rw [EventDatabase.eventsOf, withEvent, List.filter_append, List.filter_cons_of_neg]
  · exact List.append_nil _
  · rw [decide_eq_true_eq]
    exact Ne.symm hid

/-- A listing with a limit that the history does not reach. -/
theorem EventDatabase.listRunEvents_eq {limit : Nat} (h : db.Numbered) (htext : isText id = true)
    (hpos : 0 < limit) (hlimit : (db.eventsOf id).length ≤ limit) :
    db.listRunEvents id limit = .ok ((db.eventsOf id).map EventRow.scan) := by
  have hsort : (db.eventsOf id).reverse.insertionSort (fun a b => a.sequence ≤ b.sequence)
      = db.eventsOf id :=
    insertionSort_key_eq (fun _ _ => Iff.rfl) (List.reverse_perm _) (h.eventsOf id)
  rw [listRunEvents, if_neg (by simp [htext])]
  simp only [if_neg hpos.ne']
  rw [newestFirst_eq (h.eventsOf id), List.take_of_length_le (by rwa [List.length_reverse]), hsort]

/-- The second cut of the store. -/
theorem cut_eq_rtake {α : Type} {n : Nat} (hn : 0 < n) (l : List α) :
    (if 0 < n ∧ n < l.length then l.drop (l.length - n) else l) = l.rtake n := by
  split
  · rfl
  · rw [List.rtake, Nat.sub_eq_zero_of_le (by omega), List.drop_zero]

theorem EventMemory.appendRunEvent_eq {m : EventMemory} {retention : Int} {n : Nat} {now : Time}
    (hretention : 0 < retention) (hn : 0 < n) (hknown : (m.runs.lookup event.runID).isSome) :
    m.appendRunEvent event retention n now
      = .ok { m with
          runEvents := m.runEvents.insert event.runID
            (((Table.getD m.runEvents event.runID [] ++ [event]).dropWhile
              fun e => e.timestamp < now - retention).rtake n) } := by
  obtain ⟨run, hrun⟩ := Option.isSome_iff_exists.mp hknown
  rw [appendRunEvent, hrun]
  simp only [if_pos hretention, cut_eq_rtake hn]

end Statements

/-! ### Sequences of regular calls -/

section Sequences

variable {retention : Int} {n : Nat} {s t : Histories} {call : Append} {id : String}

theorem runEventsOf_append (calls : List Append) (call : Append) :
    runEventsOf (calls ++ [call]) call.event.runID
      = runEventsOf calls call.event.runID ++ [call.event] := by
  rw [runEventsOf, List.map_append, List.filter_append]
  congr 1
  exact List.filter_cons_of_pos (decide_eq_true rfl)

theorem runEventsOf_append_ne {calls : List Append} (hid : id ≠ call.event.runID) :
    runEventsOf (calls ++ [call]) id = runEventsOf calls id := by
  rw [runEventsOf, List.map_append, List.filter_append, List.map_singleton,
    List.filter_cons_of_neg]
  · exact List.append_nil _
  · rw [decide_eq_true_eq]
    exact Ne.symm hid

theorem exists_call_of_mem {calls : List Append} {event : BusEvent}
    (h : event ∈ runEventsOf calls id) : ∃ c ∈ calls, c.event = event :=
  List.mem_map.mp (List.mem_of_mem_filter h)

theorem Regular.oldFirst (h : Regular retention s call) (id : String) :
    OldFirst (call.expires retention) (runEventsOf (s.calls ++ [call]) id) := by
  rw [OldFirst, runEventsOf, List.pairwise_filter, List.pairwise_map]
  refine h.order.imp ?_
  intro a b hab ha hb
  exact hab ((of_decide_eq_true ha).trans (of_decide_eq_true hb).symm)

/-- A call before has found the event expired. -/
def Histories.Past (retention : Int) (s : Histories) (event : BusEvent) : Prop :=
  ∃ prev ∈ s.calls, prev.expires retention event = true

/-- Both histories are windows over the events of the calls. -/
structure HistoriesInv (retention : Int) (n : Nat) (s : Histories) : Prop where
  numbered : s.database.Numbered
  ids : ∀ row ∈ s.database.runEvents, row.eventID ∈ s.calls.map fun prev => prev.event.id
  distinct : (s.calls.map fun prev => prev.event.id).Nodup
  memory : ∀ id, Kept n (s.Past retention) (runEventsOf s.calls id)
    (Table.getD s.memory.runEvents id [])
  database : ∀ id, ∃ kept, Kept n (s.Past retention) (runEventsOf s.calls id) kept ∧
    (s.database.eventsOf id).map EventRow.scan = kept.map BusEvent.stored

theorem Regular.past (h : Regular retention s call) {event : BusEvent}
    (hmem : event ∈ runEventsOf (s.calls ++ [call]) id) (hpast : s.Past retention event) :
    call.expires retention event = true := by
  obtain ⟨prev, hprev, hexpired⟩ := hpast
  obtain ⟨c, hc, rfl⟩ := exists_call_of_mem hmem
  exact h.clock prev hprev c hc hexpired

/-- The rows that the second deletion leaves. -/
theorem Regular.map_retained (h : Regular retention s call) {rows : List EventRow}
    {kept : List BusEvent} (hrows : rows.map EventRow.scan = kept.map BusEvent.stored)
    (hkept : kept ⊆ runEventsOf (s.calls ++ [call]) id) :
    (rows.filter fun row => !(row.timestamp < timestamp (call.now - retention))).map EventRow.scan
      = (kept.filter fun event => !call.expires retention event).map BusEvent.stored := by
  have hscan : (rows.filter fun row =>
      !(row.timestamp < timestamp (call.now - retention))).map EventRow.scan
        = (rows.map EventRow.scan).filter fun event =>
          !(event.timestamp < timestamp (call.now - retention)) := by
    rw [List.filter_map]
    rfl
  rw [hscan, hrows, List.filter_map]
  congr 1
  refine List.filter_congr fun event hevent => ?_
  obtain ⟨c, hc, rfl⟩ := exists_call_of_mem (hkept hevent)
  show (!decide (timestamp c.event.timestamp < _)) = !decide (c.event.timestamp < _)
  rw [decide_eq_decide.mpr (h.cutoff c hc)]

theorem map_rtake {α β : Type} (f : α → β) (l : List α) : (l.rtake n).map f = (l.map f).rtake n := by
  rw [List.rtake, List.rtake, List.map_drop, List.length_map]

/-- The stores after a call. -/
theorem HistoriesInv.historyStep_eq (hretention : 0 < retention) (hn : 0 < n)
    (h : HistoriesInv retention n s) (hcall : Regular retention s call) :
    historyStep retention n s call = some
      { memory := { s.memory with
          runEvents := s.memory.runEvents.insert call.event.runID
            (((Table.getD s.memory.runEvents call.event.runID [] ++ [call.event]).dropWhile
              (call.expires retention)).rtake n) }
        database := ((s.database.withEvent call.event).limitHistory call.event.runID n).retain
          (call.now - retention)
        calls := s.calls ++ [call] } := by
  have hfresh : ∀ row ∈ s.database.runEvents, row.eventID ≠ call.event.id :=
    fun row hrow heq => hcall.fresh (heq ▸ h.ids row hrow)
  rw [historyStep, EventMemory.appendRunEvent_eq hretention hn hcall.known,
    EventDatabase.appendRunEvent_eq hretention hn hcall.encodes hcall.checks hcall.references hfresh]
  rfl

/-- The history of the Run in the store. -/
theorem HistoriesInv.memory_eq (h : HistoriesInv retention n s) (hcall : Regular retention s call) :
    ((Table.getD s.memory.runEvents call.event.runID [] ++ [call.event]).dropWhile
        (call.expires retention)).rtake n
      = ((runEventsOf (s.calls ++ [call]) call.event.runID).rtake n).filter
        fun event => !call.expires retention event := by
  have hkept := (h.memory call.event.runID).append call.event
  rw [← runEventsOf_append] at hkept
  rw [(hkept.oldFirst (hcall.oldFirst _)).dropWhile_eq]
  exact hkept.filter_rtake (hcall.oldFirst _) fun _ => hcall.past

/-- The history of the Run in the table. -/
theorem HistoriesInv.database_eq (hn : 0 < n) (h : HistoriesInv retention n s)
    (hcall : Regular retention s call) :
    ((((s.database.withEvent call.event).limitHistory call.event.runID n).retain
        (call.now - retention)).eventsOf call.event.runID).map EventRow.scan
      = (((runEventsOf (s.calls ++ [call]) call.event.runID).rtake n).filter
        fun event => !call.expires retention event).map BusEvent.stored := by
  obtain ⟨kept, hkept, hrows⟩ := h.database call.event.runID
  have hwindow := hkept.append call.event
  rw [← runEventsOf_append] at hwindow
  have hlimited : (((s.database.withEvent call.event).limitHistory call.event.runID n).eventsOf
      call.event.runID).map EventRow.scan = ((kept ++ [call.event]).rtake n).map BusEvent.stored := by
    rw [EventDatabase.eventsOf_limitHistory hn ((h.numbered.withEvent call.event).eventsOf _),
      EventDatabase.eventsOf_withEvent, map_rtake, map_rtake, List.map_append, List.map_append,
      hrows, List.map_singleton, EventRow.scan_ofEvent, List.map_singleton]
  rw [EventDatabase.eventsOf_retain, hcall.map_retained hlimited hwindow.rtake.subset,
    hwindow.rtake_filter (hcall.oldFirst _) fun _ => hcall.past]

theorem historiesInv_init (m : Memory) (db : Database) :
    HistoriesInv retention n
      { memory := { toMemory := m }, database := { toDatabase := db } } where
  numbered := ⟨List.Pairwise.nil, fun _ h => absurd h List.not_mem_nil⟩
  ids _ h := absurd h List.not_mem_nil
  distinct := List.nodup_nil
  memory _ := Kept.nil
  database _ := ⟨[], Kept.nil, rfl⟩

theorem HistoriesInv.step (hretention : 0 < retention) (hn : 0 < n)
    (h : HistoriesInv retention n s) (hcall : Regular retention s call)
    (ht : historyStep retention n s call = some t) : HistoriesInv retention n t := by
  obtain rfl := Option.some.inj ((h.historyStep_eq hretention hn hcall).symm.trans ht)
  -- an event that has expired before, or that this call finds expired
  have hpast : ∀ {t : Histories}, t.calls = s.calls ++ [call] →
      (∀ event, s.Past retention event → t.Past retention event) ∧
        ∀ event, call.expires retention event = true → t.Past retention event := by
    intro t hcalls
    refine ⟨fun event => ?_, fun event hexpired => ?_⟩
    · rintro ⟨prev, hprev, hexpired⟩
      exact ⟨prev, hcalls ▸ List.mem_append_left _ hprev, hexpired⟩
    · exact ⟨call, hcalls ▸ List.mem_append_right _ List.mem_cons_self, hexpired⟩
  refine ⟨?_, ?_, ?_, fun id => ?_, fun id => ?_⟩
  · exact (h.numbered.withEvent call.event).deleted
      (List.filter_sublist.trans List.filter_sublist) rfl
  · intro row hrow
    rw [List.map_append, List.mem_append]
    rcases List.mem_append.mp (List.mem_of_mem_filter (List.mem_of_mem_filter hrow)) with hrow | hrow
    · exact .inl (h.ids row hrow)
    · rw [List.mem_singleton.mp hrow]
      exact .inr List.mem_cons_self
  · rw [List.map_append]
    exact h.distinct.append (List.nodup_singleton _) (by simpa using hcall.fresh)
  · by_cases hid : id = call.event.runID
    · subst hid
      rw [Table.getD_insert_self, h.memory_eq hcall]
      have hkept := (h.memory call.event.runID).append call.event
      rw [← runEventsOf_append] at hkept
      exact hkept.newest (hcall.oldFirst _) (fun _ => hcall.past) (hpast rfl).1
        fun event _ => (hpast rfl).2 event
    · rw [Table.getD_insert_ne _ _ _ hid, runEventsOf_append_ne hid]
      exact (h.memory id).mono (hpast rfl).1
  · by_cases hid : id = call.event.runID
    · subst hid
      refine ⟨_, ?_, h.database_eq hn hcall⟩
      obtain ⟨kept, hkept, -⟩ := h.database call.event.runID
      have hwindow := hkept.append call.event
      rw [← runEventsOf_append] at hwindow
      exact hwindow.newest (hcall.oldFirst _) (fun _ => hcall.past) (hpast rfl).1
        fun event _ => (hpast rfl).2 event
    · -- the rows of another Run: those that have expired are deleted with the others
      obtain ⟨kept, hkept, hrows⟩ := h.database id
      rw [← runEventsOf_append_ne hid] at hkept
      refine ⟨_, hkept.filter (hcall.oldFirst id) (hpast rfl).1 fun event _ => (hpast rfl).2 event,
        ?_⟩
      rw [EventDatabase.eventsOf_retain, EventDatabase.eventsOf_limitHistory_ne hid,
        EventDatabase.eventsOf_withEvent_ne hid]
      exact hcall.map_retained hrows hkept.subset

end Sequences

section Agreement

variable {retention : Int} {maxPerRun : Nat} {m : Memory} {db : Database} {s t : Histories}
  {call : Append}

theorem historiesInv_runs (hretention : 0 < retention) (hmax : 0 < maxPerRun)
    (hs : Runs (historyStep retention maxPerRun) (Regular retention)
      { memory := { toMemory := m }, database := { toDatabase := db } } s) :
    HistoriesInv retention maxPerRun s :=
  hs.invariant (historiesInv_init m db) fun hu hcall ha => hu.step hretention hmax hcall ha

/-- Where no ID is repeated, all events of the Run count. -/
theorem newestEvents_eq {calls : List Append}
    (h : (calls.map fun prev => prev.event.id).Nodup) :
    newestEvents retention maxPerRun calls call
      = ((runEventsOf calls call.event.runID).rtake maxPerRun).filter
        fun event => !call.expires retention event := by
  have hids : ((runEventsOf calls call.event.runID).map BusEvent.id).Nodup := by
    refine List.Nodup.sublist (List.filter_sublist.map BusEvent.id) ?_
    rw [List.map_map]
    exact h
  rw [newestEvents, Keyed.addAll_of_nodup hids]

theorem length_rtake_le {α : Type} (l : List α) : (l.rtake maxPerRun).length ≤ maxPerRun := by
  rw [List.rtake, List.length_drop]
  omega

theorem map_stored_eq_self_iff {events : List BusEvent} :
    events.map BusEvent.stored = events ↔
      ∀ event ∈ events, timestamp event.timestamp = event.timestamp := by
  have hstored : ∀ event : BusEvent,
      event.stored = event ↔ timestamp event.timestamp = event.timestamp := by
    intro event
    exact ⟨congrArg BusEvent.timestamp, fun h => by rw [BusEvent.stored, h]⟩
  have hmap : events.map BusEvent.stored = events.map id ↔
      ∀ event ∈ events, event.stored = id event := List.map_inj_left
  rw [List.map_id] at hmap
  rw [hmap]
  exact forall₂_congr fun event _ => hstored event

/-- **Event histories.**  After each of a sequence of regular calls, both stores list for the Run
the newest `maxPerRun` events with different IDs, in the order of the calls and without those
that have expired; the database with timestamps of whole microseconds.  So the lists are the same
if and only if the timestamps in them are whole microseconds. -/
theorem histories_agree (hretention : 0 < retention) (hmax : 0 < maxPerRun)
    (hs : Runs (historyStep retention maxPerRun) (Regular retention)
      { memory := { toMemory := m }, database := { toDatabase := db } } s)
    (hcall : Regular retention s call) (ht : historyStep retention maxPerRun s call = some t)
    {limit : Nat} (hlimit : maxPerRun ≤ limit) :
    t.memory.listRunEvents call.event.runID limit
        = .ok (newestEvents retention maxPerRun t.calls call) ∧
      t.database.listRunEvents call.event.runID limit
        = .ok ((newestEvents retention maxPerRun t.calls call).map BusEvent.stored) ∧
      (t.memory.listRunEvents call.event.runID limit
          = t.database.listRunEvents call.event.runID limit ↔
        ∀ event ∈ newestEvents retention maxPerRun t.calls call,
          timestamp event.timestamp = event.timestamp) := by
  have hinv := historiesInv_runs hretention hmax hs
  have hinv' := hinv.step hretention hmax hcall ht
  have hspec : newestEvents retention maxPerRun t.calls call = _ := newestEvents_eq hinv'.distinct
  have hlength : (newestEvents retention maxPerRun t.calls call).length ≤ limit := by
    rw [hspec]
    exact (List.length_filter_le _ _).trans ((length_rtake_le _).trans hlimit)
  have heq := Option.some.inj ((hinv.historyStep_eq hretention hmax hcall).symm.trans ht)
  have hmemory : t.memory.listRunEvents call.event.runID limit
      = .ok (newestEvents retention maxPerRun t.calls call) := by
    subst heq
    obtain ⟨run, hrun⟩ := Option.isSome_iff_exists.mp hcall.known
    rw [EventMemory.listRunEvents, hrun]
    simp only [Table.getD_insert_self, hinv.memory_eq hcall, ← hspec]
    rw [if_neg fun h => not_lt.mpr hlength h.2]
  have hrows : (t.database.eventsOf call.event.runID).map EventRow.scan
      = (newestEvents retention maxPerRun t.calls call).map BusEvent.stored := by
    rw [hspec]
    subst heq
    exact hinv.database_eq hmax hcall
  have hdatabase : t.database.listRunEvents call.event.runID limit
      = .ok ((newestEvents retention maxPerRun t.calls call).map BusEvent.stored) := by
    rw [EventDatabase.listRunEvents_eq hinv'.numbered ?_ (hmax.trans_le hlimit) ?_, hrows]
    · have hencodes := hcall.encodes
      simp only [EventRow.encodes, EventRow.ofEvent, List.all_cons, Bool.and_eq_true] at hencodes
      exact hencodes.1.1.1.1.2.1
    · have hcount := congrArg List.length hrows
      rw [List.length_map, List.length_map] at hcount
      exact hcount ▸ hlength
  refine ⟨hmemory, hdatabase, ?_⟩
  rw [hmemory, hdatabase, Except.ok.injEq, eq_comm, map_stored_eq_self_iff]

end Agreement

/-! ### Two sequences -/

instance (retention : Int) (s : Histories) (call : Append) :
    Decidable (Regular retention s call) :=
  decidable_of_iff
    ((s.memory.runs.lookup call.event.runID).isSome ∧
      (EventRow.ofEvent (s.database.lastSequence + 1) call.event).encodes = true ∧
      (EventRow.ofEvent (s.database.lastSequence + 1) call.event).checks = true ∧
      s.database.eventReferences
        (EventRow.ofEvent (s.database.lastSequence + 1) call.event) = true ∧
      call.event.id ∉ (s.calls.map fun prev => prev.event.id) ∧
      (∀ c ∈ s.calls ++ [call], timestamp c.event.timestamp < timestamp (call.now - retention) ↔
        c.event.timestamp < call.now - retention) ∧
      (∀ prev ∈ s.calls, ∀ c ∈ s.calls ++ [call],
        prev.expires retention c.event = true → call.expires retention c.event = true) ∧
      (s.calls ++ [call]).Pairwise fun a b => a.event.runID = b.event.runID →
        call.expires retention b.event = true → call.expires retention a.event = true)
    ⟨fun ⟨h₁, h₂, h₃, h₄, h₅, h₆, h₇, h₈⟩ => ⟨h₁, h₂, h₃, h₄, h₅, h₆, h₇, h₈⟩,
      fun h => ⟨h.known, h.encodes, h.checks, h.references, h.fresh, h.cutoff, h.clock, h.order⟩⟩

/-- Both stores with the Run `run_1`. -/
def oneRun : Histories where
  memory := { runs := AList.singleton "run_1" { id := "run_1", agentID := "a" } }
  database := { runs := [RunRow.ofRun { id := "run_1", agentID := "a" } none none ""] }

def historyEvent (id : String) (timestamp : Time) : BusEvent :=
  { runID := "run_1", type := "run.started", id := id, timestamp := timestamp }

/-- Three events, the first of which has expired when the third is appended. -/
theorem histories_agree_expired :
    ∃ s t : Histories, Runs (historyStep 5000 2) (Regular 5000) oneRun s ∧
      historyStep 5000 2 s ⟨historyEvent "evt_3" 9000, 9000⟩ = some t ∧
      t.memory.listRunEvents "run_1" 2 = .ok [historyEvent "evt_2" 6000, historyEvent "evt_3" 9000] ∧
      t.memory.listRunEvents "run_1" 2 = t.database.listRunEvents "run_1" 2 := by
  obtain ⟨s, hs, hregular, hevents, hwhole⟩ :
      ∃ s, exec (guarded (historyStep 5000 2) fun s call => decide (Regular 5000 s call)) oneRun
          [⟨historyEvent "evt_1" 1000, 1000⟩, ⟨historyEvent "evt_2" 6000, 6000⟩] = some s ∧
        Regular 5000 s ⟨historyEvent "evt_3" 9000, 9000⟩ ∧
        newestEvents 5000 2 (s.calls ++ [⟨historyEvent "evt_3" 9000, 9000⟩])
          ⟨historyEvent "evt_3" 9000, 9000⟩
            = [historyEvent "evt_2" 6000, historyEvent "evt_3" 9000] ∧
        ∀ event ∈ newestEvents 5000 2 (s.calls ++ [⟨historyEvent "evt_3" 9000, 9000⟩])
          ⟨historyEvent "evt_3" 9000, 9000⟩, timestamp event.timestamp = event.timestamp := by
    refine exists_of_any ?_
    decide +kernel
  have hruns : Runs (historyStep 5000 2) (Regular 5000) oneRun s :=
    runs_exec_guarded (fun _ _ h => of_decide_eq_true h) hs
  obtain ⟨hmemory, -, hsame⟩ :=
    histories_agree (by decide) (by decide) hruns hregular rfl (Nat.le_refl 2)
  exact ⟨s, _, hruns, rfl, hmemory.trans (congrArg Except.ok hevents), hsame.mpr hwhole⟩

/-- An event is appended twice, as when it is delivered twice: the store lists it twice, the
database once. -/
theorem repeated_event_is_listed_twice :
    ∃ s, exec (historyStep 5000 2) oneRun
        [⟨historyEvent "evt_1" 1000, 1000⟩, ⟨historyEvent "evt_1" 1000, 1000⟩] = some s ∧
      (s.memory.listRunEvents "run_1" 2).toOption
        = some [historyEvent "evt_1" 1000, historyEvent "evt_1" 1000] ∧
      (s.database.listRunEvents "run_1" 2).toOption = some [historyEvent "evt_1" 1000] ∧
      newestEvents 5000 2 s.calls ⟨historyEvent "evt_1" 1000, 1000⟩
        = [historyEvent "evt_1" 1000] := by
  refine exists_of_any ?_
  decide +kernel

end AgentMesh
