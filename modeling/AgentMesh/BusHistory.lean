/-
AgentMesh/BusHistory.lean

The representation of the event bus.

The bus drops duplicates by the set of IDs that it has seen, and replays its
history to new subscribers.  Both are changed in three ways: an event is
appended, the history is trimmed, and it is replaced by a merge with persisted
events.  `Bus.HistoryOk` says that they stay in step, whatever the order of the
calls: the seen IDs are those of the history, none of them is there twice, and
the history is not longer than the bus keeps it.

A subscriber is handed a channel that `subscribe` fills while it holds the lock
and before anybody can read from it, so a send that found it full would block
for ever.  `openChannel` is that loop, and it never does.
-/
import AgentMesh.BusDelivery

namespace AgentMesh

open Machine

/-! ### Histories -/

/-- What the bus has of a Run is in order. -/
structure Bus.HistoryOk (b : Bus) (id : String) : Prop where
  seen : ∀ k, k ∈ b.seenOf id ↔ k ∈ (b.historyOf id).map BusEvent.id
  once : ((b.historyOf id).map BusEvent.id).Nodup
  bounded : (b.historyOf id).length ≤ b.maxHistory

section Histories

variable {b b' : Bus} {event : BusEvent} {id runID : String} {history : List BusEvent}

theorem Bus.HistoryOk.of_sameAt (h : b.HistoryOk id) (hsame : b.SameAt b' id)
    (hmax : b'.maxHistory = b.maxHistory) : b'.HistoryOk id := by
  refine ⟨?_, ?_, ?_⟩
  · rw [hsame.seen, hsame.history]
    exact h.seen
  · rw [hsame.history]
    exact h.once
  · rw [hsame.history, hmax]
    exact h.bounded

/-- The newest events of a history without repeated IDs. -/
theorem Bus.newest_ok (hmax : 0 ≤ b.maxHistory) (hnodup : (history.map BusEvent.id).Nodup) :
    ((b.newest history).map BusEvent.id).Nodup ∧ (b.newest history).length ≤ b.maxHistory := by
  rw [Bus.newest]
  split
  · rename_i hover
    simp only [Bus.overflows, Bool.and_eq_true, decide_eq_true_eq] at hover
    refine ⟨((List.drop_sublist _ history).map BusEvent.id).nodup hnodup, ?_⟩
    rw [List.length_drop]
    omega
  · rename_i hfits
    simp only [Bus.overflows, Bool.and_eq_true, decide_eq_true_eq, not_and, not_lt] at hfits
    exact ⟨hnodup, hfits hmax⟩

/-- A history that replaces another brings its own set of IDs. -/
theorem Bus.HistoryOk.replace (hnodup : (history.map BusEvent.id).Nodup)
    (hlength : history.length ≤ b.maxHistory) : (b.replaceHistory runID history).HistoryOk runID := by
  have hhistory : (b.replaceHistory runID history).historyOf runID = history :=
    Table.getD_insert_self _ _ _ _
  have hseen : (b.replaceHistory runID history).seenOf runID = history.map BusEvent.id :=
    Table.getD_insert_self _ _ _ _
  refine ⟨?_, ?_, ?_⟩
  · rw [hhistory, hseen]
    exact fun _ => Iff.rfl
  · rw [hhistory]
    exact hnodup
  · rw [hhistory]
    exact hlength

theorem Bus.publish_maxHistory : (b.publish event).1.maxHistory = b.maxHistory := by
  rw [Bus.publish]
  split
  · rfl
  · simp only
    split <;> rfl

theorem Bus.HistoryOk.publish (hmax : 0 ≤ b.maxHistory) (h : ∀ id, b.HistoryOk id)
    (event : BusEvent) (id : String) : (b.publish event).1.HistoryOk id := by
  by_cases hid : id = event.runID
  · subst hid
    obtain ⟨hseen, honce, hbounded⟩ := h event.runID
    rcases hnew : b.hasSeen event with - | -
    · have hfresh : event.id ∉ (b.historyOf event.runID).map BusEvent.id := by
        rw [← hseen]
        simpa [Bus.hasSeen] using hnew
      have honce' : ((b.historyOf event.runID ++ [event]).map BusEvent.id).Nodup := by
        rw [List.map_append]
        exact honce.append (List.nodup_singleton _) (by simpa using hfresh)
      rcases hover : b.overflows (b.historyOf event.runID ++ [event]) with - | -
      · -- there is room: both are extended
        obtain ⟨hhistory, hseen'⟩ := Bus.publish_new hnew hover
        refine ⟨?_, ?_, ?_⟩
        · intro k
          rw [hhistory, hseen', List.mem_append, List.map_append, List.mem_append, hseen]
          exact Iff.rfl
        · rw [hhistory]
          exact honce'
        · rw [hhistory, Bus.publish_maxHistory]
          simpa [Bus.overflows, hmax] using hover
      · obtain ⟨hnodup, hlength⟩ := Bus.newest_ok hmax honce'
        rw [Bus.publish_new_eq hnew, hover, if_pos rfl]
        exact .replace hnodup hlength
    · rw [Bus.publish, hnew]
      exact h event.runID
  · exact (h id).of_sameAt (Bus.publish_other hid) Bus.publish_maxHistory

theorem Bus.subscribe_history (b : Bus) (runID : String) (persisted : List BusEvent) (n : Nat) :
    (b.subscribe runID persisted n).1.historyOf runID = (b.subscribe runID persisted n).2 :=
  Table.getD_insert_self _ _ _ _

theorem Bus.HistoryOk.subscribe (hmax : 0 ≤ b.maxHistory) (h : ∀ id, b.HistoryOk id)
    (runID : String) (persisted : List BusEvent) (n : Nat) (id : String) :
    (b.subscribe runID persisted n).1.HistoryOk id := by
  by_cases hid : id = runID
  · subst hid
    have hmerged : ((b.merged id persisted).map BusEvent.id).Nodup := Bus.nodup_merged
    obtain ⟨hnodup, hlength⟩ := Bus.newest_ok hmax hmerged
    have hreplaced : (b.replaceHistory id (b.newest (b.merged id persisted))).HistoryOk id :=
      .replace hnodup hlength
    exact ⟨hreplaced.seen, hreplaced.once, hreplaced.bounded⟩
  · exact (h id).of_sameAt (Bus.subscribe_other hid) rfl

theorem Bus.HistoryOk.unsubscribe (h : b.HistoryOk id) (runID : String) (n : Nat) :
    (b.unsubscribe runID n).HistoryOk id ∧
      (b.unsubscribe runID n).maxHistory = b.maxHistory := by
  rw [Bus.unsubscribe]
  split <;> exact ⟨⟨h.seen, h.once, h.bounded⟩, rfl⟩

end Histories

/-! ### Filling a channel -/

/-- `ch <- event` on a channel that nobody reads: a send into a full one never returns. -/
def Channel.send (ch : Channel) (event : BusEvent) : Option Channel :=
  if ch.queue.length < ch.capacity then some { ch with queue := ch.queue ++ [event] } else none

/-- The channel that `subscribe` makes and fills. -/
def openChannel (runID : String) (history : List BusEvent) : Option Channel :=
  history.foldlM Channel.send
    { runID := runID, capacity := history.length + 16, queue := [], replay := history }

/-- Sends for which there is room go through one after the other. -/
theorem foldlM_send {ch : Channel} {events : List BusEvent}
    (h : ch.queue.length + events.length ≤ ch.capacity) :
    events.foldlM Channel.send ch = some { ch with queue := ch.queue ++ events } := by
  induction events generalizing ch with
  | nil => simp
  | cons event events ih =>
      rw [List.length_cons] at h
      rw [List.foldlM_cons, Channel.send, if_pos (by omega)]
      show events.foldlM Channel.send { ch with queue := ch.queue ++ [event] } = _
      rw [ih (by simp; omega)]
      simp

theorem openChannel_eq (runID : String) (history : List BusEvent) :
    openChannel runID history = some
      { runID := runID, capacity := history.length + 16, queue := history, replay := history } := by
  rw [openChannel, foldlM_send (by simp)]
  rfl

/-! ### Runs of the bus -/

/-- The bus is in order for every Run. -/
structure BusInv (maxHistory : Int) (s : BusState) : Prop where
  limit : s.bus.maxHistory = maxHistory
  history : ∀ id, s.bus.HistoryOk id

section Runs

variable {maxHistory : Int} {s t : BusState}

theorem busInv_init (hmax : 0 ≤ maxHistory) :
    BusInv maxHistory { bus := { maxHistory := maxHistory } } := by
  refine ⟨rfl, fun id => ⟨fun k => ?_, ?_, ?_⟩⟩
  · exact Iff.rfl
  · exact List.nodup_nil
  · exact hmax

theorem BusInv.step (hmax : 0 ≤ maxHistory) {a : BusAction} (h : BusInv maxHistory s)
    (ha : busStep s a = some t) : BusInv maxHistory t := by
  have hmax' : 0 ≤ s.bus.maxHistory := h.limit ▸ hmax
  cases a with
  | publish event d =>
      obtain rfl := Option.some.inj ha
      exact ⟨Bus.publish_maxHistory.trans h.limit, .publish hmax' h.history _⟩
  | subscribe n runID persisted draws =>
      rw [busStep] at ha
      split at ha
      · cases ha
      · obtain rfl := Option.some.inj ha
        exact ⟨h.limit, .subscribe hmax' h.history runID _ n⟩
  | unsubscribe n =>
      obtain ⟨ch, -, rfl⟩ := Option.map_eq_some_iff.mp ha
      exact ⟨((h.history "").unsubscribe ch.runID n).2.trans h.limit,
        fun id => ((h.history id).unsubscribe ch.runID n).1⟩
  | receive n =>
      rw [busStep] at ha
      split at ha
      · cases ha
      · split at ha
        · cases ha
        · obtain rfl := Option.some.inj ha
          exact ⟨h.limit, h.history⟩

theorem busInv_runs (hmax : 0 ≤ maxHistory)
    (hs : Runs busStep Free { bus := { maxHistory := maxHistory } } s) : BusInv maxHistory s :=
  hs.invariant (busInv_init hmax) fun hu _ ha => hu.step hmax ha

end Runs

/-- **The bus keeps its representation.**  After any sequence of calls on a bus with a limit, for
every Run: the seen IDs are those of the history, no two events of the history have the same ID,
and it has at most as many events as the limit says.  A new subscriber can be added at any time,
the sends that fill its channel all go through, and the channel holds the history. -/
theorem bus_representation {maxHistory : Int} (hmax : 0 ≤ maxHistory) {s : BusState}
    (hs : Runs busStep Free { bus := { maxHistory := maxHistory } } s) :
    s.bus.maxHistory = maxHistory ∧ (∀ id, s.bus.HistoryOk id) ∧
      ∀ n runID persisted draws, s.channels n = none →
        ∃ t ch, busStep s (.subscribe n runID persisted draws) = some t ∧
          t.channels n = some ch ∧ openChannel runID (t.bus.historyOf runID) = some ch ∧
          ch.queue = t.bus.historyOf runID := by
  obtain ⟨hlimit, hhistory⟩ := busInv_runs hmax hs
  refine ⟨hlimit, hhistory, ?_⟩
  intro n runID persisted draws hfree
  have hfilled := Bus.subscribe_history s.bus runID (prepareAll draws persisted) n
  refine ⟨s.subscribe n runID (prepareAll draws persisted), _, ?_, subscribe_channels_self .., ?_,
    hfilled.symm⟩
  · rw [busStep, hfree]
    rfl
  · -- the loop over the history has room for each of its events
    show openChannel runID ((s.bus.subscribe runID (prepareAll draws persisted) n).1.historyOf runID)
      = _
    rw [hfilled, openChannel_eq]

/-- Two events on a bus that keeps one: the second has replaced the first, and a subscriber gets
the second alone. -/
theorem bus_representation_trimmed :
    ∃ s : BusState, Runs busStep Free { bus := { maxHistory := 1 } } s ∧
      s.bus.historyOf "run_1" = [startedEvent] ∧ s.bus.HistoryOk "run_1" ∧
      ∃ t ch, busStep s (.subscribe 0 "run_1" [] fun _ => {}) = some t ∧
        t.channels 0 = some ch ∧ ch.queue = t.bus.historyOf "run_1" := by
  obtain ⟨s, hs, hhistory, hfree⟩ :
      ∃ s, exec busStep { bus := { maxHistory := 1 } }
          [.publish queuedEvent {}, .publish startedEvent {}] = some s ∧
        s.bus.historyOf "run_1" = [startedEvent] ∧ (s.channels 0).isNone = true := by
    refine exists_of_any ?_
    decide
  have hruns : Runs busStep Free { bus := { maxHistory := 1 } } s :=
    runs_exec (fun _ _ => trivial) hs
  obtain ⟨-, hok, hopen⟩ := bus_representation (by decide) hruns
  obtain ⟨t, ch, ht, hch, -, hqueue⟩ :=
    hopen 0 "run_1" [] (fun _ => {}) (Option.isNone_iff_eq_none.mp hfree)
  exact ⟨s, hruns, hhistory, hok "run_1", t, ch, ht, hch, hqueue⟩

end AgentMesh
