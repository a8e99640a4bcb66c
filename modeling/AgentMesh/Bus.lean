/-
AgentMesh/Bus.lean

The event bus of `internal/events/bus.go`: per Run a bounded history, the set
of event IDs that it has seen, and the channels of its subscribers.

`Publish` drops an event whose ID the bus has seen, and otherwise appends it to
the history and offers it to every channel of the Run; a channel that is full
is passed over.  `subscribe` merges the persisted history that it is given (the
bus over NATS loads it from the store, the plain bus gives none) with its own,
keeps the newest events, and fills a new channel with them.

A channel carries three fields that no code reads: what it was filled with,
which events have reached the bus since, and whether one was passed over.
-/
import AgentMesh.Keyed
import AgentMesh.Engine
import AgentMesh.Machine

namespace AgentMesh

/-! ### Events -/

/-- `domain.RunEvent` with the fields that the bus fills in. -/
structure BusEvent extends RunEvent where
  id : String := ""
  message : String := ""
  timestamp : Time := 0
  deriving DecidableEq, Repr

/-- What `prepare` draws: the time, and an ID made of it and of random bytes. -/
structure Draw where
  now : Time := 0
  newID : String := ""

def prepare (d : Draw) (event : BusEvent) : BusEvent :=
  { event with
    timestamp := if event.timestamp = 0 then d.now else event.timestamp
    id := if event.id = "" then d.newID else event.id }

/-- Events that `prepare` leaves as they are, such as those that were published before. -/
def BusEvent.Prepared (event : BusEvent) : Prop := event.id ≠ "" ∧ event.timestamp ≠ 0

instance (event : BusEvent) : Decidable event.Prepared := by
  unfold BusEvent.Prepared; infer_instance

theorem BusEvent.Prepared.prepare_eq {event : BusEvent} (h : event.Prepared) (d : Draw) :
    prepare d event = event := by
  simp [prepare, h.1, h.2]

def prepareAll (draws : Nat → Draw) (events : List BusEvent) : List BusEvent :=
  events.mapIdx fun i event => prepare (draws i) event

theorem prepareAll_eq {events : List BusEvent} (h : ∀ event ∈ events, event.Prepared)
    (draws : Nat → Draw) : prepareAll draws events = events := by
  refine List.ext_getElem (by simp [prepareAll]) fun i _ hi => ?_
  simp only [prepareAll, List.getElem_mapIdx]
  exact (h _ (List.getElem_mem hi)).prepare_eq (draws i)

/-! ### The bus -/

structure Bus where
  /-- The channels of each Run. -/
  subscribers : Table (List Nat) := ∅
  history : Table (List BusEvent) := ∅
  seen : Table (List String) := ∅
  /-- No limit if negative. -/
  maxHistory : Int := 128

namespace Bus

def subscribersOf (b : Bus) (runID : String) : List Nat := Table.getD b.subscribers runID []

def historyOf (b : Bus) (runID : String) : List BusEvent := Table.getD b.history runID []

def seenOf (b : Bus) (runID : String) : List String := Table.getD b.seen runID []

def hasSeen (b : Bus) (event : BusEvent) : Bool := event.id ∈ b.seenOf event.runID

def remember (b : Bus) (event : BusEvent) : Bus :=
  { b with seen := b.seen.insert event.runID (b.seenOf event.runID ++ [event.id]) }

def replaceHistory (b : Bus) (runID : String) (history : List BusEvent) : Bus :=
  { b with
    history := b.history.insert runID history
    seen := b.seen.insert runID (history.map BusEvent.id) }

/-- A history is longer than the bus keeps it. -/
def overflows (b : Bus) (history : List BusEvent) : Bool :=
  0 ≤ b.maxHistory && b.maxHistory < history.length

/-- The newest events, as many as the bus keeps. -/
def newest (b : Bus) (history : List BusEvent) : List BusEvent :=
  if b.overflows history then history.drop (history.length - b.maxHistory.toNat) else history

/-- `Publish` of a prepared event: the new bus and the channels that are offered the event. -/
def publish (b : Bus) (event : BusEvent) : Bus × List Nat :=
  if b.hasSeen event then (b, [])
  else
    let b := b.remember event
    let b := { b with
      history := b.history.insert event.runID (b.historyOf event.runID ++ [event]) }
    let history := b.historyOf event.runID
    let b := if b.overflows history then b.replaceHistory event.runID (b.newest history) else b
    (b, b.subscribersOf event.runID)

/-- The two loops that fill `merged`. -/
def merged (b : Bus) (runID : String) (persisted : List BusEvent) : List BusEvent :=
  Keyed.addAll BusEvent.id (Keyed.addAll BusEvent.id [] persisted) (b.historyOf runID)

/-- `subscribe` with prepared events: the new bus and what the channel `ch` is filled with. -/
def subscribe (b : Bus) (runID : String) (persisted : List BusEvent) (ch : Nat) :
    Bus × List BusEvent :=
  let history := b.newest (b.merged runID persisted)
  let b := b.replaceHistory runID history
  ({ b with subscribers := b.subscribers.insert runID (b.subscribersOf runID ++ [ch]) }, history)

def unsubscribe (b : Bus) (runID : String) (ch : Nat) : Bus :=
  match b.subscribers.lookup runID with
  | none => b
  | some subscribers =>
      let rest := subscribers.filter fun n => n ≠ ch
      { b with
        subscribers := if rest = [] then b.subscribers.erase runID
          else b.subscribers.insert runID rest }

end Bus

/-! ### The bus with its channels -/

structure Channel where
  runID : String
  capacity : Nat
  queue : List BusEvent
  /-- What the subscriber has taken out. -/
  received : List BusEvent := []
  /-- What the channel was filled with. -/
  replay : List BusEvent
  /-- The events that have reached the bus since, while the channel was subscribed. -/
  arrivals : List BusEvent := []
  /-- The channel was full when an event was offered. -/
  missed : Bool := false
  deriving DecidableEq

/-- `select { case ch <- event: default: }`. -/
def Channel.offer (ch : Channel) (event : BusEvent) : Channel :=
  if ch.queue.length < ch.capacity then { ch with queue := ch.queue ++ [event] }
  else { ch with missed := true }

structure BusState where
  bus : Bus
  channels : Nat → Option Channel := fun _ => none
  /-- The events that have reached the bus, by Run, each at its first time. -/
  reached : Table (List BusEvent) := ∅

inductive BusAction
  | publish (event : BusEvent) (d : Draw)
  /-- `Subscribe` has no persisted events, `SubscribeWithHistory` any. -/
  | subscribe (ch : Nat) (runID : String) (persisted : List BusEvent) (draws : Nat → Draw)
  | unsubscribe (ch : Nat)
  /-- The subscriber takes the next event out of its channel. -/
  | receive (ch : Nat)

def BusState.reachedOf (s : BusState) (runID : String) : List BusEvent :=
  Table.getD s.reached runID []

/-- The events among the given ones that have not reached the bus before. -/
def BusState.newTo (s : BusState) (runID : String) (events : List BusEvent) : List BusEvent :=
  (Keyed.addAll BusEvent.id (s.reachedOf runID) events).drop (s.reachedOf runID).length

/-- Events reach the bus: the channels of their Run take note. -/
def BusState.reach (s : BusState) (runID : String) (events : List BusEvent) : BusState :=
  { s with
    reached := s.reached.insert runID (s.reachedOf runID ++ s.newTo runID events)
    channels := fun n =>
      if n ∈ s.bus.subscribersOf runID then
        (s.channels n).map fun ch => { ch with arrivals := ch.arrivals ++ s.newTo runID events }
      else s.channels n }

/-- An event is offered to channels. -/
def BusState.offer (s : BusState) (event : BusEvent) (targets : List Nat) : BusState :=
  { s with
    channels := fun n =>
      if n ∈ targets then (s.channels n).map fun ch => ch.offer event else s.channels n }

def BusState.setChannel (s : BusState) (n : Nat) (ch : Channel) : BusState :=
  { s with channels := Function.update s.channels n (some ch) }

def busStep (s : BusState) : BusAction → Option BusState
  | .publish event d =>
      let event := prepare d event
      let (bus, targets) := s.bus.publish event
      some { (s.reach event.runID [event]).offer event targets with bus := bus }
  | .subscribe n runID persisted draws =>
      match s.channels n with
      | some _ => none
      | none =>
          let persisted := prepareAll draws persisted
          let (bus, history) := s.bus.subscribe runID persisted n
          some { (s.reach runID persisted).setChannel n
            { runID := runID, capacity := history.length + 16, queue := history
              replay := history } with bus := bus }
  | .unsubscribe n =>
      (s.channels n).map fun ch => { s with bus := s.bus.unsubscribe ch.runID n }
  | .receive n =>
      match s.channels n with
      | none => none
      | some ch =>
          match ch.queue with
          | [] => none
          | event :: rest =>
              some (s.setChannel n { ch with queue := rest, received := ch.received ++ [event] })

end AgentMesh
