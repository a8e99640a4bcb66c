/-
AgentMesh/BusDelivery.lean

What a subscriber of the event bus receives.

The set of seen IDs, by which the bus drops duplicates, is shared by all
subscribers of a Run, and a subscriber that brings a persisted history adds to
it.  An event that reaches the bus in this way is not offered to the others,
and when it is published later it counts as a duplicate
(`persisted_event_is_lost`).

As long as no subscriber brings an event that the bus has not seen while others
are subscribed, every subscriber receives its replay and then each event that
reaches the bus, in order and each ID once (`delivered_once`).
-/
import AgentMesh.Bus

namespace AgentMesh

open Machine

/-! ### What an operation does to one Run -/

/-- The bus keeps what it has of a Run. -/
structure Bus.SameAt (b b' : Bus) (id : String) : Prop where
  history : b'.historyOf id = b.historyOf id
  seen : b'.seenOf id = b.seenOf id
  subscribers : b'.subscribersOf id = b.subscribersOf id

section Operations

variable {b : Bus} {event : BusEvent} {id runID : String} {persisted : List BusEvent} {n : Nat}

theorem Bus.publish_other (hid : id ≠ event.runID) : b.SameAt (b.publish event).1 id := by
  rw [Bus.publish]
  split
  · exact ⟨rfl, rfl, rfl⟩
  · simp only
    split
    · exact ⟨by simp [historyOf, replaceHistory, remember, Table.getD_insert_ne, hid],
        by simp [seenOf, replaceHistory, remember, Table.getD_insert_ne, hid], rfl⟩
    · exact ⟨Table.getD_insert_ne _ _ _ hid, Table.getD_insert_ne _ _ _ hid, rfl⟩

theorem Bus.publish_subscribers (runID : String) :
    (b.publish event).1.subscribersOf runID = b.subscribersOf runID := by
  rw [Bus.publish]
  split
  · rfl
  · simp only
    split <;> rfl

theorem Bus.publish_targets :
    (b.publish event).2 = if b.hasSeen event then [] else b.subscribersOf event.runID := by
  rw [Bus.publish]
  split
  · rfl
  · simp only
    split <;> rfl

/-- The bus with a new event at the end of its Run's history. -/
def Bus.appended (b : Bus) (event : BusEvent) : Bus :=
  { b.remember event with
    history := (b.remember event).history.insert event.runID
      ((b.remember event).historyOf event.runID ++ [event]) }

theorem Bus.appended_historyOf :
    (b.appended event).historyOf event.runID = b.historyOf event.runID ++ [event] :=
  Table.getD_insert_self _ _ _ _

/-- A new event is appended, and the history cut back where it has grown too long. -/
theorem Bus.publish_new_eq (hnew : b.hasSeen event = false) :
    (b.publish event).1 = if b.overflows (b.historyOf event.runID ++ [event]) then
      (b.appended event).replaceHistory event.runID
        (b.newest (b.historyOf event.runID ++ [event]))
    else b.appended event := by
  rw [Bus.publish, hnew, if_neg Bool.false_ne_true]
  show (if (b.appended event).overflows ((b.appended event).historyOf event.runID) then
      (b.appended event).replaceHistory event.runID
        ((b.appended event).newest ((b.appended event).historyOf event.runID))
    else b.appended event) = _
  -- what is remembered does not change the limit
  rw [Bus.appended_historyOf]
  rfl

/-- A new event, for which there is room. -/
theorem Bus.publish_new (hnew : b.hasSeen event = false)
    (hfits : b.overflows (b.historyOf event.runID ++ [event]) = false) :
    (b.publish event).1.historyOf event.runID = b.historyOf event.runID ++ [event] ∧
      (b.publish event).1.seenOf event.runID = b.seenOf event.runID ++ [event.id] := by
  rw [Bus.publish_new_eq hnew, hfits, if_neg Bool.false_ne_true]
  exact ⟨Bus.appended_historyOf, Table.getD_insert_self _ _ _ _⟩

theorem Bus.subscribe_other (hid : id ≠ runID) : b.SameAt (b.subscribe runID persisted n).1 id :=
  ⟨Table.getD_insert_ne _ _ _ hid, Table.getD_insert_ne _ _ _ hid, Table.getD_insert_ne _ _ _ hid⟩

theorem Bus.subscribe_subscribers :
    (b.subscribe runID persisted n).1.subscribersOf runID = b.subscribersOf runID ++ [n] :=
  Table.getD_insert_self _ _ _ _

/-- A subscription for which nothing is evicted. -/
theorem Bus.subscribe_fits (hfits : b.overflows (b.merged runID persisted) = false) :
    (b.subscribe runID persisted n).2 = b.merged runID persisted ∧
      (b.subscribe runID persisted n).1.historyOf runID = b.merged runID persisted ∧
      (b.subscribe runID persisted n).1.seenOf runID
        = (b.merged runID persisted).map BusEvent.id := by
  have hnewest : b.newest (b.merged runID persisted) = b.merged runID persisted := by
    rw [Bus.newest, hfits]
    rfl
  refine ⟨hnewest, ?_, ?_⟩
  · rw [Bus.subscribe, hnewest]
    exact Table.getD_insert_self _ _ _ _
  · rw [Bus.subscribe, hnewest]
    exact Table.getD_insert_self _ _ _ _

theorem Bus.unsubscribe_subset (id : String) :
    (b.unsubscribe runID n).subscribersOf id ⊆ b.subscribersOf id := by
  rw [Bus.unsubscribe]
  split
  · exact List.Subset.refl _
  · rename_i subscribers hsubscribers
    simp only [subscribersOf, Table.getD]
    split
    · by_cases hid : id = runID
      · subst hid
        simp
      · simp [AList.lookup_erase_ne hid]
    · rw [Table.lookup_insert_eq]
      split
      · rename_i hid
        subst hid
        rw [hsubscribers]
        exact List.filter_subset_self _
      · exact List.Subset.refl _

theorem Bus.unsubscribe_history (b : Bus) (runID : String) (n : Nat) (id : String) :
    (b.unsubscribe runID n).historyOf id = b.historyOf id ∧
      (b.unsubscribe runID n).seenOf id = b.seenOf id := by
  rw [Bus.unsubscribe]
  split <;> exact ⟨rfl, rfl⟩

/-- The merged history has the IDs of both parts, each once. -/
theorem Bus.keys_merged {k : String} : k ∈ (b.merged runID persisted).map BusEvent.id ↔
    k ∈ persisted.map BusEvent.id ∨ k ∈ (b.historyOf runID).map BusEvent.id := by
  rw [Bus.merged, Keyed.keys_addAll, Keyed.keys_addAll, List.map_nil]
  simp

theorem Bus.nodup_merged : ((b.merged runID persisted).map BusEvent.id).Nodup :=
  Keyed.nodup_addAll (Keyed.nodup_addAll List.nodup_nil)

end Operations

/-! ### Events that reach the bus -/

section Reach

variable {s : BusState} {id runID : String} {events : List BusEvent} {event : BusEvent}

theorem BusState.reach_reached :
    (s.reach runID events).reachedOf runID = Keyed.addAll BusEvent.id (s.reachedOf runID) events := by
  have hprefix : s.reachedOf runID <+: Keyed.addAll BusEvent.id (s.reachedOf runID) events :=
    Keyed.prefix_addAll
  rw [BusState.reachedOf, BusState.reach, Table.getD_insert_self, BusState.newTo]
  exact List.prefix_iff_eq_append.mp hprefix

theorem BusState.reach_other (hid : id ≠ runID) :
    (s.reach runID events).reachedOf id = s.reachedOf id :=
  Table.getD_insert_ne _ _ _ hid

/-- Events that have reached the bus before are not new. -/
theorem BusState.newTo_nil (h : ∀ event ∈ events, event.id ∈ (s.reachedOf runID).map BusEvent.id) :
    s.newTo runID events = [] := by
  rw [BusState.newTo, Keyed.addAll_eq_self h, List.drop_length]

theorem BusState.newTo_singleton (h : event.id ∉ (s.reachedOf runID).map BusEvent.id) :
    s.newTo runID [event] = [event] := by
  rw [BusState.newTo, Keyed.addAll_cons, Keyed.addAll_nil, Keyed.addNew_of_not_mem h,
    List.drop_left]

end Reach

/-! ### The invariant -/

/-- Nothing of the Run is evicted, and no subscriber brings an event that the bus has not
seen while others are subscribed. -/
def Steady (id : String) (s : BusState) : BusAction → Bool
  | .publish event d =>
      (prepare d event).runID ≠ id || s.bus.hasSeen (prepare d event)
        || !s.bus.overflows (s.bus.historyOf id ++ [prepare d event])
  | .subscribe _ runID persisted draws =>
      let persisted := prepareAll draws persisted
      runID ≠ id || !s.bus.overflows (s.bus.merged id persisted)
        && (s.bus.subscribersOf id = [] || persisted.all fun event => event.id ∈ s.bus.seenOf id)
  | _ => true

/-- Every channel that is subscribed to a Run was made for it. -/
def Subscribed (s : BusState) : Prop :=
  ∀ runID, ∀ n ∈ s.bus.subscribersOf runID, ∃ ch, s.channels n = some ch ∧ ch.runID = runID

/-- A channel of a Run of which the bus has seen the given IDs. -/
structure ChannelOk (seen : List String) (ch : Channel) : Prop where
  delivered : ch.missed = false → ch.received ++ ch.queue = ch.replay ++ ch.arrivals
  once : ((ch.received ++ ch.queue).map BusEvent.id).Nodup
  seen : ∀ event ∈ ch.received ++ ch.queue, event.id ∈ seen

structure SteadyInv (id : String) (s : BusState) : Prop where
  subscribed : Subscribed s
  history : ∀ k, k ∈ s.bus.seenOf id ↔ k ∈ (s.bus.historyOf id).map BusEvent.id
  reached : ∀ k, k ∈ s.bus.seenOf id ↔ k ∈ (s.reachedOf id).map BusEvent.id
  channels : ∀ n ch, s.channels n = some ch → ch.runID = id → ChannelOk (s.bus.seenOf id) ch

theorem ChannelOk.mono {seen seen' : List String} {ch : Channel} (h : ChannelOk seen ch)
    (hseen : seen ⊆ seen') : ChannelOk seen' ch :=
  ⟨h.delivered, h.once, fun event hevent => hseen (h.seen event hevent)⟩

/-- The channel of a live subscriber when an event reaches the bus by `Publish`. -/
def Channel.publish (ch : Channel) (event : BusEvent) : Channel :=
  Channel.offer { ch with arrivals := ch.arrivals ++ [event] } event

@[simp] theorem Channel.offer_runID (ch : Channel) (event : BusEvent) :
    (ch.offer event).runID = ch.runID := by
  rw [Channel.offer]
  split <;> rfl

theorem ChannelOk.publish {seen : List String} {ch : Channel} {event : BusEvent}
    (h : ChannelOk seen ch) (hnew : event.id ∉ seen) :
    ChannelOk (seen ++ [event.id]) (ch.publish event) := by
  rw [Channel.publish, Channel.offer]
  split
  · refine ⟨fun hroom => ?_, ?_, ?_⟩
    · have hbefore := h.delivered hroom
      simp only [← List.append_assoc, hbefore]
    · have hfresh : event.id ∉ (ch.received ++ ch.queue).map BusEvent.id := by
        intro hmem
        obtain ⟨e, he, hsame⟩ := List.mem_map.mp hmem
        exact hnew (hsame ▸ h.seen e he)
      rw [← List.append_assoc, List.map_append]
      exact h.once.append (List.nodup_singleton _) (by simpa using hfresh)
    · intro e he
      rw [← List.append_assoc, List.mem_append, List.mem_singleton] at he
      rcases he with he | rfl
      · exact List.mem_append_left _ (h.seen e he)
      · exact List.mem_append_right _ (List.mem_singleton_self _)
  · refine ⟨fun hmissed => ?_, h.once, fun e he => List.mem_append_left _ (h.seen e he)⟩
    cases hmissed

/-! ### Steps -/

section Steps

variable {s t : BusState} {id : String}

/-- Where a channel stays, and the bus has of the Run what it had, all is as before. -/
theorem SteadyInv.frame (h : SteadyInv id s) (hsub : Subscribed t) (hsame : s.bus.SameAt t.bus id)
    (hreached : t.reachedOf id = s.reachedOf id)
    (hchannels : ∀ n ch, t.channels n = some ch → ch.runID = id → s.channels n = some ch) :
    SteadyInv id t := by
  refine ⟨hsub, fun k => ?_, fun k => ?_, fun n ch hch hid => ?_⟩
  · rw [hsame.seen, hsame.history]
    exact h.history k
  · rw [hsame.seen, hreached]
    exact h.reached k
  · rw [hsame.seen]
    exact h.channels n ch (hchannels n ch hch hid) hid

/-- The channels after `Publish`. -/
theorem publish_channels (event : BusEvent) (n : Nat) :
    ((s.reach event.runID [event]).offer event (s.bus.publish event).2).channels n
      = if n ∈ s.bus.subscribersOf event.runID then
          (s.channels n).map fun ch =>
            if s.bus.hasSeen event then
              { ch with arrivals := ch.arrivals ++ s.newTo event.runID [event] }
            else Channel.offer
              { ch with arrivals := ch.arrivals ++ s.newTo event.runID [event] } event
        else s.channels n := by
  rw [BusState.offer, BusState.reach, Bus.publish_targets]
  by_cases hseen : s.bus.hasSeen event = true
  · simp [hseen]
  · by_cases hn : n ∈ s.bus.subscribersOf event.runID <;> simp [hseen, hn, Function.comp_def]

theorem Subscribed.publish (h : Subscribed s) (event : BusEvent) :
    Subscribed { (s.reach event.runID [event]).offer event (s.bus.publish event).2 with
      bus := (s.bus.publish event).1 } := by
  intro runID n hn
  simp only [Bus.publish_subscribers] at hn
  obtain ⟨ch, hch, hid⟩ := h runID n hn
  simp only [publish_channels, hch]
  split
  · refine ⟨_, rfl, ?_⟩
    split <;> simpa using hid
  · exact ⟨ch, rfl, hid⟩

theorem SteadyInv.publish (h : SteadyInv id s) (event : BusEvent)
    (hfits : event.runID = id → s.bus.hasSeen event = false →
      s.bus.overflows (s.bus.historyOf id ++ [event]) = false) :
    SteadyInv id { (s.reach event.runID [event]).offer event (s.bus.publish event).2 with
      bus := (s.bus.publish event).1 } := by
  have hsub := h.subscribed.publish event
  by_cases hid : event.runID = id
  · subst hid
    by_cases hseen : s.bus.hasSeen event = true
    · -- a duplicate changes nothing
      have hmem : event.id ∈ s.bus.seenOf event.runID := of_decide_eq_true hseen
      have hknown : ∀ e ∈ [event], e.id ∈ (s.reachedOf event.runID).map BusEvent.id := by
        intro e he
        rw [List.mem_singleton.mp he]
        exact (h.reached _).mp hmem
      have hbus : (s.bus.publish event).1 = s.bus := by rw [Bus.publish, if_pos hseen]
      refine h.frame hsub ?_ ?_ ?_
      · rw [hbus]
        exact ⟨rfl, rfl, rfl⟩
      · exact BusState.reach_reached.trans (Keyed.addAll_eq_self hknown)
      · intro n ch hch _
        simp only [publish_channels, hseen, BusState.newTo_nil hknown, List.append_nil,
          if_true] at hch
        split at hch
        · simpa using hch
        · exact hch
    · have hnew : event.id ∉ s.bus.seenOf event.runID := by simpa [Bus.hasSeen] using hseen
      have hunreached : event.id ∉ (s.reachedOf event.runID).map BusEvent.id :=
        fun hmem => hnew ((h.reached _).mpr hmem)
      rw [Bool.not_eq_true] at hseen
      obtain ⟨hhistory, hseen'⟩ := Bus.publish_new hseen (hfits rfl hseen)
      have hreached : (s.reach event.runID [event]).reachedOf event.runID
          = s.reachedOf event.runID ++ [event] := by
        rw [BusState.reach_reached, Keyed.addAll_cons, Keyed.addAll_nil,
          Keyed.addNew_of_not_mem hunreached]
      refine ⟨hsub, fun k => ?_, fun k => ?_, fun n ch hch hid => ?_⟩
      · simp only [hseen', hhistory, List.map_append, List.mem_append, h.history k]
        simp
      · have hgoal : k ∈ s.bus.seenOf event.runID ++ [event.id] ↔
            k ∈ (s.reachedOf event.runID ++ [event]).map BusEvent.id := by
          rw [List.map_append, List.mem_append, List.mem_append, h.reached k]
          simp
        rw [← hreached, ← hseen'] at hgoal
        exact hgoal
      · simp only [publish_channels, hseen, BusState.newTo_singleton hunreached] at hch
        simp only [hseen']
        split at hch
        · obtain ⟨ch₀, hch₀, rfl⟩ := Option.map_eq_some_iff.mp hch
          have hid₀ : ch₀.runID = event.runID := by
            obtain ⟨ch₁, hch₁, hid₁⟩ := h.subscribed _ n ‹_›
            obtain rfl := Option.some.inj (hch₀.symm.trans hch₁)
            exact hid₁
          exact (h.channels n ch₀ hch₀ hid₀).publish hnew
        · exact (h.channels n ch hch hid).mono (List.subset_append_left _ _)
  · refine h.frame hsub (Bus.publish_other (Ne.symm hid)) (BusState.reach_other (Ne.symm hid)) ?_
    intro n ch hch hrun
    simp only [publish_channels] at hch
    split at hch
    · -- a channel of another Run
      obtain ⟨ch₀, hch₀, hid₀⟩ := h.subscribed _ n ‹_›
      rw [hch₀, Option.map_some, Option.some.injEq] at hch
      exfalso
      apply hid
      rw [← hid₀, ← hrun, ← hch]
      split <;> simp
    · exact hch

theorem setChannel_self (n : Nat) (ch : Channel) : (s.setChannel n ch).channels n = some ch :=
  Function.update_self _ _ _

theorem setChannel_of_ne {n m : Nat} (h : m ≠ n) (ch : Channel) :
    (s.setChannel n ch).channels m = s.channels m :=
  Function.update_of_ne h _ _

/-- The state after `subscribe` with prepared events. -/
def BusState.subscribe (s : BusState) (n : Nat) (runID : String) (persisted : List BusEvent) :
    BusState :=
  { (s.reach runID persisted).setChannel n
      { runID := runID, capacity := (s.bus.subscribe runID persisted n).2.length + 16
        queue := (s.bus.subscribe runID persisted n).2
        replay := (s.bus.subscribe runID persisted n).2 } with
    bus := (s.bus.subscribe runID persisted n).1 }

theorem subscribe_channels_self (n : Nat) (runID : String) (persisted : List BusEvent) :
    (s.subscribe n runID persisted).channels n
      = some { runID := runID, capacity := (s.bus.subscribe runID persisted n).2.length + 16
               queue := (s.bus.subscribe runID persisted n).2
               replay := (s.bus.subscribe runID persisted n).2 } :=
  setChannel_self _ _

theorem subscribe_channels_ne {n m : Nat} (hm : m ≠ n) (runID : String)
    (persisted : List BusEvent) :
    (s.subscribe n runID persisted).channels m
      = if m ∈ s.bus.subscribersOf runID then
          (s.channels m).map fun ch =>
            { ch with arrivals := ch.arrivals ++ s.newTo runID persisted }
        else s.channels m :=
  setChannel_of_ne hm _

theorem Subscribed.subscribe (h : Subscribed s) {n : Nat} (hfree : s.channels n = none)
    (runID : String) (persisted : List BusEvent) :
    Subscribed (s.subscribe n runID persisted) := by
  -- the old channels keep their Run
  have hold : ∀ id, ∀ m ∈ s.bus.subscribersOf id,
      ∃ ch, (s.subscribe n runID persisted).channels m = some ch ∧ ch.runID = id := by
    intro id m hm
    obtain ⟨ch, hch, hid⟩ := h id m hm
    have hne : m ≠ n := by
      rintro rfl
      rw [hfree] at hch
      cases hch
    rw [subscribe_channels_ne hne, hch]
    split
    · exact ⟨_, rfl, hid⟩
    · exact ⟨ch, rfl, hid⟩
  intro id m hm
  by_cases hid : id = runID
  · subst hid
    have hsubs : (s.subscribe n id persisted).bus.subscribersOf id = s.bus.subscribersOf id ++ [n] :=
      Bus.subscribe_subscribers
    rw [hsubs, List.mem_append, List.mem_singleton] at hm
    rcases hm with hm | rfl
    · exact hold id m hm
    · exact ⟨_, subscribe_channels_self m id persisted, rfl⟩
  · have hsame : s.bus.SameAt (s.subscribe n runID persisted).bus id := Bus.subscribe_other hid
    rw [hsame.subscribers] at hm
    exact hold id m hm

theorem SteadyInv.subscribe (h : SteadyInv id s) {n : Nat} (hfree : s.channels n = none)
    (runID : String) (persisted : List BusEvent)
    (hsteady : runID = id → s.bus.overflows (s.bus.merged id persisted) = false ∧
      (s.bus.subscribersOf id = [] ∨ ∀ event ∈ persisted, event.id ∈ s.bus.seenOf id)) :
    SteadyInv id (s.subscribe n runID persisted) := by
  have hsub := h.subscribed.subscribe hfree runID persisted
  by_cases hid : runID = id
  · subst hid
    obtain ⟨hfits, hquiet⟩ := hsteady rfl
    obtain ⟨hreplay, hhistory, hseen⟩ := Bus.subscribe_fits (n := n) hfits
    have hseen' : (s.subscribe n runID persisted).bus.seenOf runID
        = (s.bus.merged runID persisted).map BusEvent.id := hseen
    -- the bus has seen what it had seen, and what is brought
    have hkeys : ∀ k, k ∈ (s.subscribe n runID persisted).bus.seenOf runID ↔
        k ∈ persisted.map BusEvent.id ∨ k ∈ s.bus.seenOf runID := by
      intro k
      rw [hseen', Bus.keys_merged, h.history k]
    have hmore : s.bus.seenOf runID ⊆ (s.subscribe n runID persisted).bus.seenOf runID :=
      fun k hk => (hkeys k).mpr (.inr hk)
    refine ⟨hsub, fun k => ?_, fun k => ?_, fun m ch hch hrun => ?_⟩
    · have hsame : (s.subscribe n runID persisted).bus.historyOf runID
          = s.bus.merged runID persisted := hhistory
      rw [hseen', hsame]
    · have hreached : (s.subscribe n runID persisted).reachedOf runID
          = Keyed.addAll BusEvent.id (s.reachedOf runID) persisted := BusState.reach_reached
      rw [hkeys, hreached, Keyed.keys_addAll, h.reached k, or_comm]
    · by_cases hm : m = n
      · subst hm
        rw [subscribe_channels_self, Option.some.injEq] at hch
        subst hch
        refine ⟨fun _ => by simp, ?_, ?_⟩
        · rw [List.nil_append, hreplay]
          exact Bus.nodup_merged
        · intro event hevent
          rw [List.nil_append, hreplay] at hevent
          rw [hseen']
          exact List.mem_map_of_mem hevent
      · rw [subscribe_channels_ne hm] at hch
        split at hch
        · rename_i hlive
          -- there are other subscribers, so nothing new is brought
          have hknown : ∀ event ∈ persisted, event.id ∈ (s.reachedOf runID).map BusEvent.id := by
            intro event hevent
            refine (h.reached _).mp (hquiet.resolve_left ?_ event hevent)
            exact List.ne_nil_of_mem hlive
          rw [BusState.newTo_nil hknown] at hch
          simp only [List.append_nil, Option.map_id'] at hch
          exact (h.channels m ch hch hrun).mono hmore
        · exact (h.channels m ch hch hrun).mono hmore
  · refine h.frame hsub (Bus.subscribe_other (Ne.symm hid)) (BusState.reach_other (Ne.symm hid)) ?_
    intro m ch hch hrun
    by_cases hm : m = n
    · subst hm
      rw [subscribe_channels_self, Option.some.injEq] at hch
      subst hch
      exact absurd hrun hid
    · rw [subscribe_channels_ne hm] at hch
      split at hch
      · obtain ⟨ch₀, hch₀, hid₀⟩ := h.subscribed _ m ‹_›
        rw [hch₀, Option.map_some, Option.some.injEq] at hch
        subst hch
        exact absurd (hid₀.symm.trans hrun) hid
      · exact hch

theorem SteadyInv.unsubscribe (h : SteadyInv id s) (runID : String) (n : Nat) :
    SteadyInv id { s with bus := s.bus.unsubscribe runID n } := by
  obtain ⟨hhistory, hseen⟩ := s.bus.unsubscribe_history runID n id
  refine ⟨fun id' m hm => h.subscribed id' m (Bus.unsubscribe_subset id' hm), ?_, ?_, ?_⟩
  · rw [hhistory, hseen]
    exact h.history
  · rw [hseen]
    exact h.reached
  · rw [hseen]
    exact h.channels

/-- A subscriber takes an event out of its channel. -/
theorem SteadyInv.receive (h : SteadyInv id s) {n : Nat} {ch : Channel} {event : BusEvent}
    {rest : List BusEvent} (hch : s.channels n = some ch) (hqueue : ch.queue = event :: rest) :
    SteadyInv id (s.setChannel n
      { ch with queue := rest, received := ch.received ++ [event] }) := by
  have hsame : ch.received ++ [event] ++ rest = ch.received ++ ch.queue := by simp [hqueue]
  refine ⟨?_, h.history, h.reached, ?_⟩
  · intro runID m hm
    obtain ⟨ch₀, hch₀, hid₀⟩ := h.subscribed runID m hm
    by_cases hmn : m = n
    · subst hmn
      obtain rfl := Option.some.inj (hch.symm.trans hch₀)
      exact ⟨_, setChannel_self _ _, hid₀⟩
    · exact ⟨ch₀, (setChannel_of_ne hmn _).trans hch₀, hid₀⟩
  · intro m ch' hch' hrun
    by_cases hmn : m = n
    · subst hmn
      rw [setChannel_self, Option.some.injEq] at hch'
      subst hch'
      obtain ⟨hdelivered, honce, hseen⟩ := h.channels m ch hch hrun
      rw [← hsame] at hdelivered honce hseen
      exact ⟨hdelivered, honce, hseen⟩
    · exact h.channels m ch' ((setChannel_of_ne hmn _).symm.trans hch') hrun

theorem SteadyInv.step {a : BusAction} (h : SteadyInv id s) (hP : Steady id s a = true)
    (ha : busStep s a = some t) : SteadyInv id t := by
  cases a with
  | publish event d =>
      obtain rfl := Option.some.inj ha
      refine h.publish (prepare d event) fun hid hnew => ?_
      simpa [Steady, hid, hnew] using hP
  | subscribe n runID persisted draws =>
      simp only [busStep] at ha
      split at ha
      · cases ha
      · rename_i hfree
        obtain rfl := Option.some.inj ha
        refine h.subscribe hfree runID _ fun hid => ?_
        simpa [Steady, hid] using hP
  | unsubscribe n =>
      obtain ⟨ch, -, rfl⟩ := Option.map_eq_some_iff.mp ha
      exact h.unsubscribe ch.runID n
  | receive n =>
      simp only [busStep] at ha
      split at ha
      · cases ha
      · rename_i ch hch
        split at ha
        · cases ha
        · rename_i event rest hqueue
          obtain rfl := Option.some.inj ha
          exact h.receive hch hqueue

end Steps

/-! ### Delivery -/

theorem steadyInv_init (id : String) (maxHistory : Int) :
    SteadyInv id { bus := { maxHistory := maxHistory } } := by
  refine ⟨?_, ?_, ?_, ?_⟩
  · rintro runID n hn
    simp [Bus.subscribersOf, Table.getD] at hn
  · intro k
    simp [Bus.seenOf, Bus.historyOf, Table.getD]
  · intro k
    simp [Bus.seenOf, BusState.reachedOf, Table.getD]
  · rintro n ch hch
    cases hch

/-- **Delivery is exactly once.**  In a run in which nothing of a Run is evicted and no
subscriber brings an event that the bus has not seen while others are subscribed, a
subscriber whose channel always had room gets its replay and then each event that has
reached the bus since, in this order, and no ID twice. -/
theorem delivered_once {id : String} {maxHistory : Int} {s : BusState} {n : Nat} {ch : Channel}
    (hs : Runs busStep (fun s a => Steady id s a = true) { bus := { maxHistory := maxHistory } } s)
    (hch : s.channels n = some ch) (hid : ch.runID = id) (hroom : ch.missed = false) :
    ch.received ++ ch.queue = ch.replay ++ ch.arrivals ∧
      ((ch.received ++ ch.queue).map BusEvent.id).Nodup := by
  have hinv : SteadyInv id s :=
    hs.invariant (I := SteadyInv id) (steadyInv_init id maxHistory) fun h => h.step
  obtain ⟨hdelivered, honce, -⟩ := hinv.channels n ch hch hid
  exact ⟨hdelivered hroom, honce⟩

/-- Two events of one Run. -/
def queuedEvent : BusEvent :=
  { runID := "run_1", type := "run.queued", id := "evt_1", timestamp := 1 }

def startedEvent : BusEvent :=
  { runID := "run_1", type := "run.started", id := "evt_2", timestamp := 2 }

/-- One event is replayed, one arrives. -/
theorem delivered_once_pair :
    ∃ s ch, Runs busStep (fun s a => Steady "run_1" s a = true) { bus := {} } s ∧
      s.channels 0 = some ch ∧ ch.received ++ ch.queue = [queuedEvent, startedEvent] ∧
      ch.received ++ ch.queue = ch.replay ++ ch.arrivals := by
  obtain ⟨s, hs, hgot⟩ :
      ∃ s, exec (guarded busStep (Steady "run_1")) { bus := {} }
          [.publish queuedEvent {}, .subscribe 0 "run_1" [queuedEvent] fun _ => {}, .receive 0,
            .publish startedEvent {}, .publish queuedEvent {}] = some s ∧
        (s.channels 0).map (fun ch => (ch.runID, ch.missed, ch.received ++ ch.queue))
          = some ("run_1", false, [queuedEvent, startedEvent]) := by
    refine exists_of_any ?_
    decide
  have hruns : Runs busStep (fun s a => Steady "run_1" s a = true) { bus := {} } s :=
    runs_exec_guarded (fun _ _ h => h) hs
  obtain ⟨ch, hch, heq⟩ := Option.map_eq_some_iff.mp hgot
  obtain ⟨hid, hroom, hevents⟩ : ch.runID = "run_1" ∧ ch.missed = false ∧
      ch.received ++ ch.queue = [queuedEvent, startedEvent] := by simpa using heq
  exact ⟨s, ch, hruns, hch, hevents, (delivered_once hruns hch hid hroom).1⟩

/-- An event is published on another replica: it is persisted, a second subscriber brings it
along, and then it arrives.  The first subscriber never gets it. -/
theorem persisted_event_is_lost :
    ∃ s, exec busStep { bus := {} } [.subscribe 0 "run_1" [] fun _ => {},
        .subscribe 1 "run_1" [queuedEvent] fun _ => {}, .publish queuedEvent {}] = some s ∧
      (s.channels 0).map (fun ch => (ch.replay ++ ch.arrivals, ch.received ++ ch.queue, ch.missed))
        = some ([queuedEvent], [], false) ∧
      (s.channels 1).map (fun ch => ch.received ++ ch.queue) = some [queuedEvent] := by
  refine exists_of_any ?_
  decide

end AgentMesh
