/-
AgentMesh/Keepers.lean

The goroutines that keep a lease while its holder works: `startLeaseKeeper` of
`internal/engine/engine.go` and the one in `reconcileWithOwnership` of
`internal/workflow/manager.go`, over the coordinator of `Leases`.

A keeper renews its lease at every tick, with a third of the TTL between ticks and as the
timeout of a renewal.  When a renewal fails it cancels the context of its holder.  The
holder stops the keeper before it releases the lease; a renewal under way is waited for, so
it stands before the stop.

A tick comes at the latest one interval after the one before has led to a renewal, and the
renewal is over another interval later.  This leaves a third of the TTL: whatever becomes
of the renewals, the context is canceled before the lease expires (`Keepers.Kept`).  So the
contexts exclude each other as the leases do.

Timers are taken to be punctual, and a keeper to be started less than an interval after its
lease was granted (`timely`).  It counts as on from the grant, although the context is made
with the keeper.
-/
import AgentMesh.Leases

namespace AgentMesh

open Machine

/-! ### Keepers and their leases -/

def renewalInterval (ttl : Int) : Int := if ttl / 3 ≤ 0 then ttl else ttl / 3

structure Keepers where
  holders : Holders
  /-- For each keeper that is on, by the place of its lease in `granted`: when its next tick comes
  at the latest.  The context of the holder is canceled when its keeper is not on any more. -/
  due : Nat → Option Time := fun _ => none

def Keepers.setDue (s : Keepers) (i : Nat) (due : Option Time) : Keepers :=
  { s with due := Function.update s.due i due }

inductive KeeperAction
  /-- A lease that is granted gets its keeper at the time `started`. -/
  | acquire (ctx : Option Err) (key : String) (now started : Time)
  /-- A renewal after the tick at `since`; `ctx` is the error of the context with the timeout. -/
  | renew (i : Nat) (ctx : Option Err) (since now later : Time)
  /-- The holder is done. -/
  | stop (i : Nat)
  | release (i : Nat)

def keepStep (ttl : Int) (s : Keepers) : KeeperAction → Option Keepers
  | .acquire ctx key now started =>
      (s.holders.step (.acquire ctx key ttl now)).map fun holders =>
        if holders.granted.length = s.holders.granted.length then { s with holders }
        else Keepers.setDue ⟨holders, s.due⟩ s.holders.granted.length
          (some (started + renewalInterval ttl))
  | .renew i ctx since now later =>
      match s.holders.granted[i]?, s.due i with
      | some g, some _ =>
          if now < since then none
          else
            (s.holders.step (.renew i ctx ttl now later)).map fun holders =>
              Keepers.setDue ⟨holders, s.due⟩ i <|
                match (g.lease.renew ctx ttl now later s.holders.coordinator).2 with
                | none => some (since + renewalInterval ttl)
                | some _ => none
      | _, _ => none
  | .stop i => some (s.setDue i none)
  | .release i =>
      if s.due i = none then
        (s.holders.step (.release i)).map fun holders => { s with holders }
      else none

/-- No keeper is past the end of the renewal that its next tick leads to. -/
def Keepers.punctual (ttl : Int) (s : Keepers) (t : Time) : Bool :=
  (List.range s.holders.granted.length).all fun i =>
    (s.due i).all fun due => t ≤ due + renewalInterval ttl

def timely (ttl : Int) (s : Keepers) : KeeperAction → Bool
  | .acquire _ _ now started =>
      s.punctual ttl now && now ≤ started && started < now + renewalInterval ttl
  | .renew i _ since _ later =>
      s.punctual ttl later && (s.due i).all (since ≤ ·) && later ≤ since + renewalInterval ttl
  | .stop _ | .release _ => true

/-! ### The invariant -/

/-- The lease of a keeper that is on outlives its next renewal. -/
def Keepers.Kept (ttl : Int) (s : Keepers) (i : Nat) : Prop :=
  ∀ due, s.due i = some due → ∃ g, s.holders.granted[i]? = some g ∧ g.lease.once = false ∧
    s.holders.clock ≤ due + renewalInterval ttl ∧ due + renewalInterval ttl < g.expiry

structure KeeperInv (ttl : Int) (s : Keepers) : Prop where
  coordinated : Coordinated s.holders
  kept : ∀ i, s.Kept ttl i

section Steps

variable {ttl : Int} {s s' : Keepers} {i : Nat} {t : Time}

/-- A promise made at `y` outlives the renewal after a tick that is due one interval after `x`. -/
theorem renewal_ends (httl : 3 ≤ ttl) {x y : Int}
    (h : y ≤ x ∧ x < y + renewalInterval ttl ∨ x ≤ y ∧ y ≤ x + renewalInterval ttl) :
    y ≤ x + renewalInterval ttl + renewalInterval ttl ∧
      x + renewalInterval ttl + renewalInterval ttl < y + ttl := by
  have hthird : ¬ ttl / 3 ≤ 0 := by omega
  rw [renewalInterval, if_neg hthird] at h ⊢
  omega

/-- A keeper that a step is not about. -/
theorem Keepers.Kept.frame (h : s.Kept ttl i) (hdue : s'.due i = s.due i)
    (hgranted : ∀ g, s.holders.granted[i]? = some g → s'.holders.granted[i]? = some g)
    (htime : s'.holders.clock = s.holders.clock ∨ s.punctual ttl s'.holders.clock = true) :
    s'.Kept ttl i := by
  intro due hs'
  rw [hdue] at hs'
  obtain ⟨g, hg, honce, hclock, hexpiry⟩ := h due hs'
  refine ⟨g, hgranted g hg, honce, ?_, hexpiry⟩
  rcases htime with hsame | hpunctual
  · rw [hsame]
    exact hclock
  · have hrange := List.mem_range.mpr (List.getElem?_eq_some_iff.mp hg).1
    have hall := List.all_eq_true.mp hpunctual i hrange
    rw [hs', Option.all_some] at hall
    exact of_decide_eq_true hall

/-- A step that is about one keeper. -/
theorem KeeperInv.of_frame (h : KeeperInv ttl s) (hcoordinated : Coordinated s'.holders)
    (hi : s'.Kept ttl i) (hdue : ∀ j, j ≠ i → s'.due j = s.due j)
    (hgranted : ∀ j g, j ≠ i → s.holders.granted[j]? = some g → s'.holders.granted[j]? = some g)
    (htime : s'.holders.clock = s.holders.clock ∨ s.punctual ttl s'.holders.clock = true) :
    KeeperInv ttl s' := by
  refine ⟨hcoordinated, fun j => ?_⟩
  by_cases hj : j = i
  · rw [hj]
    exact hi
  · exact (h.kept j).frame (hdue j hj) (fun g => hgranted j g hj) htime

theorem KeeperInv.acquire {ctx : Option Err} {key : String} {started : Time} (h : KeeperInv ttl s)
    (httl : 3 ≤ ttl) (htime : timely ttl s (.acquire ctx key t started) = true)
    (hstep : keepStep ttl s (.acquire ctx key t started) = some s') : KeeperInv ttl s' := by
  simp only [timely, Bool.and_eq_true, decide_eq_true_eq] at htime
  obtain ⟨holders, hholders, rfl⟩ := Option.map_eq_some_iff.mp hstep
  have hcoordinated := h.coordinated.move (Holders.step_move hholders)
  simp only [Holders.step] at hholders
  split at hholders
  · cases hholders
  have hrefused : KeeperInv ttl ⟨{ s.holders with clock := t }, s.due⟩ :=
    ⟨h.coordinated.wait (not_lt.mp ‹_›),
      fun j => (h.kept j).frame rfl (fun _ hg => hg) (.inr htime.1.1)⟩
  rcases Coordinator.acquire_cases with ⟨err, he⟩ | he | ⟨-, he⟩ <;>
    rw [he] at hholders <;> cases hholders
  · rw [if_pos rfl]
    exact hrefused
  · rw [if_pos rfl]
    exact hrefused
  · rw [if_neg (by simp)]
    refine h.of_frame (i := s.holders.granted.length) hcoordinated ?_
      (fun j hj => Function.update_of_ne hj _ _) (fun j g hj hg => ?_) (.inr htime.1.1)
    · intro due hdue
      obtain rfl := Option.some.inj ((Function.update_self _ _ s.due).symm.trans hdue)
      exact ⟨_, List.getElem?_concat_length .., rfl,
        renewal_ends httl (.inl ⟨htime.1.2, htime.2⟩)⟩
    · exact (List.getElem?_append_left (List.getElem?_eq_some_iff.mp hg).1).trans hg

theorem KeeperInv.renew {ctx : Option Err} {since now : Time} (h : KeeperInv ttl s)
    (httl : 3 ≤ ttl) (htime : timely ttl s (.renew i ctx since now t) = true)
    (hstep : keepStep ttl s (.renew i ctx since now t) = some s') : KeeperInv ttl s' := by
  simp only [timely, Bool.and_eq_true, decide_eq_true_eq] at htime
  rw [keepStep] at hstep
  split at hstep
  · rename_i g due hg hdue
    split at hstep
    · cases hstep
    rename_i hsince
    obtain ⟨g', hg', honce, -⟩ := h.kept i due hdue
    obtain rfl := Option.some.inj (hg.symm.trans hg')
    obtain ⟨holders, hholders, rfl⟩ := Option.map_eq_some_iff.mp hstep
    have hcoordinated := h.coordinated.move (Holders.step_move hholders)
    simp only [Holders.step, hg] at hholders
    split at hholders
    · cases hholders
    rename_i hguard
    rw [not_or, not_lt, not_lt] at hguard
    rcases he : g.lease.renew ctx ttl now t s.holders.coordinator with ⟨m, - | err⟩
    · -- the lease is promised for a whole TTL again
      rw [he] at hholders
      cases hholders
      refine h.of_frame (i := i) hcoordinated ?_ (fun j hj => Function.update_of_ne hj _ _)
        (fun j _ hj hg => (List.getElem?_set_ne (Ne.symm hj)).trans hg) (.inr htime.1.1)
      intro due' hdue'
      obtain rfl := Option.some.inj ((Function.update_self i _ s.due).symm.trans hdue')
      exact ⟨{ g with expiry := t + ttl },
        List.getElem?_set_self (List.getElem?_eq_some_iff.mp hg).1, honce,
        renewal_ends httl (.inr ⟨(not_lt.mp hsince).trans hguard.2, htime.2⟩)⟩
    · rw [he] at hholders
      cases hholders
      refine h.of_frame (i := i) hcoordinated ?_ (fun j hj => Function.update_of_ne hj _ _)
        (fun _ _ _ hg => hg) (.inr htime.1.1)
      intro due' hdue'
      cases (Function.update_self i _ s.due).symm.trans hdue'
  · cases hstep

theorem KeeperInv.release (h : KeeperInv ttl s) (hstep : keepStep ttl s (.release i) = some s') :
    KeeperInv ttl s' := by
  rw [keepStep] at hstep
  split at hstep
  · rename_i hoff
    obtain ⟨holders, hholders, rfl⟩ := Option.map_eq_some_iff.mp hstep
    have hcoordinated := h.coordinated.move (Holders.step_move hholders)
    simp only [Holders.step] at hholders
    split at hholders
    · cases hholders
    cases hholders
    refine h.of_frame (i := i) hcoordinated ?_ (fun _ _ => rfl)
      (fun j _ hj hg => (List.getElem?_set_ne (Ne.symm hj)).trans hg) (.inl rfl)
    intro due hdue
    cases hoff.symm.trans hdue
  · cases hstep

theorem KeeperInv.step {a : KeeperAction} (h : KeeperInv ttl s) (httl : 3 ≤ ttl)
    (htime : timely ttl s a = true) (hstep : keepStep ttl s a = some s') : KeeperInv ttl s' := by
  cases a with
  | acquire => exact h.acquire httl htime hstep
  | renew => exact h.renew httl htime hstep
  | stop i =>
      cases hstep
      refine h.of_frame (i := i) h.coordinated ?_ (fun j hj => Function.update_of_ne hj _ _)
        (fun _ _ _ hg => hg) (.inl rfl)
      intro due hdue
      cases (Function.update_self i _ s.due).symm.trans hdue
  | release => exact h.release hstep

end Steps

/-- **Whoever works under a lease works alone.**  Over every order of acquisitions, renewals that
succeed, fail or time out, and releases, with punctual timers and a TTL of at least three
nanoseconds: a keeper that is on has a live lease, so no two of them have the same key; and the
lease is there to be renewed whenever its keeper asks for it in time. -/
theorem kept_leases_exclude {ttl : Int} (httl : 3 ≤ ttl) {start : Time} {s : Keepers}
    (hruns : Runs (keepStep ttl) (fun s a => timely ttl s a = true)
      { holders := { clock := start } } s) :
    (∀ i j g g', s.holders.granted[i]? = some g → s.holders.granted[j]? = some g' →
      g.lease.key = g'.lease.key → (s.due i).isSome → (s.due j).isSome → i = j) ∧
    ∀ i due, s.due i = some due → ∃ g, s.holders.granted[i]? = some g ∧
      g.Live s.holders.clock ∧ ∀ now later, s.holders.clock ≤ now → now ≤ later →
        later ≤ due + renewalInterval ttl →
        (g.lease.renew none ttl now later s.holders.coordinator).2 = none := by
  have hinv : KeeperInv ttl s := hruns.invariant (I := KeeperInv ttl)
    ⟨Coordinated.start start, fun _ _ hdue => by cases hdue⟩
    fun h htime hstep => h.step httl htime hstep
  have hlive : ∀ {i g}, s.holders.granted[i]? = some g → (s.due i).isSome →
      g.Live s.holders.clock := by
    intro i g hg hi
    obtain ⟨due, hdue⟩ := Option.isSome_iff_exists.mp hi
    obtain ⟨g', hg', honce, hclock, hexpiry⟩ := hinv.kept i due hdue
    obtain rfl := Option.some.inj (hg.symm.trans hg')
    exact ⟨honce, hclock.trans_lt hexpiry⟩
  constructor
  · intro i j g g' hg hg' hkey hi hj
    exact hinv.coordinated.live_unique le_rfl hg hg' hkey (hlive hg hi) (hlive hg' hj)
  · intro i due hdue
    obtain ⟨g, hg, honce, -, hexpiry⟩ := hinv.kept i due hdue
    refine ⟨g, hg, hlive hg (hdue ▸ rfl), fun now later hnow hlater hend => ?_⟩
    refine (hinv.coordinated.renews hg (by omega) hnow hlater).1.mpr ⟨honce, ?_⟩
    exact (hlater.trans hend).trans_lt hexpiry

/-- With a TTL of nine, the key is refused to a second holder when the first promise has run
out. -/
theorem kept_leases_exclude_renewed :
    ∃ s, exec (guarded (keepStep 9) (timely 9)) { holders := { clock := 0 } }
        [.acquire none "run:1" 0 2, .renew 0 none 5 6 8, .acquire none "run:1" 10 10] =
          some s ∧
      s.holders.granted.map Granted.expiry = [17] ∧ s.due 0 = some 8 ∧
      ∃ g, s.holders.granted[0]? = some g ∧ g.Live s.holders.clock := by
  obtain ⟨s, hs, hgranted, hdue⟩ :
      ∃ s, exec (guarded (keepStep 9) (timely 9)) { holders := { clock := 0 } }
          [.acquire none "run:1" 0 2, .renew 0 none 5 6 8, .acquire none "run:1" 10 10] =
            some s ∧ s.holders.granted.map Granted.expiry = [17] ∧ s.due 0 = some 8 := by
    refine exists_of_any ?_
    decide
  have hruns := runs_exec_guarded (fun _ _ h => h) hs
  obtain ⟨g, hg, hlive, -⟩ := (kept_leases_exclude (by decide) hruns).2 0 8 hdue
  exact ⟨s, hs, hgranted, hdue, g, hg, hlive⟩

end AgentMesh
