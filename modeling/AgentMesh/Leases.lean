/-
AgentMesh/Leases.lean

The in-memory coordinator, `internal/coordination/memory.go`.

A lock is a token and an expiry under a key.  A lease is only a key and a token,
so a lease that has expired and whose key was taken by somebody else is a stale
handle: its holder may still renew and release it.  The machine has any number
of holders, who call `Acquire`, `Renew` and `Release` in any order, with a clock
that never goes back.  Each call is one step, for it holds the mutex from its
first access to the map to the last.

Besides the coordinator the machine keeps every lease that was granted, with the
time until which it was last promised.  A lease is live (`Granted.Live`) if its
holder has not released it and this time has not come.  The invariant
(`Coordinated`) ties the live leases to the map: what is live has its lock in
the map, and every lock belongs to a lease that was not released.
-/
import AgentMesh.Run
import AgentMesh.Table
import AgentMesh.Pointwise
import AgentMesh.Machine

namespace AgentMesh

open Machine

/-! ### The coordinator -/

structure MemoryLock where
  token : Int
  expiresAt : Time
  deriving DecidableEq, Repr

/-- `coordination.Memory`. -/
structure Coordinator where
  locks : Table MemoryLock := ∅
  next : Int := 0

/-- `once` says that the `sync.Once` of the lease is spent. -/
structure MemoryLease where
  key : String
  token : Int
  once : Bool := false
  deriving DecidableEq, Repr

def Coordinator.acquire (m : Coordinator) (ctx : Option Err) (key : String) (ttl : Int)
    (now : Time) : Except Err (Coordinator × Option MemoryLease) :=
  match ctx with
  | some err => .error err
  | none =>
      if ttl ≤ 0 then .error Sentinel.invalidLeaseTTL.err
      else if (m.locks.lookup key).any fun current => now < current.expiresAt then .ok (m, none)
      else
        let token := m.next + 1
        .ok ({ locks := m.locks.insert key { token, expiresAt := now + ttl }, next := token },
          some { key, token })

/-- `Renew` reads the clock twice, for the check (`now`) and for the new expiry (`later`). -/
def MemoryLease.renew (l : MemoryLease) (ctx : Option Err) (ttl : Int) (now later : Time)
    (m : Coordinator) : Coordinator × Option Err :=
  match ctx with
  | some err => (m, some err)
  | none =>
      if ttl ≤ 0 then (m, some Sentinel.invalidLeaseTTL.err)
      else
        match m.locks.lookup l.key with
        | none => (m, some Sentinel.leaseLost.err)
        | some current =>
            if current.token ≠ l.token then (m, some Sentinel.leaseLost.err)
            else if now < current.expiresAt then
              ({ m with locks := m.locks.insert l.key { current with expiresAt := later + ttl } },
                none)
            else ({ m with locks := m.locks.erase l.key }, some Sentinel.leaseLost.err)

def MemoryLease.release (l : MemoryLease) (m : Coordinator) : Coordinator × MemoryLease :=
  if l.once then (m, l)
  else if (m.locks.lookup l.key).any fun current => current.token = l.token then
    ({ m with locks := m.locks.erase l.key }, { l with once := true })
  else (m, { l with once := true })

/-! ### Holders and their calls -/

/-- A lease that was granted, and the time until which it was last promised. -/
structure Granted where
  lease : MemoryLease
  expiry : Time
  deriving DecidableEq, Repr

/-- Neither released nor expired. -/
def Granted.Live (g : Granted) (t : Time) : Prop :=
  g.lease.once = false ∧ t < g.expiry

instance (g : Granted) (t : Time) : Decidable (g.Live t) :=
  inferInstanceAs (Decidable (_ ∧ _))

/-- The fencing tokens, in the order in which they were granted. -/
def tokens (granted : List Granted) : List Int :=
  granted.map fun g => g.lease.token

/-- The coordinator, the leases in the order in which they were granted, and the last reading of
the clock. -/
structure Holders where
  coordinator : Coordinator := {}
  granted : List Granted := []
  clock : Time

/-- A holder names its lease by its place in `granted`. -/
inductive HolderAction
  | acquire (ctx : Option Err) (key : String) (ttl : Int) (now : Time)
  | renew (holder : Nat) (ctx : Option Err) (ttl : Int) (now later : Time)
  | release (holder : Nat)

def Holders.step (s : Holders) : HolderAction → Option Holders
  | .acquire ctx key ttl now =>
      if now < s.clock then none
      else
        match s.coordinator.acquire ctx key ttl now with
        | .error _ => some { s with clock := now }
        | .ok (m, none) => some { s with coordinator := m, clock := now }
        | .ok (m, some lease) =>
            some { coordinator := m, clock := now
                   granted := s.granted ++ [{ lease, expiry := now + ttl }] }
  | .renew holder ctx ttl now later =>
      if now < s.clock ∨ later < now then none
      else
        match s.granted[holder]? with
        | none => none
        | some g =>
            match g.lease.renew ctx ttl now later s.coordinator with
            | (m, some _) => some { s with coordinator := m, clock := later }
            | (m, none) =>
                some { coordinator := m, clock := later
                       granted := s.granted.set holder { g with expiry := later + ttl } }
  | .release holder =>
      match s.granted[holder]? with
      | none => none
      | some g =>
          let (m, lease) := g.lease.release s.coordinator
          some { s with coordinator := m, granted := s.granted.set holder { g with lease } }

/-! ### What a step does -/

/-- One call, by what it does to the locks and to the granted leases. -/
inductive Holders.Move (s : Holders) : Holders → Prop
  /-- Nothing but the clock. -/
  | wait {t : Time} (ht : s.clock ≤ t) : Move s { s with clock := t }
  | grant {t expiry : Time} {key : String} (ht : s.clock ≤ t)
      (hfree : ∀ lock, s.coordinator.locks.lookup key = some lock → lock.expiresAt ≤ t) :
      Move s
        { coordinator :=
            { locks := s.coordinator.locks.insert key ⟨s.coordinator.next + 1, expiry⟩
              next := s.coordinator.next + 1 }
          granted := s.granted ++ [{ lease := { key, token := s.coordinator.next + 1 }, expiry }]
          clock := t }
  | renew {t expiry : Time} {i : Nat} {g : Granted} {lock : MemoryLock} (ht : s.clock ≤ t)
      (hg : s.granted[i]? = some g)
      (hlock : s.coordinator.locks.lookup g.lease.key = some lock)
      (htoken : lock.token = g.lease.token) :
      Move s
        { coordinator :=
            { s.coordinator with
              locks := s.coordinator.locks.insert g.lease.key ⟨g.lease.token, expiry⟩ }
          granted := s.granted.set i { g with expiry }
          clock := t }
  /-- A renewal that comes too late removes the lock. -/
  | expire {t : Time} {key : String} {lock : MemoryLock} (ht : s.clock ≤ t)
      (hlock : s.coordinator.locks.lookup key = some lock) (hlate : lock.expiresAt ≤ t) :
      Move s
        { s with
          coordinator := { s.coordinator with locks := s.coordinator.locks.erase key }
          clock := t }
  /-- The lease is spent, and the lock is removed if it is the lease's. -/
  | release {i : Nat} {g : Granted} {locks : Table MemoryLock} (hg : s.granted[i]? = some g)
      (hlocks : ∀ key lock, locks.lookup key = some lock ↔
        s.coordinator.locks.lookup key = some lock ∧
          (key = g.lease.key → lock.token ≠ g.lease.token)) :
      Move s
        { s with
          coordinator := { s.coordinator with locks }
          granted := s.granted.set i { g with lease := { g.lease with once := true } } }

section Calls

variable {m : Coordinator} {l : MemoryLease} {ctx : Option Err} {key : String} {ttl : Int}
  {now later : Time}

/-- `Acquire` fails, finds a lock that has not expired, or takes the key. -/
theorem Coordinator.acquire_cases :
    (∃ err, m.acquire ctx key ttl now = .error err) ∨
    m.acquire ctx key ttl now = .ok (m, none) ∨
    (∀ lock, m.locks.lookup key = some lock → lock.expiresAt ≤ now) ∧
      m.acquire ctx key ttl now =
        .ok ({ locks := m.locks.insert key ⟨m.next + 1, now + ttl⟩, next := m.next + 1 },
          some { key, token := m.next + 1 }) := by
  rcases ctx with - | err
  · simp only [Coordinator.acquire]
    split
    · exact .inl ⟨_, rfl⟩
    · split
      · exact .inr (.inl rfl)
      · rename_i hfree
        refine .inr (.inr ⟨?_, rfl⟩)
        intro lock hlock
        simpa [hlock] using hfree
  · exact .inl ⟨err, rfl⟩

/-- `Renew` changes nothing, extends the lock of the lease, or removes it since it has expired. -/
theorem MemoryLease.renew_cases :
    (∃ err, l.renew ctx ttl now later m = (m, some err)) ∨
    ∃ lock, m.locks.lookup l.key = some lock ∧ lock.token = l.token ∧
      (now < lock.expiresAt ∧ l.renew ctx ttl now later m =
          ({ m with locks := m.locks.insert l.key ⟨l.token, later + ttl⟩ }, none) ∨
        lock.expiresAt ≤ now ∧ ∃ err, l.renew ctx ttl now later m =
          ({ m with locks := m.locks.erase l.key }, some err)) := by
  rcases ctx with - | err
  · simp only [MemoryLease.renew]
    split
    · exact .inl ⟨_, rfl⟩
    · rcases hlock : m.locks.lookup l.key with - | lock
      · exact .inl ⟨_, rfl⟩
      by_cases htoken : lock.token = l.token
      · refine .inr ⟨lock, rfl, htoken, ?_⟩
        rcases lt_or_ge now lock.expiresAt with hlive | hlate
        · refine .inl ⟨hlive, ?_⟩
          simp only [htoken, ne_eq, not_true_eq_false, if_false, hlive, if_true]
        · refine .inr ⟨hlate, Sentinel.leaseLost.err, ?_⟩
          simp only [htoken, ne_eq, not_true_eq_false, if_false, not_lt.mpr hlate]
      · refine .inl ⟨Sentinel.leaseLost.err, ?_⟩
        simp only [ne_eq, htoken, not_false_eq_true, if_true]
  · exact .inl ⟨err, rfl⟩

/-- With a context that is not canceled and a positive TTL the answer of `Renew` depends on the
lock only. -/
theorem MemoryLease.renew_ok_iff (httl : 0 < ttl) :
    (l.renew none ttl now later m).2 = none ↔
      ∃ lock, m.locks.lookup l.key = some lock ∧ lock.token = l.token ∧ now < lock.expiresAt := by
  simp only [MemoryLease.renew, not_le.mpr httl, if_false]
  rcases m.locks.lookup l.key with - | lock
  · simp
  · by_cases htoken : lock.token = l.token
    · by_cases hlive : now < lock.expiresAt
      · simp [htoken, hlive]
      · simp [htoken, hlive]
    · simp [htoken]

/-- `Release` does nothing the second time.  The first time it spends the lease, and removes the
lock if it is the lease's. -/
theorem MemoryLease.release_cases :
    l.release m = (m, l) ∨
    ∃ locks, l.release m = ({ m with locks }, { l with once := true }) ∧
      ∀ key lock, locks.lookup key = some lock ↔
        m.locks.lookup key = some lock ∧ (key = l.key → lock.token ≠ l.token) := by
  rw [MemoryLease.release]
  split
  · exact .inl rfl
  refine .inr ?_
  split
  · rename_i hany
    obtain ⟨own, hown, htoken⟩ := (Option.any_eq_true _ _).mp hany
    refine ⟨m.locks.erase l.key, rfl, ?_⟩
    intro key lock
    by_cases hkey : key = l.key
    · subst hkey
      rw [AList.lookup_erase, hown]
      have htoken := of_decide_eq_true htoken
      simpa using fun heq : own = lock => heq ▸ htoken
    · rw [AList.lookup_erase_ne hkey]
      simp [hkey]
  · rename_i hany
    refine ⟨m.locks, rfl, ?_⟩
    intro key lock
    refine ⟨fun hlock => ⟨hlock, ?_⟩, And.left⟩
    rintro rfl htoken
    simp [hlock, htoken] at hany

end Calls

section Steps

variable {s s' : Holders} {a : HolderAction}

/-- Every call is a move. -/
theorem Holders.step_move (h : s.step a = some s') : s.Move s' := by
  rcases a with ⟨ctx, key, ttl, now⟩ | ⟨i, ctx, ttl, now, later⟩ | i
  case acquire =>
    simp only [Holders.step] at h
    split at h
    · cases h
    rename_i hclock
    have ht := not_lt.mp hclock
    rcases Coordinator.acquire_cases with ⟨err, he⟩ | he | ⟨hfree, he⟩
    · rw [he] at h
      exact Option.some.inj h ▸ .wait ht
    · rw [he] at h
      exact Option.some.inj h ▸ .wait ht
    · rw [he] at h
      exact Option.some.inj h ▸ .grant ht hfree
  case renew =>
    simp only [Holders.step] at h
    split at h
    · cases h
    rename_i hclock
    obtain ⟨hnow, hlater⟩ := not_or.mp hclock
    have ht : s.clock ≤ later := (not_lt.mp hnow).trans (not_lt.mp hlater)
    split at h
    · cases h
    rename_i g hg
    rcases MemoryLease.renew_cases with
      ⟨err, he⟩ | ⟨lock, hlock, htoken, ⟨-, he⟩ | ⟨hlate, err, he⟩⟩
    · rw [he] at h
      exact Option.some.inj h ▸ .wait ht
    · rw [he] at h
      exact Option.some.inj h ▸ .renew ht hg hlock htoken
    · rw [he] at h
      exact Option.some.inj h ▸ .expire ht hlock (hlate.trans (not_lt.mp hlater))
  case release =>
    simp only [Holders.step] at h
    split at h
    · cases h
    rename_i g hg
    rcases MemoryLease.release_cases with he | ⟨locks, he, hlocks⟩
    · rw [he] at h
      simp only [Pointwise.set_self hg, Option.some.injEq] at h
      exact h ▸ .wait le_rfl
    · rw [he] at h
      exact Option.some.inj h ▸ .release hg hlocks

end Steps

/-! ### The invariant -/

/-- What every reachable state has. -/
structure Coordinated (s : Holders) : Prop where
  increasing : (tokens s.granted).Pairwise (· < ·)
  issued : ∀ g ∈ s.granted, g.lease.token ≤ s.coordinator.next
  /-- A live lease has its lock in the map. -/
  locked : ∀ {i : Nat} {g : Granted}, s.granted[i]? = some g → g.Live s.clock →
    s.coordinator.locks.lookup g.lease.key = some ⟨g.lease.token, g.expiry⟩
  /-- A lock in the map is that of a lease. -/
  owned : ∀ {key : String} {lock : MemoryLock}, s.coordinator.locks.lookup key = some lock →
    ∃ (i : Nat) (g : Granted), s.granted[i]? = some g ∧ g.lease = ⟨key, lock.token, false⟩ ∧
      g.expiry = lock.expiresAt

section Invariant

variable {s s' : Holders} {i j : Nat} {g g' : Granted} {t : Time}

theorem Granted.Live.earlier (h : g.Live t) {u : Time} (hu : u ≤ t) : g.Live u :=
  ⟨h.1, hu.trans_lt h.2⟩

theorem Coordinated.increasing_set (h : Coordinated s) (hi : s.granted[i]? = some g)
    (ht : g'.lease.token = g.lease.token) : (tokens (s.granted.set i g')).Pairwise (· < ·) := by
  rw [tokens, Pointwise.map_set_eq hi ht]
  exact h.increasing

theorem Coordinated.issued_set (h : Coordinated s) (hi : s.granted[i]? = some g)
    (ht : g'.lease.token = g.lease.token) :
    ∀ x ∈ s.granted.set i g', x.lease.token ≤ s.coordinator.next := by
  intro x hx
  rcases List.mem_or_eq_of_mem_set hx with hx | rfl
  · exact h.issued x hx
  · rw [ht]
    exact h.issued g (List.mem_of_getElem? hi)

/-- A token names one lease. -/
theorem Coordinated.index_eq (h : Coordinated s) (hi : s.granted[i]? = some g)
    (hj : s.granted[j]? = some g') (ht : g.lease.token = g'.lease.token) : i = j := by
  have hnodup : (tokens s.granted).Nodup := h.increasing.imp fun hlt => ne_of_lt hlt
  have hlength : i < (tokens s.granted).length := by
    rw [tokens, List.length_map]
    exact (List.getElem?_eq_some_iff.mp hi).1
  refine (List.getElem?_inj hlength hnodup).mp ?_
  rw [tokens, List.getElem?_map, List.getElem?_map, hi, hj, Option.map_some, Option.map_some, ht]

/-- The holder of the lock is the one who has its token. -/
theorem Coordinated.owner (h : Coordinated s) (hi : s.granted[i]? = some g) {lock : MemoryLock}
    (hlock : s.coordinator.locks.lookup g.lease.key = some lock)
    (htoken : lock.token = g.lease.token) : g.lease.once = false ∧ g.expiry = lock.expiresAt := by
  obtain ⟨j, g', hj, hlease, hexpiry⟩ := h.owned hlock
  obtain rfl := h.index_eq hi hj (by rw [hlease, htoken])
  obtain rfl := Option.some.inj (hi.symm.trans hj)
  exact ⟨by rw [hlease], hexpiry⟩

/-- The live lease of a key is the one whose token the lock has. -/
theorem Coordinated.live_index (h : Coordinated s) (hi : s.granted[i]? = some g)
    (hj : s.granted[j]? = some g') (hkey : g'.lease.key = g.lease.key) (hlive : g'.Live s.clock)
    {lock : MemoryLock} (hlock : s.coordinator.locks.lookup g.lease.key = some lock)
    (htoken : lock.token = g.lease.token) : j = i := by
  have hlocked := h.locked hj hlive
  rw [hkey, hlock] at hlocked
  refine h.index_eq hj hi ?_
  rw [← htoken, Option.some.inj hlocked]

/-- At most one lease of a key is live. -/
theorem Coordinated.live_unique (h : Coordinated s) (ht : s.clock ≤ t)
    (hi : s.granted[i]? = some g) (hj : s.granted[j]? = some g')
    (hkey : g.lease.key = g'.lease.key) (hg : g.Live t) (hg' : g'.Live t) : i = j :=
  h.live_index hj hi hkey (hg.earlier ht) (h.locked hj (hg'.earlier ht)) rfl

/-- A lease is live exactly if the lock is its own and has not expired. -/
theorem Coordinated.live_iff (h : Coordinated s) (ht : s.clock ≤ t)
    (hi : s.granted[i]? = some g) :
    g.Live t ↔ ∃ lock, s.coordinator.locks.lookup g.lease.key = some lock ∧
      lock.token = g.lease.token ∧ t < lock.expiresAt := by
  constructor
  · intro hlive
    exact ⟨_, h.locked hi (hlive.earlier ht), rfl, hlive.2⟩
  · rintro ⟨lock, hlock, htoken, hlt⟩
    obtain ⟨honce, hexpiry⟩ := h.owner hi hlock htoken
    exact ⟨honce, hexpiry ▸ hlt⟩

theorem Coordinated.start (t : Time) : Coordinated { clock := t } where
  increasing := List.Pairwise.nil
  issued g hg := by cases hg
  locked hi := by cases hi
  owned hlock := by cases hlock

theorem Coordinated.wait (h : Coordinated s) (ht : s.clock ≤ t) :
    Coordinated { s with clock := t } :=
  ⟨h.increasing, h.issued, fun hi hlive => h.locked hi (hlive.earlier ht), h.owned⟩

theorem Coordinated.grant (h : Coordinated s) {key : String} {expiry : Time} (ht : s.clock ≤ t)
    (hfree : ∀ lock, s.coordinator.locks.lookup key = some lock → lock.expiresAt ≤ t) :
    Coordinated
      { coordinator :=
          { locks := s.coordinator.locks.insert key ⟨s.coordinator.next + 1, expiry⟩
            next := s.coordinator.next + 1 }
        granted := s.granted ++ [{ lease := { key, token := s.coordinator.next + 1 }, expiry }]
        clock := t } where
  increasing := by
    rw [tokens, List.map_append, List.pairwise_append]
    refine ⟨h.increasing, List.pairwise_singleton _ _, ?_⟩
    intro token htoken new hnew
    obtain ⟨g, hg, rfl⟩ := List.mem_map.mp htoken
    rw [List.mem_singleton.mp hnew]
    exact Int.lt_add_one_of_le (h.issued g hg)
  issued := by
    intro g hg
    rcases List.mem_append.mp hg with hg | hg
    · exact (h.issued g hg).trans (Int.le_add_one le_rfl)
    · rw [List.mem_singleton.mp hg]
  locked := by
    intro i g hi hlive
    rw [List.getElem?_append] at hi
    split at hi
    · -- a lease that was live has a lock that has not expired, so its key is another one
      have hlocked := h.locked hi (hlive.earlier ht)
      have hne : g.lease.key ≠ key := by
        rintro rfl
        exact absurd (hfree _ hlocked) (not_le.mpr hlive.2)
      rw [Table.lookup_insert_eq, if_neg hne]
      exact hlocked
    · rw [List.mem_singleton.mp (List.mem_of_getElem? hi), Table.lookup_insert_eq, if_pos rfl]
  owned := by
    intro key' lock hlock
    rw [Table.lookup_insert_eq] at hlock
    split at hlock
    · refine ⟨s.granted.length, _, List.getElem?_concat_length .., ?_⟩
      rw [‹key' = key›, ← Option.some.inj hlock]
      exact ⟨rfl, rfl⟩
    · obtain ⟨i, g, hi, hlease⟩ := h.owned hlock
      refine ⟨i, g, ?_, hlease⟩
      rw [List.getElem?_append_left (List.getElem?_eq_some_iff.mp hi).1]
      exact hi

theorem Coordinated.renew (h : Coordinated s) {expiry : Time} {lock : MemoryLock}
    (ht : s.clock ≤ t) (hg : s.granted[i]? = some g)
    (hlock : s.coordinator.locks.lookup g.lease.key = some lock)
    (htoken : lock.token = g.lease.token) :
    Coordinated
      { coordinator :=
          { s.coordinator with
            locks := s.coordinator.locks.insert g.lease.key ⟨g.lease.token, expiry⟩ }
        granted := s.granted.set i { g with expiry }
        clock := t } where
  increasing := h.increasing_set hg rfl
  issued := h.issued_set hg rfl
  locked := by
    intro j g' hj hlive
    rw [Table.lookup_insert_eq]
    rcases Pointwise.getElem?_set_cases hj with ⟨-, rfl⟩ | ⟨hne, hj⟩
    · rw [if_pos rfl]
    · have hlive := hlive.earlier ht
      rw [if_neg fun hkey => hne (h.live_index hg hj hkey hlive hlock htoken)]
      exact h.locked hj hlive
  owned := by
    intro key' lock' hlock'
    rw [Table.lookup_insert_eq] at hlock'
    split at hlock'
    · refine ⟨i, _, List.getElem?_set_self (List.getElem?_eq_some_iff.mp hg).1, ?_⟩
      obtain ⟨honce, -⟩ := h.owner hg hlock htoken
      rw [‹key' = _›, ← Option.some.inj hlock', ← honce]
      exact ⟨rfl, rfl⟩
    · rename_i hkey
      obtain ⟨j, g', hj, hlease⟩ := h.owned hlock'
      refine ⟨j, g', ?_, hlease⟩
      rw [List.getElem?_set_ne, hj]
      rintro rfl
      obtain rfl := Option.some.inj (hg.symm.trans hj)
      exact hkey (by rw [hlease.1])

/-- A lock that no live lease has can be removed. -/
theorem Coordinated.erase (h : Coordinated s) {key : String} (ht : s.clock ≤ t)
    (hdead : ∀ {i : Nat} {g : Granted}, s.granted[i]? = some g → g.Live t → g.lease.key ≠ key) :
    Coordinated
      { s with
        coordinator := { s.coordinator with locks := s.coordinator.locks.erase key }
        clock := t } where
  increasing := h.increasing
  issued := h.issued
  locked := by
    intro i g hi hlive
    rw [AList.lookup_erase_ne (hdead hi hlive)]
    exact h.locked hi (hlive.earlier ht)
  owned hlock := h.owned (Table.lookup_of_erase hlock)

/-- A lease can be spent if its lock goes with it. -/
theorem Coordinated.release (h : Coordinated s) {locks : Table MemoryLock}
    (hg : s.granted[i]? = some g)
    (hlocks : ∀ key lock, locks.lookup key = some lock ↔
      s.coordinator.locks.lookup key = some lock ∧
        (key = g.lease.key → lock.token ≠ g.lease.token)) :
    Coordinated
      { s with
        coordinator := { s.coordinator with locks }
        granted := s.granted.set i { g with lease := { g.lease with once := true } } } where
  increasing := h.increasing_set hg rfl
  issued := h.issued_set hg rfl
  locked := by
    intro j g' hj hlive
    rcases Pointwise.getElem?_set_cases hj with ⟨-, rfl⟩ | ⟨hne, hj⟩
    · cases hlive.1
    · exact (hlocks _ _).mpr ⟨h.locked hj hlive, fun _ htoken => hne (h.index_eq hj hg htoken)⟩
  owned := by
    intro key lock hlock
    obtain ⟨hlock, hother⟩ := (hlocks key lock).mp hlock
    obtain ⟨j, g', hj, hlease⟩ := h.owned hlock
    refine ⟨j, g', ?_, hlease⟩
    rw [List.getElem?_set_ne, hj]
    rintro rfl
    obtain rfl := Option.some.inj (hg.symm.trans hj)
    exact hother (by rw [hlease.1]) (by rw [hlease.1])

theorem Coordinated.move (h : Coordinated s) (hmove : s.Move s') : Coordinated s' := by
  cases hmove with
  | wait ht => exact h.wait ht
  | grant ht hfree => exact h.grant ht hfree
  | renew ht hg hlock htoken => exact h.renew ht hg hlock htoken
  | expire ht hlock hlate =>
      refine h.erase ht ?_
      rintro i g hi hlive rfl
      have hlocked := h.locked hi (hlive.earlier ht)
      rw [hlock] at hlocked
      rw [Option.some.inj hlocked] at hlate
      exact absurd hlive.2 (not_lt.mpr hlate)
  | release hg hlocks => exact h.release hg hlocks

theorem coordinated_of_runs {start : Time} (h : Runs Holders.step Free { clock := start } s) :
    Coordinated s :=
  h.invariant (Coordinated.start start) fun hs _ hstep => hs.move (Holders.step_move hstep)

/-- `Renew` succeeds exactly if the lease is live, and it is live for the new TTL then. -/
theorem Coordinated.renews (h : Coordinated s) {ttl : Int} {now later : Time}
    (hi : s.granted[i]? = some g) (httl : 0 < ttl) (hnow : s.clock ≤ now) (hlater : now ≤ later) :
    ((g.lease.renew none ttl now later s.coordinator).2 = none ↔ g.Live now) ∧
    (g.Live now → ∃ s', s.step (.renew i none ttl now later) = some s' ∧
      ∃ g', s'.granted[i]? = some g' ∧ g'.lease = g.lease ∧ ∀ t, g'.Live t ↔ t < later + ttl) := by
  have hiff : (g.lease.renew none ttl now later s.coordinator).2 = none ↔ g.Live now :=
    (MemoryLease.renew_ok_iff httl).trans (h.live_iff hnow hi).symm
  refine ⟨hiff, fun hlive => ?_⟩
  have hclock : ¬ (now < s.clock ∨ later < now) :=
    not_or.mpr ⟨not_lt.mpr hnow, not_lt.mpr hlater⟩
  rcases he : g.lease.renew none ttl now later s.coordinator with ⟨m, answer⟩
  obtain rfl : answer = none := by simpa [he] using hiff.mpr hlive
  refine ⟨⟨m, s.granted.set i { g with expiry := later + ttl }, later⟩, ?_, _,
    List.getElem?_set_self (List.getElem?_eq_some_iff.mp hi).1, rfl, ?_⟩
  · simp only [Holders.step, hclock, if_false, hi, he]
  intro t
  exact and_iff_right hlive.1

/-- A holder whose lease is not live does not touch the lease of another one. -/
theorem Coordinated.harmless (h : Coordinated s) {a : HolderAction}
    (hi : s.granted[i]? = some g) (ht : s.clock ≤ t) (hstale : ¬ g.Live t)
    (ha : (∃ ctx ttl later, a = .renew i ctx ttl t later) ∨ a = .release i)
    (hstep : s.step a = some s') (hj : s.granted[j]? = some g') (hlive : g'.Live t) :
    s'.granted[j]? = some g' ∧
      s'.coordinator.locks.lookup g'.lease.key = some ⟨g'.lease.token, g'.expiry⟩ := by
  have hlocked := h.locked hj (hlive.earlier ht)
  have hne : j ≠ i := by
    rintro rfl
    exact hstale (Option.some.inj (hi.symm.trans hj) ▸ hlive)
  rcases ha with ⟨ctx, ttl, later, rfl⟩ | rfl
  · simp only [Holders.step] at hstep
    split at hstep
    · cases hstep
    simp only [hi] at hstep
    rcases MemoryLease.renew_cases with
      ⟨err, he⟩ | ⟨lock, hlock, htoken, ⟨hlt, he⟩ | ⟨hlate, err, he⟩⟩
    · rw [he] at hstep
      exact Option.some.inj hstep ▸ ⟨hj, hlocked⟩
    · exact absurd ((h.live_iff ht hi).mpr ⟨lock, hlock, htoken, hlt⟩) hstale
    · rw [he] at hstep
      refine Option.some.inj hstep ▸ ⟨hj, ?_⟩
      rw [AList.lookup_erase_ne]
      · exact hlocked
      · intro hkey
        exact hne (h.live_index hi hj hkey (hlive.earlier ht) hlock htoken)
  · simp only [Holders.step, hi] at hstep
    rcases MemoryLease.release_cases with he | ⟨locks, he, hlocks⟩
    · rw [he] at hstep
      rw [← Option.some.inj hstep]
      exact ⟨by rw [List.getElem?_set_ne (Ne.symm hne), hj], hlocked⟩
    · rw [he] at hstep
      rw [← Option.some.inj hstep]
      refine ⟨by rw [List.getElem?_set_ne (Ne.symm hne), hj], (hlocks _ _).mpr ⟨hlocked, ?_⟩⟩
      exact fun _ htoken => hne (h.index_eq hj hi htoken)

end Invariant

end AgentMesh
