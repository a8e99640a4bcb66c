/-
AgentMesh/Table.lean

Finite maps with string keys, as association lists without repeated keys
(Mathlib's `AList`).  The entry order is the iteration order of the map.
-/
import Mathlib.Data.List.AList
import Mathlib.Tactic

/-- A finite map from strings. -/
abbrev Table (V : Type*) := AList fun _ : String => V

namespace Table

variable {V : Type*}

theorem lookup_insert_eq (t : Table V) (k k' : String) (v : V) :
    AList.lookup k' (AList.insert k v t) = if k' = k then some v else AList.lookup k' t := by
  by_cases h : k' = k
  · subst h
    simp
  · simp [h]

/-- What holds of the new entry and of all old ones holds of every entry. -/
theorem of_lookup_insert {P : String → V → Prop} {t : Table V} {k k' : String} {v v' : V}
    (hnew : P k v) (hold : ∀ {k' v'}, AList.lookup k' t = some v' → P k' v')
    (h : AList.lookup k' (AList.insert k v t) = some v') : P k' v' := by
  rw [lookup_insert_eq] at h
  split at h
  · rename_i hk
    rw [hk, ← Option.some.inj h]
    exact hnew
  · exact hold h

theorem lookup_of_erase {t : Table V} {k k' : String} {v : V}
    (h : AList.lookup k' (AList.erase k t) = some v) : AList.lookup k' t = some v := by
  by_cases hk : k' = k
  · rw [hk, AList.lookup_erase] at h
    cases h
  · rwa [AList.lookup_erase_ne hk] at h

/-- The value at a key, or a default where the key is absent. -/
def getD (t : Table V) (k : String) (v : V) : V := (AList.lookup k t).getD v

@[simp] theorem getD_insert_self (t : Table V) (k : String) (v d : V) :
    getD (AList.insert k v t) k d = v := by
  simp [getD]

theorem getD_insert_ne (t : Table V) {k k' : String} (v d : V) (h : k' ≠ k) :
    getD (AList.insert k v t) k' d = getD t k' d := by
  simp [getD, h]

/-- The entries with a property. -/
def filter (p : String → V → Bool) (t : Table V) : Table V :=
  ⟨t.entries.filter fun entry => p entry.1 entry.2, t.nodupKeys.sublist List.filter_sublist⟩

theorem lookup_filter (p : String → V → Bool) (t : Table V) (k : String) :
    AList.lookup k (filter p t) = (AList.lookup k t).filter (p k) := by
  refine Option.ext fun v => ?_
  rw [← Option.mem_def, AList.mem_lookup_iff, filter, List.mem_filter, Option.filter_eq_some_iff,
    ← AList.mem_lookup_iff, Option.mem_def]

/-- The number of entries with a property. -/
def count (p : String → V → Bool) (t : Table V) : Nat :=
  t.entries.countP fun entry => p entry.1 entry.2

/-- What a table counts depends on its lookups only. -/
theorem count_congr (p : String → V → Bool) {t t' : Table V}
    (h : ∀ k, AList.lookup k t = AList.lookup k t') : count p t = count p t' := by
  have hperm : t.entries.Perm t'.entries :=
    List.lookup_ext t.nodupKeys t'.nodupKeys fun k v => by
      rw [show t.entries.dlookup k = t'.entries.dlookup k from h k]
  exact hperm.countP_eq _

/-- A new entry is counted in addition to the others. -/
theorem count_insert_new (p : String → V → Bool) {t : Table V} {k : String} (v : V)
    (h : AList.lookup k t = none) : count p (AList.insert k v t) = count p t + (p k v).toNat := by
  have hk : k ∉ t := AList.lookup_eq_none.mp h
  rw [count, AList.entries_insert_of_notMem hk, List.countP_cons, count]
  cases p k v <;> rfl

/-- An entry that is replaced. -/
theorem count_insert_old (p : String → V → Bool) {t : Table V} {k : String} {v : V} (v' : V)
    (h : AList.lookup k t = some v) :
    count p (AList.insert k v' t) + (p k v).toNat = count p t + (p k v').toNat := by
  have hgone : AList.lookup k (AList.erase k t) = none := AList.lookup_erase k t
  have hold : count p t = count p (AList.insert k v (AList.erase k t)) := by
    refine count_congr p fun k' => ?_
    rw [lookup_insert_eq]
    split
    · rename_i hk
      rw [hk, h]
    · rw [AList.lookup_erase_ne ‹_›]
  have hnew : count p (AList.insert k v' t) = count p (AList.insert k v' (AList.erase k t)) := by
    refine count_congr p fun k' => ?_
    rw [lookup_insert_eq, lookup_insert_eq]
    split
    · rfl
    · rw [AList.lookup_erase_ne ‹_›]
  rw [hold, hnew, count_insert_new p v hgone, count_insert_new p v' hgone]
  omega

theorem count_filter_le (p q : String → V → Bool) (t : Table V) :
    count p (filter q t) ≤ count p t :=
  List.Sublist.countP_le List.filter_sublist

end Table
