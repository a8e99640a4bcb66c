/-
AgentMesh/Rows.lean

A table of a relational database as a list of rows.

`Rows.update` is `UPDATE … SET … WHERE … RETURNING *`.  A row that is selected may
have no successor, because an expression overflows or a constraint is violated;
then the statement fails as a whole.  It returns the rows that it has updated.

With a unique key, a condition that fixes the key selects at most one row.  The
statement leaves the table as it is (`update_skip`) or replaces this row by its
successor (`update_row`).  `Replaces` is all that later proofs use of the second
case.
-/
import Mathlib.Data.List.Nodup
import Mathlib.Tactic

namespace Rows

variable {R K : Type*}

def update (p : R → Bool) (f : R → Option R) (rows : List R) : Option (List R × List R) :=
  if rows.all fun r => !p r || (f r).isSome then
    some (rows.map fun r => if p r then (f r).getD r else r, (rows.filter p).filterMap f)
  else none

/-- No two rows have the same key. -/
def Unique (key : R → K) (rows : List R) : Prop := (rows.map key).Nodup

/-- The row with a key. -/
def get [DecidableEq K] (key : R → K) (rows : List R) (k : K) : Option R :=
  rows.find? fun r => key r = k

/-- One row is replaced by another. -/
def Replaces (r r' : R) (rows rows' : List R) : Prop :=
  ∃ before after, rows = before ++ r :: after ∧ rows' = before ++ r' :: after

/-! ### Replacing a row -/

section Replace

variable {key : R → K} {r r' x : R} {rows rows' : List R}

theorem Replaces.mem_iff (h : Replaces r r' rows rows') (hx : x ∈ rows') : x = r' ∨ x ∈ rows := by
  obtain ⟨before, after, rfl, rfl⟩ := h
  simp only [List.mem_append, List.mem_cons] at hx ⊢
  rcases hx with hx | hx | hx
  · exact .inr (.inl hx)
  · exact .inl hx
  · exact .inr (.inr (.inr hx))

theorem Replaces.map_eq {A : Type*} (g : R → A) (h : Replaces r r' rows rows') (hg : g r' = g r) :
    rows'.map g = rows.map g := by
  obtain ⟨before, after, rfl, rfl⟩ := h
  simp [hg]

theorem Replaces.unique (h : Replaces r r' rows rows') (hkey : key r' = key r)
    (hu : Unique key rows) : Unique key rows' := by
  rw [Unique, h.map_eq key hkey]
  exact hu

theorem Replaces.countP_eq (h : Replaces r r' rows rows') (p : R → Bool) (hp : p r' = p r) :
    rows'.countP p = rows.countP p := by
  obtain ⟨before, after, rfl, rfl⟩ := h
  simp [List.countP_append, List.countP_cons, hp]

/-- A search that does not tell the two rows apart finds the same. -/
theorem Replaces.find_map {A : Type*} (h : Replaces r r' rows rows') {p : R → Bool}
    (hp : p r' = p r) {g : R → A} (hg : g r' = g r) :
    (rows'.find? p).map g = (rows.find? p).map g := by
  obtain ⟨before, after, rfl, rfl⟩ := h
  rw [List.find?_append, List.find?_append, List.find?_cons, List.find?_cons, hp]
  rcases before.find? p with - | y
  · cases p r
    · rfl
    · exact congrArg some hg
  · rfl

end Replace

/-! ### Unique keys -/

section Keyed

variable [DecidableEq K] {key : R → K} {r r' : R} {rows rows' : List R} {k : K}

theorem get_eq_some_iff (hu : Unique key rows) :
    get key rows k = some r ↔ r ∈ rows ∧ key r = k := by
  constructor
  · intro h
    exact ⟨List.mem_of_find?_eq_some h, by simpa using List.find?_some h⟩
  · rintro ⟨hr, rfl⟩
    rcases hget : get key rows (key r) with - | x
    · have hnone := List.find?_eq_none.mp hget r hr
      simp at hnone
    · have hx : x ∈ rows := List.mem_of_find?_eq_some hget
      have hkey : key x = key r := by simpa using List.find?_some hget
      rw [List.inj_on_of_nodup_map hu hx hr hkey]

theorem get_eq_none_iff : get key rows k = none ↔ ∀ r ∈ rows, key r ≠ k := by
  simp [get, List.find?_eq_none]

theorem Unique.append (hu : Unique key rows) (hnew : get key rows (key r) = none) :
    Unique key (rows ++ [r]) := by
  rw [Unique, List.map_append, List.nodup_append]
  refine ⟨hu, List.nodup_singleton _, ?_⟩
  intro a ha b hb
  obtain ⟨x, hx, rfl⟩ := List.mem_map.mp ha
  rw [List.map_singleton, List.mem_singleton] at hb
  rw [hb]
  exact get_eq_none_iff.mp hnew x hx

theorem get_append (hnew : get key rows (key r) = none) :
    get key (rows ++ [r]) k = if k = key r then some r else get key rows k := by
  rw [get, List.find?_append, List.find?_singleton]
  by_cases hk : k = key r
  · subst hk
    rw [if_pos rfl, show rows.find? (fun x => decide (key x = key r)) = none from hnew]
    simp
  · rw [if_neg hk, if_neg (by simpa using fun h => hk h.symm), Option.or_none]
    rfl

theorem Replaces.get_eq (h : Replaces r r' rows rows') (hkey : key r' = key r)
    (hu : Unique key rows) (k : K) :
    get key rows' k = if k = key r then some r' else get key rows k := by
  have hu' := h.unique hkey hu
  obtain ⟨before, after, rfl, rfl⟩ := h
  split
  · rename_i hk
    exact (get_eq_some_iff hu').mpr ⟨by simp, hkey.trans hk.symm⟩
  · rename_i hk
    rw [get, get, List.find?_append, List.find?_append, List.find?_cons, List.find?_cons, hkey,
      decide_eq_false fun h => hk h.symm]

variable {q : R → Bool} {f : R → Option R}

/-- Rows that are not selected stay. -/
theorem map_of_forall_not {p : R → Bool} (hp : ∀ r ∈ rows, p r = false) :
    (rows.map fun r => if p r then (f r).getD r else r) = rows := by
  rw [List.map_congr_left (g := fun r => r), List.map_id']
  intro r hr
  rw [hp r hr, if_neg Bool.false_ne_true]

/-- The condition selects no row. -/
theorem update_skip (hu : Unique key rows) (hq : ∀ r, get key rows k = some r → q r = false) :
    update (fun r => key r = k && q r) f rows = some (rows, []) := by
  have hp : ∀ r ∈ rows, (decide (key r = k) && q r) = false := by
    intro r hr
    by_cases hk : key r = k
    · rw [hq r ((get_eq_some_iff hu).mpr ⟨hr, hk⟩), Bool.and_false]
    · rw [decide_eq_false hk, Bool.false_and]
  have hnone : rows.filter (fun r => decide (key r = k) && q r) = [] :=
    List.filter_eq_nil_iff.mpr fun r hr => by simp [hp r hr]
  rw [update, if_pos, map_of_forall_not hp, hnone, List.filterMap_nil]
  rw [List.all_eq_true]
  intro r hr
  rw [hp r hr]
  rfl

/-- The row is replaced. -/
theorem update_row (hu : Unique key rows) (hget : get key rows k = some r) (hq : q r = true)
    (hf : f r = some r') :
    ∃ rows', update (fun r => key r = k && q r) f rows = some (rows', [r']) ∧
      Replaces r r' rows rows' := by
  obtain ⟨hr, rfl⟩ := (get_eq_some_iff hu).mp hget
  obtain ⟨before, after, rfl⟩ := List.append_of_mem hr
  -- no other row has the key
  have hnodup : (before.map key ++ key r :: after.map key).Nodup := by
    simpa [Unique] using hu
  rw [List.nodup_append, List.nodup_cons] at hnodup
  have hbefore : ∀ x ∈ before, (decide (key x = key r) && q x) = false := by
    intro x hx
    rw [decide_eq_false (hnodup.2.2 _ (List.mem_map_of_mem hx) _ List.mem_cons_self),
      Bool.false_and]
  have hafter : ∀ x ∈ after, (decide (key x = key r) && q x) = false := by
    intro x hx
    have hne : key x ≠ key r := fun heq => hnodup.2.1.1 (heq ▸ List.mem_map_of_mem hx)
    rw [decide_eq_false hne, Bool.false_and]
  refine ⟨before ++ r' :: after, ?_, ⟨before, after, rfl, rfl⟩⟩
  have hselected :
      (before ++ r :: after).filter (fun x => decide (key x = key r) && q x) = [r] := by
    rw [List.filter_append, List.filter_cons, List.filter_eq_nil_iff.mpr,
      List.filter_eq_nil_iff.mpr]
    · simp [hq]
    · intro x hx
      simp [hafter x hx]
    · intro x hx
      simp [hbefore x hx]
  rw [update, if_pos, List.map_append, List.map_cons, map_of_forall_not hbefore,
    map_of_forall_not hafter, hselected]
  · simp [hq, hf]
  · simp only [List.all_append, List.all_cons, Bool.and_eq_true, List.all_eq_true]
    exact ⟨fun x hx => by simp [hbefore x hx], by simp [hf], fun x hx => by simp [hafter x hx]⟩

end Keyed

end Rows
