/-
AgentMesh/Keyed.lean

Lists of records that carry a key: merging without repeated keys, and windows.

`addAll` appends those elements of a list whose key is new.  The keys of the
result are the keys of both lists, none of them twice, and the old list stays a
prefix.

A window of a list that grows at its end is what a bounded history of it keeps:
the last `size` elements at some moment.  Merging two windows of one list by
`addAll` gives their union in the order of the list, if the second window does
not reach further back than the first (`addAll_window`).
-/
import Mathlib.Data.List.DropRight
import Mathlib.Data.List.Nodup
import Mathlib.Tactic

namespace Keyed

variable {α κ : Type*} [DecidableEq κ] {key : α → κ} {l xs : List α} {x : α} {k : κ}

/-! ### Merging -/

/-- Append an element, unless its key is there. -/
def addNew (key : α → κ) (l : List α) (x : α) : List α :=
  if key x ∈ l.map key then l else l ++ [x]

/-- Append the elements of a list whose keys are not there. -/
def addAll (key : α → κ) (l xs : List α) : List α := xs.foldl (addNew key) l

theorem addNew_of_mem (h : key x ∈ l.map key) : addNew key l x = l := if_pos h

theorem addNew_of_not_mem (h : key x ∉ l.map key) : addNew key l x = l ++ [x] := if_neg h

@[simp] theorem addAll_nil : addAll key l [] = l := rfl

@[simp] theorem addAll_cons : addAll key l (x :: xs) = addAll key (addNew key l x) xs := rfl

theorem keys_addNew : k ∈ (addNew key l x).map key ↔ k ∈ l.map key ∨ k = key x := by
  by_cases h : key x ∈ l.map key
  · rw [addNew_of_mem h]
    refine ⟨.inl, ?_⟩
    rintro (hk | rfl)
    · exact hk
    · exact h
  · rw [addNew_of_not_mem h, List.map_append, List.mem_append]
    simp

theorem keys_addAll : k ∈ (addAll key l xs).map key ↔ k ∈ l.map key ∨ k ∈ xs.map key := by
  induction xs generalizing l with
  | nil => simp
  | cons x xs ih => rw [addAll_cons, ih, keys_addNew, List.map_cons, List.mem_cons, or_assoc]

theorem nodup_addNew (h : (l.map key).Nodup) : ((addNew key l x).map key).Nodup := by
  by_cases hx : key x ∈ l.map key
  · rw [addNew_of_mem hx]
    exact h
  · rw [addNew_of_not_mem hx, List.map_append]
    exact h.append (List.nodup_singleton _) (by simpa using hx)

theorem nodup_addAll (h : (l.map key).Nodup) : ((addAll key l xs).map key).Nodup := by
  induction xs generalizing l with
  | nil => exact h
  | cons x xs ih => exact ih (nodup_addNew h)

theorem prefix_addAll : l <+: addAll key l xs := by
  induction xs generalizing l with
  | nil => exact List.prefix_refl l
  | cons x xs ih =>
      refine List.IsPrefix.trans ?_ ih
      rw [addNew]
      split
      · exact List.prefix_refl l
      · exact List.prefix_append l [x]

theorem mem_addAll {y : α} (h : y ∈ addAll key l xs) : y ∈ l ∨ y ∈ xs := by
  induction xs generalizing l with
  | nil => exact .inl h
  | cons x xs ih =>
      rcases ih h with hy | hy
      · rw [addNew] at hy
        split at hy
        · exact .inl hy
        · rw [List.mem_append, List.mem_singleton] at hy
          refine hy.imp id ?_
          rintro rfl
          exact List.mem_cons_self
      · exact .inr (List.mem_cons_of_mem x hy)

/-- Elements whose keys are all there add nothing. -/
theorem addAll_eq_self (h : ∀ x ∈ xs, key x ∈ l.map key) : addAll key l xs = l := by
  induction xs with
  | nil => rfl
  | cons x xs ih =>
      rw [List.forall_mem_cons] at h
      rw [addAll_cons, addNew_of_mem h.1]
      exact ih h.2

/-- Elements with different keys are appended as far as their keys are new. -/
theorem addAll_eq_filter (h : (xs.map key).Nodup) :
    addAll key l xs = l ++ xs.filter fun x => key x ∉ l.map key := by
  induction xs generalizing l with
  | nil => simp
  | cons x xs ih =>
      rw [List.map_cons, List.nodup_cons] at h
      rw [addAll_cons, ih h.2]
      by_cases hx : key x ∈ l.map key
      · rw [addNew_of_mem hx, List.filter_cons_of_neg (by simpa using hx)]
      · -- the key of `x` is not among those that follow
        have hrest : xs.filter (fun y => key y ∉ (l ++ [x]).map key)
            = xs.filter fun y => key y ∉ l.map key := by
          refine List.filter_congr fun y hy => ?_
          have hne : key y ≠ key x := fun heq => h.1 (heq ▸ List.mem_map_of_mem hy)
          simp [hne]
        rw [addNew_of_not_mem hx, List.filter_cons_of_pos (by simpa using hx), hrest,
          List.append_assoc, List.singleton_append]

theorem addAll_of_nodup (h : (xs.map key).Nodup) : addAll key [] xs = xs := by
  rw [addAll_eq_filter h]
  simp

theorem addAll_concat : addAll key l (xs ++ [x]) = addNew key (addAll key l xs) x := by
  rw [addAll, List.foldl_append]
  rfl

theorem mem_addAll_id {l ks : List κ} : k ∈ addAll id l ks ↔ k ∈ l ∨ k ∈ ks := by
  have hkeys : k ∈ (addAll id l ks).map id ↔ k ∈ l.map id ∨ k ∈ ks.map id := keys_addAll
  rwa [List.map_id, List.map_id, List.map_id] at hkeys

/-- The first occurrence is the least one. -/
theorem idxOf_le_of_getElem? {ks : List κ} {i : Nat} (h : ks[i]? = some k) : ks.idxOf k ≤ i := by
  have hmem : k ∈ ks.take (i + 1) := by
    refine List.mem_of_getElem? (i := i) ?_
    rw [List.getElem?_take_of_lt (Nat.lt_succ_self i), h]
  rw [← List.take_append_drop (i + 1) ks, List.idxOf_append_of_mem hmem]
  have hlt := List.idxOf_lt_length_iff.mpr hmem
  have hle := List.length_take_le (i + 1) ks
  omega

/-- Without a key to look at, the elements come in the order of their first occurrences. -/
theorem pairwise_idxOf_addAll (ks : List κ) :
    (addAll id [] ks).Pairwise fun a b => ks.idxOf a < ks.idxOf b := by
  have hmem : ∀ (ks : List κ) {a}, a ∈ addAll id [] ks ↔ a ∈ ks := by
    intro ks a
    simp [mem_addAll_id]
  induction ks using List.reverseRecOn with
  | nil => exact List.Pairwise.nil
  | append_singleton ks k ih =>
      -- the old elements keep their first occurrences
      have hold : (addAll id [] ks).Pairwise
          fun a b => (ks ++ [k]).idxOf a < (ks ++ [k]).idxOf b := by
        refine ih.imp_of_mem ?_
        intro a b ha hb hab
        rwa [List.idxOf_append_of_mem ((hmem ks).mp ha), List.idxOf_append_of_mem ((hmem ks).mp hb)]
      rw [addAll_concat]
      by_cases hk : k ∈ ks
      · rwa [addNew_of_mem (by simpa using (hmem ks).mpr hk)]
      · rw [addNew_of_not_mem (by simpa using (hmem ks).not.mpr hk), List.pairwise_append]
        refine ⟨hold, List.pairwise_singleton _ _, ?_⟩
        intro a ha b hb
        obtain rfl := List.mem_singleton.mp hb
        rw [List.idxOf_append_of_mem ((hmem ks).mp ha), List.idxOf_append_of_notMem hk]
        have hlt := List.idxOf_lt_length_iff.mpr ((hmem ks).mp ha)
        omega

/-! ### Windows -/

/-- The last `size` elements of a list when it had `moment` elements. -/
def window (l : List α) (moment size : Nat) : List α := (l.take moment).rtake size

theorem window_eq {moment size : Nat} (h : moment ≤ l.length) :
    window l moment size = (l.take moment).drop (moment - size) := by
  rw [window, List.rtake, List.length_take_of_le h]

theorem window_sublist (moment size : Nat) : (window l moment size).Sublist l :=
  (List.drop_sublist _ _).trans (List.take_sublist _ _)

/-- A sublist of a list without repetitions is the list of its own elements. -/
theorem filter_mem_of_sublist [DecidableEq α] {s : List α} (h : s.Sublist l) (hl : l.Nodup) :
    (l.filter fun x => x ∈ s) = s := by
  induction h with
  | slnil => rfl
  | @cons s l x hs ih =>
      rw [List.nodup_cons] at hl
      have hx : x ∉ s := fun hmem => hl.1 (hs.subset hmem)
      rw [List.filter_cons_of_neg (by simpa using hx)]
      exact ih hl.2
  | @cons_cons s l x hs ih =>
      rw [List.nodup_cons] at hl
      rw [List.filter_cons_of_pos (by simp)]
      congr 1
      conv_rhs => rw [← ih hl.2]
      refine List.filter_congr fun y hy => ?_
      have hne : y ≠ x := fun heq => hl.1 (heq ▸ hy)
      simp [hne]

section Windows

variable {i j size size' : Nat}

/-- What the second of two windows has over the first was published after the first. -/
theorem window_filter_sublist (hi : i ≤ l.length) (hj : j ≤ l.length)
    (hstart : i - size ≤ j - size') :
    ((window l j size').filter fun x => key x ∉ (window l i size).map key).Sublist (l.drop i) := by
  have hsub : (window l j size').Sublist (l.drop (j - size')) := by
    rw [window_eq hj, List.drop_take]
    exact List.take_sublist _ _
  rcases le_total i (j - size') with hle | hle
  · refine List.filter_sublist.trans (hsub.trans ?_)
    obtain ⟨d, hd⟩ := Nat.exists_eq_add_of_le hle
    rw [hd, ← List.drop_drop]
    exact List.drop_sublist _ _
  · -- the part before position `i` is in the first window
    have hsplit : l.drop (j - size') = (l.take i).drop (j - size') ++ l.drop i := by
      conv_lhs => rw [← List.take_append_drop i l]
      rw [List.drop_append_of_le_length (by rw [List.length_take_of_le hi]; exact hle)]
    have hold : ((l.take i).drop (j - size')).filter
        (fun x => key x ∉ (window l i size).map key) = [] := by
      rw [List.filter_eq_nil_iff]
      intro x hx
      have hmem : x ∈ window l i size := by
        obtain ⟨d, hd⟩ := Nat.exists_eq_add_of_le hstart
        rw [hd, ← List.drop_drop] at hx
        rw [window_eq hi]
        exact List.mem_of_mem_drop hx
      simpa using ⟨x, hmem, rfl⟩
    refine (hsub.filter _).trans ?_
    rw [hsplit, List.filter_append, hold, List.nil_append]
    exact List.filter_sublist

/-- Merging two windows of a list gives their union, in the order of the list. -/
theorem addAll_window [DecidableEq α] (hl : (l.map key).Nodup) (hi : i ≤ l.length)
    (hj : j ≤ l.length) (hstart : i - size ≤ j - size') :
    addAll key (window l i size) (window l j size')
      = l.filter fun x => x ∈ window l i size ∨ x ∈ window l j size' := by
  have hnodup : ((window l j size').map key).Nodup := hl.sublist ((window_sublist j size').map key)
  have hfirst : (window l i size).Sublist (l.take i) := List.drop_sublist _ _
  have horder : (window l i size
      ++ (window l j size').filter fun x => key x ∉ (window l i size).map key).Sublist l := by
    conv_rhs => rw [← List.take_append_drop i l]
    exact hfirst.append (window_filter_sublist hi hj hstart)
  rw [addAll_eq_filter hnodup, ← filter_mem_of_sublist horder (List.Nodup.of_map key hl)]
  refine List.filter_congr fun x hx => ?_
  have hiff : x ∈ (window l i size
      ++ (window l j size').filter fun x => key x ∉ (window l i size).map key) ↔
      x ∈ window l i size ∨ x ∈ window l j size' := by
    rw [List.mem_append, List.mem_filter]
    constructor
    · exact Or.imp_right And.left
    · intro hmem
      by_cases hkey : key x ∈ (window l i size).map key
      · obtain ⟨y, hy, hsame⟩ := List.mem_map.mp hkey
        have heq : y = x :=
          List.inj_on_of_nodup_map hl ((window_sublist i size).subset hy) hx hsame
        exact .inl (heq ▸ hy)
      · exact hmem.imp_right fun hmem => ⟨hmem, by simpa using hkey⟩
  simp only [decide_eq_decide]
  exact hiff

end Windows

end Keyed
