/-
AgentMesh/Window.lean

A window over a growing sequence.

Elements are appended at the end, and the window loses elements for two reasons:
they are old, or `n` newer ones follow.  Where the old elements of the sequence
come first, both drop a prefix, so the window stays a suffix (`Kept`).  Then it
does not matter in which order the two are done, nor which of the elements that
were to go have gone before (`Kept.rtake_filter`, `Kept.filter_rtake`).
-/
import Mathlib.Data.List.DropRight
import Mathlib.Tactic

namespace Window

variable {α : Type*} {old : α → Bool} {past past' : α → Prop} {all kept l : List α} {n : Nat}

/-! ### Old elements first -/

def OldFirst (old : α → Bool) (l : List α) : Prop :=
  l.Pairwise fun a b => old b = true → old a = true

theorem OldFirst.countP_eq_zero {a : α} (h : OldFirst old (a :: l)) (ha : old a = false) :
    l.countP old = 0 := by
  rw [List.countP_eq_zero]
  intro b hb hold
  rw [(List.pairwise_cons.mp h).1 b hb hold] at ha
  cases ha

/-- An element is old if it is one of the first. -/
theorem OldFirst.old_iff (h : OldFirst old l) {i : Nat} {a : α} (ha : l[i]? = some a) :
    old a = true ↔ i < l.countP old := by
  induction l generalizing i with
  | nil => cases ha
  | cons b l ih =>
      have hl : OldFirst old l := (List.pairwise_cons.mp h).2
      rcases hb : old b with - | -
      · -- nothing is old after an element that is not
        have hzero := h.countP_eq_zero hb
        rw [List.countP_cons_of_neg (by simp [hb]), hzero]
        cases i with
        | zero =>
            obtain rfl := Option.some.inj ha
            simp [hb]
        | succ i =>
            have hi := ih hl (i := i) ha
            rw [hzero] at hi
            simpa using hi
      · rw [List.countP_cons_of_pos hb]
        cases i with
        | zero =>
            obtain rfl := Option.some.inj ha
            simp [hb]
        | succ i => rw [ih hl (i := i) ha, Nat.succ_lt_succ_iff]

/-- The elements of a suffix that are not old. -/
theorem OldFirst.filter_drop (h : OldFirst old l) (k : Nat) :
    (l.drop k).filter (fun a => !old a) = l.drop (max k (l.countP old)) := by
  induction l generalizing k with
  | nil => simp
  | cons a l ih =>
      have hl : OldFirst old l := (List.pairwise_cons.mp h).2
      rcases ha : old a with - | -
      · have hzero := h.countP_eq_zero ha
        rw [List.countP_cons_of_neg (by simp [ha]), hzero, Nat.max_zero]
        have hrest := ih hl
        simp only [hzero, Nat.max_zero] at hrest
        cases k with
        | zero => simpa [ha] using hrest 0
        | succ k => exact hrest k
      · rw [List.countP_cons_of_pos ha]
        cases k with
        | zero =>
            rw [Nat.zero_max, List.drop_zero, List.filter_cons_of_neg (by simp [ha]),
              List.drop_succ_cons]
            simpa using ih hl 0
        | succ k =>
            rw [Nat.add_max_add_right]
            exact ih hl k

/-- To drop the old elements in front is to drop them all. -/
theorem OldFirst.dropWhile_eq (h : OldFirst old l) :
    l.dropWhile old = l.filter fun a => !old a := by
  induction l with
  | nil => rfl
  | cons a l ih =>
      rcases ha : old a with - | -
      · rw [List.dropWhile_cons_of_neg (by simp [ha]), eq_comm, List.filter_eq_self]
        intro b hb
        rcases List.mem_cons.mp hb with rfl | hb
        · simp [ha]
        · simpa using List.countP_eq_zero.mp (h.countP_eq_zero ha) b hb
      · rw [List.dropWhile_cons_of_pos ha, List.filter_cons_of_neg (by simp [ha])]
        exact ih (List.pairwise_cons.mp h).2

theorem rtake_drop (k : Nat) (l : List α) : (l.drop k).rtake n = l.drop (max k (l.length - n)) := by
  rw [List.rtake, List.drop_drop, List.length_drop]
  congr 1
  omega

/-! ### The window -/

/-- The window is a suffix: what is missing was old at some time, or has `n` elements after it. -/
def Kept (n : Nat) (past : α → Prop) (all kept : List α) : Prop :=
  ∃ k ≤ all.length, kept = all.drop k ∧
    ∀ i a, i < k → all[i]? = some a → past a ∨ i + n < all.length

theorem Kept.nil : Kept n past ([] : List α) [] :=
  ⟨0, Nat.le_refl _, rfl, fun _ _ h => absurd h (Nat.not_lt_zero _)⟩

theorem Kept.mono (h : Kept n past all kept) (hpast : ∀ a, past a → past' a) :
    Kept n past' all kept := by
  obtain ⟨k, hk, rfl, hgone⟩ := h
  exact ⟨k, hk, rfl, fun i a hi ha => (hgone i a hi ha).imp_left (hpast a)⟩

theorem Kept.subset (h : Kept n past all kept) : kept ⊆ all := by
  obtain ⟨k, -, rfl, -⟩ := h
  exact List.drop_subset k all

theorem Kept.append (h : Kept n past all kept) (a : α) :
    Kept n past (all ++ [a]) (kept ++ [a]) := by
  obtain ⟨k, hk, rfl, hgone⟩ := h
  refine ⟨k, ?_, (List.drop_append_of_le_length hk).symm, ?_⟩
  · rw [List.length_append]
    omega
  · intro i b hi hb
    rw [List.getElem?_append_left (by omega)] at hb
    rw [List.length_append]
    exact (hgone i b hi hb).imp_right fun hlt => by omega

theorem Kept.oldFirst (h : Kept n past all kept) (hfirst : OldFirst old all) :
    OldFirst old kept := by
  obtain ⟨k, -, rfl, -⟩ := h
  exact hfirst.sublist (List.drop_sublist k all)

theorem Kept.filter (h : Kept n past all kept) (hfirst : OldFirst old all)
    (hpast : ∀ a, past a → past' a) (hold : ∀ a ∈ all, old a = true → past' a) :
    Kept n past' all (kept.filter fun a => !old a) := by
  obtain ⟨k, hk, rfl, hgone⟩ := h
  refine ⟨_, max_le hk List.countP_le_length, hfirst.filter_drop k, ?_⟩
  intro i a hi ha
  rcases lt_max_iff.mp hi with hi | hi
  · exact (hgone i a hi ha).imp_left (hpast a)
  · exact .inl (hold a (List.mem_of_getElem? ha) ((hfirst.old_iff ha).mpr hi))

theorem Kept.rtake (h : Kept n past all kept) : Kept n past all (kept.rtake n) := by
  obtain ⟨k, hk, rfl, hgone⟩ := h
  refine ⟨_, max_le hk (Nat.sub_le _ _), rtake_drop k all, ?_⟩
  intro i a hi ha
  rcases lt_max_iff.mp hi with hi | hi
  · exact hgone i a hi ha
  · exact .inr (by omega)

/-- The newest elements of the window that are not old. -/
theorem Kept.rtake_filter (h : Kept n past all kept) (hfirst : OldFirst old all)
    (hpast : ∀ a ∈ all, past a → old a = true) :
    (kept.rtake n).filter (fun a => !old a) = (all.rtake n).filter fun a => !old a := by
  obtain ⟨k, hk, rfl, hgone⟩ := h
  rw [rtake_drop, List.rtake, hfirst.filter_drop, hfirst.filter_drop]
  -- the first element that both leave would be missing from the window for no reason
  have hle : k ≤ max (all.length - n) (all.countP old) := by
    by_contra hlt
    have hin : max (all.length - n) (all.countP old) < all.length := by omega
    have ha := List.getElem?_eq_getElem hin
    rcases hgone _ _ (not_le.mp hlt) ha with hold | hmany
    · have := (hfirst.old_iff ha).mp (hpast _ (List.getElem_mem hin) hold)
      omega
    · omega
  congr 1
  omega

theorem Kept.filter_rtake (h : Kept n past all kept) (hfirst : OldFirst old all)
    (hpast : ∀ a ∈ all, past a → old a = true) :
    (kept.filter fun a => !old a).rtake n = (all.rtake n).filter fun a => !old a := by
  rw [← h.rtake_filter hfirst hpast]
  obtain ⟨k, hk, rfl, -⟩ := h
  rw [hfirst.filter_drop, rtake_drop, rtake_drop, hfirst.filter_drop]
  congr 1
  omega

/-- What the two cuts leave is a window again. -/
theorem Kept.newest (h : Kept n past all kept) (hfirst : OldFirst old all)
    (hpast : ∀ a ∈ all, past a → old a = true) (hmono : ∀ a, past a → past' a)
    (hold : ∀ a ∈ all, old a = true → past' a) :
    Kept n past' all ((all.rtake n).filter fun a => !old a) := by
  rw [← h.filter_rtake hfirst hpast]
  exact (h.filter hfirst hmono hold).rtake

end Window
