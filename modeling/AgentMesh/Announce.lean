/-
AgentMesh/Announce.lean

Announcements that are to be made once.

Some parties announce a fact: `told` is what was announced so far, `owed k` is
what the party `k` is still going to announce.  `Once` says that there is at
most one announcement in all, made or owed, and that it is true.  This is kept
when less is owed than before (`Once.frame`), when a party makes its
announcement (`Once.tell`), and when a fact comes true and one party takes on
its announcement (`Once.start`).

`Covered` is the other half: something was announced, or is owed.  Together they
say that there is exactly one announcement (`Once.of_covered`).
-/
import Mathlib.Data.List.Perm.Subperm
import Mathlib.Tactic

namespace Announce

variable {κ τ : Type*}

structure Once (truth : τ → Prop) (told : List τ) (owed : κ → List τ) : Prop where
  told_true : ∀ x ∈ told, truth x
  owed_true : ∀ k, ∀ x ∈ owed k, truth x
  once : ∀ k, told.length + (owed k).length ≤ 1
  alone : ∀ k k', owed k ≠ [] → owed k' ≠ [] → k = k'

def Covered (told : List τ) (owed : κ → List τ) : Prop := told ≠ [] ∨ ∃ k, owed k ≠ []

variable {truth truth' : τ → Prop} {told : List τ} {owed owed' : κ → List τ} {k : κ}
  {new : Option τ} {rest : List τ}

/-- The announcements of one kind, in a list of which the first element is split off. -/
theorem filterMap_cons {α β : Type*} (f : α → Option β) (x : α) (l : List α) :
    (x :: l).filterMap f = (f x).toList ++ l.filterMap f := by
  cases h : f x <;> simp [h]

theorem filterMap_append_singleton {α β : Type*} (f : α → Option β) (x : α) (l : List α) :
    (l ++ [x]).filterMap f = l.filterMap f ++ (f x).toList := by
  rw [List.filterMap_append, filterMap_cons, List.filterMap_nil, List.append_nil]

/-- What is true stays true, and less is owed. -/
theorem Once.frame (h : Once truth told owed) (htruth : ∀ x, truth x → truth' x)
    (howed : ∀ k, (owed' k).Subperm (owed k)) : Once truth' told owed' where
  told_true x hx := htruth x (h.told_true x hx)
  owed_true k x hx := htruth x (h.owed_true k x ((howed k).subset hx))
  once k := by
    have hle := (howed k).length_le
    have honce := h.once k
    omega
  alone k k' hk hk' := by
    refine h.alone k k' (fun hnil => hk ?_) fun hnil => hk' ?_
    · exact List.subperm_nil.mp (hnil ▸ howed k)
    · exact List.subperm_nil.mp (hnil ▸ howed k')

/-- A party makes its announcement, if `new` is one. -/
theorem Once.tell (h : Once truth told owed) (htruth : ∀ x, truth x → truth' x)
    (hbefore : (owed k).Perm (new.toList ++ rest)) (hself : owed' k = rest)
    (hother : ∀ n, n ≠ k → owed' n = owed n) : Once truth' (told ++ new.toList) owed' := by
  have hless : ∀ n, (owed' n).Subperm (owed n) := by
    intro n
    by_cases hn : n = k
    · rw [hn, hself]
      exact (List.sublist_append_right _ _).subperm.trans hbefore.symm.subperm
    · rw [hother n hn]
  rcases new with - | x
  · rw [Option.toList_none, List.append_nil]
    exact h.frame htruth hless
  -- the announcement was the only one to be made, and nobody had made one
  have hlength := hbefore.length_eq
  rw [Option.toList_some, List.singleton_append, List.length_cons] at hlength
  have hone := h.once k
  have hnone : told = [] := List.eq_nil_of_length_eq_zero (by omega)
  have hx : x ∈ owed k := hbefore.mem_iff.mpr (by simp)
  have hlast : ∀ n, owed' n = [] := by
    intro n
    by_cases hn : n = k
    · rw [hn, hself]
      exact List.eq_nil_of_length_eq_zero (by omega)
    · rw [hother n hn]
      by_contra hne
      exact hn (h.alone n k hne (List.ne_nil_of_mem hx))
  refine ⟨?_, ?_, ?_, ?_⟩
  · intro y hy
    obtain rfl : y = x := by simpa [hnone] using hy
    exact htruth y (h.owed_true k y hx)
  · intro n y hy
    rw [hlast] at hy
    cases hy
  · intro n
    rw [hnone, hlast]
    simp
  · exact fun n _ hn => absurd (hlast n) hn

/-- As long as there is nothing true to announce, nothing is announced or owed. -/
theorem Once.silent (h : Once truth told owed) (hfalse : ∀ x, ¬ truth x) :
    told = [] ∧ ∀ k, owed k = [] :=
  ⟨List.eq_nil_iff_forall_not_mem.mpr fun x hx => hfalse x (h.told_true x hx),
    fun k => List.eq_nil_iff_forall_not_mem.mpr fun x hx => hfalse x (h.owed_true k x hx)⟩

/-- A fact comes true, and one party is going to announce it. -/
theorem Once.start (h : Once truth told owed) (hfalse : ∀ x, ¬ truth x)
    (htrue : ∀ x ∈ new, truth' x) (hself : owed' k = owed k ++ new.toList)
    (hother : ∀ n, n ≠ k → owed' n = owed n) : Once truth' told owed' := by
  obtain ⟨rfl, hnone⟩ := h.silent hfalse
  rw [hnone, List.nil_append] at hself
  have hempty : ∀ n, n ≠ k → owed' n = [] := fun n hn => (hother n hn).trans (hnone n)
  refine ⟨by simp, ?_, ?_, ?_⟩
  · intro n x hx
    by_cases hn : n = k
    · rw [hn, hself, Option.mem_toList] at hx
      exact htrue x hx
    · rw [hempty n hn] at hx
      cases hx
  · intro n
    by_cases hn : n = k
    · rw [hn, hself]
      cases new <;> simp
    · simp [hempty n hn]
  · intro n n' hn hn'
    have hk : n = k := by_contra fun h => hn (hempty n h)
    have hk' : n' = k := by_contra fun h => hn' (hempty n' h)
    rw [hk, hk']

theorem Covered.start {x : τ} (hself : owed' k = owed k ++ [x]) : Covered told owed' :=
  .inr ⟨k, by simp [hself]⟩

/-- A party that owes nothing takes on something else. -/
theorem Covered.frame (h : Covered told owed) (hnone : owed k = [])
    (hother : ∀ n, n ≠ k → owed' n = owed n) : Covered told owed' := by
  refine h.imp id ?_
  rintro ⟨n, hn⟩
  have hnk : n ≠ k := by
    rintro rfl
    exact hn hnone
  exact ⟨n, hother n hnk ▸ hn⟩

theorem Covered.tell (h : Covered told owed) (hbefore : (owed k).Perm (new.toList ++ rest))
    (hself : owed' k = rest) (hother : ∀ n, n ≠ k → owed' n = owed n) :
    Covered (told ++ new.toList) owed' := by
  rcases h with htold | ⟨n, hn⟩
  · exact .inl (by simp [htold])
  rcases new with - | x
  · refine .inr ⟨n, ?_⟩
    by_cases hnk : n = k
    · subst hnk
      rw [hself]
      intro hnil
      rw [hnil] at hbefore
      exact hn hbefore.eq_nil
    · rw [hother n hnk]
      exact hn
  · exact .inl (by simp)

/-- Exactly one announcement: it was made, or one party owes it. -/
theorem Once.of_covered [Nonempty κ] {x : τ} (h : Once truth told owed) (hcovered : Covered told owed)
    (honly : ∀ y, truth y → y = x) :
    told = [x] ∨ told = [] ∧ ∃ k, owed k = [x] := by
  have single : ∀ {l : List τ}, l ≠ [] → l.length ≤ 1 → (∀ y ∈ l, truth y) → l = [x] := by
    intro l hne hle htrue
    obtain ⟨y, rfl⟩ := List.length_eq_one_iff.mp (le_antisymm hle (List.length_pos_iff.mpr hne))
    rw [honly y (htrue y (List.mem_singleton_self y))]
  by_cases htold : told = []
  · obtain ⟨k, hk⟩ := hcovered.resolve_left (absurd htold)
    have hle := h.once k
    exact .inr ⟨htold, k, single hk (by omega) (h.owed_true k)⟩
  · have hle := h.once (Classical.arbitrary κ)
    exact .inl (single htold (by omega) h.told_true)

end Announce
