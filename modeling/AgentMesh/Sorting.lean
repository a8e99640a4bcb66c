/-
AgentMesh/Sorting.lean

Sorts that ask a comparison function.

What such a sort promises is little: the result is a permutation, and it is in
order if the function is a strict weak order on the elements of the list.  It
need not be stable, and if the function is no such order the result may be any
permutation.  `Sorter` is this contract.

If the function compares keys of a linear order, the first element of the result
is one with the least key.  For this alone less is enough: the function is a
strict weak order, and an element with the least key comes before the others
(`FindsLeast`).  And that is needed, for a sort that is given another function
may put any element first (`Sorter.favoring`, `findsLeast_of_heads`).

If the keys tell the elements apart, there is one result (`Sorter.sort_eq`).  If
they do not, there are several, and each is that of some sort: all sorts agree on
a list without repetitions if and only if its keys are distinct
(`sorts_agree_iff`).
-/
import Mathlib.Data.List.Sort
import Mathlib.Data.List.Perm.Basic
import Mathlib.Data.List.MinMax
import Mathlib.Order.Lattice

namespace Sorting

/-- `less` is a strict weak order on the elements of the list. -/
structure StrictWeak {α : Type} (less : α → α → Bool) (l : List α) : Prop where
  asymm : ∀ a ∈ l, ∀ b ∈ l, less a b = true → less b a = false
  trans : ∀ a ∈ l, ∀ b ∈ l, ∀ c ∈ l, less b a = false → less c b = false → less c a = false

/-- A sort that keeps its contract. -/
structure Sorter where
  sort : {α : Type} → (α → α → Bool) → List α → List α
  perm : ∀ {α : Type} (less : α → α → Bool) (l : List α), (sort less l).Perm l
  sorted : ∀ {α : Type} {less : α → α → Bool} {l : List α}, StrictWeak less l →
    (sort less l).Pairwise fun a b => less b a = false

section Keys

variable {α : Type} {κ : Type*} [LinearOrder κ] {key : α → κ} {less : α → α → Bool}
  {l l' : List α}

/-- The function compares keys. -/
def Compares (less : α → α → Bool) (key : α → κ) (l : List α) : Prop :=
  ∀ a ∈ l, ∀ b ∈ l, less a b = true ↔ key a < key b

theorem Compares.eq_false_iff (h : Compares less key l) {a b : α} (ha : a ∈ l) (hb : b ∈ l) :
    less a b = false ↔ key b ≤ key a := by
  rw [← Bool.not_eq_true, h a ha b hb, not_lt]

theorem Compares.strictWeak (h : Compares less key l) : StrictWeak less l where
  asymm a ha b hb hless :=
    (h.eq_false_iff hb ha).mpr ((h a ha b hb).mp hless).le
  trans a ha b hb c hc hab hbc := by
    rw [h.eq_false_iff hb ha] at hab
    rw [h.eq_false_iff hc hb] at hbc
    exact (h.eq_false_iff hc ha).mpr (hab.trans hbc)

/-- The function is good enough to find an element with the least key. -/
structure FindsLeast (less : α → α → Bool) (key : α → κ) (l : List α) : Prop where
  strictWeak : StrictWeak less l
  first : ∀ a ∈ l, (∀ b ∈ l, key a ≤ key b) → ∀ b ∈ l, b ≠ a → less a b = true

theorem StrictWeak.of_perm (h : StrictWeak less l) (hperm : l.Perm l') : StrictWeak less l' where
  asymm a ha b hb := h.asymm a (hperm.mem_iff.mpr ha) b (hperm.mem_iff.mpr hb)
  trans a ha b hb c hc :=
    h.trans a (hperm.mem_iff.mpr ha) b (hperm.mem_iff.mpr hb) c (hperm.mem_iff.mpr hc)

/-- Keys that tell the elements apart have one least element, which comes first. -/
theorem Compares.findsLeast (h : Compares less key l)
    (hinj : ∀ a ∈ l, ∀ b ∈ l, key a = key b → a = b) : FindsLeast less key l where
  strictWeak := h.strictWeak
  first a ha hleast b hb hne :=
    (h a ha b hb).mpr (lt_of_le_of_ne (hleast b hb) fun heq => hne (hinj a ha b hb heq).symm)

theorem exists_least (key : α → κ) {l : List α} (h : l ≠ []) :
    ∃ a ∈ l, ∀ b ∈ l, key a ≤ key b := by
  rcases hmin : l.argmin key with - | a
  · exact absurd (List.argmin_eq_none.mp hmin) h
  · exact ⟨a, List.argmin_mem hmin, fun b hb => List.le_of_mem_argmin hb hmin⟩

/-- The first element is a least one. -/
theorem Sorter.head_le (s : Sorter) (h : FindsLeast less key l) (hperm : l'.Perm l) {a : α}
    {rest : List α} (hsort : s.sort less l' = a :: rest) : ∀ b ∈ l, key a ≤ key b := by
  have hmem : ∀ {b}, b ∈ l ↔ b ∈ a :: rest := by
    intro b
    rw [← hsort, (s.perm less l').mem_iff, hperm.mem_iff]
  have hne : l ≠ [] := List.ne_nil_of_mem (hmem.mpr List.mem_cons_self)
  obtain ⟨least, hleast, hle⟩ := exists_least key hne
  have hsorted := s.sorted (h.strictWeak.of_perm hperm.symm)
  rw [hsort, List.pairwise_cons] at hsorted
  -- another element in front would come before the least one
  have hfirst : a = least := by
    by_contra hother
    have hbefore := h.first least hleast hle a (hmem.mpr List.mem_cons_self) hother
    rcases List.mem_cons.mp (hmem.mp hleast) with heq | hrest
    · exact hother heq.symm
    · rw [hsorted.1 least hrest] at hbefore
      cases hbefore
  rw [hfirst]
  exact hle

/-- A sort by keys puts the keys in order. -/
theorem Sorter.pairwise_sort (s : Sorter) (h : Compares less key l) :
    (s.sort less l).Pairwise fun a b => key a ≤ key b := by
  refine (s.sorted h.strictWeak).imp_of_mem ?_
  intro a b ha hb hab
  rw [(s.perm less l).mem_iff] at ha hb
  exact (h.eq_false_iff hb ha).mp hab

/-- With keys that tell the elements apart, there is one way to sort them. -/
theorem Sorter.sort_eq (s : Sorter) (h : Compares less key l)
    (hinj : ∀ a ∈ l, ∀ b ∈ l, key a = key b → a = b) (hperm : l.Perm l')
    (hsorted : l'.Pairwise fun a b => key a ≤ key b) : s.sort less l = l' := by
  refine List.Perm.eq_of_pairwise ?_ (s.pairwise_sort h) hsorted ((s.perm less l).trans hperm)
  intro a b ha hb hab hba
  exact hinj a ((s.perm less l).mem_iff.mp ha) b (hperm.mem_iff.mpr hb) (le_antisymm hab hba)

/-- Insertion sort by a relation that compares keys. -/
theorem pairwise_insertionSort_key {r : α → α → Prop} [DecidableRel r]
    (hr : ∀ a b, r a b ↔ key a ≤ key b) (l : List α) :
    (l.insertionSort r).Pairwise fun a b => key a ≤ key b := by
  have htotal : Std.Total r := ⟨fun a b => by rw [hr, hr]; exact le_total _ _⟩
  have htrans : IsTrans α r := ⟨fun a b c => by rw [hr, hr, hr]; exact le_trans⟩
  exact (List.pairwise_insertionSort r l).imp fun hab => (hr _ _).mp hab

/-- Insertion sort of elements with different keys. -/
theorem insertionSort_key_eq {r : α → α → Prop} [DecidableRel r]
    (hr : ∀ a b, r a b ↔ key a ≤ key b) (hperm : l.Perm l')
    (h : l'.Pairwise fun a b => key a < key b) : l.insertionSort r = l' := by
  have hsorted := pairwise_insertionSort_key hr l
  refine List.Perm.eq_of_pairwise ?_ hsorted (h.imp le_of_lt)
    ((List.perm_insertionSort r l).trans hperm)
  intro a b ha hb hab hba
  have hinj : Set.InjOn key { a | a ∈ l' } := by
    have hkeys : (l'.map key).Nodup := List.pairwise_map.mpr (h.imp ne_of_lt)
    exact fun a ha b hb => List.inj_on_of_nodup_map hkeys ha hb
  exact hinj (hperm.mem_iff.mp ((List.perm_insertionSort r l).mem_iff.mp ha)) hb
    (le_antisymm hab hba)

theorem Compares.of_perm (h : Compares less key l) (hperm : l.Perm l') : Compares less key l' :=
  fun a ha b hb => h a (hperm.mem_iff.mpr ha) b (hperm.mem_iff.mpr hb)

theorem Sorter.sort_congr (s s' : Sorter) (h : Compares less key l)
    (hinj : ∀ a ∈ l, ∀ b ∈ l, key a = key b → a = b) (hperm : l.Perm l') :
    s.sort less l = s'.sort less l' :=
  s.sort_eq h hinj (hperm.trans (s'.perm less l').symm) (s'.pairwise_sort (h.of_perm hperm))

end Keys

/-- Insertion sort, on the elements of the list. -/
def insertion : Sorter where
  sort less l := (l.attach.insertionSort fun a b => less b.1 a.1 = false).map Subtype.val
  perm less l := by
    have hperm := (l.attach.perm_insertionSort fun a b => less b.1 a.1 = false).map Subtype.val
    rwa [List.attach_map_subtype_val] at hperm
  sorted := by
    intro α less l h
    have htotal : Std.Total fun a b : { x // x ∈ l } => less b.1 a.1 = false := by
      refine ⟨fun a b => ?_⟩
      rcases hless : less b.1 a.1 with - | -
      · exact .inl rfl
      · exact .inr (h.asymm b.1 b.2 a.1 a.2 hless)
    have htrans : IsTrans { x // x ∈ l } fun a b => less b.1 a.1 = false :=
      ⟨fun a b c => h.trans a.1 a.2 b.1 b.2 c.1 c.2⟩
    rw [List.pairwise_map]
    exact List.pairwise_insertionSort _ _

section Favoring

variable {α : Type} {κ : Type*} [LinearOrder κ] {key : α → κ} {less : α → α → Bool}
  {l l' : List α}

open Classical in
/-- A sort that keeps its contract, and puts `x` first where the contract asks for nothing. -/
noncomputable def Sorter.favoring (x : α) : Sorter where
  sort {β} less l :=
    if StrictWeak less l then insertion.sort less l
    else if h : α = β then
      l.filter (fun a => a = cast h x) ++ l.filter (fun a => !decide (a = cast h x))
    else l
  perm less l := by
    split
    · exact insertion.perm less l
    · split
      · exact List.filter_append_perm _ l
      · exact List.Perm.refl l
  sorted h := by
    rw [if_pos h]
    exact insertion.sorted h

theorem Sorter.favoring_head {x : α} (hx : x ∈ l) (h : ¬ StrictWeak less l) :
    ∃ rest, (Sorter.favoring x).sort less l = x :: rest := by
  classical
  have hsort : (Sorter.favoring x).sort less l =
      l.filter (fun a => a = x) ++ l.filter (fun a => !decide (a = x)) := by
    simp only [Sorter.favoring, if_neg h, dif_pos, cast_eq]
  rcases hfilter : l.filter (fun a => a = x) with - | ⟨y, rest⟩
  · have hmem : x ∈ l.filter (fun a => a = x) := List.mem_filter.mpr ⟨hx, by simp⟩
    rw [hfilter] at hmem
    cases hmem
  · have hy : y ∈ l.filter (fun a => a = x) := hfilter ▸ List.mem_cons_self
    obtain rfl : y = x := by simpa using (List.mem_filter.mp hy).2
    exact ⟨_, by rw [hsort, hfilter, List.cons_append]⟩

/-- If every sort finds a least element, the function is good enough for it. -/
theorem findsLeast_of_heads (hinj : ∀ a ∈ l, ∀ b ∈ l, key a = key b → a = b)
    (hirrefl : ∀ a ∈ l, less a a = false)
    (htotal : ∀ a ∈ l, ∀ b ∈ l, a ≠ b → less a b = true ∨ less b a = true)
    (h : ∀ s : Sorter, ∃ l', l'.Perm l ∧ ∃ a rest, s.sort less l' = a :: rest ∧
      ∀ b ∈ l, key a ≤ key b) : FindsLeast less key l := by
  have hweak : StrictWeak less l := by
    by_contra hnot
    -- some element is not a least one, for otherwise there is only one
    have hother : ∃ x ∈ l, ∃ b ∈ l, key b < key x := by
      by_contra hall
      push Not at hall
      have hone : ∀ a ∈ l, ∀ b ∈ l, a = b :=
        fun a ha b hb => hinj a ha b hb (le_antisymm (hall a ha b hb) (hall b hb a ha))
      refine hnot ⟨?_, ?_⟩
      · intro a ha b hb hless
        rw [hone b hb a ha]
        exact hirrefl a ha
      · intro a ha b hb c hc _ _
        rw [hone c hc a ha]
        exact hirrefl a ha
    obtain ⟨x, hx, b, hb, hlt⟩ := hother
    obtain ⟨l', hperm, a, rest, hsort, hle⟩ := h (Sorter.favoring x)
    have hnot' : ¬ StrictWeak less l' := fun hweak => hnot (hweak.of_perm hperm)
    obtain ⟨rest', hsort'⟩ := Sorter.favoring_head (hperm.mem_iff.mpr hx) hnot'
    rw [hsort', List.cons.injEq] at hsort
    exact absurd (hle b hb) (not_le.mpr (hsort.1 ▸ hlt))
  refine ⟨hweak, ?_⟩
  intro a ha hleast b hb hne
  obtain ⟨l', hperm, a', rest, hsort, hle⟩ := h insertion
  have hmem : ∀ {b}, b ∈ l ↔ b ∈ a' :: rest := by
    intro b
    rw [← hsort, (insertion.perm less l').mem_iff, hperm.mem_iff]
  have hsame : a' = a := by
    have ha' : a' ∈ l := hmem.mpr List.mem_cons_self
    exact hinj a' ha' a ha (le_antisymm (hle a ha) (hleast a' ha'))
  have hsorted := insertion.sorted (hweak.of_perm hperm.symm)
  rw [hsort, hsame, List.pairwise_cons] at hsorted
  have hrest : b ∈ rest := by
    rcases List.mem_cons.mp (hmem.mp hb) with heq | hrest
    · exact absurd (heq.trans hsame) hne
    · exact hrest
  rcases htotal a ha b hb (Ne.symm hne) with hless | hless
  · exact hless
  · rw [hsorted.1 b hrest] at hless
    cases hless

end Favoring

section Ties

variable {α : Type} {κ : Type*} [LinearOrder κ] {key : α → κ} {less : α → α → Bool} {l l' : List α}

open Classical in
/-- A sort that returns `l'` for `l`. -/
noncomputable def Sorter.returning (less : α → α → Bool) (l l' : List α) (hperm : l'.Perm l)
    (hsorted : l'.Pairwise fun a b => less b a = false) : Sorter where
  sort {β} less' k :=
    if hβ : α = β then
      if HEq less' less ∧ HEq k l then cast (congrArg List hβ) l' else insertion.sort less' k
    else insertion.sort less' k
  perm {β} less' k := by
    split
    · rename_i hβ
      subst hβ
      split
      · rename_i h
        rw [eq_of_heq h.2]
        exact hperm
      · exact insertion.perm less' k
    · exact insertion.perm less' k
  sorted {β less' k} hweak := by
    split
    · rename_i hβ
      subst hβ
      split
      · rename_i h
        rw [eq_of_heq h.1]
        exact hsorted
      · exact insertion.sorted hweak
    · exact insertion.sorted hweak

/-- Every result that the contract allows is that of some sort. -/
theorem exists_sorter (hperm : l'.Perm l) (hsorted : l'.Pairwise fun a b => less b a = false) :
    ∃ s : Sorter, s.sort less l = l' := by
  refine ⟨Sorter.returning less l l' hperm hsorted, ?_⟩
  simp only [Sorter.returning, dif_pos, HEq.rfl, and_self, if_true, cast_eq]

/-- Two elements with one key can be exchanged in a sorted list. -/
theorem exists_other_sorted [DecidableEq α] (hl : l.Nodup) (h : Compares less key l) {a b : α}
    (ha : a ∈ l) (hb : b ∈ l) (hab : a ≠ b) (hkey : key a = key b)
    (hsorted : l.Pairwise fun a b => less b a = false) :
    ∃ l', l' ≠ l ∧ l'.Perm l ∧ l'.Pairwise fun a b => less b a = false := by
  have hswap : ∀ x, key (Equiv.swap a b x) = key x := by
    intro x
    rw [Equiv.swap_apply_def]
    split
    · rename_i hx
      rw [hx, hkey]
    · split
      · rename_i hx
        rw [hx, hkey]
      · rfl
  have hmem : ∀ {x}, x ∈ l → Equiv.swap a b x ∈ l := by
    intro x hx
    rw [Equiv.swap_apply_def]
    split
    · exact hb
    · split
      · exact ha
      · exact hx
  refine ⟨l.map (Equiv.swap a b), ?_, ?_, ?_⟩
  · intro heq
    have hfixed := List.map_inj_left.mp (heq.trans (List.map_id l).symm) a ha
    rw [Equiv.swap_apply_left] at hfixed
    exact hab hfixed.symm
  · rw [List.perm_ext_iff_of_nodup (hl.map (Equiv.swap a b).injective) hl]
    intro x
    rw [List.mem_map]
    constructor
    · rintro ⟨y, hy, rfl⟩
      exact hmem hy
    · intro hx
      exact ⟨_, hmem hx, Equiv.swap_apply_self a b x⟩
  · rw [List.pairwise_map]
    refine hsorted.imp_of_mem ?_
    intro x y hx hy hxy
    rw [h.eq_false_iff (hmem hy) (hmem hx), hswap, hswap]
    exact (h.eq_false_iff hy hx).mp hxy

/-- **All sorts agree exactly if the keys are distinct.** -/
theorem sorts_agree_iff [DecidableEq α] (hl : l.Nodup) (h : Compares less key l) :
    (∀ s s' : Sorter, s.sort less l = s'.sort less l) ↔
      ∀ a ∈ l, ∀ b ∈ l, key a = key b → a = b := by
  refine ⟨?_, fun hinj s s' => s.sort_congr s' h hinj (.refl l)⟩
  intro hagree a ha b hb hkey
  by_contra hab
  have hperm := insertion.perm less l
  obtain ⟨l', hne, hperm', hsorted'⟩ := exists_other_sorted (hperm.nodup_iff.mpr hl)
    (h.of_perm hperm.symm) (hperm.mem_iff.mpr ha) (hperm.mem_iff.mpr hb) hab hkey
    (insertion.sorted h.strictWeak)
  obtain ⟨s, hs⟩ := exists_sorter (hperm'.trans hperm) hsorted'
  exact hne (hs.symm.trans (hagree s insertion))

end Ties

end Sorting
