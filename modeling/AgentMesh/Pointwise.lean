/-
AgentMesh/Pointwise.lean

Lists that are related entry by entry (`List.Forall₂`): the rules for following
an entry from one list to the other, and for changing an entry.  Also lists of
records with distinct keys, in which the first record with a key is the only
one.
-/
import Mathlib.Data.List.Forall2
import Mathlib.Data.List.Nodup
import Mathlib.Tactic

namespace Pointwise

open List

variable {α β κ : Type*} {R : α → β → Prop} {S : α → α → Prop}

/-! ### Related entries -/

theorem trans {γ : Type*} {R' : β → γ → Prop} {T : α → γ → Prop}
    (hRT : ∀ {a b c}, R a b → R' b c → T a c) {l : List α} {l' : List β} {l'' : List γ}
    (h : Forall₂ R l l') (h' : Forall₂ R' l' l'') : Forall₂ T l l'' := by
  induction h generalizing l'' with
  | nil =>
      cases h'
      exact Forall₂.nil
  | cons hab _ ih =>
      cases h' with
      | cons hbc hrest => exact Forall₂.cons (hRT hab hbc) (ih hrest)

theorem getElem?_left {l : List α} {l' : List β} (h : Forall₂ R l l') {i : Nat} {a : α}
    (ha : l[i]? = some a) : ∃ b, l'[i]? = some b ∧ R a b := by
  induction h generalizing i with
  | nil => simp at ha
  | @cons a' b' _ _ hab _ ih =>
      cases i with
      | zero =>
          obtain rfl : a' = a := by simpa using ha
          exact ⟨b', rfl, hab⟩
      | succ i => exact ih (by simpa using ha)

theorem getElem?_right {l : List α} {l' : List β} (h : Forall₂ R l l') {i : Nat} {b : β}
    (hb : l'[i]? = some b) : ∃ a, l[i]? = some a ∧ R a b := by
  have hflip : Forall₂ (fun b a => R a b) l' l := Forall₂.flip h
  exact getElem?_left hflip hb

theorem mem_right {l : List α} {l' : List β} (h : Forall₂ R l l') {b : β} (hb : b ∈ l') :
    ∃ a ∈ l, R a b := by
  obtain ⟨i, hi⟩ := List.mem_iff_getElem?.mp hb
  obtain ⟨a, ha, hab⟩ := getElem?_right h hi
  exact ⟨a, List.mem_of_getElem? ha, hab⟩

theorem exists_right {l : List α} (h : ∀ a ∈ l, ∃ b, R a b) : ∃ l', Forall₂ R l l' := by
  induction l with
  | nil => exact ⟨[], .nil⟩
  | cons a rest ih =>
      obtain ⟨⟨b, hab⟩, hrest⟩ := List.forall_mem_cons.mp h
      obtain ⟨rest', hrest'⟩ := ih hrest
      exact ⟨b :: rest', .cons hab hrest'⟩

/-- The first entry that passes a test on which related entries agree. -/
theorem find?_left {l : List α} {l' : List β} (h : Forall₂ R l l') {p : α → Bool} {q : β → Bool}
    (hpq : ∀ {a b}, R a b → p a = q b) {a : α} (ha : l.find? p = some a) :
    ∃ b, l'.find? q = some b ∧ R a b := by
  induction h with
  | nil => simp at ha
  | @cons a' b' _ _ hab _ ih =>
      have hq := hpq hab
      rcases hp : p a' with - | -
      · rw [List.find?_cons_of_neg (by simp [hp])] at ha
        obtain ⟨b, hb, hab'⟩ := ih ha
        exact ⟨b, by rw [List.find?_cons_of_neg (by simp [← hq, hp]), hb], hab'⟩
      · rw [List.find?_cons_of_pos hp] at ha
        obtain rfl := Option.some.inj ha
        exact ⟨b', List.find?_cons_of_pos (hq ▸ hp), hab⟩

theorem map_eq {l : List α} {l' : List β} (h : Forall₂ R l l') {f : α → κ} {g : β → κ}
    (hfg : ∀ {a b}, R a b → f a = g b) : l.map f = l'.map g := by
  induction h with
  | nil => rfl
  | cons hab _ ih => rw [List.map_cons, List.map_cons, hfg hab, ih]

theorem countP_le {l : List α} {l' : List β} (h : Forall₂ R l l') {p : α → Bool} {q : β → Bool}
    (hqp : ∀ {a b}, R a b → q b = true → p a = true) : l'.countP q ≤ l.countP p := by
  induction h with
  | nil => simp
  | @cons a b _ _ hab _ ih =>
      rw [List.countP_cons, List.countP_cons]
      have hhead := hqp hab
      split
      · rw [if_pos (hhead ‹_›)]
        omega
      · omega

/-! ### Changing an entry -/

theorem set (hS : ∀ a, S a a) {l : List α} {i : Nat} {a b : α} (ha : l[i]? = some a)
    (hab : S a b) : Forall₂ S l (l.set i b) := by
  induction l generalizing i with
  | nil => simp at ha
  | cons x xs ih =>
      cases i with
      | zero =>
          obtain rfl : x = a := by simpa using ha
          exact Forall₂.cons hab (forall₂_same.mpr fun y _ => hS y)
      | succ i => exact Forall₂.cons (hS x) (ih (by simpa using ha))

theorem set_left {l : List α} {l' : List β} (h : Forall₂ R l l') {i : Nat} {a b : α}
    (ha : l[i]? = some a) (hab : ∀ {x}, R a x → R b x) : Forall₂ R (l.set i b) l' := by
  induction h generalizing i with
  | nil => simp at ha
  | @cons x y xs ys hxy hrest ih =>
      cases i with
      | zero =>
          obtain rfl : x = a := by simpa using ha
          exact Forall₂.cons (hab hxy) hrest
      | succ i => exact Forall₂.cons hxy (ih (by simpa using ha))

theorem modify_eq_set {l : List α} {i : Nat} {a : α} (f : α → α) (ha : l[i]? = some a) :
    l.modify i f = l.set i (f a) := by
  induction l generalizing i with
  | nil => simp at ha
  | cons x xs ih =>
      cases i with
      | zero =>
          obtain rfl : x = a := by simpa using ha
          rfl
      | succ i => simpa using ih (by simpa using ha)

/-- What the old entry and the new one agree in. -/
theorem map_set_eq {f : α → β} {l : List α} {i : Nat} {a b : α} (ha : l[i]? = some a)
    (hab : f b = f a) : (l.set i b).map f = l.map f := by
  induction l generalizing i with
  | nil => rfl
  | cons x xs ih =>
      cases i with
      | zero =>
          obtain rfl : x = a := by simpa using ha
          simp [hab]
      | succ i => simpa using ih (by simpa using ha)

theorem set_self {l : List α} {i : Nat} {a : α} (ha : l[i]? = some a) : l.set i a = l := by
  simpa using map_set_eq (f := id) ha rfl

/-- An entry of the changed list is the new one or an old one at another index. -/
theorem getElem?_set_cases {l : List α} {i j : Nat} {b c : α} (h : (l.set i b)[j]? = some c) :
    j = i ∧ c = b ∨ j ≠ i ∧ l[j]? = some c := by
  rw [List.getElem?_set] at h
  split at h
  · split at h
    · exact .inl ⟨‹i = j›.symm, (Option.some.inj h).symm⟩
    · cases h
  · exact .inr ⟨Ne.symm ‹_›, h⟩

theorem map {f : α → α} (hf : ∀ a, S a (f a)) (l : List α) : Forall₂ S l (l.map f) := by
  rw [forall₂_map_right_iff]
  exact forall₂_same.mpr fun a _ => hf a

/-! ### Distinct keys -/

variable [DecidableEq κ]

/-- With distinct keys a record is the first one with its key. -/
theorem find?_key {key : α → κ} {l : List α} (hl : (l.map key).Nodup) {a : α} (ha : a ∈ l) :
    l.find? (fun x => key x = key a) = some a := by
  induction l with
  | nil => cases ha
  | cons x xs ih =>
      rw [List.map_cons, List.nodup_cons] at hl
      rcases List.mem_cons.mp ha with rfl | ha
      · simp
      · have hne : key x ≠ key a := fun h => hl.1 (h ▸ List.mem_map_of_mem ha)
        rw [List.find?_cons_of_neg (by simpa using hne)]
        exact ih hl.2 ha

/-- A changed record with the same key is found in the place of the old one. -/
theorem find?_set_key {key : α → κ} {l : List α} (hl : (l.map key).Nodup) {i : Nat} {a b : α}
    (ha : l[i]? = some a) (hab : key b = key a) (k : κ) :
    (l.set i b).find? (fun x => key x = k) = if k = key a then some b
      else l.find? (fun x => key x = k) := by
  induction l generalizing i with
  | nil => simp at ha
  | cons x xs ih =>
      rw [List.map_cons, List.nodup_cons] at hl
      cases i with
      | zero =>
          obtain rfl : x = a := by simpa using ha
          by_cases hk : k = key x
          · simp [hab, hk]
          · have hk' : key x ≠ k := fun h => hk h.symm
            simp [hab, hk, hk']
      | succ i =>
          have ha : xs[i]? = some a := by simpa using ha
          have hne : key x ≠ key a := by
            intro h
            exact hl.1 (h ▸ List.mem_map_of_mem (List.mem_of_getElem? ha))
          by_cases hk : key x = k
          · have : k ≠ key a := hk ▸ hne
            simp [hk, this]
          · rw [List.set_cons_succ, List.find?_cons_of_neg (by simpa using hk),
              List.find?_cons_of_neg (by simpa using hk)]
            exact ih hl.2 ha

end Pointwise
