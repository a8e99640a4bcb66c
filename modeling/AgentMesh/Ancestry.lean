/-
AgentMesh/Ancestry.lean

Nodes that are roots or point at a parent.

`next : κ → Option (Option κ)` reads a node: `none` where there is no node,
`some none` at a root, and `some (some p)` at a node with parent `p`.
`Ancestry next k ks` says that `ks` are the proper ancestors of `k`, nearest
first, and that the last of them is a root.  It is an inductive relation, so a
node with an ancestry lies on no cycle and above no missing node.

`Climb next k ks a` is the way from `k` to its ancestor `a`: a walk that reads one
parent after the other has climbed so far.  The way may come to a node for the second
time (`Revisits`) or to a parent that is no node (`Leaves`); a node with an ancestry is
one where it does neither.

A structure in which every node has an ancestry is a forest.  It stays one when
nodes are added whose parents are there already (`Grounded.grow`).
-/
import Mathlib.Data.List.Nodup

/-- The proper ancestors of a node, up to a root. -/
inductive Ancestry {κ : Type*} (next : κ → Option (Option κ)) : κ → List κ → Prop
  | root {k : κ} (h : next k = some none) : Ancestry next k []
  | child {k p : κ} {ks : List κ} (h : next k = some (some p)) (rest : Ancestry next p ks) :
      Ancestry next k (p :: ks)

/-- The way from a node up to one of its ancestors, which comes last in the list. -/
inductive Climb {κ : Type*} (next : κ → Option (Option κ)) : κ → List κ → κ → Prop
  | start {k : κ} : Climb next k [] k
  | up {k a p : κ} {ks : List κ} (way : Climb next k ks a) (h : next a = some (some p)) :
      Climb next k (ks ++ [p]) p

/-- The way up comes to a node twice. -/
def Revisits {κ : Type*} (next : κ → Option (Option κ)) (k : κ) : Prop :=
  ∃ ks a, Climb next k ks a ∧ ¬ (k :: ks).Nodup

/-- The way up comes to a parent that is no node. -/
def Leaves {κ : Type*} (next : κ → Option (Option κ)) (k : κ) : Prop :=
  ∃ ks a p, Climb next k ks a ∧ next a = some (some p) ∧ next p = none

/-- Every node has an ancestry. -/
def Grounded {κ : Type*} (next : κ → Option (Option κ)) : Prop :=
  ∀ k v, next k = some v → ∃ ks, Ancestry next k ks

namespace Ancestry

variable {κ : Type*} {next next' : κ → Option (Option κ)} {k : κ} {ks ks' : List κ}

/-- Nodes that keep their parents keep their ancestry. -/
theorem mono (h : Ancestry next k ks) (hkeep : ∀ k v, next k = some v → next' k = some v) :
    Ancestry next' k ks := by
  induction h with
  | root h => exact .root (hkeep _ _ h)
  | child h _ ih => exact .child (hkeep _ _ h) ih

theorem unique (h : Ancestry next k ks) (h' : Ancestry next k ks') : ks = ks' := by
  induction h generalizing ks' with
  | root h =>
      cases h' with
      | root => rfl
      | child hp => cases h.symm.trans hp
  | child h _ ih =>
      cases h' with
      | root hr => cases h.symm.trans hr
      | child hp rest =>
          cases h.symm.trans hp
          rw [ih rest]

/-- Every ancestor is a node. -/
theorem of_mem (h : Ancestry next k ks) {a : κ} (ha : a ∈ ks) : ∃ v, next a = some v := by
  induction h with
  | root => cases ha
  | @child _ p _ _ rest ih =>
      rcases List.mem_cons.mp ha with rfl | ha
      · cases rest with
        | root hr => exact ⟨_, hr⟩
        | child hp => exact ⟨_, hp⟩
      · exact ih ha

/-- An ancestor has fewer ancestors. -/
theorem exists_shorter (h : Ancestry next k ks) {a : κ} (ha : a ∈ ks) :
    ∃ as, Ancestry next a as ∧ as.length < ks.length := by
  induction h with
  | root => cases ha
  | @child _ p ks _ rest ih =>
      rcases List.mem_cons.mp ha with rfl | ha
      · exact ⟨ks, rest, Nat.lt_succ_self _⟩
      · obtain ⟨as, has, hlt⟩ := ih ha
        exact ⟨as, has, Nat.lt_succ_of_lt hlt⟩

/-- A node is not its own ancestor. -/
theorem nodup (h : Ancestry next k ks) : (k :: ks).Nodup := by
  induction h with
  | root => exact List.nodup_singleton _
  | child hp rest ih =>
      refine List.nodup_cons.mpr ⟨fun hmem => ?_, ih⟩
      obtain ⟨as, has, hlt⟩ := (Ancestry.child hp rest).exists_shorter hmem
      rw [has.unique (.child hp rest)] at hlt
      exact Nat.lt_irrefl _ hlt

end Ancestry

namespace Climb

variable {κ : Type*} {next next' : κ → Option (Option κ)} {k a : κ} {ks as : List κ}

theorem mono (h : Climb next k ks a) (hkeep : ∀ k v, next k = some v → next' k = some v) :
    Climb next' k ks a := by
  induction h with
  | start => exact .start
  | up _ h ih => exact .up ih (hkeep _ _ h)

/-- What is above the place that a walk has reached completes the ancestry. -/
theorem ancestry (h : Climb next k ks a) (habove : Ancestry next a as) :
    Ancestry next k (ks ++ as) := by
  induction h generalizing as with
  | start => exact habove
  | up _ hp ih =>
      rw [List.append_assoc, List.singleton_append]
      exact ih (.child hp habove)

/-- A way up goes through the ancestry of the node, and the rest is the ancestry of its end. -/
theorem exists_rest (h : Climb next k ks a) (hk : Ancestry next k as) :
    ∃ rest, as = ks ++ rest ∧ Ancestry next a rest := by
  induction h with
  | start => exact ⟨as, rfl, hk⟩
  | up _ hp ih =>
      obtain ⟨rest, has, hrest⟩ := ih
      cases hrest with
      | root hroot => cases hroot.symm.trans hp
      | child hp' habove =>
          cases hp.symm.trans hp'
          exact ⟨_, by rw [has, List.append_assoc, List.singleton_append], habove⟩

end Climb

theorem Ancestry.not_revisits {κ : Type*} {next : κ → Option (Option κ)} {k : κ} {as : List κ}
    (h : Ancestry next k as) : ¬ Revisits next k := by
  rintro ⟨ks, a, hclimb, hrepeated⟩
  obtain ⟨rest, rfl, -⟩ := hclimb.exists_rest h
  have hall : (k :: ks ++ rest).Nodup := h.nodup
  exact hrepeated hall.of_append_left

theorem Ancestry.not_leaves {κ : Type*} {next : κ → Option (Option κ)} {k : κ} {as : List κ}
    (h : Ancestry next k as) : ¬ Leaves next k := by
  rintro ⟨ks, a, p, hclimb, hp, hnone⟩
  obtain ⟨rest, -, hrest⟩ := hclimb.exists_rest h
  have hmem : p ∈ rest := by
    cases hrest with
    | root hroot => cases hroot.symm.trans hp
    | child hp' _ =>
        cases hp.symm.trans hp'
        exact List.mem_cons_self
  obtain ⟨v, hv⟩ := hrest.of_mem hmem
  cases hnone.symm.trans hv

theorem Grounded.grow {κ : Type*} {next next' : κ → Option (Option κ)} (h : Grounded next)
    (hkeep : ∀ k v, next k = some v → next' k = some v)
    (hnew : ∀ k v, next' k = some v → next k = some v ∨ ∀ p, v = some p → ∃ w, next p = some w) :
    Grounded next' := by
  intro k v hk
  rcases hnew k v hk with hold | hparent
  · obtain ⟨ks, hks⟩ := h k v hold
    exact ⟨ks, hks.mono hkeep⟩
  · rcases v with - | p
    · exact ⟨[], .root hk⟩
    · obtain ⟨w, hw⟩ := hparent p rfl
      obtain ⟨ks, hks⟩ := h p w hw
      exact ⟨p :: ks, .child hk (hks.mono hkeep)⟩
