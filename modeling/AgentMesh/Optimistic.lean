/-
AgentMesh/Optimistic.lean

Optimistic concurrency: values that are stored with a version, and drafts of
them.

A party reads a stored value, works on a copy of it, and writes the copy back;
the write is accepted if the stored version is still the one that was read,
and then gets a greater one.  `Draft` is what a party knows of its copy all
the time: it is not newer than the stored value, and if it is as new then it
was made from it.  Writes of other parties keep this (`Draft.moves`), because
they make the stored value newer.

What a party may do to its copy is an arbitrary relation `R`.
-/
import Mathlib.Tactic

namespace Optimistic

variable {κ α ν : Type*} [LinearOrder ν] {version : α → ν} {R : α → α → Prop}

/-- The copy `d` of a value that is now stored as `a`. -/
structure Draft (version : α → ν) (R : α → α → Prop) (a d : α) : Prop where
  le : version d ≤ version a
  made : version d = version a → R a d

/-- A stored value stays as it is, or is replaced by a newer one. -/
def Moves (version : α → ν) (R : α → α → Prop) (a b : α) : Prop :=
  b = a ∨ version a < version b ∧ R a b

/-- No stored value is removed, and each one moves. -/
def Grows (version : α → ν) (R : α → α → Prop) (m m' : κ → Option α) : Prop :=
  ∀ k a, m k = some a → ∃ b, m' k = some b ∧ Moves version R a b

theorem Moves.trans (hR : ∀ a b c, R a b → R b c → R a c) {a b c : α}
    (h : Moves version R a b) (h' : Moves version R b c) : Moves version R a c := by
  rcases h with rfl | ⟨hlt, hab⟩
  · exact h'
  rcases h' with rfl | ⟨hlt', hbc⟩
  · exact .inr ⟨hlt, hab⟩
  · exact .inr ⟨hlt.trans hlt', hR a b c hab hbc⟩

/-- A draft of an outdated value is a draft of the newer one. -/
theorem Draft.moves {a b d : α} (h : Draft version R a d) (hab : Moves version R a b) :
    Draft version R b d := by
  rcases hab with rfl | ⟨hlt, -⟩
  · exact h
  · have hnewer : version d < version b := h.le.trans_lt hlt
    exact ⟨hnewer.le, fun heq => absurd heq hnewer.ne⟩

theorem Grows.refl (m : κ → Option α) : Grows version R m m :=
  fun _ a h => ⟨a, h, .inl rfl⟩

theorem Grows.trans (hR : ∀ a b c, R a b → R b c → R a c) {m m' m'' : κ → Option α}
    (h : Grows version R m m') (h' : Grows version R m' m'') : Grows version R m m'' := by
  intro k a ha
  obtain ⟨b, hb, hab⟩ := h k a ha
  obtain ⟨c, hc, hbc⟩ := h' k b hb
  exact ⟨c, hc, hab.trans hR hbc⟩

/-- A write under one key. -/
theorem Grows.write [DecidableEq κ] {m m' : κ → Option α} {k : κ} {b : α}
    (hm : ∀ k', m' k' = if k' = k then some b else m k')
    (hk : ∀ {a}, m k = some a → Moves version R a b) : Grows version R m m' := by
  intro k' a ha
  rw [hm]
  split
  · rename_i h
    subst h
    exact ⟨b, rfl, hk ha⟩
  · exact ⟨a, ha, .inl rfl⟩

end Optimistic
