/-
AgentMesh/Permits.lean

Permits that are granted, taken and spent.

A permit is granted once, then available, then held by the party that took it,
and spent at last.  Permits may be lost on the way.  `Permits` counts them, and
`Permits.Step` says what one step may do to the counts: it adds to a later
count only what it takes from the one before.  So no more is spent than was
granted (`Permits.Within.spent_le`).

A system keeps to its permits if its own counts take such steps.
-/
import Mathlib.Tactic

structure Permits where
  granted : Nat := 0
  available : Nat := 0
  held : Nat := 0
  spent : Nat := 0

namespace Permits

/-- One step, of at most `n` permits. -/
inductive Step (p q : Permits) : Prop
  | grant (n : Nat) (granted : q.granted = p.granted + n) (available : q.available ≤ p.available + n)
      (held : q.held = p.held) (spent : q.spent = p.spent)
  | take (n : Nat) (granted : q.granted = p.granted) (available : q.available + n ≤ p.available)
      (held : q.held ≤ p.held + n) (spent : q.spent = p.spent)
  | spend (n : Nat) (granted : q.granted = p.granted) (available : q.available = p.available)
      (held : q.held + n ≤ p.held) (spent : q.spent ≤ p.spent + n)

/-- Everything that is there was granted. -/
def Within (p : Permits) : Prop := p.spent + p.held + p.available ≤ p.granted

variable {p q : Permits}

theorem within_init : Within {} := le_rfl

/-- Available permits are lost. -/
theorem Step.lose (granted : q.granted = p.granted) (available : q.available ≤ p.available)
    (held : q.held = p.held) (spent : q.spent = p.spent) : p.Step q :=
  .grant 0 granted available held spent

theorem Within.step (hp : p.Within) (h : p.Step q) : q.Within := by
  rw [Within] at *
  cases h with
  | grant n | take n | spend n => omega

theorem Within.spent_le (hp : p.Within) : p.spent ≤ p.granted := by
  rw [Within] at hp
  omega

/-- Where the holders are a list: the one that leaves was counted. -/
theorem countP_eraseIdx {α : Type*} (P : α → Bool) {l : List α} {i : Nat} {x : α}
    (h : l[i]? = some x) : (l.eraseIdx i).countP P + (P x).toNat = l.countP P := by
  obtain ⟨hi, rfl⟩ := List.getElem?_eq_some_iff.mp h
  rw [← (List.getElem_cons_eraseIdx_perm hi).countP_eq, List.countP_cons]
  cases P l[i] <;> rfl

theorem countP_snoc {α : Type*} (P : α → Bool) (l : List α) (x : α) :
    (l ++ [x]).countP P = l.countP P + (P x).toNat := by
  rw [List.countP_append, List.countP_singleton]
  cases P x <;> rfl

end Permits
