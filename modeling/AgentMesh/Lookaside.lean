/-
AgentMesh/Lookaside.lean

A cache beside a backing store, as partial functions from keys to values.

The cache is *coherent* if whatever it has, the store has.  An operation of the
store is followed by at most one write to the cache.  The write keeps the cache
coherent if it tells what the operation changed: nothing, the value that a key
has now, or that the value of one key may have changed (`Write.Tells`).  A cache
that loses entries stays coherent, so they may expire at any time.
-/
import Mathlib.Logic.Function.Basic

namespace Lookaside

variable {K V : Type*}

/-- What an operation does to the cache. -/
inductive Write (K V : Type*)
  | keep
  | set (k : K) (v : V)
  | delete (k : K)

def Write.apply [DecidableEq K] (cache : K → Option V) : Write K V → K → Option V
  | .keep => cache
  | .set k v => Function.update cache k (some v)
  | .delete k => Function.update cache k none

/-- The write tells what an operation changed. -/
def Write.Tells (before after : K → Option V) : Write K V → Prop
  | .keep => after = before
  | .set k v => after k = some v ∧ ∀ k', k' ≠ k → after k' = before k'
  | .delete k => ∀ k', k' ≠ k → after k' = before k'

def Coherent (cache backing : K → Option V) : Prop :=
  ∀ k v, cache k = some v → backing k = some v

variable {cache backing backing' : K → Option V} {w : Write K V}

/-- What is in the store may be put into the cache. -/
theorem Write.tells_set {k : K} {v : V} (h : backing k = some v) :
    (Write.set k v).Tells backing backing :=
  ⟨h, fun _ _ => rfl⟩

/-- Entries may go at any time. -/
theorem Coherent.lose {cache' : K → Option V} (h : Coherent cache backing)
    (hlose : ∀ k v, cache' k = some v → cache k = some v) : Coherent cache' backing :=
  fun k v hv => h k v (hlose k v hv)

/-- A cache that is told what changes stays coherent. -/
theorem Coherent.write [DecidableEq K] (h : Coherent cache backing)
    (hw : w.Tells backing backing') : Coherent (w.apply cache) backing' := by
  cases w with
  | keep =>
      rw [show backing' = backing from hw]
      exact h
  | set k v =>
      intro k' v' hv
      rw [Write.apply] at hv
      by_cases hk : k' = k
      · rw [hk, Function.update_self] at hv
        rw [hk, hw.1, hv]
      · rw [Function.update_of_ne hk] at hv
        rw [hw.2 k' hk]
        exact h k' v' hv
  | delete k =>
      intro k' v' hv
      rw [Write.apply] at hv
      by_cases hk : k' = k
      · rw [hk, Function.update_self] at hv
        cases hv
      · rw [Function.update_of_ne hk] at hv
        rw [hw k' hk]
        exact h k' v' hv

end Lookaside
