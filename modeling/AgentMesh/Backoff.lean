/-
AgentMesh/Backoff.lean

The pause before the next attempt of a Run: `Engine.backoff`.

Durations are 64-bit numbers of nanoseconds, and the attempt is a 64-bit number too.
The loop doubles the first pause once for each attempt, until it has reached half of
the longest pause.  This half is rounded down; so no product leaves the range of 64
bits, and the pause is the exact one, except where the exact one is one nanosecond
short of the longest (`backoffFrom_exact`).
-/
import AgentMesh.Machine
import AgentMesh.Run
import Mathlib.Algebra.Order.Ring.Int

namespace AgentMesh

open Machine

/-- The back-off of a `RetryPolicy`. -/
structure RetryPolicy where
  initialBackoff : Int64
  maxBackoff : Int64
  deriving DecidableEq, Repr

/-- The check of the configuration. -/
def loadRetry (retryInitial retryMax : Int64) : Except Err RetryPolicy :=
  if retryInitial ≤ 0 ∨ retryMax < retryInitial then
    .error (errorf "retry backoff must be positive and max must be >= initial")
  else .ok { initialBackoff := retryInitial, maxBackoff := retryMax }

theorem loadRetry_ok_iff {retryInitial retryMax : Int64} {p : RetryPolicy} :
    loadRetry retryInitial retryMax = .ok p ↔
      p = ⟨retryInitial, retryMax⟩ ∧ 0 < retryInitial ∧ retryInitial ≤ retryMax := by
  have hgood : 0 < retryInitial ∧ retryInitial ≤ retryMax ↔
      ¬ (retryInitial ≤ 0 ∨ retryMax < retryInitial) := by
    rw [not_or, Int64.not_le, Int64.not_lt]
  rw [hgood, loadRetry]
  split
  · rename_i hbad
    constructor
    · intro h
      cases h
    · rintro ⟨-, hnot⟩
      exact absurd hbad hnot
  · rename_i hnot
    constructor
    · intro h
      exact ⟨(Except.ok.inj h).symm, hnot⟩
    · rintro ⟨rfl, -⟩
      rfl

/-! ### Arithmetic of 64 bits -/

section Arithmetic

variable {i n b max : Int64}

theorem toInt_add_one_of_lt (h : i < n) : (i + 1).toInt = i.toInt + 1 := by
  have hlt := Int64.lt_iff_toInt_lt.mp h
  have hn := n.toInt_lt
  have hi := i.le_toInt
  rw [Int64.toInt_add, Int64.toInt_one]
  exact Int.bmod_eq_of_le (by omega) (by omega)

theorem toInt_half (h : 0 ≤ max.toInt) : (max / 2).toInt = max.toInt / 2 := by
  have hmin : max ≠ Int64.minValue := by
    rintro rfl
    exact absurd h (by decide)
  rw [Int64.toInt_div_of_ne_left _ _ hmin]
  exact Int.tdiv_eq_ediv_of_nonneg h

/-- Below half of a number there is room to double. -/
theorem toInt_mul_two_of_lt (hmax : 0 ≤ max.toInt) (hb : 0 ≤ b.toInt) (h : b < max / 2) :
    (b * 2).toInt = b.toInt * 2 ∧ b.toInt * 2 < max.toInt := by
  have hlt := Int64.lt_iff_toInt_lt.mp h
  rw [toInt_half hmax] at hlt
  have hbound := max.toInt_lt
  refine ⟨?_, by omega⟩
  rw [Int64.toInt_mul, show (2 : Int64).toInt = 2 from rfl]
  exact Int.bmod_eq_of_le (by omega) (by omega)

end Arithmetic

/-! ### The loop -/

namespace RetryPolicy

variable (p : RetryPolicy)

/-- The loop of `backoff`, and the comparison behind it. -/
def backoffFrom (attempt i backoff : Int64) : Int64 :=
  if i < attempt then
    if p.maxBackoff / 2 ≤ backoff then p.maxBackoff
    else backoffFrom attempt (i + 1) (backoff * 2)
  else if p.maxBackoff < backoff then p.maxBackoff
  else backoff
termination_by (attempt.toInt - i.toInt).toNat
decreasing_by
  rename_i hlt _
  have hnext := toInt_add_one_of_lt hlt
  have hlt' := Int64.lt_iff_toInt_lt.mp hlt
  omega

/-- `Engine.backoff`. -/
def backoff (attempt : Int64) : Int64 := p.backoffFrom attempt 1 p.initialBackoff

/-- A round of the loop after which it goes on, as a step from `i` and `backoff` to the next
ones. -/
def round (attempt : Int64) (s : Int64 × Int64) (_ : Unit) : Option (Int64 × Int64) :=
  if s.1 < attempt ∧ s.2 < p.maxBackoff / 2 then some (s.1 + 1, s.2 * 2) else none

/-- The pause before the attempt after the `n`-th one, if nothing bounds it. -/
def unbounded (n : Int) : Int := p.initialBackoff.toInt * 2 ^ (n - 1).toNat

/-- `backoff` is what the loop is to have at the head of round `i`. -/
structure Doubled (i backoff : Int64) : Prop where
  start : 1 ≤ i.toInt
  value : backoff.toInt = p.unbounded i.toInt
  le : backoff.toInt ≤ p.maxBackoff.toInt

/-- The exact pause or the longest one, and not the exact one only if it is one nanosecond
short of the longest. -/
def Exact (n : Int) (pause : Int64) : Prop :=
  pause.toInt = min p.maxBackoff.toInt (p.unbounded n) ∨
    p.unbounded n = p.maxBackoff.toInt - 1 ∧ pause.toInt = p.maxBackoff.toInt

section Loop

variable {p} {attempt i b : Int64} {n n' : Int}

theorem unbounded_succ (h : 1 ≤ n) : p.unbounded (n + 1) = p.unbounded n * 2 := by
  have hexp : (n + 1 - 1).toNat = (n - 1).toNat + 1 := by omega
  rw [unbounded, unbounded, hexp, pow_succ, mul_assoc]

theorem unbounded_mono (hpos : 0 < p.initialBackoff.toInt) (hle : n ≤ n') :
    p.unbounded n ≤ p.unbounded n' := by
  have hexp : (n - 1).toNat ≤ (n' - 1).toNat := by omega
  have hpow : (2 : Int) ^ (n - 1).toNat ≤ 2 ^ (n' - 1).toNat :=
    pow_le_pow_right₀ (by decide) hexp
  exact mul_le_mul_of_nonneg_left hpow hpos.le

theorem initial_le_unbounded (hpos : 0 < p.initialBackoff.toInt) :
    p.initialBackoff.toInt ≤ p.unbounded n := by
  have hone : (1 : Int) ≤ 2 ^ (n - 1).toNat := one_le_pow₀ (by decide)
  calc p.initialBackoff.toInt = p.initialBackoff.toInt * 1 := (mul_one _).symm
    _ ≤ p.unbounded n := mul_le_mul_of_nonneg_left hone hpos.le

theorem doubled_start (hle : p.initialBackoff.toInt ≤ p.maxBackoff.toInt) :
    p.Doubled 1 p.initialBackoff := by
  refine ⟨le_refl 1, ?_, hle⟩
  show _ = p.initialBackoff.toInt * 2 ^ 0
  rw [pow_zero, mul_one]

/-- **One round** computes the next values without overflow. -/
theorem Doubled.round (hpos : 0 < p.initialBackoff.toInt) (h : p.Doubled i b) (hi : i < attempt)
    (hb : b < p.maxBackoff / 2) :
    (i + 1).toInt = i.toInt + 1 ∧ (b * 2).toInt = b.toInt * 2 ∧ p.Doubled (i + 1) (b * 2) := by
  have hnonneg : 0 ≤ b.toInt := by
    rw [h.value]
    exact hpos.le.trans (initial_le_unbounded hpos)
  have hnext := toInt_add_one_of_lt hi
  obtain ⟨htwice, hlt⟩ := toInt_mul_two_of_lt (hnonneg.trans h.le) hnonneg hb
  refine ⟨hnext, htwice, ?_, ?_, ?_⟩
  · rw [hnext]
    exact h.start.trans (Int.le_add_of_nonneg_right (by decide))
  · rw [htwice, hnext, unbounded_succ h.start, h.value]
  · rw [htwice]
    exact hlt.le

/-- What the loop has at the head of every round that it comes to. -/
theorem doubled_runs (hpos : 0 < p.initialBackoff.toInt)
    (hle : p.initialBackoff.toInt ≤ p.maxBackoff.toInt) {s : Int64 × Int64}
    (hs : Runs (p.round attempt) Free (1, p.initialBackoff) s) : p.Doubled s.1 s.2 := by
  refine hs.invariant (I := fun s => p.Doubled s.1 s.2) (doubled_start hle) ?_
  intro s t _ h _ hround
  rw [RetryPolicy.round] at hround
  split at hround
  · rename_i hgoes
    obtain rfl := Option.some.inj hround
    exact (h.round hpos hgoes.1 hgoes.2).2.2
  · cases hround

/-- **The loop returns the exact pause** from every round that it comes to. -/
theorem backoffFrom_exact (hpos : 0 < p.initialBackoff.toInt) (h : p.Doubled i b)
    (hi : i ≤ attempt) : p.Exact attempt.toInt (p.backoffFrom attempt i b) := by
  fun_induction p.backoffFrom attempt i b with
  | case1 i b hlt hhalf =>
      -- the next pause would be at most one nanosecond below the longest
      have hlt' := Int64.lt_iff_toInt_lt.mp hlt
      have hhalf' := Int64.le_iff_toInt_le.mp hhalf
      have hnonneg : 0 ≤ p.maxBackoff.toInt :=
        (hpos.le.trans (initial_le_unbounded hpos)).trans (h.value ▸ h.le)
      rw [toInt_half hnonneg] at hhalf'
      have hnext : p.unbounded (i.toInt + 1) ≤ p.unbounded attempt.toInt := unbounded_mono hpos hlt'
      rw [unbounded_succ h.start, ← h.value] at hnext
      by_cases hshort : p.unbounded attempt.toInt = p.maxBackoff.toInt - 1
      · exact .inr ⟨hshort, rfl⟩
      · exact .inl (by omega)
  | case2 i b hlt hhalf ih =>
      obtain ⟨hnext, -, hround⟩ := h.round hpos hlt (Int64.not_le.mp hhalf)
      have hlt' := Int64.lt_iff_toInt_lt.mp hlt
      exact ih hround (Int64.le_iff_toInt_le.mpr (by omega))
  | case3 i b _ hmax =>
      have hmax' := Int64.lt_iff_toInt_lt.mp hmax
      exact absurd h.le (not_le.mpr hmax')
  | case4 i b hend _ =>
      have hsame : i.toInt = attempt.toInt := by
        rw [Int64.lt_iff_toInt_lt] at hend
        rw [Int64.le_iff_toInt_le] at hi
        omega
      refine .inl ?_
      rw [← hsame, ← h.value, min_eq_right h.le]

/-- A round leads to what the loop returns. -/
theorem backoffFrom_round {s t : Int64 × Int64} (h : p.round attempt s () = some t) :
    p.backoffFrom attempt s.1 s.2 = p.backoffFrom attempt t.1 t.2 := by
  rw [RetryPolicy.round] at h
  split at h
  · rename_i hgoes
    obtain rfl := Option.some.inj h
    rw [backoffFrom, if_pos hgoes.1, if_neg (Int64.not_le.mpr hgoes.2)]
  · cases h

theorem backoff_runs {s : Int64 × Int64}
    (hs : Runs (p.round attempt) Free (1, p.initialBackoff) s) :
    p.backoff attempt = p.backoffFrom attempt s.1 s.2 := by
  refine hs.invariant (I := fun s => p.backoff attempt = p.backoffFrom attempt s.1 s.2) rfl ?_
  intro s t _ h _ hround
  exact h.trans (backoffFrom_round hround)

end Loop

/-! ### The pause -/

section Pause

variable {p} {n n' : Int} {pause pause' : Int64}

theorem Exact.bounds (hpos : 0 < p.initialBackoff.toInt)
    (hle : p.initialBackoff.toInt ≤ p.maxBackoff.toInt) (h : p.Exact n pause) :
    p.initialBackoff.toInt ≤ pause.toInt ∧ pause.toInt ≤ p.maxBackoff.toInt := by
  have hinitial : p.initialBackoff.toInt ≤ p.unbounded n := initial_le_unbounded hpos
  obtain hmin | ⟨-, hmax⟩ := h
  · rw [hmin]
    exact ⟨le_min hle hinitial, min_le_left _ _⟩
  · rw [hmax]
    exact ⟨hle, le_refl _⟩

/-- A later pause is not shorter, also if the earlier one is rounded up: the exact one has then
passed the longest. -/
theorem Exact.mono (hpos : 0 < p.initialBackoff.toInt) (hn : 1 ≤ n) (hlt : n < n')
    (h : p.Exact n pause) (h' : p.Exact n' pause') : pause.toInt ≤ pause'.toInt := by
  have hinitial : p.initialBackoff.toInt ≤ p.unbounded n := initial_le_unbounded hpos
  have htwice : p.unbounded (n + 1) ≤ p.unbounded n' := unbounded_mono hpos hlt
  rw [unbounded_succ hn] at htwice
  -- `2 * (max - 1)` is at least `max`, since the exact pause `max - 1` is positive
  obtain hmin | ⟨hshort, hmax⟩ := h <;> obtain hmin' | ⟨-, hmax'⟩ := h' <;> omega

end Pause

end RetryPolicy

/-- **The arithmetic of the back-off.**  For every policy that the configuration lets through,
the loop computes the half, the counter and every product as over the integers.  The pause lies
between the bounds of the policy, does not fall from one attempt to a later one, and is the exact
one up to the last nanosecond below the longest. -/
theorem backoff_arithmetic (p : RetryPolicy) (hpos : 0 < p.initialBackoff)
    (hle : p.initialBackoff ≤ p.maxBackoff) :
    (p.maxBackoff / 2).toInt = p.maxBackoff.toInt / 2 ∧
    (∀ n s, Runs (p.round n) Free (1, p.initialBackoff) s →
      p.backoff n = p.backoffFrom n s.1 s.2 ∧
      ∀ t, p.round n s () = some t →
        t.1.toInt = s.1.toInt + 1 ∧ t.2.toInt = s.2.toInt * 2) ∧
    (∀ n, 1 ≤ n → p.initialBackoff ≤ p.backoff n ∧ p.backoff n ≤ p.maxBackoff) ∧
    (∀ n n', 1 ≤ n → n ≤ n' → p.backoff n ≤ p.backoff n') ∧
    ∀ n : Int64, 1 ≤ n →
      (p.backoff n).toInt =
        min p.maxBackoff.toInt (p.initialBackoff.toInt * 2 ^ (n.toInt - 1).toNat) ∨
      p.initialBackoff.toInt * 2 ^ (n.toInt - 1).toNat = p.maxBackoff.toInt - 1 ∧
        p.backoff n = p.maxBackoff := by
  have hpos' : 0 < p.initialBackoff.toInt := Int64.lt_iff_toInt_lt.mp hpos
  have hle' := Int64.le_iff_toInt_le.mp hle
  have hexact : ∀ n, 1 ≤ n → p.Exact n.toInt (p.backoff n) := fun n hn =>
    RetryPolicy.backoffFrom_exact hpos' (RetryPolicy.doubled_start hle') hn
  refine ⟨toInt_half (hpos'.le.trans hle'), ?_, ?_, ?_, ?_⟩
  · intro n s hs
    refine ⟨RetryPolicy.backoff_runs hs, ?_⟩
    intro t ht
    have hdoubled := RetryPolicy.doubled_runs hpos' hle' hs
    rw [RetryPolicy.round] at ht
    split at ht
    · rename_i hgoes
      obtain rfl := Option.some.inj ht
      obtain ⟨hnext, htwice, -⟩ := hdoubled.round hpos' hgoes.1 hgoes.2
      exact ⟨hnext, htwice⟩
    · cases ht
  · intro n hn
    obtain ⟨hlow, hhigh⟩ := (hexact n hn).bounds hpos' hle'
    exact ⟨Int64.le_iff_toInt_le.mpr hlow, Int64.le_iff_toInt_le.mpr hhigh⟩
  · intro n n' hn hnn'
    have hstart : 1 ≤ n.toInt := Int64.le_iff_toInt_le.mp hn
    obtain hlt | heq := lt_or_eq_of_le (Int64.le_iff_toInt_le.mp hnn')
    · have hlater := hexact n' (Int64.le_trans hn hnn')
      exact Int64.le_iff_toInt_le.mpr ((hexact n hn).mono hpos' hstart hlt hlater)
    · rw [Int64.toInt_inj.mp heq]
      exact Int64.le_refl _
  · intro n hn
    obtain hmin | ⟨hshort, hmax⟩ := hexact n hn
    · exact .inl hmin
    · exact .inr ⟨hshort, Int64.toInt_inj.mp hmax⟩

/-- The policy of an empty environment: 250 milliseconds, and at most five seconds. -/
def defaultRetry : RetryPolicy := { initialBackoff := 250000000, maxBackoff := 5000000000 }

theorem backoff_arithmetic_default :
    loadRetry 250000000 5000000000 = .ok defaultRetry ∧
      (defaultRetry.backoff 3).toInt = 1000000000 := by
  refine ⟨loadRetry_ok_iff.mpr ⟨rfl, by decide, by decide⟩, ?_⟩
  obtain ⟨-, -, -, -, hexact⟩ := backoff_arithmetic defaultRetry (by decide) (by decide)
  obtain hmin | ⟨hshort, -⟩ := hexact 3 (by decide)
  · exact hmin
  · exact absurd hshort (by decide)

end AgentMesh
