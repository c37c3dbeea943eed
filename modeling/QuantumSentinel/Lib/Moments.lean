import Mathlib.Algebra.Order.Field.Basic
import Mathlib.Tactic.FieldSimp
import Mathlib.Tactic.Linarith
import Mathlib.Tactic.Positivity
import Mathlib.Tactic.Ring
import QuantumSentinel.Lib.RealFunctions

/-!
# Sample moments

The central moments of a list of numbers, and Pearson's inequality between the second, the third
and the fourth: the average of a square of deviations.

Main results:

- Definition `centralMoment`: the moments.
- Theorem `sum_sq_combination`: the sum of the squares of a combination of powers.
- Theorem `pearson_nonneg`: the inequality, as a quadratic form that takes no negative value.
-/

namespace QuantumSentinel.Lib

variable {F : Type*} [Field F]

/-! ## Sums of powers -/

/-- The sum of the powers of the distances to a number. -/
def powerSum (values : List F) (center : F) (k : ℕ) : F :=
  (values.map fun v => (v - center) ^ k).sum

/-- The central moment of an order, `np.sum((x - mean) ** k) / n`. -/
def centralMoment (values : List F) (k : ℕ) : F :=
  powerSum values (mean values) k / values.length

theorem powerSum_cons (v : F) (rest : List F) (center : F) (k : ℕ) :
    powerSum (v :: rest) center k = (v - center) ^ k + powerSum rest center k := by
  rw [powerSum, List.map_cons, List.sum_cons, powerSum]

theorem powerSum_one (values : List F) (center : F) :
    powerSum values center 1 = values.sum - values.length * center := by
  induction values with
  | nil => simp [powerSum]
  | cons v rest ih =>
    rw [powerSum_cons, ih, List.sum_cons, List.length_cons, Nat.cast_succ]
    ring

/-- The distances to the mean cancel. -/
theorem powerSum_mean (values : List F) (hlength : (values.length : F) ≠ 0) :
    powerSum values (mean values) 1 = 0 := by
  rw [powerSum_one, mean, mul_div_cancel₀ _ hlength, sub_self]

/-- The sum of the squares of a combination of powers. -/
theorem sum_sq_combination (values : List F) (center a b c : F) :
    (values.map fun v => (a * (v - center) + b * (v - center) ^ 2 + c) ^ 2).sum =
      a ^ 2 * powerSum values center 2 + 2 * a * b * powerSum values center 3 +
        b ^ 2 * powerSum values center 4 + 2 * a * c * powerSum values center 1 +
        2 * b * c * powerSum values center 2 + c ^ 2 * values.length := by
  induction values with
  | nil => simp [powerSum]
  | cons v rest ih =>
    simp only [powerSum_cons, List.map_cons, List.sum_cons, List.length_cons, Nat.cast_succ, ih]
    ring

/-! ## Pearson's inequality -/

section Order

variable [LinearOrder F] [IsStrictOrderedRing F]

/-- For a sample with a standard deviation `σ`, the quadratic form of its standardised third and
fourth moments is the average of `(z - x / 2 * (z ^ 2 - 1)) ^ 2`. -/
theorem pearson_nonneg {values : List F} {σ : F} (hσ : 0 < σ) (hvar : centralMoment values 2 = σ ^ 2)
    (x : F) :
    0 ≤ 1 - centralMoment values 3 / σ ^ 3 * x + (centralMoment values 4 / σ ^ 4 - 1) / 4 * x ^ 2 := by
  have hlength : 0 < (values.length : F) := by
    rcases (Nat.cast_nonneg values.length : (0 : F) ≤ values.length).eq_or_lt with h | h
    · rw [centralMoment, ← h, div_zero] at hvar
      exact absurd hvar.symm (pow_pos hσ 2).ne'
    · exact h
  have hsum := sum_sq_combination values (mean values) (1 / σ) (-x / (2 * σ ^ 2)) (x / 2)
  have hsquares : 0 ≤ (values.map fun v =>
      (1 / σ * (v - mean values) + -x / (2 * σ ^ 2) * (v - mean values) ^ 2 + x / 2) ^ 2).sum := by
    refine List.sum_nonneg fun y hy => ?_
    obtain ⟨v, -, rfl⟩ := List.mem_map.mp hy
    exact sq_nonneg _
  have hpower : ∀ k, powerSum values (mean values) k = centralMoment values k * values.length := by
    intro k
    rw [centralMoment, div_mul_cancel₀ _ hlength.ne']
  rw [hsum, powerSum_mean values hlength.ne', hpower 2, hpower 3, hpower 4, hvar] at hsquares
  have hform : (1 / σ) ^ 2 * (σ ^ 2 * values.length) +
      2 * (1 / σ) * (-x / (2 * σ ^ 2)) * (centralMoment values 3 * values.length) +
      (-x / (2 * σ ^ 2)) ^ 2 * (centralMoment values 4 * values.length) +
      2 * (1 / σ) * (x / 2) * 0 + 2 * (-x / (2 * σ ^ 2)) * (x / 2) * (σ ^ 2 * values.length) +
      (x / 2) ^ 2 * values.length =
      (1 - centralMoment values 3 / σ ^ 3 * x + (centralMoment values 4 / σ ^ 4 - 1) / 4 * x ^ 2) *
        values.length := by
    field_simp
    ring
  rw [hform] at hsquares
  exact nonneg_of_mul_nonneg_left hsquares hlength

end Order

end QuantumSentinel.Lib
