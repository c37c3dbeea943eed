import Mathlib.Algebra.BigOperators.Intervals
import Mathlib.Algebra.Order.BigOperators.Ring.Finset
import Mathlib.Algebra.Order.Field.Basic
import Mathlib.Tactic.FieldSimp
import Mathlib.Tactic.Linarith
import Mathlib.Tactic.Positivity
import Mathlib.Tactic.Ring

/-!
# The Bartlett kernel

Sums of products of a sequence with itself at a lag, weighted by one minus the lag over the number of
lags.  The weighted sum is a sum of squares of moving sums of the sequence, so it is not negative.

Main results:

- Definition `lagSum`: the sum of the products at a lag.
- Theorem `sum_movingSum_sq`: the squares of the moving sums.
- Theorem `bartlett_nonneg`: the weighted sum is not negative.
-/

namespace QuantumSentinel.Lib

open Finset

variable {F : Type*} [Field F]

/-! ## Moving sums -/

/-- The sum of the products of the first terms of a sequence at a lag. -/
def lagSum (e : ℕ → F) (n lag : ℕ) : F :=
  ∑ t ∈ range (n - lag), e (t + lag) * e t

/-- The first terms of a sequence, moved back, and zero elsewhere. -/
def delayed (e : ℕ → F) (n j s : ℕ) : F :=
  if j ≤ s ∧ s < j + n then e (s - j) else 0

/-- The sum of some terms that follow each other, up to one of them. -/
def movingSum (e : ℕ → F) (n width s : ℕ) : F :=
  ∑ j ∈ range width, delayed e n j s

/-- The product of two delays of a sequence is its sum at the lag between them. -/
theorem sum_delayed_mul (e : ℕ → F) {n j k horizon : ℕ} (h : n + j ≤ horizon) :
    ∑ s ∈ range horizon, delayed e n j s * delayed e n (j + k) s = lagSum e n k := by
  have hoverlap : ∑ s ∈ Ico (j + k) (j + n), delayed e n j s * delayed e n (j + k) s =
      ∑ s ∈ range horizon, delayed e n j s * delayed e n (j + k) s := by
    refine sum_subset (fun s hs => ?_) fun s _ hs => ?_
    · rw [mem_Ico] at hs
      rw [mem_range]
      omega
    · rw [mem_Ico] at hs
      rcases lt_or_ge s (j + k) with hearly | hlate
      · rw [delayed, delayed, if_neg (by omega : ¬ (j + k ≤ s ∧ s < j + k + n)), mul_zero]
      · rw [delayed, if_neg (by omega : ¬ (j ≤ s ∧ s < j + n)), zero_mul]
  rw [← hoverlap, sum_Ico_eq_sum_range, lagSum, Nat.add_sub_add_left]
  refine sum_congr rfl fun t ht => ?_
  rw [mem_range] at ht
  have hfirst : j + k + t - j = t + k := by omega
  have hsecond : j + k + t - (j + k) = t := by omega
  rw [delayed, delayed, if_pos (by omega), if_pos (by omega), hfirst, hsecond]

/-- The products of two delays, in either order. -/
theorem sum_delayed_mul_delayed (e : ℕ → F) {n i j horizon : ℕ} (hi : n + i ≤ horizon)
    (hj : n + j ≤ horizon) :
    ∑ s ∈ range horizon, delayed e n i s * delayed e n j s = lagSum e n (i - j + (j - i)) := by
  rcases le_total i j with hij | hij
  · obtain ⟨k, rfl⟩ := Nat.exists_eq_add_of_le hij
    rw [sum_delayed_mul e hi]
    congr 1
    omega
  · obtain ⟨k, rfl⟩ := Nat.exists_eq_add_of_le hij
    rw [sum_congr rfl fun s _ => mul_comm (delayed e n (j + k) s) _, sum_delayed_mul e hj]
    congr 1
    omega

/-! ## Weights -/

/-- How often each lag occurs between two of the first numbers. -/
theorem sum_distances (f : ℕ → F) (width : ℕ) :
    ∑ i ∈ range width, ∑ j ∈ range width, f (i - j + (j - i)) =
      width * f 0 + ∑ k ∈ range width, 2 * (width - (k + 1)) * f (k + 1) := by
  induction width with
  | zero => simp
  | succ width ih =>
    have hbelow : ∑ i ∈ range width, f (i - width + (width - i)) =
        ∑ k ∈ range width, f (k + 1) := by
      rw [← sum_range_reflect]
      refine sum_congr rfl fun i hi => ?_
      rw [mem_range] at hi
      congr 1
      omega
    have habove : ∑ j ∈ range width, f (width - j + (j - width)) =
        ∑ k ∈ range width, f (k + 1) := by
      rw [← hbelow]
      exact sum_congr rfl fun j _ => by rw [add_comm]
    have hweights : ∑ k ∈ range width, 2 * (((width + 1 : ℕ) : F) - (k + 1)) * f (k + 1) =
        ∑ k ∈ range width, 2 * ((width : F) - (k + 1)) * f (k + 1) +
          2 * ∑ k ∈ range width, f (k + 1) := by
      rw [mul_sum, ← sum_add_distrib]
      refine sum_congr rfl fun k _ => ?_
      push_cast
      ring
    rw [sum_range_succ, sum_congr rfl fun i _ => sum_range_succ _ _, sum_add_distrib, ih, hbelow,
      sum_range_succ, habove, sum_range_succ _ width, hweights]
    push_cast
    simp only [Nat.sub_self, Nat.add_zero]
    ring

/-- The squares of the moving sums add up to the sums at all lags, each with its weight. -/
theorem sum_movingSum_sq (e : ℕ → F) (n width : ℕ) :
    ∑ s ∈ range (n + width), movingSum e n width s ^ 2 =
      width * lagSum e n 0 +
        ∑ k ∈ range width, 2 * (width - (k + 1)) * lagSum e n (k + 1) := by
  have hsquare : ∀ s, movingSum e n width s ^ 2 =
      ∑ i ∈ range width, ∑ j ∈ range width, delayed e n i s * delayed e n j s := by
    intro s
    rw [sq, movingSum, sum_mul_sum]
  rw [sum_congr rfl fun s _ => hsquare s, sum_comm, ← sum_distances fun k => lagSum e n k]
  refine sum_congr rfl fun i hi => ?_
  rw [sum_comm]
  refine sum_congr rfl fun j hj => ?_
  rw [mem_range] at hi hj
  exact sum_delayed_mul_delayed e (by omega) (by omega)

/-- The weighted sum over the lags is not negative. -/
theorem bartlett_nonneg [LinearOrder F] [IsStrictOrderedRing F] (e : ℕ → F) (n maxLag : ℕ) :
    0 ≤ lagSum e n 0 +
      ∑ k ∈ range maxLag, 2 * (1 - (k + 1) / (maxLag + 1)) * lagSum e n (k + 1) := by
  have hwidth : (0 : F) < maxLag + 1 := by positivity
  have hsquares := sum_movingSum_sq e n (maxLag + 1)
  rw [sum_range_succ] at hsquares
  push_cast at hsquares
  have hscaled : (maxLag + 1) * (lagSum e n 0 +
      ∑ k ∈ range maxLag, 2 * (1 - (k + 1) / (maxLag + 1)) * lagSum e n (k + 1)) =
        ∑ s ∈ range (n + (maxLag + 1)), movingSum e n (maxLag + 1) s ^ 2 := by
    rw [hsquares, mul_add, mul_sum, sub_self, mul_zero, zero_mul, add_zero]
    congr 1
    refine sum_congr rfl fun k _ => ?_
    field_simp
  have hnonneg : 0 ≤ ∑ s ∈ range (n + (maxLag + 1)), movingSum e n (maxLag + 1) s ^ 2 :=
    sum_nonneg fun s _ => sq_nonneg _
  rw [← hscaled] at hnonneg
  exact nonneg_of_mul_nonneg_right hnonneg hwidth

end QuantumSentinel.Lib
