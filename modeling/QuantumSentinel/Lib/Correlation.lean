import Mathlib.Algebra.BigOperators.Field
import Mathlib.Algebra.Order.BigOperators.Ring.Finset
import Mathlib.Tactic.FieldSimp
import Mathlib.Tactic.Linarith
import Mathlib.Tactic.Positivity
import Mathlib.Tactic.Ring
import QuantumSentinel.Lib.RealFunctions

/-!
# Correlation

The correlation coefficient of two rows of numbers, as `numpy.corrcoef` computes it, and the
sums of products of deviations it is made of.

Main results:

- Definition `deviations` and `corrcoef`.
- Theorem `deviations_comp_swap`: what exchanging two numbers of one row changes.
- Theorem `corrcoef_eq`: over the reals, neither the degrees of freedom nor the clipping matter.
-/

namespace QuantumSentinel.Lib

variable {F : Type*} {n : ℕ}

section Deviations

variable [Field F]

/-- The mean of a row. -/
def average (a : Fin n → F) : F :=
  (∑ i, a i) / n

/-- The sum of the products of the deviations from the means. -/
def deviations (a b : Fin n → F) : F :=
  ∑ i, (a i - average a) * (b i - average b)

theorem deviations_comm (a b : Fin n → F) : deviations a b = deviations b a :=
  Finset.sum_congr rfl fun _ _ => mul_comm _ _

theorem average_comp (a : Fin n → F) (σ : Equiv.Perm (Fin n)) : average (a ∘ σ) = average a := by
  unfold average
  congr 1
  exact Equiv.sum_comp σ a

/-- The order of the columns does not matter. -/
theorem deviations_comp (a b : Fin n → F) (σ : Equiv.Perm (Fin n)) :
    deviations (a ∘ σ) (b ∘ σ) = deviations a b := by
  rw [deviations, average_comp, average_comp]
  exact Equiv.sum_comp σ fun i => (a i - average a) * (b i - average b)

/-- What exchanging two numbers of one row changes. -/
theorem deviations_comp_swap (a b : Fin n → F) {i j : Fin n} (hij : i ≠ j) :
    deviations (a ∘ Equiv.swap i j) b = deviations a b + (a j - a i) * (b i - b j) := by
  have hdiff : deviations (a ∘ Equiv.swap i j) b - deviations a b =
      ∑ k, (a (Equiv.swap i j k) - a k) * (b k - average b) := by
    rw [deviations, deviations, average_comp, ← Finset.sum_sub_distrib]
    refine Finset.sum_congr rfl fun k _ => ?_
    simp only [Function.comp_apply]
    ring
  have hpair : ∑ k, (a (Equiv.swap i j k) - a k) * (b k - average b) =
      (a j - a i) * (b i - average b) + (a i - a j) * (b j - average b) := by
    rw [Fintype.sum_eq_add i j hij, Equiv.swap_apply_left, Equiv.swap_apply_right]
    intro k hk
    rw [Equiv.swap_apply_of_ne_of_ne hk.1 hk.2, sub_self, zero_mul]
  rw [hpair] at hdiff
  linear_combination hdiff

/-- Two numbers of a row that differ keep its deviations from zero. -/
theorem deviations_ge [LinearOrder F] [IsStrictOrderedRing F] (a : Fin n → F) {i j : Fin n}
    (hij : i ≠ j) : (a i - a j) ^ 2 / 2 ≤ deviations a a := by
  have hpair : (a i - average a) * (a i - average a) + (a j - average a) * (a j - average a) ≤
      deviations a a := by
    rw [← Finset.sum_pair (f := fun k => (a k - average a) * (a k - average a)) hij]
    exact Finset.sum_le_univ_sum_of_nonneg fun k => mul_self_nonneg _
  have hsquare := sq_nonneg (a i - average a + (a j - average a))
  refine le_trans ?_ hpair
  rw [div_le_iff₀ two_pos]
  linarith [hsquare, show (a i - a j) ^ 2 + (a i - average a + (a j - average a)) ^ 2 =
    ((a i - average a) * (a i - average a) + (a j - average a) * (a j - average a)) * 2 by ring]

end Deviations

section Corrcoef

variable [Field F] [LinearOrder F] [RealFunctions F]

/-- An entry of `np.cov` -/
def cov (a b : Fin n → F) : F :=
  deviations a b / (n - 1)

/-- An entry of `np.corrcoef` -/
def corrcoef (a b : Fin n → F) : F :=
  min (max (cov a b / RealFunctions.sqrt (cov a a) / RealFunctions.sqrt (cov b b)) (-1)) 1

theorem corrcoef_comm (a b : Fin n → F) : corrcoef a b = corrcoef b a := by
  rw [corrcoef, corrcoef, div_right_comm, cov, cov, cov, cov, deviations_comm a b]

end Corrcoef

section Real

variable (a b : Fin n → ℝ)

theorem deviations_self_nonneg : 0 ≤ deviations a a :=
  Finset.sum_nonneg fun _ _ => mul_self_nonneg _

/-- The inequality of Cauchy and Schwarz for deviations. -/
theorem abs_deviations_le :
    |deviations a b| ≤ Real.sqrt (deviations a a) * Real.sqrt (deviations b b) := by
  rw [← Real.sqrt_mul (deviations_self_nonneg a), ← Real.sqrt_sq_eq_abs]
  refine Real.sqrt_le_sqrt ?_
  have hcauchy := Finset.sum_mul_sq_le_sq_mul_sq Finset.univ (fun i => a i - average a)
    fun i => b i - average b
  simpa only [deviations, ← sq] using hcauchy

/-- Neither the degrees of freedom nor the clipping matter. -/
theorem corrcoef_eq (hn : 2 ≤ n) :
    corrcoef a b = deviations a b / (Real.sqrt (deviations a a) * Real.sqrt (deviations b b)) := by
  have hfree : (0 : ℝ) < n - 1 := by
    have htwo : (2 : ℝ) ≤ n := by exact_mod_cast hn
    linarith
  have hscale : ∀ S A B d : ℝ, 0 < d → S / (d * d) / (A / d) / (B / d) = S / (A * B) := by
    intro S A B d hd
    field_simp
  have hratio : cov a b / Real.sqrt (cov a a) / Real.sqrt (cov b b) =
      deviations a b / (Real.sqrt (deviations a a) * Real.sqrt (deviations b b)) := by
    rw [cov, cov, cov, Real.sqrt_div' _ hfree.le, Real.sqrt_div' _ hfree.le,
      ← hscale _ _ _ _ (Real.sqrt_pos.mpr hfree), Real.mul_self_sqrt hfree.le]
  have hbound :
      |deviations a b / (Real.sqrt (deviations a a) * Real.sqrt (deviations b b))| ≤ 1 := by
    have hnonneg : 0 ≤ Real.sqrt (deviations a a) * Real.sqrt (deviations b b) := by positivity
    rw [abs_div, abs_of_nonneg hnonneg]
    exact div_le_one_of_le₀ (abs_deviations_le a b) hnonneg
  rw [← hratio] at hbound ⊢
  obtain ⟨hlower, hupper⟩ := abs_le.mp hbound
  exact (min_eq_left (max_le hupper (by norm_num))).trans (max_eq_left hlower)

end Real

end QuantumSentinel.Lib
