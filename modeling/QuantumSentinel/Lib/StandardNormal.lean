import Mathlib.Probability.CDF
import Mathlib.Probability.Distributions.Gaussian.Real
import Mathlib.Topology.Order.IntermediateValue
import QuantumSentinel.Lib.Numerals

/-!
# The standard normal distribution

The cumulative distribution function of the standard normal distribution and its inverse.

Main results:

- Definition `normalCdf` and `normalInvCdf`.
- Theorem `normalCdf_strictMono` and `normalCdf_zero`: the function increases and is one
  half at zero.
- Theorem `normalInvCdf_strictMonoOn`: the inverse increases on the probabilities between zero
  and one.
-/

namespace QuantumSentinel.Lib

open MeasureTheory ProbabilityTheory Set Filter

/-- The cumulative distribution function. -/
noncomputable def normalCdf (x : ℝ) : ℝ :=
  cdf (gaussianReal 0 1) x

/-- The inverse of the cumulative distribution function. -/
noncomputable def normalInvCdf : ℝ → ℝ :=
  Function.invFun normalCdf

theorem normalCdf_eq (x : ℝ) : normalCdf x = (gaussianReal 0 1).real (Iic x) :=
  cdf_eq_real _ x

/-- Every interval has a positive probability. -/
theorem normalCdf_strictMono : StrictMono normalCdf := by
  intro x y hxy
  have hsplit : normalCdf x + (gaussianReal 0 1).real (Ioc x y) = normalCdf y := by
    rw [normalCdf_eq, normalCdf_eq, ← measureReal_union (Iic_disjoint_Ioc le_rfl) measurableSet_Ioc,
      Iic_union_Ioc_eq_Iic hxy.le]
  have hne : gaussianReal 0 1 (Ioc x y) ≠ 0 := by
    intro hzero
    have hvolume := gaussianReal_absolutelyContinuous' 0 one_ne_zero hzero
    rw [Real.volume_Ioc, ENNReal.ofReal_eq_zero] at hvolume
    linarith
  have hpos : 0 < (gaussianReal 0 1).real (Ioc x y) :=
    ENNReal.toReal_pos hne (measure_ne_top _ _)
  linarith

/-- No number has a positive probability. -/
theorem normalCdf_continuous : Continuous normalCdf := by
  have hatoms := nullSingletonClass_gaussianReal (μ := 0) (v := 1) one_ne_zero
  rw [continuous_iff_continuousAt]
  intro x
  have hsingle := (cdf (gaussianReal 0 1)).measure_singleton x
  rw [measure_cdf, measure_singleton, eq_comm, ENNReal.ofReal_eq_zero, sub_nonpos] at hsingle
  have hleft : Function.leftLim (cdf (gaussianReal 0 1)) x = cdf (gaussianReal 0 1) x :=
    le_antisymm ((monotone_cdf _).leftLim_le le_rfl) hsingle
  refine (monotone_cdf _).continuousAt_iff_leftLim_eq_rightLim.mpr ?_
  rw [hleft, StieltjesFunction.rightLim_eq]

/-- The distribution is symmetric. -/
theorem normalCdf_zero : normalCdf 0 = 1 / 2 := by
  have hatoms := nullSingletonClass_gaussianReal (μ := 0) (v := 1) one_ne_zero
  have hsymm : (gaussianReal 0 1).real (Ici 0) = (gaussianReal 0 1).real (Iic 0) := by
    have hmap : (gaussianReal 0 1).map (fun x : ℝ => -x) = gaussianReal 0 1 := by
      rw [gaussianReal_map_neg, neg_zero]
    calc (gaussianReal 0 1).real (Ici 0)
        = ((gaussianReal 0 1).map fun x : ℝ => -x).real (Ici 0) := by rw [hmap]
      _ = (gaussianReal 0 1).real (Set.preimage (fun x : ℝ => -x) (Ici 0)) :=
          map_measureReal_apply measurable_neg measurableSet_Ici
      _ = (gaussianReal 0 1).real (Iic 0) := by simp
  have hclosed : (gaussianReal 0 1).real (Ici 0) = (gaussianReal 0 1).real (Ioi 0) :=
    measureReal_congr Ioi_ae_eq_Ici.symm
  have htotal := probReal_compl_eq_one_sub (μ := gaussianReal 0 1) (measurableSet_Iic (a := (0 : ℝ)))
  rw [compl_Iic, ← hclosed, hsymm] at htotal
  rw [normalCdf_eq]
  linarith

/-- Every probability between zero and one is taken. -/
theorem normalCdf_invCdf {p : ℝ} (hp : p ∈ Ioo 0 1) : normalCdf (normalInvCdf p) = p := by
  obtain ⟨a, ha⟩ := ((tendsto_cdf_atBot (gaussianReal 0 1)).eventually_lt_const hp.1).exists
  obtain ⟨b, hb⟩ := ((tendsto_cdf_atTop (gaussianReal 0 1)).eventually_const_lt hp.2).exists
  exact Function.invFun_eq
    (mem_range_of_exists_le_of_exists_ge normalCdf_continuous ⟨a, ha.le⟩ ⟨b, hb.le⟩)

theorem normalInvCdf_strictMonoOn : StrictMonoOn normalInvCdf (Ioo 0 1) := by
  intro p hp q hq hpq
  rw [← normalCdf_strictMono.lt_iff_lt, normalCdf_invCdf hp, normalCdf_invCdf hq]
  exact hpq

theorem normalInvCdf_half : normalInvCdf (1 / 2) = 0 := by
  rw [← normalCdf_zero]
  exact Function.leftInverse_invFun normalCdf_strictMono.injective 0

end QuantumSentinel.Lib
