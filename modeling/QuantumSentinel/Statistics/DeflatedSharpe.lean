import QuantumSentinel.Lib.Moments
import QuantumSentinel.Lib.StandardNormal

/-!
# Statistics: the deflated Sharpe ratio

`expected_max_sharpe` and `deflated_sharpe_ratio` of `stat_tests.py`, with the sample
moments that `run_full_stat_tests` hands over.

Main results:

- Definition `deflatedSharpeRatio`: the test.
- Theorem `srVariance_nonneg`: the variance of the estimator is not negative.
- Theorem `expectedMaxSharpe_mono`: more trials never lower the benchmark.
- Theorem `deflated_sharpe_monotone`: from one trial on, more trials never make a result
  significant.

Current gaps:

- Arithmetic is exact, and reported numbers are not rounded; the interpretation is left out.
- `inv_cdf` is only asked for probabilities between zero and one, so its error is left out.
-/

namespace QuantumSentinel.Statistics

open Lib

variable {F : Type*} [Field F] [LinearOrder F] [RealFunctions F]

/-! ## Moments -/

/-- `_skewness`; `m2 ** 1.5` is `m2` times its root. -/
def skewness (x : List F) : F :=
  if x.length < 3 then 0
  else
    let m2 := centralMoment x 2
    let m3 := centralMoment x 3
    if m2 < 1 / 10 ^ 12 then 0 else m3 / (m2 * RealFunctions.sqrt m2)

omit [RealFunctions F] in
/-- `_kurtosis` -/
def kurtosis (x : List F) : F :=
  if x.length < 4 then 3
  else
    let m2 := centralMoment x 2
    let m4 := centralMoment x 4
    if m2 < 1 / 10 ^ 12 then 3 else m4 / m2 ^ 2

/-! ## Deflation -/

/-- `_EULER_GAMMA` -/
def eulerGamma : F :=
  5772156649015329 / 10 ^ 16

/-- `expected_max_sharpe` -/
def expectedMaxSharpe (invCdf : F → F) (nTrials : ℤ) (trialSharpeStd : F) : F :=
  if nTrials ≤ 1 then 0
  else
    trialSharpeStd * ((1 - eulerGamma) * invCdf (1 - 1 / nTrials) +
      eulerGamma * invCdf (1 - 1 / (nTrials * RealFunctions.exp 1)))

/-- `sr_variance`, in front of its floor. -/
def srVariance (skewness kurtosis sr : F) (nObservations : ℕ) : F :=
  (1 - skewness * sr + 1 / 4 * (kurtosis - 1) * sr ^ 2) / (nObservations - 1)

/-- `trial_std` -/
def trialStd (sharpeStd : Option F) (scale : F) (nObservations : ℕ) : F :=
  match sharpeStd with
  | some sharpeStd => sharpeStd / scale
  | none => RealFunctions.sqrt (1 / (nObservations - 1))

/-- What a test reports. -/
structure Deflation (F : Type*) where
  observedSharpe : F
  expectedMaxSharpe : F
  nTrials : ℤ
  nObservations : ℕ
  sharpeStandardError : F
  dsrZScore : F
  dsrPValue : F
  significant5pct : Bool
  haircutPct : F

/-- The answers of `deflated_sharpe_ratio`. -/
inductive DeflatedSharpe (F : Type*)
  /-- `{"dsr": 0, "p_value": 1.0, "significant": False}` -/
  | noTest
  | test (deflation : Deflation F)

/-- The p-value of an answer. -/
def DeflatedSharpe.pValue : DeflatedSharpe F → F
  | .noTest => 1
  | .test deflation => deflation.dsrPValue

/-- Whether an answer is significant. -/
def DeflatedSharpe.significant : DeflatedSharpe F → Bool
  | .noTest => false
  | .test deflation => deflation.significant5pct

/-- The errors of the scale. -/
inductive ScaleError
  /-- `math.sqrt` of a negative number -/
  | mathDomain
  /-- a division by zero -/
  | zeroDivision
  deriving DecidableEq

/-- The test in units of one observation, after the guards. -/
def deflation (invCdf normalCdf : F → F) (observedSharpe : F) (nTrials : ℤ) (nObservations : ℕ)
    (skewness kurtosis : F) (sharpeStd : Option F) (scale : F) : Deflation F :=
  let sr := observedSharpe / scale
  let srBenchmark := expectedMaxSharpe invCdf nTrials (trialStd sharpeStd scale nObservations)
  let srStd := RealFunctions.sqrt
    (max (srVariance skewness kurtosis sr nObservations) (1 / 10 ^ 12))
  let dsrZ := (sr - srBenchmark) / srStd
  let dsrP := 1 - normalCdf dsrZ
  let expectedMaxAnnual := srBenchmark * scale
  { observedSharpe := observedSharpe
    expectedMaxSharpe := expectedMaxAnnual
    nTrials := nTrials
    nObservations := nObservations
    sharpeStandardError := srStd * scale
    dsrZScore := dsrZ
    dsrPValue := dsrP
    significant5pct := dsrP < 5 / 100
    haircutPct :=
      if 0 < expectedMaxAnnual then max 0 (1 - observedSharpe / expectedMaxAnnual) * 100 else 0 }

/-- `deflated_sharpe_ratio` -/
def deflatedSharpeRatio (invCdf normalCdf : F → F) (observedSharpe : F) (nTrials : ℤ)
    (nObservations : ℕ) (skewness kurtosis : F) (sharpeStd : Option F) (periodsPerYear : ℤ) :
    Except ScaleError (DeflatedSharpe F) :=
  if nTrials < 1 ∨ nObservations < 5 then .ok .noTest
  else if periodsPerYear < 0 then .error .mathDomain
  else if periodsPerYear = 0 then .error .zeroDivision
  else
    .ok (.test (deflation invCdf normalCdf observedSharpe nTrials nObservations skewness kurtosis
      sharpeStd (RealFunctions.sqrt (periodsPerYear : F))))

/-- `results["deflated_sharpe"]` of `run_full_stat_tests`. -/
def fullDeflatedSharpe (invCdf normalCdf : F → F) (returns : List F) (nStrategiesTested : ℤ) :
    Except ScaleError (DeflatedSharpe F) :=
  let sharpe := mean returns / max (std returns 1) (1 / 10 ^ 9) * RealFunctions.sqrt 252
  deflatedSharpeRatio invCdf normalCdf sharpe (max 1 nStrategiesTested) returns.length
    (skewness returns) (kurtosis returns) none 252

/-! ## The variance of the estimator -/

/-- The moments of a sample satisfy Pearson's inequality, also where they are replaced because the
sample hardly varies. -/
theorem srVariance_nonneg {x : List ℝ} (hlength : 4 ≤ x.length) (sr : ℝ) :
    0 ≤ srVariance (skewness x) (kurtosis x) sr x.length := by
  have hdegrees : (0 : ℝ) ≤ x.length - 1 := by
    rw [sub_nonneg, Nat.one_le_cast]
    omega
  refine div_nonneg ?_ hdegrees
  rw [skewness, kurtosis, if_neg (by omega : ¬ x.length < 3), if_neg (by omega : ¬ x.length < 4)]
  simp only
  by_cases hflat : centralMoment x 2 < 1 / 10 ^ 12
  · rw [if_pos hflat, if_pos hflat]
    nlinarith [sq_nonneg sr]
  · rw [if_neg hflat, if_neg hflat]
    have hpos : 0 < centralMoment x 2 := lt_of_lt_of_le (by norm_num) (not_lt.mp hflat)
    have hroot : Real.sqrt (centralMoment x 2) ^ 2 = centralMoment x 2 := Real.sq_sqrt hpos.le
    have hpearson := pearson_nonneg (Real.sqrt_pos.mpr hpos) hroot.symm sr
    have hthird : Real.sqrt (centralMoment x 2) ^ 3 =
        centralMoment x 2 * RealFunctions.sqrt (centralMoment x 2) := by
      rw [pow_succ, hroot]
      rfl
    have hfourth : Real.sqrt (centralMoment x 2) ^ 4 = centralMoment x 2 ^ 2 := by
      rw [show 4 = 2 * 2 from rfl, pow_mul, hroot]
    rw [hthird, hfourth] at hpearson
    linarith

/-! ## The benchmark -/

section Monotone

variable {invCdf normalCdf : ℝ → ℝ}

/-- More trials never lower the benchmark, also from one trial to several. -/
theorem expectedMaxSharpe_mono (hinv : StrictMonoOn invCdf (Set.Ioo 0 1)) (hhalf : invCdf (1 / 2) = 0)
    {n n' : ℤ} (hle : n ≤ n') {trialSharpeStd : ℝ} (hstd : 0 ≤ trialSharpeStd) :
    expectedMaxSharpe invCdf n trialSharpeStd ≤ expectedMaxSharpe invCdf n' trialSharpeStd := by
  have hgamma : (0 : ℝ) ≤ eulerGamma ∧ (0 : ℝ) ≤ 1 - eulerGamma := by
    constructor <;> norm_num [eulerGamma]
  have he : (1 : ℝ) ≤ RealFunctions.exp (1 : ℝ) := Real.one_le_exp zero_le_one
  -- `1 - 1 / t` rises with `t` and stays between one half and one
  have hlevel : ∀ t : ℝ, 2 ≤ t → 1 - 1 / t ∈ Set.Ioo (0 : ℝ) 1 ∧ 1 / 2 ≤ 1 - 1 / t := by
    intro t ht
    have hinverse : 1 / t ≤ 1 / 2 := one_div_le_one_div_of_le two_pos ht
    have hpos : 0 < 1 / t := one_div_pos.mpr (by linarith)
    exact ⟨⟨by linarith, by linarith⟩, by linarith⟩
  have hrise : ∀ s t : ℝ, 2 ≤ s → s ≤ t → invCdf (1 - 1 / s) ≤ invCdf (1 - 1 / t) := by
    intro s t hs hst
    refine hinv.monotoneOn (hlevel s hs).1 (hlevel t (hs.trans hst)).1 ?_
    exact sub_le_sub_left (one_div_le_one_div_of_le (by linarith) hst) 1
  have hpositive : ∀ t : ℝ, 2 ≤ t → 0 ≤ invCdf (1 - 1 / t) := by
    intro t ht
    rw [← hhalf]
    exact hinv.monotoneOn (by norm_num) (hlevel t ht).1 (hlevel t ht).2
  by_cases hmany' : n' ≤ 1
  · rw [expectedMaxSharpe, expectedMaxSharpe, if_pos (hle.trans hmany'), if_pos hmany']
  · have htwo' : (2 : ℝ) ≤ n' := by exact_mod_cast (by omega : (2 : ℤ) ≤ n')
    have hstretch' : (2 : ℝ) ≤ n' * RealFunctions.exp (1 : ℝ) :=
      htwo'.trans (le_mul_of_one_le_right (by linarith) he)
    rw [expectedMaxSharpe, expectedMaxSharpe, if_neg hmany']
    by_cases hmany : n ≤ 1
    · rw [if_pos hmany]
      exact mul_nonneg hstd (add_nonneg (mul_nonneg hgamma.2 (hpositive _ htwo'))
        (mul_nonneg hgamma.1 (hpositive _ hstretch')))
    · have htwo : (2 : ℝ) ≤ n := by exact_mod_cast (by omega : (2 : ℤ) ≤ n)
      have hcast : (n : ℝ) ≤ n' := Int.cast_le.mpr hle
      have hstretch : (2 : ℝ) ≤ n * RealFunctions.exp (1 : ℝ) :=
        htwo.trans (le_mul_of_one_le_right (by linarith) he)
      rw [if_neg hmany]
      refine mul_le_mul_of_nonneg_left (add_le_add ?_ ?_) hstd
      · exact mul_le_mul_of_nonneg_left (hrise _ _ htwo hcast) hgamma.2
      · refine mul_le_mul_of_nonneg_left (hrise _ _ hstretch ?_) hgamma.1
        exact mul_le_mul_of_nonneg_right hcast (by linarith)

/-! ## The test -/

theorem trialStd_nonneg {sharpeStd : Option ℝ} (hstd : ∀ s ∈ sharpeStd, 0 ≤ s) {scale : ℝ}
    (hscale : 0 ≤ scale) (nObservations : ℕ) : 0 ≤ trialStd sharpeStd scale nObservations := by
  cases sharpeStd with
  | none => exact Real.sqrt_nonneg _
  | some s => exact div_nonneg (hstd s rfl) hscale

/-- More trials never lower the p-value of a test. -/
theorem deflation_mono (hinv : StrictMonoOn invCdf (Set.Ioo 0 1)) (hhalf : invCdf (1 / 2) = 0)
    (hcdf : StrictMono normalCdf) (observedSharpe : ℝ) {n n' : ℤ} (hle : n ≤ n')
    (nObservations : ℕ) (skewness kurtosis : ℝ) {sharpeStd : Option ℝ}
    (hstd : ∀ s ∈ sharpeStd, 0 ≤ s) {scale : ℝ} (hscale : 0 ≤ scale) :
    (deflation invCdf normalCdf observedSharpe n nObservations skewness kurtosis sharpeStd
      scale).dsrPValue ≤
    (deflation invCdf normalCdf observedSharpe n' nObservations skewness kurtosis sharpeStd
      scale).dsrPValue := by
  have hbenchmark := expectedMaxSharpe_mono hinv hhalf hle
    (trialStd_nonneg hstd hscale nObservations)
  refine sub_le_sub_left (hcdf.monotone ?_) 1
  exact div_le_div_of_nonneg_right (sub_le_sub_left hbenchmark _) (Real.sqrt_nonneg _)

/-- An answer is significant exactly when its p-value is below the level. -/
theorem significant_iff {observedSharpe : ℝ} {n : ℤ} {nObservations : ℕ} {skewness kurtosis : ℝ}
    {sharpeStd : Option ℝ} {periodsPerYear : ℤ} {answer : DeflatedSharpe ℝ}
    (h : deflatedSharpeRatio invCdf normalCdf observedSharpe n nObservations skewness kurtosis
      sharpeStd periodsPerYear = .ok answer) :
    answer.significant = true ↔ answer.pValue < 5 / 100 := by
  rw [deflatedSharpeRatio] at h
  split_ifs at h
  · cases h
    simp only [DeflatedSharpe.significant, DeflatedSharpe.pValue]
    norm_num
  · cases h
    exact decide_eq_true_iff

/-- From one trial on, more trials never lower the p-value of an answer. -/
theorem pValue_mono (hinv : StrictMonoOn invCdf (Set.Ioo 0 1)) (hhalf : invCdf (1 / 2) = 0)
    (hcdf : StrictMono normalCdf) {observedSharpe : ℝ} {n n' : ℤ} (hone : 1 ≤ n) (hle : n ≤ n')
    {nObservations : ℕ} {skewness kurtosis : ℝ} {sharpeStd : Option ℝ}
    (hstd : ∀ s ∈ sharpeStd, 0 ≤ s) {periodsPerYear : ℤ} {answer answer' : DeflatedSharpe ℝ}
    (h : deflatedSharpeRatio invCdf normalCdf observedSharpe n nObservations skewness kurtosis
      sharpeStd periodsPerYear = .ok answer)
    (h' : deflatedSharpeRatio invCdf normalCdf observedSharpe n' nObservations skewness kurtosis
      sharpeStd periodsPerYear = .ok answer') :
    answer.pValue ≤ answer'.pValue := by
  rw [deflatedSharpeRatio] at h h'
  by_cases hshort : nObservations < 5
  · rw [if_pos (Or.inr hshort)] at h h'
    cases h
    cases h'
    exact le_rfl
  · rw [if_neg (by omega)] at h h'
    split_ifs at h h'
    cases h
    cases h'
    exact deflation_mono hinv hhalf hcdf observedSharpe hle nObservations skewness kurtosis hstd
      (Real.sqrt_nonneg _)

/-- For every sample of at least five returns and every Sharpe ratio, the variance of the estimator is
not negative; from one trial on a test is made, more trials never lower its p-value and never make
it significant; below one trial none is made. -/
theorem deflated_sharpe_monotone (hinv : StrictMonoOn invCdf (Set.Ioo 0 1))
    (hhalf : invCdf (1 / 2) = 0) (hcdf : StrictMono normalCdf) {returns : List ℝ}
    (hlength : 5 ≤ returns.length) (observedSharpe : ℝ) {sharpeStd : Option ℝ}
    (hstd : ∀ s ∈ sharpeStd, 0 ≤ s) (periodsPerYear : ℤ) :
    0 ≤ srVariance (skewness returns) (kurtosis returns)
      (observedSharpe / RealFunctions.sqrt (periodsPerYear : ℝ)) returns.length ∧
    (∀ n answer n' answer', 1 ≤ n → n ≤ n' →
      deflatedSharpeRatio invCdf normalCdf observedSharpe n returns.length (skewness returns)
        (kurtosis returns) sharpeStd periodsPerYear = .ok answer →
      deflatedSharpeRatio invCdf normalCdf observedSharpe n' returns.length (skewness returns)
        (kurtosis returns) sharpeStd periodsPerYear = .ok answer' →
      answer.pValue ≤ answer'.pValue ∧
        (answer'.significant = true → answer.significant = true)) ∧
    (∀ n, 1 ≤ n → 0 < periodsPerYear → ∃ deflation,
      deflatedSharpeRatio invCdf normalCdf observedSharpe n returns.length (skewness returns)
        (kurtosis returns) sharpeStd periodsPerYear = .ok (.test deflation)) ∧
    ∀ n, n < 1 →
      deflatedSharpeRatio invCdf normalCdf observedSharpe n returns.length (skewness returns)
        (kurtosis returns) sharpeStd periodsPerYear = .ok .noTest := by
  refine ⟨srVariance_nonneg (by omega) _, ?_, ?_, ?_⟩
  · intro n answer n' answer' hone hle h h'
    have hmono := pValue_mono hinv hhalf hcdf hone hle hstd h h'
    refine ⟨hmono, fun hsignificant => ?_⟩
    rw [significant_iff h'] at hsignificant
    exact (significant_iff h).mpr (lt_of_le_of_lt hmono hsignificant)
  · intro n hone hperiods
    rw [deflatedSharpeRatio, if_neg (by omega), if_neg (by omega), if_neg (by omega)]
    exact ⟨_, rfl⟩
  · intro n hnone
    rw [deflatedSharpeRatio, if_pos (Or.inl hnone)]

end Monotone

theorem deflated_sharpe_monotone_mixed :
    0 ≤ srVariance (skewness [3, -1, 2, -2, 1]) (kurtosis [3, -1, 2, -2, 1])
      (2 / RealFunctions.sqrt ((252 : ℤ) : ℝ)) 5 ∧
    (∀ n answer n' answer', 1 ≤ n → n ≤ n' →
      deflatedSharpeRatio normalInvCdf normalCdf 2 n 5 (skewness [3, -1, 2, -2, 1])
        (kurtosis [3, -1, 2, -2, 1]) (some (1 / 2)) 252 = .ok answer →
      deflatedSharpeRatio normalInvCdf normalCdf 2 n' 5 (skewness [3, -1, 2, -2, 1])
        (kurtosis [3, -1, 2, -2, 1]) (some (1 / 2)) 252 = .ok answer' →
      answer.pValue ≤ answer'.pValue ∧
        (answer'.significant = true → answer.significant = true)) ∧
    (∀ n, 1 ≤ n → 0 < (252 : ℤ) → ∃ deflation,
      deflatedSharpeRatio normalInvCdf normalCdf 2 n 5 (skewness [3, -1, 2, -2, 1])
        (kurtosis [3, -1, 2, -2, 1]) (some (1 / 2)) 252 = .ok (.test deflation)) ∧
    ∀ n, n < 1 →
      deflatedSharpeRatio normalInvCdf normalCdf 2 n 5 (skewness [3, -1, 2, -2, 1])
        (kurtosis [3, -1, 2, -2, 1]) (some (1 / 2)) 252 = .ok .noTest :=
  deflated_sharpe_monotone normalInvCdf_strictMonoOn normalInvCdf_half normalCdf_strictMono
    (by decide : 5 ≤ [(3 : ℝ), -1, 2, -2, 1].length) 2
    (fun s (hs : s ∈ some (1 / 2 : ℝ)) => by cases hs; norm_num) 252

/-- Without a trial the p-value is one, and the first trial lowers it. -/
theorem first_trial_lowers_pValue :
    ¬ ∀ n answer n' answer', n ≤ n' →
      deflatedSharpeRatio normalInvCdf normalCdf 0 n 5 (skewness [3, -1, 2, -2, 1])
        (kurtosis [3, -1, 2, -2, 1]) none 252 = .ok answer →
      deflatedSharpeRatio normalInvCdf normalCdf 0 n' 5 (skewness [3, -1, 2, -2, 1])
        (kurtosis [3, -1, 2, -2, 1]) none 252 = .ok answer' →
      answer.pValue ≤ answer'.pValue := by
  intro hmono
  have hle := hmono 0 _ 1 _ zero_le_one rfl rfl
  simp only [DeflatedSharpe.pValue, deflation, expectedMaxSharpe, le_refl, if_true, zero_div,
    sub_zero, normalCdf_zero] at hle
  norm_num at hle

end QuantumSentinel.Statistics
