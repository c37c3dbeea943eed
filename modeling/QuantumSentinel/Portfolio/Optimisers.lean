import Mathlib.Algebra.BigOperators.Field
import QuantumSentinel.Lib.RealFunctions
import QuantumSentinel.Portfolio.Projection

/-!
# Portfolios: the optimisers

The six optimisers of `portfolio_optimization.py`.  Each starts from some weights, takes steps
along a gradient or a multiplicative update, and ends in the projection; minimum variance and maximum
Sharpe return a closed form instead where they find one.  `np.linalg.pinv` is a parameter that
gives any matrix or fails.

Main results:

- Definition `minimumVariance`, `maximumSharpe`, `riskParity`,
  `maximumDiversification` and `turnoverAwareMeanVariance`.
- Theorem `minimumVariance_respects`: also its closed form respects the constraints.
- Theorem `maximumSharpe_respects`: its closed form does so for the box of all weights.
- Theorem `tangency_of_shares`: any positive shares are its closed form, for some pseudoinverse.
-/

namespace QuantumSentinel.Portfolio

open Lib

variable {F : Type*} [Field F] [LinearOrder F] {N : ℕ}

/-! ## Vectors and matrices -/

/-- A square matrix. -/
abbrev SquareMatrix (F : Type*) (N : ℕ) :=
  Fin N → Fin N → F

/-- `matrix @ w` -/
def matVec (matrix : SquareMatrix F N) (w : Weights F N) : Weights F N :=
  fun i => ∑ j, matrix i j * w j

/-- `v @ w` -/
def dot (v w : Weights F N) : F :=
  ∑ i, v i * w i

/-- A row over its sum. -/
def normalised (w : Weights F N) : Weights F N :=
  fun i => w i / ∑ j, w j

/-- `np.clip(w, 0, 1) / np.clip(w, 0, 1).sum()` -/
def clippedShare (w : Weights F N) : Weights F N :=
  normalised fun i => clipTo 0 1 (w i)

/-- `np.sign(x)` -/
def sign (x : F) : F :=
  if 0 < x then 1 else if x < 0 then -1 else 0

/-- Some steps, each of which can be refused; they end early when one changes little. -/
def descend (stop : Weights F N → Weights F N → Bool)
    (step : Weights F N → Except String (Weights F N)) :
    ℕ → Weights F N → Except String (Weights F N)
  | 0, w => .ok w
  | n + 1, w => do
      let next ← step w
      if stop next w then .ok next else descend stop step n next

/-! ## The optimisers -/

/-- `np.ones(n_assets) / n_assets` -/
def uniform (F : Type*) [Field F] (N : ℕ) : Weights F N :=
  fun _ => 1 / N

/-- `equal_weight` -/
def equalWeight (con : PortfolioConstraints F) (N : ℕ) : Except String (Weights F N) :=
  if N < 1 then .error "n_assets must be positive" else con.projectSimplex (uniform F N)

/-- The closed form of the minimum variance, tried for the box of all weights. -/
def minVarianceClosedForm (con : PortfolioConstraints F)
    (pinv : SquareMatrix F N → Option (SquareMatrix F N)) (cov : SquareMatrix F N) :
    Option (Weights F N) :=
  if con.longOnly = true ∧ con.minWeight = 0 ∧ con.maxWeight = 1 then
    (pinv cov).bind fun inverse =>
      let raw := matVec inverse fun _ => 1
      if 1 / 10 ^ 9 < ∑ i, raw i ∧ ∀ i, -(1 / 10 ^ 6) ≤ normalised raw i then
        some (clippedShare (normalised raw))
      else none
  else none

/-- `minimum_variance` -/
def minimumVariance (con : PortfolioConstraints F)
    (pinv : SquareMatrix F N → Option (SquareMatrix F N)) (cov : SquareMatrix F N) (nIter : ℕ)
    (lr : F) : Except String (Weights F N) :=
  match minVarianceClosedForm con pinv cov with
  | some w => .ok w
  | none => do
      let w ← descend (fun _ _ => false)
        (fun w => con.projectSimplex fun i => w i - lr * (2 * matVec cov w i)) nIter (uniform F N)
      con.projectSimplex w

/-- The closed form of the maximum Sharpe ratio, whatever the box. -/
def tangency (pinv : SquareMatrix F N → Option (SquareMatrix F N)) (cov : SquareMatrix F N)
    (excess : Weights F N) : Option (Weights F N) :=
  (pinv cov).bind fun inverse =>
    let raw := matVec inverse excess
    if (∀ i, 0 < raw i) ∧ 1 / 10 ^ 9 < ∑ i, raw i ∧ ∀ i, -(1 / 10 ^ 6) ≤ normalised raw i then
      some (clippedShare (normalised raw))
    else none

section Gradients

variable [RealFunctions F]

/-- The gradient of a ratio: a linear numerator over the volatility. -/
def ratioGradient (cov : SquareMatrix F N) (numerator w : Weights F N) : Weights F N :=
  let portVar := dot w (matVec cov w)
  let portVol := RealFunctions.sqrt (max portVar (1 / 10 ^ 12))
  fun i =>
    (numerator i * portVol - dot w numerator * (matVec cov w i / portVol)) /
      max portVar (1 / 10 ^ 12)

/-- Steps along the gradient of a ratio, each projected. -/
def ascendRatio (con : PortfolioConstraints F) (cov : SquareMatrix F N) (numerator : Weights F N)
    (nIter : ℕ) (lr : F) : Except String (Weights F N) := do
  let w ← descend (fun _ _ => false)
    (fun w => con.projectSimplex fun i => w i + lr * ratioGradient cov numerator w i) nIter
    (uniform F N)
  con.projectSimplex w

/-- `maximum_sharpe` -/
def maximumSharpe (con : PortfolioConstraints F)
    (pinv : SquareMatrix F N → Option (SquareMatrix F N)) (expectedReturns : Weights F N)
    (cov : SquareMatrix F N) (rfRate : F) (nIter : ℕ) : Except String (Weights F N) :=
  let excess : Weights F N := fun i => expectedReturns i - rfRate
  match tangency pinv cov excess with
  | some w => .ok w
  | none => ascendRatio con cov excess nIter (1 / 100)

/-- One multiplicative update of `risk_parity`. -/
def riskParityStep (con : PortfolioConstraints F) (cov : SquareMatrix F N) (w : Weights F N) :
    Weights F N :=
  let sigmaW := matVec cov w
  let portVar := dot w sigmaW
  let rc : Weights F N := fun i => w i * sigmaW i / portVar
  let wNew := con.projectBox fun i =>
    w i * RealFunctions.sqrt (1 / N / max (rc i) (1 / 10 ^ 12))
  fun i => wNew i / max (∑ j, wNew j) (1 / 10 ^ 9)

/-- The loop of `risk_parity`. -/
def riskParityLoop (con : PortfolioConstraints F) (cov : SquareMatrix F N) (tol : F) :
    ℕ → Weights F N → Weights F N
  | 0, w => w
  | n + 1, w =>
    if dot w (matVec cov w) < 1 / 10 ^ 12 then w
    else
      let wNew := riskParityStep con cov w
      if ∀ i, |wNew i - w i| < tol then wNew else riskParityLoop con cov tol n wNew

/-- `risk_parity` -/
def riskParity (con : PortfolioConstraints F) (cov : SquareMatrix F N) (nIter : ℕ) (tol : F) :
    Except String (Weights F N) :=
  con.projectSimplex (riskParityLoop con cov tol nIter (uniform F N))

/-- `maximum_diversification` -/
def maximumDiversification (con : PortfolioConstraints F) (cov : SquareMatrix F N) (nIter : ℕ) :
    Except String (Weights F N) :=
  let assetVols : Weights F N := fun i => RealFunctions.sqrt (max (cov i i) (1 / 10 ^ 12))
  ascendRatio con cov assetVols nIter (1 / 50)

end Gradients

/-- One proximal step of `turnover_aware_mean_variance`, before the projection. -/
def proximalStep (mu : Weights F N) (cov : SquareMatrix F N) (prev : Weights F N)
    (riskAversion lr threshold : F) (w : Weights F N) : Weights F N := fun i =>
  let delta := w i + lr * (mu i - 2 * riskAversion * matVec cov w i) - prev i
  prev i + sign delta * max (|delta| - threshold) 0

/-- `turnover_aware_mean_variance` -/
def turnoverAwareMeanVariance (con : PortfolioConstraints F) (mu : Weights F N)
    (cov : SquareMatrix F N) (previousWeights : List F) (riskAversion turnoverPenalty : F)
    (nIter : ℕ) (lr : F) : Except String (Weights F N) :=
  if previousWeights.length ≠ N then
    .error "expected_returns, covariance matrix, and previous_weights have incompatible shapes"
  else if riskAversion < 0 ∨ turnoverPenalty < 0 then
    .error "risk_aversion and turnover_penalty must be non-negative"
  else do
    let prev : Weights F N := fun i => previousWeights.getD i 0
    let w ← con.projectSimplex prev
    descend (fun next w => ∀ i, |next i - w i| < 1 / 10 ^ 9)
      (fun w => con.projectSimplex
        (proximalStep mu cov prev riskAversion lr (lr * turnoverPenalty) w)) nIter w

/-! ## Shares -/

section Shares

variable [IsStrictOrderedRing F]

omit [LinearOrder F] [IsStrictOrderedRing F] in
theorem sum_normalised {w : Weights F N} (h : ∑ i, w i ≠ 0) : ∑ i, normalised w i = 1 := by
  simp only [normalised]
  rw [← Finset.sum_div, div_self h]

/-- A share of weights that are not negative is between zero and one. -/
theorem normalised_mem {w : Weights F N} (hw : ∀ i, 0 ≤ w i) (i : Fin N) :
    0 ≤ normalised w i ∧ normalised w i ≤ 1 := by
  have hle : w i ≤ ∑ j, w j := Finset.single_le_sum (fun j _ => hw j) (Finset.mem_univ i)
  exact ⟨div_nonneg (hw i) ((hw i).trans hle), div_le_one_of_le₀ hle ((hw i).trans hle)⟩

/-- Weights with a positive sum keep a positive sum when they are clipped. -/
theorem sum_clip_pos {w : Weights F N} (h : 0 < ∑ i, w i) : 0 < ∑ i, clipTo 0 1 (w i) := by
  obtain ⟨i, -, hi⟩ := Finset.exists_lt_of_sum_lt (s := Finset.univ) (f := fun _ : Fin N => (0 : F))
    (g := w) (by simpa using h)
  have hnonneg : ∀ j ∈ Finset.univ, 0 ≤ clipTo 0 1 (w j) := fun j _ => le_clipTo zero_le_one (w j)
  exact lt_of_lt_of_le (lt_min (lt_max_of_lt_left hi) one_pos)
    (Finset.single_le_sum hnonneg (Finset.mem_univ i))

/-- Clipped shares are between zero and one, and their sum is one. -/
theorem clippedShare_spec {w : Weights F N} (h : 0 < ∑ i, w i) :
    (∀ i, 0 ≤ clippedShare w i ∧ clippedShare w i ≤ 1) ∧ ∑ i, clippedShare w i = 1 :=
  ⟨normalised_mem fun i => le_clipTo zero_le_one (w i), sum_normalised (sum_clip_pos h).ne'⟩

/-- Shares of weights that are not negative are not changed by clipping. -/
theorem clippedShare_normalised {w : Weights F N} (hw : ∀ i, 0 ≤ w i) (h : ∑ i, w i ≠ 0) :
    clippedShare (normalised w) = normalised w := by
  have hclip : ∀ i, clipTo 0 1 (normalised w i) = normalised w i := fun i =>
    clipTo_of_mem (normalised_mem hw i).1 (normalised_mem hw i).2
  funext i
  rw [clippedShare]
  simp only [hclip]
  rw [normalised, sum_normalised h, div_one]

end Shares

/-! ## What the optimisers return -/

section Respects

variable [IsStrictOrderedRing F] {con : PortfolioConstraints F}

omit [Field F] [LinearOrder F] [IsStrictOrderedRing F] in
/-- Steps that are never refused end in a result; what every step gives, the result has. -/
theorem descend_ok {P : Weights F N → Prop} (stop : Weights F N → Weights F N → Bool)
    {step : Weights F N → Except String (Weights F N)}
    (hstep : ∀ w, ∃ next, step w = .ok next ∧ P next) (n : ℕ) {w : Weights F N} (hw : P w) :
    ∃ result, descend stop step n w = .ok result ∧ P result := by
  induction n generalizing w with
  | zero => exact ⟨w, rfl, hw⟩
  | succ n ih =>
    obtain ⟨next, hnext, hP⟩ := hstep w
    by_cases hstop : stop next w = true
    · refine ⟨next, ?_, hP⟩
      rw [descend, hnext]
      exact if_pos hstop
    · obtain ⟨result, hresult, hPresult⟩ := ih hP
      refine ⟨result, ?_, hPresult⟩
      rw [descend, hnext, ← hresult]
      exact if_neg hstop

theorem projectSimplex_respects (h : con.Feasible N) (hN : 0 < N) (w : Weights F N) :
    ∃ result, con.projectSimplex w = .ok result ∧ con.Respects result :=
  ⟨con.projected hN w, h.attainable.projectSimplex_eq hN w,
    PortfolioConstraints.projected_respects h hN w⟩

/-- Projected steps with a projection at the end respect the constraints. -/
theorem descend_project_respects (h : con.Feasible N) (hN : 0 < N)
    (step : Weights F N → Weights F N) (n : ℕ) (w : Weights F N) :
    ∃ result, (descend (fun _ _ => false) (fun w => con.projectSimplex (step w)) n w >>=
      con.projectSimplex) = .ok result ∧ con.Respects result := by
  obtain ⟨last, hlast, -⟩ := descend_ok (P := fun _ => True) (fun _ _ => false)
    (fun w => ⟨_, h.attainable.projectSimplex_eq hN (step w), trivial⟩) n (w := w) trivial
  rw [hlast]
  exact projectSimplex_respects h hN last

theorem equalWeight_respects (h : con.Feasible N) (hN : 0 < N) :
    ∃ w, equalWeight con N = .ok w ∧ con.Respects w := by
  rw [equalWeight, if_neg (by omega)]
  exact projectSimplex_respects h hN _

/-- The closed form of the minimum variance is used for the box of all weights only. -/
theorem minVarianceClosedForm_respects
    {pinv : SquareMatrix F N → Option (SquareMatrix F N)} {cov : SquareMatrix F N}
    {w : Weights F N} (hw : minVarianceClosedForm con pinv cov = some w) : con.Respects w := by
  unfold minVarianceClosedForm at hw
  split at hw
  · rename_i hbox
    obtain ⟨inverse, -, hinverse⟩ := Option.bind_eq_some_iff.mp hw
    dsimp only at hinverse
    split at hinverse
    · rename_i hraw
      obtain rfl := Option.some.inj hinverse
      have hsum : 0 < ∑ i, normalised (matVec inverse fun _ => 1) i := by
        rw [sum_normalised (lt_trans (by positivity) hraw.1).ne']
        exact one_pos
      obtain ⟨hmem, hone⟩ := clippedShare_spec hsum
      refine ⟨fun i => ?_, Or.inl hone⟩
      rw [hbox.2.1, hbox.2.2]
      exact hmem i
    · cases hinverse
  · cases hw

theorem minimumVariance_respects (h : con.Feasible N) (hN : 0 < N)
    (pinv : SquareMatrix F N → Option (SquareMatrix F N)) (cov : SquareMatrix F N) (nIter : ℕ)
    (lr : F) : ∃ w, minimumVariance con pinv cov nIter lr = .ok w ∧ con.Respects w := by
  unfold minimumVariance
  cases hclosed : minVarianceClosedForm con pinv cov with
  | some w => exact ⟨w, rfl, minVarianceClosedForm_respects hclosed⟩
  | none => exact descend_project_respects h hN _ nIter _

/-- The box of all weights. -/
def PortfolioConstraints.Whole (con : PortfolioConstraints F) : Prop :=
  con.minWeight = 0 ∧ con.maxWeight = 1

/-- A share of one asset, with the rest spread evenly. -/
def spread (hN : 0 < N) (share : F) : Weights F N :=
  fun i => if i = ⟨0, hN⟩ then share else (1 - share) / (N - 1)

/-- Shares of weights that are not negative respect the box of all weights. -/
theorem PortfolioConstraints.Whole.respects (h : con.Whole) {w : Weights F N} (hw : ∀ i, 0 ≤ w i)
    (hsum : ∑ i, w i ≠ 0) : con.Respects (normalised w) := by
  refine ⟨fun i => ?_, Or.inl (sum_normalised hsum)⟩
  rw [h.1, h.2]
  exact normalised_mem hw i

/-- The closed form of the maximum Sharpe ratio is the share of weights that are all positive. -/
theorem tangency_eq {pinv : SquareMatrix F N → Option (SquareMatrix F N)} {cov : SquareMatrix F N}
    {excess w : Weights F N} (hw : tangency pinv cov excess = some w) :
    ∃ raw : Weights F N, (∀ i, 0 < raw i) ∧ ∑ i, raw i ≠ 0 ∧ w = normalised raw := by
  obtain ⟨inverse, -, hraw⟩ := Option.bind_eq_some_iff.mp hw
  dsimp only at hraw
  split at hraw
  · rename_i hpos
    have hsum : ∑ i, matVec inverse excess i ≠ 0 := (lt_trans (by positivity) hpos.2.1).ne'
    obtain rfl := Option.some.inj hraw
    exact ⟨_, hpos.1, hsum, clippedShare_normalised (fun i => (hpos.1 i).le) hsum⟩
  · cases hraw

section Gradients

variable [RealFunctions F]

theorem ascendRatio_respects (h : con.Feasible N) (hN : 0 < N) (cov : SquareMatrix F N)
    (numerator : Weights F N) (nIter : ℕ) (lr : F) :
    ∃ w, ascendRatio con cov numerator nIter lr = .ok w ∧ con.Respects w :=
  descend_project_respects h hN _ nIter _

/-- The weights of the maximum Sharpe ratio respect the constraints, unless a closed form is taken
for another box than that of all weights. -/
theorem maximumSharpe_respects (h : con.Feasible N) (hN : 0 < N)
    (pinv : SquareMatrix F N → Option (SquareMatrix F N)) (expectedReturns : Weights F N)
    (cov : SquareMatrix F N) (rfRate : F) (nIter : ℕ) :
    ∃ w, maximumSharpe con pinv expectedReturns cov rfRate nIter = .ok w ∧
      (con.Whole ∨ tangency pinv cov (fun i => expectedReturns i - rfRate) = none →
        con.Respects w) := by
  unfold maximumSharpe
  dsimp only
  cases hclosed : tangency pinv cov fun i => expectedReturns i - rfRate with
  | some w =>
    obtain ⟨raw, hpos, hsum, rfl⟩ := tangency_eq hclosed
    refine ⟨_, rfl, ?_⟩
    rintro (hwhole | hnone)
    · exact hwhole.respects (fun i => (hpos i).le) hsum
    · cases hnone
  | none =>
    obtain ⟨w, hok, hrespects⟩ := ascendRatio_respects h hN cov
      (fun i => expectedReturns i - rfRate) nIter (1 / 100)
    exact ⟨w, hok, fun _ => hrespects⟩

theorem riskParity_respects (h : con.Feasible N) (hN : 0 < N) (cov : SquareMatrix F N) (nIter : ℕ)
    (tol : F) : ∃ w, riskParity con cov nIter tol = .ok w ∧ con.Respects w :=
  projectSimplex_respects h hN _

theorem maximumDiversification_respects (h : con.Feasible N) (hN : 0 < N) (cov : SquareMatrix F N)
    (nIter : ℕ) : ∃ w, maximumDiversification con cov nIter = .ok w ∧ con.Respects w :=
  ascendRatio_respects h hN cov _ nIter _

end Gradients

end Respects

end QuantumSentinel.Portfolio
