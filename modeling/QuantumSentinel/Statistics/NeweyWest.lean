import Mathlib.Algebra.BigOperators.Field
import Mathlib.Algebra.Order.Floor.Ring
import Mathlib.Data.List.GetD
import QuantumSentinel.Lib.Bartlett
import QuantumSentinel.Lib.RealFunctions
import QuantumSentinel.Lib.Series

/-!
# Statistics: the Newey-West standard error

`newey_west_se` of `stat_tests.py` and `_nw_se` of `factor_model.py`: the variance
of a mean from the autocovariances of a series, weighted by the Bartlett kernel.

Main results:

- Definition `nwVar`: the variance in front of its floor.
- Theorem `nwVar_eq`: no lag is refused, also not one beyond the length of the series.
- Theorem `newey_west_nonneg`: the variance is not negative, and both functions return the same
  standard error.
-/

namespace QuantumSentinel.Statistics

open Lib

variable {F : Type*} [Field F]

/-- `resid` -/
def residuals (x : List F) : List F :=
  x.map (· - mean x)

/-- `resid[lag:] * resid[:-lag]` -/
def lagProducts (resid : List F) (lag : ℕ) : Except ShapeError (List F) :=
  broadcast (· * ·) (sliceFrom resid lag) (sliceTo resid (-lag))

/-- `nw_var`, in front of its floor. -/
def nwVar (x : List F) (maxLag : ℤ) : Except ShapeError F :=
  (List.range' 1 maxLag.toNat).foldlM (fun var lag => do
    let products ← lagProducts (residuals x) lag
    let weight : F := 1 - lag / (maxLag + 1)
    pure (var + 2 * weight * (products.sum / x.length)))
    (((residuals x).map (· ^ 2)).sum / x.length)

section StandardErrors

variable [LinearOrder F] [RealFunctions F]

/-- The standard error from the variance, `sqrt(max(nw_var, 1e-12) / n)`. -/
def errorOf (n : ℕ) (var : F) : F :=
  RealFunctions.sqrt (max var (1 / 10 ^ 12) / n)

/-- The lag that is chosen when none is given. -/
def automaticLag [FloorRing F] (n : ℕ) : ℤ :=
  max 1 ⌊4 * RealFunctions.exp (2 / 9 * RealFunctions.log ((n : F) / 100))⌋

/-- `newey_west_se` -/
def neweyWestSe [FloorRing F] (returns : List F) (maxLag : Option ℤ) : Except ShapeError F :=
  let n := returns.length
  if n < 5 then
    if 1 < n then .ok (std returns 1 / RealFunctions.sqrt (n : F)) else .ok 0
  else errorOf n <$> nwVar returns (maxLag.getD (automaticLag (F := F) n))

/-- `_nw_se` -/
def nwSe (x : List F) (maxLag : ℤ) : Except ShapeError F :=
  let n := x.length
  if n < 3 then
    if 1 < n then .ok (std x 1 / RealFunctions.sqrt (n : F)) else .ok 1
  else errorOf n <$> nwVar x maxLag

end StandardErrors

/-! ## Autocovariances -/

/-- The sum of a list, index by index. -/
theorem sum_eq_sum_getD (l : List F) : l.sum = ∑ t ∈ Finset.range l.length, l.getD t 0 := by
  induction l with
  | nil => rfl
  | cons a rest ih =>
    rw [List.sum_cons, List.length_cons, Finset.sum_range_succ', ih, add_comm]
    rfl

/-- The factors at a lag are never of different lengths. -/
theorem lagProducts_eq (resid : List F) {lag : ℕ} (hlag : 0 < lag) :
    lagProducts resid lag = .ok
      (List.zipWith (· * ·) (resid.drop lag) (resid.take (resid.length - lag))) := by
  have hfrom : sliceFrom resid lag = resid.drop lag := by
    rcases le_or_gt lag resid.length with hle | hlt
    · exact sliceFrom_natCast hle
    · rw [sliceFrom, sliceBound, if_neg (by omega), Int.toNat_natCast, min_eq_right hlt.le,
        List.drop_length, List.drop_eq_nil_of_le hlt.le]
  have hto : sliceTo resid (-lag) = resid.take (resid.length - lag) := by
    have hbound : sliceBound resid.length (-lag) = resid.length - lag := by
      rw [sliceBound, if_pos (by omega)]
      omega
    rw [sliceTo, hbound]
  rw [lagProducts, hfrom, hto]
  apply broadcast_of_length
  rw [List.length_drop, List.length_take]
  omega

/-- The sum of the products at a lag. -/
theorem sum_lagProducts (resid : List F) (lag : ℕ) :
    (List.zipWith (· * ·) (resid.drop lag) (resid.take (resid.length - lag))).sum =
      lagSum (fun t => resid.getD t 0) resid.length lag := by
  have hlength : (List.zipWith (· * ·) (resid.drop lag)
      (resid.take (resid.length - lag))).length = resid.length - lag := by
    rw [List.length_zipWith, List.length_drop, List.length_take]
    omega
  rw [sum_eq_sum_getD, hlength, lagSum]
  refine Finset.sum_congr rfl fun t ht => ?_
  rw [Finset.mem_range] at ht
  have hlate : t + lag < resid.length := by omega
  have hearly : t < resid.length := by omega
  rw [List.getD_eq_getElem _ _ (by rw [hlength]; exact ht), List.getElem_zipWith,
    List.getElem_drop, List.getElem_take, List.getD_eq_getElem _ _ hlate,
    List.getD_eq_getElem _ _ hearly]
  congr 2
  omega

/-- The squares are the products at lag zero. -/
theorem sum_squares (resid : List F) :
    (resid.map (· ^ 2)).sum = lagSum (fun t => resid.getD t 0) resid.length 0 := by
  rw [sum_eq_sum_getD, List.length_map, lagSum, Nat.sub_zero]
  refine Finset.sum_congr rfl fun t ht => ?_
  rw [Finset.mem_range] at ht
  rw [List.getD_eq_getElem _ _ (by rw [List.length_map]; exact ht), List.getElem_map,
    Nat.add_zero, List.getD_eq_getElem _ _ ht, sq]

/-- A loop of additions, each of which may fail but does not. -/
theorem foldlM_add {f : ℕ → F → Except ShapeError F} {g : ℕ → F} (lo count : ℕ)
    (h : ∀ k < count, ∀ var, f (lo + k) var = .ok (var + g k)) (var : F) :
    (List.range' lo count).foldlM (fun var lag => f lag var) var =
      .ok (var + ∑ k ∈ Finset.range count, g k) := by
  induction count generalizing lo g var with
  | zero =>
    rw [Finset.sum_range_zero, add_zero]
    rfl
  | succ count ih =>
    have hfirst : f lo var = .ok (var + g 0) := h 0 (Nat.succ_pos count) var
    have hrest : ∀ k < count, ∀ var, f (lo + 1 + k) var = .ok (var + g (k + 1)) := by
      intro k hk var
      rw [Nat.add_assoc, Nat.add_comm 1 k]
      exact h (k + 1) (by omega) var
    rw [List.range'_succ, List.foldlM_cons, hfirst, Finset.sum_range_succ', ← add_assoc,
      add_right_comm]
    exact ih (lo + 1) hrest (var + g 0)

/-- The variance is the weighted sum over the lags, over the length of the series. -/
theorem nwVar_eq (x : List F) (maxLag : ℤ) :
    nwVar x maxLag = .ok
      (lagSum (fun t => (residuals x).getD t 0) x.length 0 / x.length +
        ∑ k ∈ Finset.range maxLag.toNat, 2 * (1 - ((k : F) + 1) / (maxLag + 1)) *
          (lagSum (fun t => (residuals x).getD t 0) x.length (k + 1) / x.length)) := by
  have hlength : (residuals x).length = x.length := List.length_map _
  have hturn : ∀ k < maxLag.toNat, ∀ var : F,
      (do
        let products ← lagProducts (residuals x) (1 + k)
        let weight : F := 1 - ((1 + k : ℕ) : F) / (maxLag + 1)
        pure (var + 2 * weight * (products.sum / x.length)) : Except ShapeError F) =
      .ok (var + 2 * (1 - ((k : F) + 1) / (maxLag + 1)) *
        (lagSum (fun t => (residuals x).getD t 0) x.length (k + 1) / x.length)) := by
    intro k _ var
    rw [lagProducts_eq _ (by omega), ← hlength, ← sum_lagProducts, Nat.add_comm 1 k]
    push_cast
    rfl
  rw [nwVar, foldlM_add (f := fun lag var => do
    let products ← lagProducts (residuals x) lag
    let weight : F := 1 - lag / (maxLag + 1)
    pure (var + 2 * weight * (products.sum / x.length))) 1 maxLag.toNat hturn, sum_squares, hlength]

/-- The variance is not negative. -/
theorem nwVar_nonneg [LinearOrder F] [IsStrictOrderedRing F] {x : List F} {maxLag : ℤ}
    (hlag : 0 ≤ maxLag) {var : F} (h : nwVar x maxLag = .ok var) : 0 ≤ var := by
  obtain ⟨lags, rfl⟩ := Int.eq_ofNat_of_zero_le hlag
  rw [nwVar_eq, Except.ok.injEq] at h
  have hkernel := bartlett_nonneg (fun t => (residuals x).getD t 0) x.length lags
  have hcommon : var = (lagSum (fun t => (residuals x).getD t 0) x.length 0 +
      ∑ k ∈ Finset.range lags, 2 * (1 - ((k : F) + 1) / (lags + 1)) *
        lagSum (fun t => (residuals x).getD t 0) x.length (k + 1)) / x.length := by
    rw [← h, Int.toNat_natCast, add_div, Finset.sum_div]
    congr 1
    refine Finset.sum_congr rfl fun k _ => ?_
    rw [Int.cast_natCast, mul_div_assoc]
  rw [hcommon]
  exact div_nonneg hkernel (Nat.cast_nonneg _)

/-- For every series of at least five returns and every lag from one on, the accumulated variance is
not negative, and both functions return the standard error that belongs to it. -/
theorem newey_west_nonneg [LinearOrder F] [IsStrictOrderedRing F] [FloorRing F] [RealFunctions F]
    {returns : List F} (hlength : 5 ≤ returns.length) {maxLag : ℤ} (hlag : 1 ≤ maxLag) :
    ∃ var, nwVar returns maxLag = .ok var ∧ 0 ≤ var ∧
      neweyWestSe returns (some maxLag) = .ok (errorOf returns.length var) ∧
      nwSe returns maxLag = .ok (errorOf returns.length var) := by
  have hvar := nwVar_eq returns maxLag
  refine ⟨_, hvar, nwVar_nonneg (by omega) hvar, ?_, ?_⟩
  · rw [neweyWestSe, if_neg (by omega), Option.getD_some, hvar]
    rfl
  · rw [nwSe, if_neg (by omega), hvar]
    rfl

theorem newey_west_nonneg_alternating :
    ∃ var : ℝ, nwVar [1, -1, 1, -1, 1] 7 = .ok var ∧ 0 ≤ var ∧
      neweyWestSe [1, -1, 1, -1, 1] (some 7) = .ok (errorOf 5 var) ∧
      nwSe [1, -1, 1, -1, 1] 7 = .ok (errorOf 5 var) :=
  newey_west_nonneg (by decide : 5 ≤ [(1 : ℝ), -1, 1, -1, 1].length) (by decide)

end QuantumSentinel.Statistics
