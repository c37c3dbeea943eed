import Mathlib.Algebra.Order.Ring.Rat
import Mathlib.Analysis.Real.Sqrt
import QuantumSentinel.Native.RollingCorr

/-!
# The public functions of the native kernels

`rolling_corr` and `backtest_loop` of `cpp_ext.py` dispatch to the extension when it is
there, and to the fallbacks otherwise.

Main results:

- Definition `rollingCorr` and `backtestLoop`: the dispatch.
- Theorem `kernels_agree_iff`: for which inputs the result does not depend on the extension.
-/

namespace QuantumSentinel.Native

open Lib

variable {F : Type} [Field F] [LinearOrder F]

/-- `rolling_corr` -/
def rollingCorr (cppAvailable : Bool) (sqrt : F → F) (X : NdArray F) (window : ℤ) :
    Except Raised (NdArray F) :=
  match X.shape with
  | [T, _] =>
    if window < 2 then
      .error (.valueError ("window must be >= 2, got " ++ toString window))
    else if (T : ℤ) < window then
      .error (.valueError ("window (" ++ toString window ++
        ") exceeds number of observations T=" ++ toString T ++
        ". Reduce window or provide a longer series."))
    else if cppAvailable then cppRollingCorr sqrt X window
    else pyRollingCorr sqrt X window
  | _ => .error (.valueError "X must be 2-D (T, N)")

/-- `backtest_loop` -/
def backtestLoop (cppAvailable converts : Bool) (heap : ℕ → F) (prices signals : NdArray F)
    (commission spreadBps : F) : Except Raised (BacktestResult F) :=
  if cppAvailable then cppBacktestLoop heap prices signals commission spreadBps
  else pyBacktestLoop converts prices signals commission spreadBps

/-- A window that fits is left to the kernel. -/
theorem rollingCorr_of_window {cppAvailable : Bool} {sqrt : F → F} {X : NdArray F} {T N : ℕ}
    {window : ℤ} (hshape : X.shape = [T, N]) (htwo : 2 ≤ window) (hwindow : window ≤ T) :
    rollingCorr cppAvailable sqrt X window =
      if cppAvailable then cppRollingCorr sqrt X window else pyRollingCorr sqrt X window := by
  rw [rollingCorr, hshape]
  simp only [if_neg (not_lt.mpr htwo), if_neg (not_lt.mpr hwindow)]

/-- Then the answers agree exactly when the kernels do. -/
theorem sameOutcome_rollingCorr_iff {sqrt : F → F} {X : NdArray F} {T N : ℕ} {window : ℤ}
    (hshape : X.shape = [T, N]) (htwo : 2 ≤ window) (hwindow : window ≤ T) :
    SameOutcome (rollingCorr true sqrt X window) (rollingCorr false sqrt X window) ↔
      SameOutcome (cppRollingCorr sqrt X window) (pyRollingCorr sqrt X window) := by
  rw [rollingCorr_of_window hshape htwo hwindow, rollingCorr_of_window hshape htwo hwindow,
    if_pos rfl, if_neg Bool.false_ne_true]

/-- The answers of the loop agree exactly when the kernels do. -/
theorem sameOutcome_backtestLoop_iff {converts : Bool} {heap : ℕ → F} {prices signals : NdArray F}
    {commission spreadBps : F} :
    SameOutcome (backtestLoop true converts heap prices signals commission spreadBps)
        (backtestLoop false converts heap prices signals commission spreadBps) ↔
      SameOutcome (cppBacktestLoop heap prices signals commission spreadBps)
        (pyBacktestLoop converts prices signals commission spreadBps) := by
  rw [backtestLoop, backtestLoop, if_pos rfl, if_neg Bool.false_ne_true]

/-- For every input that is passed on, the extension and the fallback give the same result, or both
raise, exactly where both functions find a shape they can work on: two series of one length from one
bar on, or a shape on which the fallback fails too; an array with a column; and no size beyond an
`int`. -/
theorem kernels_agree_iff [IsStrictOrderedRing F] {sqrt : F → F}
    (hmono : MonotoneOn sqrt (Set.Ici 0)) (hfloor : sqrt (1 / 10 ^ 12) = 1 / 10 ^ 6)
    (converts : Bool) (heap : ℕ → F) :
    (∀ (prices signals : NdArray F) (commission spreadBps : F),
      SameOutcome (backtestLoop true converts heap prices signals commission spreadBps)
          (backtestLoop false converts heap prices signals commission spreadBps) ↔
        BacktestAgrees converts prices.shape signals.shape) ∧
    ∀ (X : NdArray F) (T N : ℕ) (window : ℤ), X.shape = [T, N] → 2 ≤ window → window ≤ T →
      (SameOutcome (rollingCorr true sqrt X window) (rollingCorr false sqrt X window) ↔
        RollingAgrees T N) := by
  constructor
  · intro prices signals commission spreadBps
    exact sameOutcome_backtestLoop_iff.trans (backtestLoop_agree_iff heap commission spreadBps)
  · intro X T N window hshape htwo hwindow
    exact (sameOutcome_rollingCorr_iff hshape htwo hwindow).trans
      (rollingCorr_agree_iff hmono hfloor hshape htwo hwindow)

/-- Three rows of two columns, the first of which is constant. -/
def threeRows : NdArray ℝ where
  shape := [3, 2]
  data := [1, 2, 1, 5, 1, 3]
  size := rfl

theorem kernels_agree_iff_three :
    SameOutcome
        (backtestLoop true false (fun n => (n : ℝ)) (NdArray.ofList [100, 110, 99])
          (NdArray.ofList [1, 1, 0]) (1 / 1000) 5)
        (backtestLoop false false (fun n => (n : ℝ)) (NdArray.ofList [100, 110, 99])
          (NdArray.ofList [1, 1, 0]) (1 / 1000) 5) ∧
      SameOutcome (rollingCorr true Real.sqrt threeRows 2)
        (rollingCorr false Real.sqrt threeRows 2) := by
  have hmono : MonotoneOn Real.sqrt (Set.Ici 0) := fun _ _ _ _ hle => Real.sqrt_le_sqrt hle
  have hfloor : Real.sqrt (1 / 10 ^ 12) = 1 / 10 ^ 6 := by
    rw [show (1 / 10 ^ 12 : ℝ) = (1 / 10 ^ 6) ^ 2 by norm_num]
    exact Real.sqrt_sq (by norm_num)
  obtain ⟨hbacktest, hrolling⟩ := kernels_agree_iff hmono hfloor false fun n => (n : ℝ)
  constructor
  · exact (hbacktest _ _ _ _).mpr (Or.inl ⟨3, rfl, rfl, by norm_num, by norm_num⟩)
  · exact (hrolling threeRows 3 2 2 rfl le_rfl (by norm_num)).mpr
      ⟨by norm_num, by norm_num, by norm_num⟩

/-- An empty series, a signal missing behind the last trade, and an array without columns: the
extension raises and the fallback does not. -/
theorem kernels_differ :
    ¬ SameOutcome
        (backtestLoop true true (fun _ => (0 : ℚ)) (NdArray.ofList []) (NdArray.ofList [])
          (1 / 1000) 5)
        (backtestLoop false true (fun _ => 0) (NdArray.ofList []) (NdArray.ofList []) (1 / 1000) 5) ∧
      ¬ SameOutcome
        (backtestLoop true true (fun _ => (0 : ℚ)) (NdArray.ofList [100, 110]) (NdArray.ofList [1])
          (1 / 1000) 5)
        (backtestLoop false true (fun _ => 0) (NdArray.ofList [100, 110]) (NdArray.ofList [1])
          (1 / 1000) 5) ∧
      ¬ SameOutcome (rollingCorr true (id : ℚ → ℚ) ⟨[3, 0], [], rfl⟩ 2)
        (rollingCorr false id ⟨[3, 0], [], rfl⟩ 2) := by
  refine ⟨?_, ?_, ?_⟩
  · exact fun h => h
  · exact fun h => h
  · exact fun h => h

end QuantumSentinel.Native
