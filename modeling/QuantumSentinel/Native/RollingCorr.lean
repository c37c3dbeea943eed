import Mathlib.Algebra.BigOperators.Group.List.Basic
import QuantumSentinel.Lib.Bisection
import QuantumSentinel.Native.BacktestLoop

/-!
# Rolling correlations in two languages

`rolling_corr` of `qs_fast.cpp` and its fallback `_py_rolling_corr` of
`cpp_ext.py`: the correlation matrix of the columns of an array at every bar, over a window of
rows that ends there.  The first accumulates in memory, one row after the other; the second works on
whole arrays.

Main results:

- Definition `cppRollingCorr` and `pyRollingCorr`: the two functions.
- Theorem `corr_agree`: the matrices of a window are the same, also where a column is constant.
- Theorem `rollingCorr_agree_iff`: on which inputs the two agree.

Current gaps:

- Arithmetic is exact, and memory is always allocated.
- Loops that write each entry once are written as functions of the entry.
-/

namespace QuantumSentinel.Native

open Lib

variable {F : Type} [Field F] [LinearOrder F]

/-- The rows of the window that ends at a bar. -/
def windowRows (window t : ℕ) : List ℕ :=
  List.range' (t + 1 - window) window

/-! ## The C++ kernel -/

section Cpp

variable (sqrt : F → F) (x : ℕ → F) (N window t : ℕ)

/-- `means` -/
def cppMeans (j : ℕ) : F :=
  (windowRows window t).foldl (fun sum k => sum + x (k * N + j)) 0 / window

/-- `cov` on and above the diagonal. -/
def cppUpper (i j : ℕ) : F :=
  (windowRows window t).foldl (fun sum k =>
    let di := x (k * N + i) - cppMeans x N window t i
    let dj := x (k * N + j) - cppMeans x N window t j
    sum + di * dj) 0 / max ((window - 1 : ℕ) : F) 1

/-- `cov`, with its lower triangle filled. -/
def cppCov (i j : ℕ) : F :=
  if i ≤ j then cppUpper x N window t i j else cppUpper x N window t j i

/-- `stds` -/
def cppStd (i : ℕ) : F :=
  sqrt (max (cppCov x N window t i i) (1 / 10 ^ 12))

/-- The correlation matrix of a window. -/
def cppCorr (i j : ℕ) : F :=
  if i = j then 1
  else
    let denom := cppStd sqrt x N window t i * cppStd sqrt x N window t j
    let val := if 1 / 10 ^ 14 < denom then cppCov x N window t i j / denom else 0
    min (max val (-1)) 1

/-- An entry of the result: the identity at the bars in front of the first full window. -/
def cppEntry (i j : ℕ) : F :=
  if window - 1 ≤ t then cppCorr sqrt x N window t i j else if i = j then 1 else 0

end Cpp

/-- `rolling_corr` of the extension. -/
def cppRollingCorr (sqrt : F → F) (X : NdArray F) (window : ℤ) : Except Raised (NdArray F) :=
  if window < -2 ^ 31 ∨ 2 ^ 31 ≤ window then .error .typeError
  else
    match X.shape with
    | [rows, columns] =>
      let T := castInt rows
      let N := castInt columns
      if T < 2 then .error (.valueError "T must be >= 2")
      else if N < 1 then .error (.valueError "N must be >= 1")
      else if window < 2 ∨ T < window then
        .error (.valueError "window must satisfy 2 <= window <= T")
      else
        .ok (NdArray.ofEntries T.toNat N.toNat N.toNat
          (cppEntry sqrt X.read N.toNat window.toNat))
    | _ => .error (.valueError "X must be 2-D (T, N)")

/-! ## The fallback -/

section Py

variable (sqrt : F → F) (X : ℕ → ℕ → F) (window t : ℕ)

/-- `w` -/
def pyWindow : List (ℕ → F) :=
  (windowRows window t).map X

/-- `w.mean(axis=0)` -/
def pyMean (j : ℕ) : F :=
  ((pyWindow X window t).map fun row => row j).sum / (pyWindow X window t).length

/-- `w_centered` -/
def pyCentered : List (ℕ → F) :=
  (pyWindow X window t).map fun row j => row j - pyMean X window t j

/-- `cov` -/
def pyCov (i j : ℕ) : F :=
  ((pyCentered X window t).map fun row => row i * row j).sum / (max (window - 1) 1 : ℕ)

/-- `stds` -/
def pyStd (i : ℕ) : F :=
  sqrt (max (pyCov X window t i i) (1 / 10 ^ 12))

/-- The clipped correlation matrix of a window. -/
def pyCorr (i j : ℕ) : F :=
  let denom := pyStd sqrt X window t i * pyStd sqrt X window t j
  let corr := pyCov X window t i j / if 1 / 10 ^ 14 < denom then denom else 1
  clipTo (-1) 1 (if i = j then 1 else corr)

/-- An entry of the result. -/
def pyEntry (i j : ℕ) : F :=
  if window - 1 ≤ t then pyCorr sqrt X window t i j else if i = j then 1 else 0

end Py

/-- `_py_rolling_corr`, for a window of at least one row. -/
def pyRollingCorr (sqrt : F → F) (X : NdArray F) (window : ℤ) : Except Raised (NdArray F) :=
  match X.shape with
  | [T, N] =>
    .ok (NdArray.ofEntries T N N (pyEntry sqrt (fun k j => X.read (k * N + j)) window.toNat))
  | shape =>
    if shape.length < 2 then
      .error (.valueError ("not enough values to unpack (expected 2, got " ++
        toString shape.length ++ ")"))
    else .error (.valueError "too many values to unpack (expected 2)")

/-! ## One window -/

section Window

variable {sqrt : F → F} {x : ℕ → F} {N window t : ℕ}

omit [LinearOrder F] in
theorem foldl_add {ι : Type*} (l : List ι) (f : ι → F) (a : F) :
    l.foldl (fun sum k => sum + f k) a = a + (l.map f).sum := by
  induction l generalizing a with
  | nil => simp
  | cons k rest ih => rw [List.foldl_cons, ih, List.map_cons, List.sum_cons, add_assoc]

omit [LinearOrder F] in
/-- Both kernels have the same means. -/
theorem cppMeans_eq (j : ℕ) :
    cppMeans x N window t j = pyMean (fun k j => x (k * N + j)) window t j := by
  rw [cppMeans, foldl_add, zero_add, pyMean, pyWindow, List.map_map, List.length_map, windowRows,
    List.length_range']
  rfl

/-- Both accumulate the same products. -/
theorem cppUpper_eq [IsStrictOrderedRing F] (i j : ℕ) :
    cppUpper x N window t i j = pyCov (fun k j => x (k * N + j)) window t i j := by
  rw [cppUpper, foldl_add, zero_add, pyCov, pyCentered, pyWindow, List.map_map, List.map_map,
    Nat.cast_max, Nat.cast_one]
  simp only [cppMeans_eq]
  rfl

omit [LinearOrder F] in
theorem pyCov_comm (X : ℕ → ℕ → F) (i j : ℕ) : pyCov X window t i j = pyCov X window t j i := by
  rw [pyCov, pyCov]
  simp only [mul_comm]

/-- The lower triangle is the upper one. -/
theorem cppCov_eq [IsStrictOrderedRing F] (i j : ℕ) :
    cppCov x N window t i j = pyCov (fun k j => x (k * N + j)) window t i j := by
  rw [cppCov]
  split
  · exact cppUpper_eq i j
  · rw [cppUpper_eq, pyCov_comm]

/-- The matrices of a window are the same: the floor of the variances keeps the denominators away from
the guard of both functions. -/
theorem corr_agree [IsStrictOrderedRing F] (hmono : MonotoneOn sqrt (Set.Ici 0))
    (hfloor : sqrt (1 / 10 ^ 12) = 1 / 10 ^ 6) (i j : ℕ) :
    cppCorr sqrt x N window t i j = pyCorr sqrt (fun k j => x (k * N + j)) window t i j := by
  have hstd : ∀ i, cppStd sqrt x N window t i =
      pyStd sqrt (fun k j => x (k * N + j)) window t i := by
    intro i
    rw [cppStd, pyStd, cppCov_eq]
  have hpos : ∀ i, 1 / 10 ^ 6 ≤ pyStd sqrt (fun k j => x (k * N + j)) window t i := by
    intro i
    rw [← hfloor]
    refine hmono ?_ ?_ (le_max_right _ _)
    · exact Set.mem_Ici.mpr (by positivity)
    · exact Set.mem_Ici.mpr (le_max_of_le_right (by positivity))
  have hdenom : 1 / 10 ^ 14 < pyStd sqrt (fun k j => x (k * N + j)) window t i *
      pyStd sqrt (fun k j => x (k * N + j)) window t j := by
    calc (1 / 10 ^ 14 : F) < 1 / 10 ^ 6 * (1 / 10 ^ 6) := by norm_num
      _ ≤ _ := mul_le_mul (hpos i) (hpos j) (by positivity)
          (le_trans (by positivity) (hpos i))
  rw [cppCorr, pyCorr]
  simp only [hstd, cppCov_eq, if_pos hdenom, clipTo]
  split
  · rw [max_eq_left (by linarith [zero_lt_one (α := F)]), min_self]
  · rfl

end Window

/-! ## Agreement -/

section Agreement

variable {sqrt : F → F} {X : NdArray F} {T N : ℕ} {window : ℤ}

/-- The inputs on which the extension and its fallback agree. -/
def RollingAgrees (T N : ℕ) : Prop :=
  1 ≤ N ∧ N < 2 ^ 31 ∧ T < 2 ^ 31

omit [Field F] [LinearOrder F] in
/-- Arrays of other sizes are never the same. -/
theorem guarded_ok_iff {T' N' : ℤ} (entry : ℕ → ℕ → ℕ → ℕ → F) {entry' : ℕ → ℕ → ℕ → F}
    {e₁ e₂ e₃ : Raised} (hwindow : 2 ≤ window ∧ window ≤ T)
    (hsame : ∀ t i j, entry N t i j = entry' t i j) :
    (if T' < 2 then .error e₁
      else if N' < 1 then .error e₂
      else if window < 2 ∨ T' < window then .error e₃
      else .ok (NdArray.ofEntries T'.toNat N'.toNat N'.toNat (entry N'.toNat)) :
        Except Raised (NdArray F)) =
      .ok (NdArray.ofEntries T N N entry') ↔ 1 ≤ N ∧ N' = N ∧ T' = T := by
  constructor
  · intro h
    split_ifs at h with hrows hcolumns hout
    have hshape := congrArg NdArray.shape (Except.ok.inj h)
    simp only [NdArray.ofEntries, List.cons.injEq, and_true] at hshape
    omega
  · rintro ⟨hcolumns, rfl, rfl⟩
    rw [if_neg (by omega), if_neg (by omega), if_neg (by omega), Int.toNat_natCast,
      Int.toNat_natCast, NdArray.ofEntries_congr fun t _ i _ j _ => hsame t i j]

/-- For the inputs that the wrapper lets through, the extension and its fallback agree exactly when
there is a column and both sizes fit an `int`. -/
theorem rollingCorr_agree_iff [IsStrictOrderedRing F] (hmono : MonotoneOn sqrt (Set.Ici 0))
    (hfloor : sqrt (1 / 10 ^ 12) = 1 / 10 ^ 6) (hshape : X.shape = [T, N]) (htwo : 2 ≤ window)
    (hwindow : window ≤ T) :
    SameOutcome (cppRollingCorr sqrt X window) (pyRollingCorr sqrt X window) ↔
      RollingAgrees T N := by
  have hentry : ∀ t i j, cppEntry sqrt X.read N window.toNat t i j =
      pyEntry sqrt (fun k j => X.read (k * N + j)) window.toNat t i j := by
    intro t i j
    rw [cppEntry, pyEntry, corr_agree hmono hfloor]
  have hsizes := and_congr_right fun _ : 1 ≤ N => and_congr (castInt_eq_iff N) (castInt_eq_iff T)
  rw [pyRollingCorr, hshape, sameOutcome_ok_iff, cppRollingCorr, hshape, RollingAgrees]
  by_cases hlarge : window < -2 ^ 31 ∨ 2 ^ 31 ≤ window
  · rw [if_pos hlarge]
    refine iff_of_false (fun h => by cases h) fun h => ?_
    have hcast : (T : ℤ) < 2 ^ 31 := by exact_mod_cast h.2.2
    rcases hlarge with hlow | hhigh
    · linarith
    · linarith
  · rw [if_neg hlarge]
    exact (guarded_ok_iff (fun N => cppEntry sqrt X.read N window.toNat) ⟨htwo, hwindow⟩
      hentry).trans hsizes

end Agreement

end QuantumSentinel.Native
