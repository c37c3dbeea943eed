import Mathlib.Data.List.Destutter
import QuantumSentinel.Backtest.Numbers

/-!
# Research: information coefficients

`compute_ic_series` of `alpha_research.py` correlates the signals of every row with the
returns of the rows behind it.  `argsort` is a parameter.

Main results:

- Definition `computeIcSeries`: the coefficients and their summary.
- Theorem `icAt_congr`: a coefficient depends on the signals of its row and on later returns.
-/

namespace QuantumSentinel.Research

open Lib Backtest

variable {F : Type} [NpFloat F] {N : ℕ}

/-! ## Rank correlation of floats -/

/-- `argsort`: the indices of some numbers in their order. -/
abbrev Argsort (F : Type) :=
  List F → List ℕ

/-- The ranks of the numbers that equal a value are replaced by their mean, if there are several. -/
def shareRanks (arr ranks : List F) (v : F) : List F :=
  let mask := arr.map fun x => PyFloat.beq x v
  let tied := ((mask.zip ranks).filter Prod.fst).map Prod.snd
  if 1 < tied.length then
    List.zipWith (fun m rank => if m then PyFloat.mean tied else rank) mask ranks
  else ranks

/-- `_rank` of an array of floats. -/
def floatRank (argsort : Argsort F) (arr : List F) : List F :=
  let temp := argsort arr
  let ranks := (List.range arr.length).map fun i => PyFloat.ofNat (temp.idxOf i + 1)
  let uniqueVals := (PyFloat.sort arr).destutter fun a b => !PyFloat.beq a b
  uniqueVals.foldl (shareRanks arr) ranks

/-- `spearman_ic` of two arrays of floats. -/
def floatSpearmanIc (argsort : Argsort F) (signals forwardReturns : List F) : F :=
  if signals.length < 4 then lit 0
  else
    let r1 := floatRank argsort signals
    let r2 := floatRank argsort forwardReturns
    let d1 := r1.map (· - PyFloat.mean r1)
    let d2 := r2.map (· - PyFloat.mean r2)
    let num := NpFloat.total (List.zipWith (· * ·) d1 d2)
    let den := PyFloat.sqrt
      (NpFloat.total (d1.map fun d => d * d) * NpFloat.total (d2.map fun d => d * d))
    if PyFloat.lt den (lit 1e-12) then lit 0 else num / den

/-! ## The series -/

/-- `fwd_ret` of a row. -/
def forwardReturn (horizon : ℕ) (returns : List (Fin N → F)) (t : ℕ) : Fin N → F :=
  if horizon = 1 then returns.getD (t + 1) fun _ => PyFloat.nan
  else fun i =>
    NpFloat.prod (((returns.drop (t + 1)).take horizon).map fun row => lit 1 + row i) - lit 1

/-- The assets with a signal and a return that are finite. -/
def mask (sig fwd : Fin N → F) : List (Fin N) :=
  (List.finRange N).filter fun i => NpFloat.isFinite (sig i) && NpFloat.isFinite (fwd i)

/-- The coefficient of a row of signals and a row of returns, over the assets that have both. -/
def icOf (argsort : Argsort F) (sig fwd : Fin N → F) : Option F :=
  let both := mask sig fwd
  if both.length < 4 then none else some (floatSpearmanIc argsort (both.map sig) (both.map fwd))

/-- The coefficient of a row, when enough assets have a signal and a return. -/
def icAt (argsort : Argsort F) (horizon : ℕ) (signals returns : List (Fin N → F)) (t : ℕ) :
    Option F :=
  icOf argsort (signals.getD t fun _ => PyFloat.nan) (forwardReturn horizon returns t)

/-- `ic_list` -/
def icList (argsort : Argsort F) (horizon : ℕ) (signals returns : List (Fin N → F)) : List F :=
  if N < 4 ∨ signals.length ≤ horizon + 2 then []
  else (List.range (signals.length - horizon)).filterMap (icAt argsort horizon signals returns)

/-- What `compute_ic_series` reports. -/
structure IcReport (F : Type) where
  icSeries : List F
  meanIc : F
  icStd : F
  icir : F
  tStat : F
  pValue : F
  significant5pct : Option Bool
  nPeriods : ℕ
  positiveIcPct : Option F

/-- `compute_ic_series`; `normalCdf` is that of `stat_tests.py`. -/
def computeIcSeries (normalCdf : F → F) (argsort : Argsort F) (horizon : ℕ)
    (signals returns : List (Fin N → F)) : IcReport F :=
  let ics := icList argsort horizon signals returns
  if ics.isEmpty then ⟨[], lit 0, lit 0, lit 0, lit 0, lit 1, none, 0, none⟩
  else
    let meanIc := PyFloat.mean ics
    let icStd := PyFloat.std ics 1
    let n := PyFloat.ofNat ics.length
    let spread := PyFloat.lt (lit 1e-9) icStd
    let icir := if spread then meanIc / icStd else lit 0
    let tStat := if spread then meanIc / (icStd / PyFloat.sqrt n) else lit 0
    let pValue := lit 2 * (lit 1 - normalCdf (PyFloat.abs tStat))
    { icSeries := ics.map fun x => PyFloat.round x 5
      meanIc := PyFloat.round meanIc 5
      icStd := PyFloat.round icStd 5
      icir := PyFloat.round icir 4
      tStat := PyFloat.round tStat 4
      pValue := PyFloat.round pValue 6
      significant5pct := some (PyFloat.lt pValue (lit 0.05))
      nPeriods := ics.length
      positiveIcPct := some (PyFloat.round
        (PyFloat.ofNat (ics.countP fun ic => PyFloat.lt (lit 0) ic) / n) 4) }

/-! ## What a coefficient reads -/

section Reads

variable {argsort : Argsort F} {horizon t : ℕ}
  {signals signals' returns returns' : List (Fin N → F)}

/-- The forward return of a row is made of as many later rows as the horizon. -/
theorem forwardReturn_congr
    (h : ∀ s, t < s → s ≤ t + horizon → returns[s]? = returns'[s]?) :
    forwardReturn horizon returns t = forwardReturn horizon returns' t := by
  unfold forwardReturn
  split
  · rename_i hone
    rw [List.getD_eq_getElem?_getD, List.getD_eq_getElem?_getD, h (t + 1) (by omega) (by omega)]
  · have hrows : (returns.drop (t + 1)).take horizon = (returns'.drop (t + 1)).take horizon := by
      apply List.ext_getElem?
      intro k
      rw [List.getElem?_take, List.getElem?_take]
      split
      · rw [List.getElem?_drop, List.getElem?_drop, h _ (by omega) (by omega)]
      · rfl
    rw [hrows]

/-- A coefficient is made of the signals of its row and of the returns of later rows. -/
theorem icAt_congr (hsignals : signals[t]? = signals'[t]?)
    (hreturns : ∀ s, t < s → s ≤ t + horizon → returns[s]? = returns'[s]?) :
    icAt argsort horizon signals returns t = icAt argsort horizon signals' returns' t := by
  rw [icAt, icAt, forwardReturn_congr hreturns, List.getD_eq_getElem?_getD,
    List.getD_eq_getElem?_getD, hsignals]

/-- Each coefficient of the series belongs to a row with enough rows behind it. -/
theorem exists_row_of_mem_icList {ic : F} (h : ic ∈ icList argsort horizon signals returns) :
    ∃ t, t + horizon < signals.length ∧ icAt argsort horizon signals returns t = some ic := by
  unfold icList at h
  split at h
  · cases h
  · obtain ⟨t, ht, hic⟩ := List.mem_filterMap.mp h
    exact ⟨t, by have := List.mem_range.mp ht; omega, hic⟩

end Reads

end QuantumSentinel.Research
