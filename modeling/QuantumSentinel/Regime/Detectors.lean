import Mathlib.Data.List.ReduceOption
import Mathlib.Data.Option.NAry
import QuantumSentinel.Backtest.Numbers

/-!
# Market regimes: volatility and trend

`volatility_regime` and `trend_regime` of `regime_detection.py`: a label for every
period, from the volatilities or from the moving averages of the periods in front of it.  The label
`"unknown"` is `none`.

Main results:

- Definition `volatilityRegime` and `trendRegime`.
- Theorem `trendRegime_past`: a label of a trend depends on the periods up to its own.
- Theorem `volatilityRegime_past_iff`: so does a label of a volatility, unless later periods
  decide whether there are enough volatilities at all.
-/

namespace QuantumSentinel.Regime

open Lib Backtest

variable {F : Type} [NpFloat F]

/-! ## Statistics by label -/

/-- What is reported of the periods with one label. -/
structure RegimeStats (F : Type) where
  count : ℕ
  pctOfTime : F
  annReturn : F
  annVol : F
  sharpe : F

/-- The statistics of the returns of one label, when there are more than two of them. -/
def regimeStats {L : Type} [DecidableEq L] (labels : List (Option L)) (returns : List F)
    (regime : L) : Option (RegimeStats F) :=
  let r := ((labels.zip returns).filter fun pair => pair.1 = some regime).map Prod.snd
  if 2 < r.length then
    some
      { count := r.length
        pctOfTime := PyFloat.round (PyFloat.ofNat r.length / PyFloat.ofNat labels.length) 4
        annReturn := PyFloat.round (PyFloat.mean r * lit 252) 4
        annVol := PyFloat.round (PyFloat.std r 1 * PyFloat.sqrt (lit 252)) 4
        sharpe := PyFloat.round
          (PyFloat.mean r / pyMax (PyFloat.std r 1) (lit 1e-9) * PyFloat.sqrt (lit 252)) 4 }
  else none

/-! ## Volatility -/

/-- `VolRegime` -/
inductive VolRegime
  | low
  | med
  | high
  | crisis
deriving DecidableEq

/-- `[VolRegime.LOW, VolRegime.MED, VolRegime.HIGH, VolRegime.CRISIS]` -/
def VolRegime.all : List VolRegime :=
  [.low, .med, .high, .crisis]

/-- Three numbers: percentages, or the volatilities at these percentages. -/
structure Thresholds (F : Type) where
  p25 : F
  p75 : F
  p95 : F

/-- What `volatility_regime` reports. -/
structure VolReport (F : Type) where
  labels : List (Option VolRegime)
  current : Option VolRegime
  thresholds : Thresholds F
  stats : VolRegime → Option (RegimeStats F)
  transitions : VolRegime → Option (VolRegime → F)

/-- `_compute_transition_matrix` -/
def transitionMatrix (labels : List (Option VolRegime)) (a : VolRegime) : Option (VolRegime → F) :=
  let counts : VolRegime → ℕ := fun b => (labels.zip labels.tail).count (some a, some b)
  let rowTotal := (VolRegime.all.map counts).sum
  if 0 < rowTotal then
    some fun b => PyFloat.round (PyFloat.ofNat (counts b) / PyFloat.ofNat rowTotal) 4
  else none

/-- `rolling_vol` -/
def rollingVol (window : ℕ) (returns : List F) : List F :=
  rolling window PyFloat.nan (fun w => PyFloat.std w 1 * PyFloat.sqrt (lit 252)) returns

/-- The thresholds of the volatilities up to a period, when its own is finite and there are enough
of them. -/
def thresholds (percentiles : Thresholds F) (hist : List F) : Option (Thresholds F) :=
  let histValid := hist.filter NpFloat.isFinite
  if !(hist.getLast?.any NpFloat.isFinite) || histValid.length < 5 then none
  else
    some
      { p25 := NpFloat.percentile histValid percentiles.p25
        p75 := NpFloat.percentile histValid percentiles.p75
        p95 := NpFloat.percentile histValid percentiles.p95 }

/-- The label of the last of some volatilities. -/
def volLabel (percentiles : Thresholds F) (hist : List F) : Option VolRegime :=
  Option.map₂
    (fun v (p : Thresholds F) =>
      if PyFloat.le v p.p25 then .low
      else if PyFloat.le v p.p75 then .med
      else if PyFloat.le v p.p95 then .high
      else .crisis)
    hist.getLast? (thresholds percentiles hist)

/-- `volatility_regime` -/
def volatilityRegime (window : ℕ) (percentiles : Thresholds F) (returns : List F) :
    Except String (VolReport F) :=
  if returns.length < window + 2 then .error "Insufficient data"
  else
    let vols := rollingVol window returns
    -- every period is counted here, also those behind the one that is labelled
    let valid := vols.filter NpFloat.isFinite
    if valid.length < 5 then .error "Not enough vol data"
    else
      let labels := prefixMap (volLabel percentiles) vols
      let last := (prefixMap (thresholds percentiles) vols).reduceOption.getLast?.getD
        ⟨PyFloat.nan, PyFloat.nan, PyFloat.nan⟩
      .ok
        { labels := labels
          current := labels.getLast?.join
          thresholds :=
            ⟨PyFloat.round last.p25 4, PyFloat.round last.p75 4, PyFloat.round last.p95 4⟩
          stats := regimeStats labels returns
          transitions := transitionMatrix labels }

/-! ## Trend -/

/-- `TrendRegime` -/
inductive TrendRegime
  | bull
  | bear
  | sideways
deriving DecidableEq

/-- What `trend_regime` reports. -/
structure TrendReport (F : Type) where
  labels : List (Option TrendRegime)
  current : Option TrendRegime
  currentSmaFast : Option F
  currentSmaSlow : Option F
  stats : TrendRegime → Option (RegimeStats F)

/-- `sma_fast` or `sma_slow` -/
def sma (window : ℕ) (prices : List F) : List F :=
  rolling window PyFloat.nan PyFloat.mean prices

/-- `slope`, from the moving averages up to a period. -/
def slopeOf (slopeWindow : ℕ) (smaFast : List F) : F :=
  let now := smaFast.getLast?.getD PyFloat.nan
  let before := smaFast.getD (smaFast.length - 1 - slopeWindow) PyFloat.nan
  if smaFast.length - 1 < slopeWindow then PyFloat.nan
  else if NpFloat.isFinite now && NpFloat.isFinite before then
    (now - before) / pyMax (PyFloat.abs before) (lit 1e-9)
  else PyFloat.nan

/-- The label of a period. -/
def trendLabel (smaFast smaSlow slope : F) : Option TrendRegime :=
  if !(NpFloat.isFinite smaFast && NpFloat.isFinite smaSlow && NpFloat.isFinite slope) then none
  else if PyFloat.lt smaSlow smaFast && PyFloat.lt (lit 0) slope then some .bull
  else if PyFloat.lt smaFast smaSlow && PyFloat.lt slope (lit 0) then some .bear
  else some .sideways

/-- The labels of all periods. -/
def trendLabels (fast slow slopeWindow : ℕ) (prices : List F) : List (Option TrendRegime) :=
  let smaFast := sma fast prices
  let slope := prefixMap (slopeOf slopeWindow) smaFast
  List.zipWith (fun averages slope => trendLabel averages.1 averages.2 slope)
    (smaFast.zip (sma slow prices)) slope

/-- The last moving average, unless it is not finite or zero. -/
def currentSma (averages : List F) : Option F :=
  (averages.getLast?.filter fun v => NpFloat.isFinite v && !(PyFloat.beq v (lit 0))).map fun v =>
    PyFloat.round v 4

/-- `trend_regime` -/
def trendRegime (fast slow slopeWindow : ℕ) (prices : List F) : Except String (TrendReport F) :=
  if prices.length < slow + slopeWindow then .error "Insufficient data for trend detection"
  else
    let labels := trendLabels fast slow slopeWindow prices
    .ok
      { labels := labels
        current := labels.getLast?.join
        currentSmaFast := currentSma (sma fast prices)
        currentSmaSlow := currentSma (sma slow prices)
        stats := regimeStats labels.tail (simpleReturns prices) }

/-! ## Two runs -/

/-- Both runs are refused with one text, or both return, with labels in common. -/
def AgreeUntil {α β : Type} (n : ℕ) (labels : α → List β) : Except String α → Except String α → Prop
  | .error e, .error e' => e = e'
  | .ok a, .ok a' => SamePast n (labels a) (labels a')
  | _, _ => False

/-- The volatilities of the windows of a series of returns that are finite. -/
def finiteVolatilities (window : ℕ) (returns : List F) : ℕ :=
  (rollingVol window returns).countP NpFloat.isFinite

/-- Both series are too short, or both or neither have five finite volatilities. -/
def EnoughAlike (window : ℕ) (returns returns' : List F) : Prop :=
  returns.length < window + 2 ∨
    (5 ≤ finiteVolatilities window returns ↔ 5 ≤ finiteVolatilities window returns')

section Past

variable {n : ℕ} {xs ys : List F}

/-- Labels of volatilities up to a period depend on the returns in front of it, exactly when later
ones do not decide whether there are enough volatilities. -/
theorem volatilityRegime_past_iff (h : SamePast n xs ys) (window : ℕ) (percentiles : Thresholds F) :
    AgreeUntil n VolReport.labels (volatilityRegime window percentiles xs)
      (volatilityRegime window percentiles ys) ↔ EnoughAlike window xs ys := by
  have hvols : SamePast n (rollingVol window xs) (rollingVol window ys) := h.rolling window _ _
  unfold volatilityRegime EnoughAlike finiteVolatilities
  dsimp only
  rw [← h.length, List.countP_eq_length_filter, List.countP_eq_length_filter]
  by_cases hshort : xs.length < window + 2
  · rw [if_pos hshort, if_pos hshort]
    exact iff_of_true rfl (Or.inl hshort)
  · rw [if_neg hshort, if_neg hshort, or_iff_right hshort]
    by_cases hxs : ((rollingVol window xs).filter NpFloat.isFinite).length < 5
    · by_cases hys : ((rollingVol window ys).filter NpFloat.isFinite).length < 5
      · rw [if_pos hxs, if_pos hys]
        exact iff_of_true rfl (iff_of_false hxs.not_ge hys.not_ge)
      · rw [if_pos hxs, if_neg hys]
        exact iff_of_false id fun hboth => hxs.not_ge (hboth.mpr (not_lt.mp hys))
    · by_cases hys : ((rollingVol window ys).filter NpFloat.isFinite).length < 5
      · rw [if_neg hxs, if_pos hys]
        exact iff_of_false id fun hboth => hys.not_ge (hboth.mp (not_lt.mp hxs))
      · rw [if_neg hxs, if_neg hys]
        exact iff_of_true (hvols.prefixMap _) (iff_of_true (not_lt.mp hxs) (not_lt.mp hys))

theorem sma_past (h : SamePast n xs ys) (window : ℕ) : SamePast n (sma window xs) (sma window ys) :=
  h.rolling window _ _

theorem trendLabels_past (h : SamePast n xs ys) (fast slow slopeWindow : ℕ) :
    SamePast n (trendLabels fast slow slopeWindow xs) (trendLabels fast slow slopeWindow ys) := by
  have haverages := (sma_past h fast).zipWith (sma_past h slow) Prod.mk
  exact haverages.zipWith ((sma_past h fast).prefixMap (slopeOf slopeWindow)) _

/-- Labels of a trend depend on the prices in front of their period. -/
theorem trendRegime_past (h : SamePast n xs ys) (fast slow slopeWindow : ℕ) :
    AgreeUntil n TrendReport.labels (trendRegime fast slow slopeWindow xs)
      (trendRegime fast slow slopeWindow ys) := by
  unfold trendRegime
  rw [← h.length]
  split
  · rfl
  · exact trendLabels_past h fast slow slopeWindow

end Past

end QuantumSentinel.Regime
