import QuantumSentinel.Backtest.Numbers

/-!
# Backtests: the signals of a strategy

`strategy_signals.py`: one series of signals for each built-in strategy, computed over the
whole price series at once.  Element `t` of a series is the decision at the close of bar
`t`; it depends on the prices up to that bar and on nothing behind it.

Main results:

- Definition `signalSeries`: the signals of a strategy.
- Theorem `signalSeries_samePast`: the signals do not look ahead.

Current gaps:

- The feature extraction of the spin strategy is a function of the prices it is given.
-/

namespace QuantumSentinel.Backtest

open Lib

variable {F : Type} [PyFloat F]

/-! ## Strategies -/

/-- `StrategyType`; the engines hold for any other name. -/
inductive StrategyType
  | maCrossover
  | sbaSignal
  | momentum
  | meanReversion
  | unknown
deriving DecidableEq, Repr

/-- `StrategyConfig` -/
structure StrategyConfig (F : Type) where
  strategyType : StrategyType
  fastWindow : ℤ
  slowWindow : ℤ
  sbaBuyThreshold : F
  sbaSellThreshold : F
  momentumLookback : ℤ
  momentumEntry : F
  momentumExit : F
  mrLookback : ℤ
  mrEntryZscore : F
  mrExitZscore : F

/-- What the spin strategy takes from elsewhere: the momentum feature of some prices, and
`np.tanh`. -/
structure Features (F : Type) where
  momentum : List F → F
  tanh : F → F

/-- `_SBA_MOMENTUM_LOOKBACK` -/
def sbaMomentumLookback : ℤ :=
  20

/-- `warmup_bars` -/
def warmupBars (strategy : StrategyConfig F) : ℤ :=
  match strategy.strategyType with
  | .momentum => strategy.momentumLookback + 1
  | .meanReversion => strategy.mrLookback + 1
  | .sbaSignal => sbaMomentumLookback + 1
  | .maCrossover => max strategy.fastWindow strategy.slowWindow + 1
  | .unknown => 1

/-! ## Moving averages -/

/-- `_rolling_mean` -/
def rollingMean (x : List F) (window : ℤ) : List F :=
  if 1 ≤ window ∧ window ≤ x.length then
    List.replicate (window.toNat - 1) PyFloat.nan ++ (windows x window.toNat).map PyFloat.mean
  else List.replicate x.length PyFloat.nan

/-- The signal of the fast and the slow average on one bar and on the bar before. -/
def crossing (before now : F × F) : F :=
  if PyFloat.le before.1 before.2 && PyFloat.lt now.2 now.1 then lit 1
  else if PyFloat.le before.2 before.1 && PyFloat.lt now.1 now.2 then lit (-1)
  else lit 0

/-- `np.zeros` -/
def zeros (n : ℕ) : List F :=
  List.replicate n (lit 0)

/-- `ma_crossover_series` -/
def maCrossoverSeries (close : List F) (fast slow : ℤ) : Except ShapeError (List F) :=
  let first := max fast slow
  if close.length ≤ first then .ok (zeros close.length)
  else do
    let averages := (rollingMean close fast).zip (rollingMean close slow)
    let signal ← broadcast crossing (slice averages (first - 1) (-1)) (sliceFrom averages first)
    assignFrom (zeros close.length) first signal

/-! ## Momentum and mean reversion -/

/-- The signal of a momentum. -/
def momentumSignal (s : StrategyConfig F) (mom : F) : F :=
  if PyFloat.lt s.momentumEntry mom then PyFloat.npMin (mom * lit 5) (lit 1)
  else if PyFloat.lt mom s.momentumExit then PyFloat.npMax (mom * lit 5) (lit (-1))
  else lit 0

/-- `_momentum_series` -/
def momentumSeries (close : List F) (s : StrategyConfig F) : Except ShapeError (List F) :=
  let lookback := s.momentumLookback
  if close.length ≤ lookback then .ok (zeros close.length)
  else do
    let momenta ← broadcast (fun price before => price / before - lit 1)
      (sliceFrom close lookback) (sliceTo close (-lookback))
    assignFrom (zeros close.length) lookback (momenta.map (momentumSignal s))

/-- The signal of a price behind the window that ends with it. -/
def reversionSignal (s : StrategyConfig F) (price : F) (window : List F) : F :=
  let mu := PyFloat.mean window
  let sigma := PyFloat.std window 1
  let z := (price - mu) / sigma
  let strength := PyFloat.npMin (PyFloat.abs z / lit 3) (lit 1)
  if PyFloat.lt sigma (lit 1e-9) then lit 0
  else if PyFloat.lt z s.mrEntryZscore then strength
  else if PyFloat.lt s.mrExitZscore z then -strength
  else lit 0

/-- `_mean_reversion_series` -/
def meanReversionSeries (close : List F) (s : StrategyConfig F) : Except ShapeError (List F) :=
  let lookback := s.mrLookback
  if lookback < 2 ∨ close.length ≤ lookback then .ok (zeros close.length)
  else do
    let signal ← broadcast (reversionSignal s) (sliceFrom close lookback)
      ((windows close lookback.toNat).drop 1)
    assignFrom (zeros close.length) lookback signal

/-! ## Spins -/

/-- The signal of some prices. -/
def sbaSignal (features : Features F) (s : StrategyConfig F) (prices : List F) : F :=
  let spin := features.tanh (features.momentum prices * lit 5)
  if PyFloat.lt s.sbaBuyThreshold spin || PyFloat.lt spin s.sbaSellThreshold then spin else lit 0

/-- `_sba_series` -/
def sbaSeries (features : Features F) (close : List F) (s : StrategyConfig F) (start : ℤ) :
    List F :=
  (List.range close.length).map fun (t : ℕ) =>
    if max start sbaMomentumLookback ≤ t then sbaSignal features s (close.take (t + 1)) else lit 0

/-- `signal_series` -/
def signalSeries (features : Features F) (close : List F) (strategy : StrategyConfig F)
    (start : ℤ) : Except ShapeError (List F) :=
  match strategy.strategyType with
  | .maCrossover => maCrossoverSeries close strategy.fastWindow strategy.slowWindow
  | .momentum => momentumSeries close strategy
  | .meanReversion => meanReversionSeries close strategy
  | .sbaSignal => .ok (sbaSeries features close strategy start)
  | .unknown => .ok (zeros close.length)

/-! ## The past of a series -/

section Past

variable {n : ℕ} {close close' : List F}

theorem length_rollingMean (x : List F) (window : ℤ) : (rollingMean x window).length = x.length := by
  unfold rollingMean
  split
  · rename_i hwindow
    rw [List.length_append, List.length_replicate, List.length_map, windows, List.length_map,
      List.length_range]
    omega
  · rw [List.length_replicate]

/-- Averages do not look ahead. -/
theorem rollingMean_samePast (h : SamePast n close close') (window : ℤ) :
    SamePast n (rollingMean close window) (rollingMean close' window) := by
  unfold rollingMean
  rw [← h.length]
  split
  · have hmeans := ((h.windows window.toNat).map PyFloat.mean).append
      (List.replicate (window.toNat - 1) PyFloat.nan)
    refine hmeans.mono ?_
    rw [List.length_replicate]
    omega
  · exact SamePast.refl n _

/-- A window of no width has no averages. -/
theorem rollingMean_of_nonpos (x : List F) {window : ℤ} (h : window ≤ 0) :
    rollingMean x window = List.replicate x.length PyFloat.nan :=
  if_neg (by omega)

/-- The crossover does not look ahead. -/
theorem maCrossoverSeries_samePast (h : SamePast n close close') (fast slow : ℤ) :
    Both (SamePast n) (maCrossoverSeries close fast slow) (maCrossoverSeries close' fast slow) := by
  simp only [maCrossoverSeries, ← h.length]
  split
  · exact SamePast.refl n _
  · have hlength : ((rollingMean close fast).zip (rollingMean close slow)).length =
        close.length := by
      rw [List.length_zip, length_rollingMean, length_rollingMean, min_self]
    have hzeros : (zeros close.length : List F).length = close.length := List.length_replicate
    by_cases hfirst : 1 ≤ max fast slow
    · have haverages := (rollingMean_samePast h fast).zipWith (rollingMean_samePast h slow) Prod.mk
      have hbefore := haverages.slice (max fast slow - 1) (-1)
      have hnow := haverages.sliceFrom (max fast slow)
      rw [show List.zipWith Prod.mk (rollingMean close fast) (rollingMean close slow) =
        (rollingMean close fast).zip (rollingMean close slow) from rfl, hlength] at hbefore hnow
      have hstart := sliceBound_pred_le close.length hfirst
      refine ((hbefore.mono (by omega)).broadcast hnow crossing).bind fun signal signal' hs => ?_
      refine (SamePast.refl n (zeros close.length)).assignFrom ?_
      rw [hzeros]
      exact hs
    · -- both windows are empty, and no average depends on the prices
      have hsame : ∀ window ≤ max fast slow, rollingMean close' window = rollingMean close window := by
        intro window hwindow
        rw [rollingMean_of_nonpos close' (by omega), rollingMean_of_nonpos close (by omega),
          h.length]
      rw [hsame fast (le_max_left _ _), hsame slow (le_max_right _ _)]
      exact Both.refl (SamePast.refl n) _

/-- Momentum does not look ahead. -/
theorem momentumSeries_samePast (h : SamePast n close close') (s : StrategyConfig F) :
    Both (SamePast n) (momentumSeries close s) (momentumSeries close' s) := by
  simp only [momentumSeries, ← h.length]
  split
  · exact SamePast.refl n _
  · have hzeros : (zeros close.length : List F).length = close.length := List.length_replicate
    have hprices := h.sliceFrom s.momentumLookback
    have hbefore := (h.sliceTo (-s.momentumLookback)).mono (Nat.sub_le n
      (sliceBound close.length s.momentumLookback))
    refine (hprices.broadcast hbefore _).bind fun momenta momenta' hm => ?_
    refine (SamePast.refl n (zeros close.length)).assignFrom ?_
    rw [hzeros]
    exact hm.map (momentumSignal s)

/-- Mean reversion does not look ahead: the window of a bar ends with it. -/
theorem meanReversionSeries_samePast (h : SamePast n close close') (s : StrategyConfig F) :
    Both (SamePast n) (meanReversionSeries close s) (meanReversionSeries close' s) := by
  simp only [meanReversionSeries, ← h.length]
  split
  · exact SamePast.refl n _
  · have hzeros : (zeros close.length : List F).length = close.length := List.length_replicate
    have hstart : sliceBound close.length s.mrLookback = s.mrLookback.toNat := by
      unfold sliceBound
      split
      · omega
      · omega
    have hprices := h.sliceFrom s.mrLookback
    have hwindows := ((h.windows s.mrLookback.toNat).drop 1).mono (m := n - s.mrLookback.toNat)
      (by omega)
    rw [hstart] at hprices
    refine (hprices.broadcast hwindows (reversionSignal s)).bind fun signal signal' hs => ?_
    refine (SamePast.refl n (zeros close.length)).assignFrom ?_
    rw [hzeros, hstart]
    exact hs

/-- The spin of a bar is computed from the prices up to it. -/
theorem sbaSeries_samePast (h : SamePast n close close') (features : Features F)
    (s : StrategyConfig F) (start : ℤ) :
    SamePast n (sbaSeries features close s start) (sbaSeries features close' s start) := by
  rw [sbaSeries, sbaSeries, ← h.length]
  apply SamePast.of_range
  intro t ht
  rw [h.take_eq (Nat.succ_le_of_lt ht)]

/-- The signals do not look ahead. -/
theorem signalSeries_samePast (h : SamePast n close close') (features : Features F)
    (strategy : StrategyConfig F) (start : ℤ) :
    Both (SamePast n) (signalSeries features close strategy start)
      (signalSeries features close' strategy start) := by
  cases hkind : strategy.strategyType with
  | maCrossover =>
    simp only [signalSeries, hkind]
    exact maCrossoverSeries_samePast h _ _
  | momentum =>
    simp only [signalSeries, hkind]
    exact momentumSeries_samePast h strategy
  | meanReversion =>
    simp only [signalSeries, hkind]
    exact meanReversionSeries_samePast h strategy
  | sbaSignal =>
    simp only [signalSeries, hkind]
    exact sbaSeries_samePast h features strategy start
  | unknown =>
    simp only [signalSeries, hkind, h.length]
    exact SamePast.refl n _

end Past

end QuantumSentinel.Backtest
