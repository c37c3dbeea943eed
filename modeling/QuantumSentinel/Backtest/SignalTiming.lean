import QuantumSentinel.Backtest.EventSimulator

/-!
# Backtests: when a signal is known

The timing contract of `strategy_signals.py`.  Every series is computed over all prices at
once, with slices, windows and an assignment behind the warm-up; element by element it is the
decision of the strategy on the prices up to the bar.  The crossover strategy of the simulator
comes to the same decision from the last prices alone.

Main results:

- Definition `decision`: what a strategy says at the close of some prices.
- Theorem `signalSeries_eq`: a series of signals is the series of the decisions.
- Theorem `signal_timing`: the timing contract, and the modes of evaluation agree.
-/

namespace QuantumSentinel.Backtest

open Lib

variable {F : Type} [PyFloat F]

/-! ## Decisions -/

/-- The average of the last prices, where there are enough. -/
def trailingMean (window : ℤ) (prices : List F) : F :=
  if window ≤ prices.length then PyFloat.mean (trailing window.toNat prices) else PyFloat.nan

theorem getElem?_rollingMean {close : List F} {window : ℤ} (hwindow : 1 ≤ window) {t : ℕ}
    (ht : t < close.length) :
    (rollingMean close window)[t]? = some (trailingMean window (close.take (t + 1))) := by
  have hlength : (close.take (t + 1)).length = t + 1 := by
    rw [List.length_take]
    omega
  rw [rollingMean, trailingMean, hlength]
  obtain ⟨w, rfl⟩ := Int.eq_ofNat_of_zero_le (show 0 ≤ window by omega)
  simp only [Int.toNat_natCast]
  by_cases hfull : w ≤ t + 1
  · rw [if_pos ⟨hwindow, by omega⟩, if_pos (by omega), List.getElem?_append_right
      (by rw [List.length_replicate]; omega), List.length_replicate, List.getElem?_map,
      getElem?_windows (by omega), Option.map_some, show t - (w - 1) + w = t + 1 by omega]
  · rw [if_neg (show ¬(w : ℤ) ≤ ((t + 1 : ℕ) : ℤ) by omega)]
    split
    · rw [List.getElem?_append_left (by rw [List.length_replicate]; omega),
        List.getElem?_replicate_of_lt (by omega)]
    · rw [List.getElem?_replicate_of_lt ht]

/-- The signal at the close of some prices. -/
def crossoverAt (fast slow : ℤ) (prices : List F) : F :=
  if prices.length ≤ max fast slow then lit 0
  else crossing (trailingMean fast prices.dropLast, trailingMean slow prices.dropLast)
    (trailingMean fast prices, trailingMean slow prices)

/-- The signal of the momentum at the close of some prices. -/
def momentumAt (s : StrategyConfig F) (prices : List F) : F :=
  if prices.length ≤ s.momentumLookback then lit 0
  else
    match prices.getLast?, (trailing (s.momentumLookback.toNat + 1) prices).head? with
    | some price, some before => momentumSignal s (price / before - lit 1)
    | _, _ => lit 0

/-- The signal of the last price behind the window that ends with it. -/
def reversionAt (s : StrategyConfig F) (prices : List F) : F :=
  if prices.length ≤ s.mrLookback then lit 0
  else
    match prices.getLast? with
    | some price => reversionSignal s price (trailing s.mrLookback.toNat prices)
    | none => lit 0

/-- The signal of the spin strategy behind its warm-up. -/
def spinAt (features : Features F) (s : StrategyConfig F) (prices : List F) : F :=
  if prices.length ≤ sbaMomentumLookback then lit 0 else sbaSignal features s prices

/-- The decision of a strategy at the close of some prices. -/
def decision (features : Features F) (s : StrategyConfig F) (prices : List F) : F :=
  match s.strategyType with
  | .maCrossover => crossoverAt s.fastWindow s.slowWindow prices
  | .momentum => momentumAt s prices
  | .meanReversion => reversionAt s prices
  | .sbaSignal => spinAt features s prices
  | .unknown => lit 0

/-! ## Series of decisions -/

theorem zeros_eq_prefixMap {f : List F → F} {close : List F}
    (h : ∀ t < close.length, f (close.take (t + 1)) = lit 0) :
    zeros close.length = prefixMap f close := by
  apply List.ext_getElem?
  intro t
  by_cases ht : t < close.length
  · rw [getElem?_prefixMap f ht, h t ht, zeros, List.getElem?_replicate_of_lt ht]
  · rw [List.getElem?_eq_none (by rw [zeros, List.length_replicate]; omega),
      List.getElem?_eq_none (by rw [length_prefixMap]; omega)]

/-- Zeros up to a bar, and the decisions behind it. -/
theorem assignFrom_eq_prefixMap {f : List F → F} {close values : List F} {first : ℕ}
    (hfirst : first < close.length) (hvalues : values.length = close.length - first)
    (hbefore : ∀ t < first, f (close.take (t + 1)) = lit 0)
    (hbehind : ∀ t, first ≤ t → t < close.length →
      values[t - first]? = some (f (close.take (t + 1)))) :
    assignFrom (zeros close.length) first values = .ok (prefixMap f close) := by
  have hzeros : (zeros close.length : List F).length = close.length := List.length_replicate
  have htake : ((zeros close.length : List F).take first).length = first := by
    rw [List.length_take, hzeros]
    omega
  rw [assignFrom_of_length (by rw [hzeros]; omega) (by rw [hzeros, hvalues])]
  refine congrArg Except.ok (List.ext_getElem? fun t => ?_)
  by_cases hend : t < close.length
  · rw [getElem?_prefixMap f hend]
    by_cases hfront : t < first
    · rw [List.getElem?_append_left (by rw [htake]; exact hfront), List.getElem?_take,
        if_pos hfront, zeros, List.getElem?_replicate_of_lt hend, hbefore t hfront]
    · rw [List.getElem?_append_right (by rw [htake]; omega), htake,
        hbehind t (by omega) hend]
  · rw [List.getElem?_eq_none (by rw [List.length_append, htake, hvalues]; omega),
      List.getElem?_eq_none (by rw [length_prefixMap]; omega)]

/-! ## Each strategy -/

/-- The crossover of two averages. -/
theorem maCrossoverSeries_eq {fast slow : ℤ} (hfast : 1 ≤ fast) (hslow : 1 ≤ slow)
    (close : List F) :
    maCrossoverSeries close fast slow = .ok (prefixMap (crossoverAt fast slow) close) := by
  obtain ⟨first, hfirst⟩ := Int.eq_ofNat_of_zero_le (show 0 ≤ max fast slow by omega)
  simp only [maCrossoverSeries]
  rw [hfirst]
  by_cases hshort : close.length ≤ first
  · rw [if_pos (by omega), zeros_eq_prefixMap (f := crossoverAt fast slow)]
    intro t ht
    rw [crossoverAt, hfirst, length_take_succ ht, if_pos (by omega)]
  · rw [if_neg (by omega)]
    have hzip : ((rollingMean close fast).zip (rollingMean close slow)).length = close.length := by
      rw [List.length_zip, length_rollingMean, length_rollingMean, min_self]
    have hnow : ∀ t < close.length,
        ((rollingMean close fast).zip (rollingMean close slow))[t]? =
          some (trailingMean fast (close.take (t + 1)), trailingMean slow (close.take (t + 1))) := by
      intro t ht
      rw [List.getElem?_zip_eq_some]
      exact ⟨getElem?_rollingMean hfast ht, getElem?_rollingMean hslow ht⟩
    rw [slice_pred (by omega) (by omega), sliceFrom_natCast (by omega),
      broadcast_of_length _ (by rw [List.length_drop, List.length_drop, List.length_take]; omega)]
    refine assignFrom_eq_prefixMap (by omega) ?_ ?_ ?_
    · rw [List.length_zipWith, List.length_drop, List.length_drop, List.length_take, hzip]
      omega
    · intro t ht
      rw [crossoverAt, hfirst, length_take_succ (by omega), if_pos (by omega)]
    · intro t ht hend
      rw [List.getElem?_zipWith, List.getElem?_drop, List.getElem?_drop, List.getElem?_take,
        if_pos (by omega), show first - 1 + (t - first) = t - 1 by omega,
        show first + (t - first) = t by omega, hnow t hend, hnow (t - 1) (by omega),
        crossoverAt, hfirst, length_take_succ hend, if_neg (by omega), dropLast_take_succ hend,
        show t - 1 + 1 = t by omega]

/-- The momentum of a price over an earlier one. -/
theorem momentumSeries_eq {s : StrategyConfig F} (hlookback : 1 ≤ s.momentumLookback)
    (close : List F) : momentumSeries close s = .ok (prefixMap (momentumAt s) close) := by
  obtain ⟨lb, hlb⟩ := Int.eq_ofNat_of_zero_le (show 0 ≤ s.momentumLookback by omega)
  simp only [momentumSeries]
  rw [hlb]
  by_cases hshort : close.length ≤ lb
  · rw [if_pos (by omega), zeros_eq_prefixMap (f := momentumAt s)]
    intro t ht
    rw [momentumAt, hlb, length_take_succ ht, if_pos (by omega)]
  · have hto : sliceTo close (-lb) = close.take (close.length - lb) := by
      rw [sliceTo, sliceBound, if_pos (by omega)]
      congr 1
      omega
    rw [if_neg (by omega), sliceFrom_natCast (by omega), hto,
      broadcast_of_length _ (by rw [List.length_drop, List.length_take]; omega)]
    refine assignFrom_eq_prefixMap (by omega) ?_ ?_ ?_
    · rw [List.length_map, List.length_zipWith, List.length_drop, List.length_take]
      omega
    · intro t ht
      rw [momentumAt, hlb, length_take_succ (by omega), if_pos (by omega)]
    · intro t ht hend
      have hlast : (close.take (t + 1)).getLast? = some close[t] := by
        rw [List.getLast?_eq_getElem?, length_take_succ hend, List.getElem?_take,
          if_pos (by omega), Nat.add_sub_cancel, List.getElem?_eq_getElem hend]
      have hhead : (trailing (lb + 1) (close.take (t + 1))).head? = some close[t - lb] := by
        rw [trailing, length_take_succ hend, List.head?_drop, List.getElem?_take,
          if_pos (by omega), show t + 1 - (lb + 1) = t - lb by omega,
          List.getElem?_eq_getElem (by omega)]
      rw [List.getElem?_map, List.getElem?_zipWith, List.getElem?_drop, List.getElem?_take,
        if_pos (by omega), show lb + (t - lb) = t by omega, List.getElem?_eq_getElem hend,
        List.getElem?_eq_getElem (show t - lb < close.length by omega), momentumAt, hlb,
        length_take_succ hend, if_neg (by omega), Int.toNat_natCast, hlast, hhead]
      rfl

/-- The reversion to the mean of a window. -/
theorem meanReversionSeries_eq {s : StrategyConfig F} (hlookback : 2 ≤ s.mrLookback)
    (close : List F) : meanReversionSeries close s = .ok (prefixMap (reversionAt s) close) := by
  obtain ⟨lb, hlb⟩ := Int.eq_ofNat_of_zero_le (show 0 ≤ s.mrLookback by omega)
  simp only [meanReversionSeries]
  rw [hlb]
  by_cases hshort : close.length ≤ lb
  · rw [if_pos (by omega), zeros_eq_prefixMap (f := reversionAt s)]
    intro t ht
    rw [reversionAt, hlb, length_take_succ ht, if_pos (by omega)]
  · rw [if_neg (by omega), sliceFrom_natCast (by omega), Int.toNat_natCast,
      broadcast_of_length _ (by rw [List.length_drop, List.length_drop, length_windows]; omega)]
    refine assignFrom_eq_prefixMap (by omega) ?_ ?_ ?_
    · rw [List.length_zipWith, List.length_drop, List.length_drop, length_windows]
      omega
    · intro t ht
      rw [reversionAt, hlb, length_take_succ (by omega), if_pos (by omega)]
    · intro t ht hend
      have hlast : (close.take (t + 1)).getLast? = some close[t] := by
        rw [List.getLast?_eq_getElem?, length_take_succ hend, List.getElem?_take,
          if_pos (by omega), Nat.add_sub_cancel, List.getElem?_eq_getElem hend]
      rw [List.getElem?_zipWith, List.getElem?_drop, List.getElem?_drop,
        show lb + (t - lb) = t by omega, List.getElem?_eq_getElem hend,
        getElem?_windows (by omega), show 1 + (t - lb) + lb = t + 1 by omega, reversionAt, hlb,
        length_take_succ hend, if_neg (by omega), hlast, Int.toNat_natCast]

/-- The spins of the prefixes. -/
theorem sbaSeries_eq (features : Features F) (s : StrategyConfig F) (close : List F) :
    sbaSeries features close s 0 = prefixMap (spinAt features s) close := by
  rw [sbaSeries, prefixMap]
  apply List.map_congr_left
  intro t ht
  rw [spinAt, length_take_succ (List.mem_range.mp ht), sbaMomentumLookback]
  by_cases hwarm : 20 ≤ t
  · rw [if_pos (by omega), if_neg (by omega)]
  · rw [if_neg (by omega), if_pos (by omega)]

/-- Windows and lookbacks of two bars at least. -/
structure StrategyConfig.Windowed (s : StrategyConfig F) : Prop where
  fast : 2 ≤ s.fastWindow
  slow : 2 ≤ s.slowWindow
  momentum : 2 ≤ s.momentumLookback
  reversion : 2 ≤ s.mrLookback

/-- Every series is the series of the decisions of its strategy. -/
theorem signalSeries_eq (features : Features F) {s : StrategyConfig F} (hs : s.Windowed)
    (close : List F) :
    signalSeries features close s 0 = .ok (prefixMap (decision features s) close) := by
  have hfast := hs.fast
  have hslow := hs.slow
  have hmomentum := hs.momentum
  unfold signalSeries decision
  cases s.strategyType with
  | maCrossover => exact maCrossoverSeries_eq (by omega) (by omega) close
  | momentum => exact momentumSeries_eq (by omega) close
  | meanReversion => exact meanReversionSeries_eq hs.reversion close
  | sbaSignal => exact congrArg Except.ok (sbaSeries_eq features s close)
  | unknown => exact congrArg Except.ok (zeros_eq_prefixMap fun _ _ => rfl)

/-! ## The latest signal -/

/-- `latest_signal` -/
def latestSignal (features : Features F) (close : List F) (strategy : StrategyConfig F) :
    Except Raised F :=
  if close = [] then .ok (lit 0)
  else do
    let series ← (signalSeries features close strategy (close.length - 1)).mapError Raised.shape
    match series.getLast? with
    | some signal => .ok signal
    | none => .error .indexError

/-- The start of a series is a matter of the spins. -/
theorem signalSeries_getLast? (features : Features F) {s : StrategyConfig F} (hs : s.Windowed)
    {close : List F} (h : close ≠ []) :
    ∃ series, signalSeries features close s (close.length - 1) = .ok series ∧
      series.getLast? = some (decision features s close) := by
  have hlength := List.length_pos_iff.mpr h
  by_cases hkind : s.strategyType = .sbaSignal
  · refine ⟨sbaSeries features close s (close.length - 1), by simp only [signalSeries, hkind], ?_⟩
    rw [List.getLast?_eq_getElem?, sbaSeries, List.length_map, List.length_range,
      List.getElem?_map, List.getElem?_range (by omega), Option.map_some,
      Nat.sub_add_cancel hlength, List.take_length]
    simp only [decision, hkind, spinAt]
    have hwarmup : sbaMomentumLookback = 20 := rfl
    by_cases hwarm : sbaMomentumLookback < close.length
    · rw [if_pos (by omega), if_neg (by omega)]
    · rw [if_neg (by omega), if_pos (by omega)]
  · refine ⟨_, ?_, getLast?_prefixMap (decision features s) h⟩
    rw [← signalSeries_eq features hs]
    unfold signalSeries
    cases hstrategy : s.strategyType with
    | sbaSignal => exact absurd hstrategy hkind
    | maCrossover => rfl
    | momentum => rfl
    | meanReversion => rfl
    | unknown => rfl

theorem latestSignal_eq (features : Features F) {s : StrategyConfig F} (hs : s.Windowed)
    {close : List F} (h : close ≠ []) :
    latestSignal features close s = .ok (decision features s close) := by
  obtain ⟨series, hseries, hlast⟩ := signalSeries_getLast? features hs h
  rw [latestSignal, if_neg h, hseries]
  simp only [Except.mapError, bind, Except.bind, hlast]

/-- Before the warm-up there is no signal. -/
theorem decision_warmup (features : Features F) (s : StrategyConfig F) {prices : List F}
    (h : prices.length < warmupBars s) : decision features s prices = lit 0 := by
  unfold warmupBars at h
  unfold decision
  cases hkind : s.strategyType with
  | maCrossover =>
    rw [hkind] at h
    exact if_pos (by simp only at h; omega)
  | momentum =>
    rw [hkind] at h
    exact if_pos (by simp only at h; omega)
  | meanReversion =>
    rw [hkind] at h
    exact if_pos (by simp only at h; omega)
  | sbaSignal =>
    rw [hkind] at h
    exact if_pos (by simp only at h; omega)
  | unknown => rfl

/-! ## The crossover without a prepared series -/

theorem trailingMean_trailing {window : ℤ} {width : ℕ} (h : window ≤ width) (prices : List F) :
    trailingMean window (trailing width prices) = trailingMean window prices := by
  rw [trailingMean, trailingMean, length_trailing, trailing_trailing (by omega)]
  by_cases hfull : window ≤ prices.length
  · rw [if_pos hfull, if_pos (by omega)]
  · rw [if_neg hfull, if_neg (by omega)]

/-- The crossover depends on one price more than its longer window. -/
theorem crossoverAt_trailing {fast slow : ℤ} (hfast : 0 ≤ fast) (prices : List F) :
    crossoverAt fast slow (trailing (max fast slow + 1).toNat prices) =
      crossoverAt fast slow prices := by
  obtain ⟨first, hfirst⟩ := Int.eq_ofNat_of_zero_le (show 0 ≤ max fast slow by omega)
  have htoNat : (max fast slow + 1).toNat = first + 1 := by omega
  rw [crossoverAt, crossoverAt, htoNat, length_trailing, dropLast_trailing,
    trailingMean_trailing (by omega), trailingMean_trailing (by omega),
    trailingMean_trailing (by omega), trailingMean_trailing (by omega)]
  by_cases hshort : prices.length ≤ max fast slow
  · rw [if_pos hshort, if_pos (by omega)]
  · rw [if_neg hshort, if_neg (by omega)]

/-- What the crossover emits without a prepared series. -/
theorem maCrossoverSignal_none {fast slow : ℤ} (hfast : 1 ≤ fast) (hslow : 1 ≤ slow)
    {prices : List F} (hprices : prices ≠ []) {history : History F} {ticker : String}
    (hhistory : history.get? ticker = some prices) :
    maCrossoverSignal fast slow none history ticker = .ok (crossoverAt fast slow prices) := by
  have htail : sliceFrom prices (-(max fast slow + 1)) =
      trailing (max fast slow + 1).toNat prices := by
    rw [sliceFrom, sliceBound, if_pos (by omega), trailing]
    congr 1
    omega
  have hne : trailing (max fast slow + 1).toNat prices ≠ [] := by
    have hlength := List.length_pos_iff.mpr hprices
    rw [← List.length_pos_iff, length_trailing]
    omega
  simp only [maCrossoverSignal, hhistory, Option.getD_some]
  rw [htail, if_neg hne, maCrossoverSeries_eq hfast hslow]
  simp only [Except.mapError, bind, Except.bind, getLast?_prefixMap _ hne]
  rw [crossoverAt_trailing (by omega)]

/-! ## The timing contract -/

/-- The signal of a bar is the one of the prices up to it, in every mode of evaluation. -/
theorem signal_timing (features : Features F) {s : StrategyConfig F} (hs : s.Windowed)
    {close : List F} {t : ℕ} (ht : t < close.length) :
    ∃ series past signal,
      signalSeries features close s 0 = .ok series ∧ series[t]? = some signal ∧
      signalSeries features (close.take (t + 1)) s 0 = .ok past ∧ past.getLast? = some signal ∧
      (t < warmupBars s - 1 → signal = lit 0) ∧
      latestSignal features (close.take (t + 1)) s = .ok signal ∧
      (s.strategyType = .maCrossover → ∀ view history calls ticker, view.bar = t →
        view.series ticker = some signal →
        history.get? ticker = some (close.take (t + 1)) →
        onMarket (.maCrossover s.fastWindow s.slowWindow) view history calls ticker =
            .ok (maCrossoverOnMarket t ticker signal) ∧
          onMarket (.maCrossover s.fastWindow s.slowWindow)
              { view with series := fun _ => none } history calls ticker =
            .ok (maCrossoverOnMarket t ticker signal)) := by
  have hne : close.take (t + 1) ≠ [] := by
    rw [← List.length_pos_iff, length_take_succ ht]
    exact Nat.succ_pos t
  refine ⟨_, _, decision features s (close.take (t + 1)), signalSeries_eq features hs close,
    getElem?_prefixMap _ ht, signalSeries_eq features hs _, getLast?_prefixMap _ hne,
    fun hwarm => decision_warmup features s ?_, latestSignal_eq features hs hne, ?_⟩
  · rw [length_take_succ ht]
    push_cast
    omega
  · intro hkind view history calls ticker hbar hseries hhistory
    have hfast := hs.fast
    have hslow := hs.slow
    have hsignal : decision features s (close.take (t + 1)) =
        crossoverAt s.fastWindow s.slowWindow (close.take (t + 1)) := by
      simp only [decision, hkind]
    constructor
    · simp only [onMarket, hseries, hbar, maCrossoverSignal]
      rfl
    · simp only [onMarket, hbar]
      rw [maCrossoverSignal_none (by omega) (by omega) hne hhistory, hsignal]
      rfl

/-- A crossover of two and three bars. -/
def shortCrossover : StrategyConfig Exact where
  strategyType := .maCrossover
  fastWindow := 2
  slowWindow := 3
  sbaBuyThreshold := some 0
  sbaSellThreshold := some 0
  momentumLookback := 2
  momentumEntry := some 0
  momentumExit := some 0
  mrLookback := 2
  mrEntryZscore := some 0
  mrExitZscore := some 0

/-- The price turns, and the faster average crosses the slower one. -/
def turningPrices : List Exact :=
  [some 3, some 2, some 1, some 5, some 6]

theorem signal_timing_turn :
    ∃ series past,
      signalSeries ⟨fun _ => none, id⟩ turningPrices shortCrossover 0 = .ok series ∧
      series[3]? = some (some 1) ∧
      signalSeries ⟨fun _ => none, id⟩ (turningPrices.take 4) shortCrossover 0 = .ok past ∧
      past.getLast? = some (some 1) ∧
      latestSignal ⟨fun _ => none, id⟩ (turningPrices.take 4) shortCrossover = .ok (some 1) := by
  have hwindowed : shortCrossover.Windowed := ⟨by decide, by decide, by decide, by decide⟩
  obtain ⟨series, past, signal, hseries, hat, hpast, hlast, -, hlatest, -⟩ :=
    signal_timing ⟨fun _ => none, id⟩ hwindowed (show 3 < turningPrices.length by decide)
  have hvalue : latestSignal ⟨fun _ => none, id⟩ (turningPrices.take 4) shortCrossover =
      .ok (some 1) := by
    decide +kernel
  have hsignal : signal = some 1 := Except.ok.inj (hlatest.symm.trans hvalue)
  subst hsignal
  exact ⟨series, past, hseries, hat, hpast, hlast, hvalue⟩

end QuantumSentinel.Backtest
