import QuantumSentinel.Backtest.Engine

/-!
# Backtests: walk-forward validation

`walk_forward.py`: the panel is cut into folds of a training and a test window.  The
parameters of a fold are searched on its training window and judged on its test window, and the
returns of the test windows are put one behind the other.

Main results:

- Definition `foldsOf`: the folds of a panel.
- Definition `evaluate`: the backtest of one window.
- Definition `runFold`: the search and the two evaluations of a fold.
- Definition `runWalkForward`: all folds, and the figures over their returns.

Current gaps:

- The calendar dates, the overfitting figures and the chart of the report.
-/

namespace QuantumSentinel.Backtest

open Lib

variable {F : Type} [PyFloat F]

/-! ## Figures -/

/-- `_sharpe`, without a risk-free rate. -/
def sharpe (returns : List F) : F :=
  let excess := returns.map fun r => r - lit 0
  let std := PyFloat.std excess 1
  if returns.length < 2 then lit 0
  else if PyFloat.lt std (lit 1e-9) then lit 0
  else PyFloat.mean excess / std * PyFloat.sqrt (lit 252)

/-- `_sortino`, without a risk-free rate or a target. -/
def sortino (returns : List F) : F :=
  let excess := returns.map fun r => r - lit 0
  let below := returns.map fun r => PyFloat.npMin (r - lit 0) (lit 0)
  let dd := PyFloat.sqrt (PyFloat.mean (below.map fun r => r * r))
  if returns.length < 2 then lit 0
  else if PyFloat.lt dd (lit 1e-9) then lit 0
  else PyFloat.mean excess / dd * PyFloat.sqrt (lit 252)

/-- `_max_drawdown` -/
def maxDrawdown : List F → F
  | [] => lit 0
  | [_] => lit 0
  | first :: rest =>
    ((first :: rest).foldl (fun (state : F × F) (v : F) =>
      let peak : F := pyMax state.1 v
      if PyFloat.lt (lit 0) peak then (peak, pyMax state.2 ((peak - v) / peak))
      else (peak, state.2)) (first, lit 0)).2

/-- `_calmar` -/
def calmar (returns : List F) (maxDd : F) : F :=
  if PyFloat.lt maxDd (lit 1e-9) || decide (returns.length < 2) then lit 0
  else PyFloat.mean returns * lit 252 / maxDd

/-- `_var_cvar` at five percent; the index is inside the returns. -/
def varCvar (returns : List F) : F × F :=
  let sorted := PyFloat.sort returns
  let idx := (max 0 (PyFloat.toInt (lit 0.05 * PyFloat.ofNat sorted.length : F))).toNat
  if returns.length < 5 then (lit 0, lit 0)
  else
    (pyMax (lit 0) (-(sorted.getD idx PyFloat.nan)),
      pyMax (lit 0) (-PyFloat.mean (sorted.take (idx + 1))))

/-- The entries of the open lots, with the wins and the closed trades. -/
structure RoundTrips (F : Type) where
  book : Dict String (List F)
  wins : ℕ
  closed : ℕ

/-- One trade of the log. -/
def RoundTrips.next (r : RoundTrips F) (trade : TradeRecord F) : RoundTrips F :=
  let lots := (r.book.get? trade.asset).getD []
  match trade.side, lots with
  | .buy, _ => { r with book := r.book.set trade.asset (lots ++ [trade.fillPrice]) }
  | .sell, [] => r
  | .sell, entry :: rest =>
    { book := r.book.set trade.asset rest
      wins := if PyFloat.lt entry trade.fillPrice then r.wins + 1 else r.wins
      closed := r.closed + 1 }

/-- `_compute_win_rate` -/
def computeWinRate (log : List (TradeRecord F)) : ℕ × ℕ :=
  let trips := log.foldl RoundTrips.next ⟨Dict.empty, 0, 0⟩
  (trips.wins, trips.closed)

/-! ## Configurations -/

/-- `WindowType` -/
inductive WindowType
  | rolling
  | expanding
deriving DecidableEq, Repr

/-- `WalkForwardConfig`; the loops over the folds end because the step is positive. -/
structure WalkForwardConfig (F : Type) where
  windowType : WindowType
  trainYears : ℕ
  testYears : ℕ
  stepYears : ℕ
  step_pos : 0 < stepYears
  strategy : StrategyConfig F
  execution : ExecutionConfig F
  fastWindowRange : List ℤ
  slowWindowRange : List ℤ
  optimizeParameters : Bool
  sizer : Option (PositionSizer F)

/-- `bars_per_year` -/
def barsPerYear : ℕ :=
  252

namespace WalkForwardConfig

variable (cfg : WalkForwardConfig F)

omit [PyFloat F] in
theorem step_bars_pos : 0 < cfg.stepYears * barsPerYear :=
  Nat.mul_pos cfg.step_pos (by decide)

/-- `_parameter_grid` -/
def parameterGrid : List (ℤ × ℤ) :=
  if cfg.optimizeParameters then
    cfg.fastWindowRange.flatMap fun fast =>
      (cfg.slowWindowRange.filter fun slow => decide (fast < slow)).map fun slow => (fast, slow)
  else [(cfg.strategy.fastWindow, cfg.strategy.slowWindow)]

/-- `_fully_invested_sizer` -/
def fullyInvestedSizer : PositionSizer F :=
  ⟨.equalWeight, lit 0.02, lit 0.15, lit 1, lit 1⟩

/-- `_execution` -/
def longOnly : ExecutionConfig F :=
  { cfg.execution with
    sizer := cfg.sizer.getD fullyInvestedSizer
    allowShortSelling := false }

end WalkForwardConfig

/-! ## Folds -/

/-- The bars of a fold. -/
structure Fold where
  index : ℕ
  trainStart : ℕ
  trainEnd : ℕ
  testStart : ℕ
  testEnd : ℕ
deriving DecidableEq, Repr

namespace WalkForwardConfig

variable (cfg : WalkForwardConfig F)

/-- The folds of the rolling window from a start on. -/
def rollingFolds (nBars index start : ℕ) : List Fold :=
  let train := cfg.trainYears * barsPerYear
  let test := cfg.testYears * barsPerYear
  if start + train + test ≤ nBars then
    ⟨index, start, start + train, start + train, min (start + train + test) nBars⟩ ::
      rollingFolds nBars (index + 1) (start + cfg.stepYears * barsPerYear)
  else []
termination_by nBars + 1 - start
decreasing_by
  have hstep := cfg.step_bars_pos
  omega

/-- The folds of the expanding window from a first test bar on. -/
def expandingFolds (nBars index testStart : ℕ) : List Fold :=
  let test := cfg.testYears * barsPerYear
  if testStart + test ≤ nBars then
    ⟨index, 0, testStart, testStart, min (testStart + test) nBars⟩ ::
      expandingFolds nBars (index + 1) (testStart + cfg.stepYears * barsPerYear)
  else []
termination_by nBars + 1 - testStart
decreasing_by
  have hstep := cfg.step_bars_pos
  omega

/-- `folds` -/
def foldsOf (nBars : ℕ) : List Fold :=
  match cfg.windowType with
  | .rolling => cfg.rollingFolds nBars 0 0
  | .expanding => cfg.expandingFolds nBars 0 (cfg.trainYears * barsPerYear)

end WalkForwardConfig

/-! ## One window -/

/-- A return, with the bar it is the return of. -/
structure BarReturn (F : Type) where
  bar : ℕ
  value : F

/-- The figures of a window. -/
structure WindowMetrics (F : Type) where
  sharpe : F
  sortino : F
  totalReturn : F
  maxDd : F
  calmar : F
  var95 : F
  cvar95 : F
  winRate : F
  nTrades : ℕ
  equity : List F
  returns : List (BarReturn F)

/-- `_WF_CAPITAL` -/
def wfCapital : F :=
  lit 100000

/-- `_empty_metrics` -/
def emptyMetrics : WindowMetrics F where
  sharpe := lit 0
  sortino := lit 0
  totalReturn := lit 0
  maxDd := lit 0
  calmar := lit 0
  var95 := lit 0
  cvar95 := lit 0
  winRate := lit 0
  nTrades := 0
  equity := [wfCapital]
  returns := []

/-- The returns of an equity curve. -/
def equityReturns (equity : List F) : List F :=
  List.zipWith (fun prev value =>
    if PyFloat.lt (lit 0) prev then value / prev - lit 1 else lit 0) equity equity.tail

/-- The figures of a run over some bars. -/
def windowMetrics (res : StrategyResult F) (bars : List ℕ) : WindowMetrics F :=
  let equity := wfCapital :: res.equityCurveNet
  let returns := equityReturns equity
  let trips := computeWinRate res.tradeLog
  let maxDd := maxDrawdown equity
  { sharpe := Backtest.sharpe returns
    sortino := Backtest.sortino returns
    totalReturn := res.equityCurveNet.getLast?.getD wfCapital / wfCapital - lit 1
    maxDd := maxDd
    calmar := Backtest.calmar returns maxDd
    var95 := (varCvar returns).1
    cvar95 := (varCvar returns).2
    winRate := PyFloat.ofNat trips.1 / PyFloat.ofNat (max 1 trips.2)
    nTrades := res.tradeLog.length
    equity := equity
    returns := (bars.zip returns).map fun r => ⟨r.1, r.2⟩ }

namespace WalkForwardConfig

variable (cfg : WalkForwardConfig F)

/-- The backtest of a window. -/
def windowBacktest (assets : List String) (fast slow : ℤ) : BacktestConfig F where
  assets := assets
  initialCapital := wfCapital
  strategy :=
    { cfg.strategy with
      strategyType := .maCrossover
      fastWindow := fast
      slowWindow := slow }
  execution := cfg.longOnly

/-- The end of a window, inside the data of all assets. -/
def windowEnd (panel : Panel F) (assets : List String) (stop : ℕ) : ℕ :=
  (assets.filterMap fun a => (panel.get? a).map fun ad => ad.close.length).foldl min stop

/-- `_evaluate` -/
def evaluate (features : Features F) (panel : Panel F) (assets : List String) (start stop : ℕ)
    (fast slow : ℤ) : Except Raised (WindowMetrics F) :=
  let assets := assets.filter fun a => decide (a ∈ panel.keys)
  let backtest := cfg.windowBacktest assets fast slow
  let stop := windowEnd panel assets stop
  if assets = [] then .ok emptyMetrics
  else do
    let delay ← engineDelay backtest
    let first := max (start : ℤ) (warmupBars backtest.strategy - 1 + delay)
    if stop - first < 2 then .ok emptyMetrics
    else
      (fun res => windowMetrics res
        (List.range' (firstBar first delay) (stop - firstBar first delay))) <$>
        runStrategy features backtest panel first stop none

end WalkForwardConfig

/-! ## One fold -/

/-- The best windows of a search so far, with their Sharpe ratio. -/
structure Search (F : Type) where
  sharpe : F
  fast : ℤ
  slow : ℤ

/-- `FoldResult` -/
structure FoldResult (F : Type) where
  fold : Fold
  bestFastWindow : ℤ
  bestSlowWindow : ℤ
  train : WindowMetrics F
  oos : WindowMetrics F

namespace WalkForwardConfig

variable (cfg : WalkForwardConfig F)

/-- One trial of the search. -/
def trial (features : Features F) (panel : Panel F) (assets : List String) (fold : Fold)
    (best : Search F) (windows : ℤ × ℤ) : Except Raised (Search F) :=
  (fun (metrics : WindowMetrics F) =>
    if PyFloat.lt best.sharpe metrics.sharpe then ⟨metrics.sharpe, windows.1, windows.2⟩
    else best) <$>
    cfg.evaluate features panel assets fold.trainStart fold.trainEnd windows.1 windows.2

/-- The windows that a fold selects. -/
def select (features : Features F) (panel : Panel F) (assets : List String) (fold : Fold) :
    Except Raised (Search F) :=
  if cfg.optimizeParameters then
    cfg.parameterGrid.foldlM (cfg.trial features panel assets fold)
      ⟨PyFloat.negInf, cfg.strategy.fastWindow, cfg.strategy.slowWindow⟩
  else .ok ⟨PyFloat.negInf, cfg.strategy.fastWindow, cfg.strategy.slowWindow⟩

/-- `_run_fold` -/
def runFold (features : Features F) (panel : Panel F) (assets : List String) (fold : Fold) :
    Except Raised (FoldResult F) := do
  let best ← cfg.select features panel assets fold
  let oos ← cfg.evaluate features panel assets fold.testStart fold.testEnd best.fast best.slow
  let train ← cfg.evaluate features panel assets fold.trainStart fold.trainEnd best.fast best.slow
  .ok ⟨fold, best.fast, best.slow, train, oos⟩

end WalkForwardConfig

/-! ## The aggregated returns -/

/-- The figures over the returns of all test windows. -/
structure AggregatedOos (F : Type) where
  sharpe : F
  sortino : F
  totalReturn : F
  maxDrawdown : F
  calmar : F
  var95 : F
  cvar95 : F
  nOosDays : ℕ
  dailyReturns : List (BarReturn F)

/-- The equity behind returns that follow each other. -/
def compound (returns : List F) : List F :=
  returns.scanl (fun equity r => equity * (lit 1 + r)) wfCapital

/-- `aggregated_oos` -/
def aggregate (returns : List (BarReturn F)) : AggregatedOos F :=
  let all := if returns = [] then [lit 0] else returns.map BarReturn.value
  let equity := compound all
  let maxDd := maxDrawdown equity
  { sharpe := PyFloat.round (Backtest.sharpe all) 3
    sortino := PyFloat.round (Backtest.sortino all) 3
    totalReturn := PyFloat.round (equity.getLast?.getD wfCapital / wfCapital - lit 1) 4
    maxDrawdown := PyFloat.round maxDd 4
    calmar := PyFloat.round (Backtest.calmar all maxDd) 3
    var95 := PyFloat.round (varCvar all).1 4
    cvar95 := PyFloat.round (varCvar all).2 4
    nOosDays := returns.length
    dailyReturns := returns.map fun r => ⟨r.bar, PyFloat.round r.value 6⟩ }

/-- What a walk-forward run reports. -/
structure WalkForwardResult (F : Type) where
  folds : List (FoldResult F)
  aggregatedOos : AggregatedOos F

/-- `run`, behind the download of the panel. -/
def WalkForwardConfig.runWalkForward (cfg : WalkForwardConfig F) (features : Features F)
    (panel : Panel F) (assets : List String) (nBars : ℕ) :
    Except Raised (WalkForwardResult F) :=
  let needed := (cfg.trainYears + cfg.testYears) * barsPerYear
  match cfg.foldsOf nBars with
  | [] => .error (.valueError ("Not enough data for walk-forward: need " ++ toString needed ++
      " bars, have " ++ toString nBars))
  | folds =>
    (fun results => ⟨results, aggregate (results.flatMap fun r => r.oos.returns)⟩) <$>
      folds.mapM (cfg.runFold features panel assets)

end QuantumSentinel.Backtest
