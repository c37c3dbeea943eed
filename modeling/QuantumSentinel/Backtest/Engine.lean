import QuantumSentinel.Lib.Dict
import QuantumSentinel.Backtest.Execution
import QuantumSentinel.Backtest.Signals

/-!
# Backtests: the portfolio engine

`BacktestEngine._run_strategy`: the strategy bar by bar.  The order filled at the close of a
bar acts on the signal of an earlier bar, and what sizes it was known at that earlier close.

Main results:

- Definition `BarView`: what the engine reads of the panel at one bar.
- Definition `runBar`: one bar.
- Definition `runStrategy`: the run, with its errors.

Current gaps:

- The liquidation behind the last bar, which changes nothing that is returned.
-/

namespace QuantumSentinel.Backtest

open Lib

/-- What the engines raise. -/
inductive Raised
  | valueError (text : String)
  /-- `ValueError` of numpy -/
  | shape (error : ShapeError)
  | indexError
  | keyError (name : String)
deriving DecidableEq, Repr

/-- The prices and volumes of an asset; row `i` of every asset is the same day. -/
structure AssetData (F : Type) where
  close : List F
  volume : Option (List F)

/-- `asset_data` -/
abbrev Panel (F : Type) := Dict String (AssetData F)

/-- `BacktestConfig` -/
structure BacktestConfig (F : Type) where
  assets : List String
  initialCapital : F
  strategy : StrategyConfig F
  execution : ExecutionConfig F

/-- `TradeRecord`, with the bar it was executed at. -/
structure TradeRecord (F : Type) where
  bar : ℕ
  date : String
  asset : String
  side : Side
  desiredQty : F
  filledQty : F
  fillPrice : F
  commission : F
  slippageCost : F
  spreadCost : F
  totalCost : F
  isPartial : Bool
  signalValue : F
  positionAfter : F

/-- The variables of the loop. -/
structure EngineState (F : Type) where
  capital : F
  positions : Dict String F
  equityGross : List F
  equityNet : List F
  tradeLog : List (TradeRecord F)
  dailyReturnsNet : List F
  dailyReturnsGross : List F
  totalCommission : F
  totalSlippage : F
  totalSpread : F
  totalBorrow : F
  turnoverShares : F

/-- What a run returns. -/
structure StrategyResult (F : Type) where
  equityCurveNet : List F
  equityCurveGross : List F
  dailyReturnsNet : List F
  dailyReturnsGross : List F
  tradeLog : List (TradeRecord F)
  totalCommission : F
  totalSlippage : F
  totalSpread : F
  totalBorrow : F
  turnoverShares : F
  finalCapital : F

variable {F : Type} [PyFloat F]

/-! ## What a bar reads -/

/-- The volatility of the returns up to the decision bar. -/
def tradeVolatility (close : List F) (decisionBar : ℕ) : F :=
  let window :=
    if 1 < decisionBar then simpleReturns ((close.take (decisionBar + 1)).drop (decisionBar - 21))
    else [lit 0.01]
  if 1 < window.length then PyFloat.std window 0 else lit 0.02

/-- The average volume up to the decision bar. -/
def tradeVolume (volume : Option (List F)) (decisionBar : ℕ) : F :=
  match volume with
  | some values =>
    if 1 < decisionBar then
      PyFloat.mean ((values.take (decisionBar + 1)).drop (decisionBar - 21))
    else lit 1e6
  | none => lit 1e6

/-- `_pre_trade_liquidity` -/
def preTradeLiquidity (ad : AssetData F) (decisionBar : ℕ) : F × F :=
  (tradeVolatility ad.close decisionBar, tradeVolume ad.volume decisionBar)

/-- What the engine reads at one bar. -/
structure BarView (F : Type) where
  bar : ℕ
  date : String
  /-- the close of the bar, where the panel has one -/
  close : String → Option F
  /-- the close of the decision bar, where the panel has one -/
  decisionClose : String → Option F
  /-- volatility and volume at the decision bar -/
  liquidity : String → F × F
  /-- the signal of the decision bar -/
  signal : String → F

/-- A close of an asset. -/
def Panel.closeAt (panel : Panel F) (i : ℕ) (ticker : String) : Option F :=
  (panel.get? ticker).bind fun ad => ad.close[i]?

/-- The name of a bar. -/
def barDate (dates : Option (List String)) (bar : ℕ) : String :=
  match dates with
  | some days => days.getD bar ""
  | none => "bar_" ++ toString bar

/-- The view of a panel at a bar. -/
def viewAt (panel : Panel F) (signals : Dict String (List F)) (dates : Option (List String))
    (delay bar : ℕ) : BarView F where
  bar := bar
  date := barDate dates bar
  close := panel.closeAt bar
  decisionClose := panel.closeAt (bar - delay)
  liquidity ticker :=
    ((panel.get? ticker).map fun ad => preTradeLiquidity ad (bar - delay)).getD
      (lit 0.02, lit 1e6)
  signal ticker := ((signals.get? ticker).getD []).getD (bar - delay) (lit 0)

/-! ## One order -/

/-- An order of the engine. -/
structure Order (F : Type) where
  ticker : String
  side : Side
  desired : F
  signal : F

namespace EngineState

variable (s : EngineState F)

/-- `positions.get(ticker, 0.0)` -/
def position (ticker : String) : F :=
  (s.positions.get? ticker).getD (lit 0)

/-- The state behind a fill. -/
def settle (view : BarView F) (order : Order F) (fill : FillResult F) : EngineState F :=
  if fill.filled then
    let position :=
      match order.side with
      | .buy => s.position order.ticker + fill.fillQty
      | .sell => s.position order.ticker - fill.fillQty
    { s with
      capital :=
        match order.side with
        | .buy => s.capital - (fill.fillQty * fill.fillPrice + fill.commission)
        | .sell => s.capital + (fill.fillQty * fill.fillPrice - fill.commission)
      positions := s.positions.set order.ticker position
      totalCommission := s.totalCommission + fill.commission
      totalSlippage := s.totalSlippage + fill.slippageCost
      totalSpread := s.totalSpread + fill.spreadCost
      turnoverShares := s.turnoverShares + fill.fillQty
      tradeLog := s.tradeLog ++ [{
        bar := view.bar
        date := view.date
        asset := order.ticker
        side := order.side
        desiredQty := order.desired
        filledQty := fill.fillQty
        fillPrice := fill.fillPrice
        commission := fill.commission
        slippageCost := fill.slippageCost
        spreadCost := fill.spreadCost
        totalCost := fill.totalCost
        isPartial := fill.isPartial
        signalValue := order.signal
        positionAfter := position }] }
  else s

/-- `execute_order` and what follows it. -/
def trade (cfg : BacktestConfig F) (view : BarView F) (price : F) (order : Order F) :
    EngineState F :=
  s.settle view order (cfg.execution.executeOrder order.side order.desired price
    (view.liquidity order.ticker).1 (view.liquidity order.ticker).2 s.capital
    (s.position order.ticker))

/-- The size of a new position. -/
def newShares (cfg : BacktestConfig F) (view : BarView F) (sizingEquity price : F)
    (nAssets : ℕ) (ticker : String) : F :=
  cfg.execution.sizer.computeShares sizingEquity price (view.liquidity ticker).1 (lit 0.5) (lit 1.5)
    nAssets

/-- A buy signal: close a short, then go long. -/
def enter (cfg : BacktestConfig F) (view : BarView F) (sizingEquity : F) (nAssets : ℕ)
    (ticker : String) (signal price : F) : EngineState F :=
  let desired := newShares cfg view sizingEquity price nAssets ticker
  let covered :=
    if PyFloat.lt (s.position ticker) (lit 0) then
      s.trade cfg view price ⟨ticker, .buy, PyFloat.abs (s.position ticker), signal⟩
    else s
  if PyFloat.lt (lit 0) desired then covered.trade cfg view price ⟨ticker, .buy, desired, signal⟩
  else covered

/-- A sell signal: close a long, then go short where that is allowed. -/
def leave (cfg : BacktestConfig F) (view : BarView F) (sizingEquity : F) (nAssets : ℕ)
    (ticker : String) (signal price : F) : EngineState F :=
  let closed := s.trade cfg view price ⟨ticker, .sell, PyFloat.abs (s.position ticker), signal⟩
  if cfg.execution.allowShortSelling && PyFloat.lt signal (lit (-0.5)) then
    let desired := newShares cfg view sizingEquity price nAssets ticker
    if PyFloat.lt (lit 0) desired then closed.trade cfg view price ⟨ticker, .sell, desired, signal⟩
    else closed
  else closed

/-- What is done about one ticker; an order that came before may have changed its position. -/
def act (cfg : BacktestConfig F) (view : BarView F) (sizingEquity : F) (nAssets : ℕ)
    (item : String × F) : EngineState F :=
  match view.close item.1 with
  | none => s
  | some price =>
    if PyFloat.lt (lit 0) item.2 && PyFloat.le (s.position item.1) (lit 0) then
      s.enter cfg view sizingEquity nAssets item.1 item.2 price
    else if PyFloat.lt item.2 (lit 0) && PyFloat.lt (lit 0) (s.position item.1) then
      s.leave cfg view sizingEquity nAssets item.1 item.2 price
    else s

/-! ## One bar -/

/-- The equity at the closes of the decision bar. -/
def sizingEquity (view : BarView F) : F :=
  s.capital + PyFloat.sum (s.positions.items.filterMap fun item =>
    (view.decisionClose item.1).map fun price => item.2 * price)

/-- The tickers of a bar with their signals, in the order of their names. -/
def signalled (view : BarView F) (assets : List String) : List (String × F) :=
  ((assets.mergeSort fun a b => decide (a ≤ b)).filter fun t => (view.close t).isSome).map fun t =>
    (t, view.signal t)

/-- The long positions to close. -/
def exits (items : List (String × F)) : List (String × F) :=
  items.filter fun item => PyFloat.lt item.2 (lit 0) && PyFloat.lt (lit 0) (s.position item.1)

/-- The positions to open. -/
def entries (items : List (String × F)) : List (String × F) :=
  items.filter fun item => PyFloat.lt (lit 0) item.2 && PyFloat.le (s.position item.1) (lit 0)

/-- The cost of borrowing for one position. -/
def borrow (cfg : BacktestConfig F) (view : BarView F) (item : String × F) : EngineState F :=
  match view.close item.1 with
  | none => s
  | some price =>
    if PyFloat.lt item.2 (lit 0) then
      let cost := cfg.execution.borrow.dailyCost item.1 item.2 price
      { s with capital := s.capital - cost, totalBorrow := s.totalBorrow + cost }
    else s

/-- The value of the portfolio at the closes of the bar. -/
def portfolioValue (view : BarView F) : F :=
  s.positions.items.foldl (fun value item =>
    match view.close item.1 with
    | some price => value + item.2 * price
    | none => value) s.capital

/-- The daily return behind the last two values of the equity curves. -/
def recordReturns (value gross : F) : EngineState F :=
  match s.equityNet.getLast?, s.equityGross.getLast? with
  | some prev, some prevGross =>
    if PyFloat.lt (lit 0) prev then
      { s with
        dailyReturnsNet := s.dailyReturnsNet ++ [(value - prev) / prev]
        dailyReturnsGross := s.dailyReturnsGross ++
          [if PyFloat.lt (lit 0) prevGross then (gross - prevGross) / prevGross else lit 0] }
    else s
  | _, _ => s

/-- Mark to market. -/
def mark (view : BarView F) : EngineState F :=
  let value := s.portfolioValue view
  let gross := value + s.totalCommission + s.totalSlippage + s.totalSpread + s.totalBorrow
  let returned := s.recordReturns value gross
  { returned with equityNet := s.equityNet ++ [value], equityGross := s.equityGross ++ [gross] }

end EngineState

/-- One bar: exits before entries, the cost of borrowing, mark to market. -/
def runBar (cfg : BacktestConfig F) (assets : List String) (s : EngineState F)
    (view : BarView F) : EngineState F :=
  let equity := s.sizingEquity view
  let items := EngineState.signalled view assets
  let traded := (s.exits items ++ s.entries items).foldl
    (fun state item => state.act cfg view equity assets.length item) s
  let borrowed := traded.positions.items.foldl (fun state item => state.borrow cfg view item) traded
  borrowed.mark view

/-! ## The run -/

/-- `_delay` -/
def engineDelay (cfg : BacktestConfig F) : Except Raised ℕ :=
  if cfg.execution.executionDelayBars < 1 then
    .error (.valueError ("execution_delay_bars must be at least 1: a signal cannot " ++
      "fill at the close it was computed from"))
  else .ok cfg.execution.executionDelayBars.toNat

/-- The state in front of the first bar. -/
def EngineState.initial (capital : F) : EngineState F where
  capital := capital
  positions := Dict.empty
  equityGross := []
  equityNet := []
  tradeLog := []
  dailyReturnsNet := []
  dailyReturnsGross := []
  totalCommission := lit 0
  totalSlippage := lit 0
  totalSpread := lit 0
  totalBorrow := lit 0
  turnoverShares := lit 0

/-- The signals of an asset. -/
def assetSignals (features : Features F) (cfg : BacktestConfig F) (panel : Panel F) (start : ℤ)
    (nBars : ℕ) (ticker : String) : Except Raised (String × List F) :=
  match panel.get? ticker with
  | none => .error (.keyError ticker)
  | some ad =>
    (fun series => (ticker, series)) <$>
      (signalSeries features (ad.close.take nBars) cfg.strategy start).mapError .shape

/-- The signals of all assets. -/
def allSignals (features : Features F) (cfg : BacktestConfig F) (panel : Panel F) (start : ℤ)
    (nBars : ℕ) (assets : List String) : Except Raised (Dict String (List F)) :=
  (fun series => series.foldl (fun d item => d.set item.1 item.2) Dict.empty) <$>
    assets.mapM (assetSignals features cfg panel start nBars)

/-- The bars of a run. -/
def runBars (cfg : BacktestConfig F) (assets : List String) (view : ℕ → BarView F)
    (bars : List ℕ) (s : EngineState F) : EngineState F :=
  bars.foldl (fun state bar => runBar cfg assets state (view bar)) s

/-- The first bar of a run. -/
def firstBar (startBar : ℤ) (delay : ℕ) : ℕ :=
  (max startBar delay).toNat

/-- What is returned. -/
def EngineState.result (cfg : BacktestConfig F) (s : EngineState F) : StrategyResult F where
  equityCurveNet := s.equityNet
  equityCurveGross := s.equityGross
  dailyReturnsNet := s.dailyReturnsNet
  dailyReturnsGross := s.dailyReturnsGross
  tradeLog := s.tradeLog
  totalCommission := s.totalCommission
  totalSlippage := s.totalSlippage
  totalSpread := s.totalSpread
  totalBorrow := s.totalBorrow
  turnoverShares := s.turnoverShares
  finalCapital := s.equityNet.getLast?.getD cfg.initialCapital

/-- `_run_strategy` -/
def runStrategy (features : Features F) (cfg : BacktestConfig F) (panel : Panel F) (startBar : ℤ)
    (nBars : ℕ) (dates : Option (List String)) : Except Raised (StrategyResult F) := do
  let delay ← engineDelay cfg
  let assets := cfg.assets.filter fun t => decide (t ∈ panel.keys)
  let signals ← allSignals features cfg panel (max 0 (startBar - delay)) nBars assets
  let first := firstBar startBar delay
  if first < nBars ∧ dates.any (fun days => decide (days.length < nBars)) then .error .indexError
  else
    let bars := List.range' first (nBars - first)
    .ok ((runBars cfg assets (viewAt panel signals dates delay) bars
      (EngineState.initial cfg.initialCapital)).result cfg)

end QuantumSentinel.Backtest
