import QuantumSentinel.Backtest.Engine

/-!
# Backtests: the event simulator

`event_simulator.py`: market events give signals, signals give orders, and an order is filled
on the next bar.  A strategy reads the history it is given so far; the crossover strategy has
prepared its series from the whole of the prices.

Main results:

- Definition `Portfolio.processFill`: what a fill changes.
- Definition `onMarket`: the signals of a strategy.
- Definition `eventBar`: one bar.
- Definition `runEventBacktest`: the run, with its errors.

Current gaps:

- The performance figures, computed from the curves behind the last bar.
-/

namespace QuantumSentinel.Backtest

open Lib

/-! ## Events -/

/-- `SignalEvent` -/
structure SignalEvent (F : Type) where
  timestamp : ℕ
  ticker : String
  signalStrength : F
  suggestedDirection : ℤ

/-- `OrderEvent`, of the only type there is. -/
structure OrderEvent (F : Type) where
  timestamp : ℕ
  ticker : String
  quantity : F

/-- `FillEvent` -/
structure FillEvent (F : Type) where
  timestamp : ℕ
  ticker : String
  quantity : F
  fillPrice : F
  commission : F
  slippage : F
  borrowCost : F

/-- `TransactionCostModel` -/
structure TransactionCostModel (F : Type) where
  commissionPct : F
  spreadBps : F
  marketImpactBps : F
  borrowRateAnnual : F
  minCommission : F

/-- An entry of `trade_log`, with the bar it was executed at. -/
structure EventTrade (F : Type) where
  bar : ℕ
  timestamp : ℕ
  ticker : String
  qty : F
  price : F
  commission : F
  slippage : F

/-- `Portfolio` -/
structure Portfolio (F : Type) where
  initialCapital : F
  allowShort : Bool
  leverageLimit : F
  cash : F
  positions : Dict String F
  avgCosts : Dict String F
  equityCurve : List F
  returns : List F
  tradeLog : List (EventTrade F)
  totalCommission : F
  totalSlippage : F
  totalBorrow : F

variable {F : Type} [PyFloat F]

/-! ## Costs -/

/-- `cost_presets` -/
def costPreset (name : String) : TransactionCostModel F :=
  if name = "zero_cost" then ⟨lit 0, lit 0, lit 0, lit 0, lit 0⟩
  else if name = "institutional" then ⟨lit 0.0002, lit 1, lit 0.5, lit 0.005, lit 0.5⟩
  else ⟨lit 0.001, lit 5, lit 2, lit 0.015, lit 1⟩

/-- `compute_fill` at an opening price. -/
def TransactionCostModel.computeFill (m : TransactionCostModel F) (order : OrderEvent F)
    (basePrice dailyVol : F) : FillEvent F :=
  let qty := order.quantity
  let direction : F := if PyFloat.lt (lit 0) qty then lit 1 else lit (-1)
  let spreadCost := basePrice * (m.spreadBps / lit 1e4)
  let impactCost := basePrice * (m.marketImpactBps / lit 1e4) * (dailyVol / lit 0.01)
  let fillPrice := basePrice + direction * (spreadCost + impactCost)
  let notional := PyFloat.abs qty * fillPrice
  { timestamp := order.timestamp
    ticker := order.ticker
    quantity := qty
    fillPrice := fillPrice
    commission := pyMax (notional * m.commissionPct) m.minCommission
    slippage := PyFloat.abs qty * (spreadCost + impactCost)
    borrowCost :=
      if PyFloat.lt qty (lit 0) then
        PyFloat.abs qty * fillPrice * (m.borrowRateAnnual / lit 252)
      else lit 0 }

/-! ## The portfolio -/

namespace Portfolio

/-- A portfolio that holds cash only. -/
def initial (capital : F) (allowShort : Bool) (leverageLimit : F) : Portfolio F where
  initialCapital := capital
  allowShort := allowShort
  leverageLimit := leverageLimit
  cash := capital
  positions := Dict.empty
  avgCosts := Dict.empty
  equityCurve := [capital]
  returns := [lit 0]
  tradeLog := []
  totalCommission := lit 0
  totalSlippage := lit 0
  totalBorrow := lit 0

variable (p : Portfolio F)

/-- `positions.get(ticker, 0.0)` -/
def position (ticker : String) : F :=
  (p.positions.get? ticker).getD (lit 0)

/-- `equity_curve[-1]` -/
def lastEquity : F :=
  p.equityCurve.getLast?.getD p.initialCapital

/-- The cost basis behind a fill. -/
def basis (fill : FillEvent F) : Dict String F :=
  let prev := p.position fill.ticker
  let new := prev + fill.quantity
  if PyFloat.beq new (lit 0) then p.avgCosts.erase fill.ticker
  else if PyFloat.beq prev (lit 0) ||
      (PyFloat.lt (lit 0) prev != PyFloat.lt (lit 0) new) then
    p.avgCosts.set fill.ticker fill.fillPrice
  else if PyFloat.lt (PyFloat.abs prev) (PyFloat.abs new) then
    p.avgCosts.set fill.ticker
      (((p.avgCosts.get? fill.ticker).getD fill.fillPrice * PyFloat.abs prev +
        fill.fillPrice * PyFloat.abs fill.quantity) / PyFloat.abs new)
  else p.avgCosts

/-- `process_fill` -/
def processFill (bar : ℕ) (fill : FillEvent F) : Portfolio F :=
  { p with
    positions := p.positions.set fill.ticker (p.position fill.ticker + fill.quantity)
    avgCosts := p.basis fill
    cash := p.cash - (fill.quantity * fill.fillPrice + fill.commission + fill.borrowCost)
    totalCommission := p.totalCommission + fill.commission
    totalSlippage := p.totalSlippage + fill.slippage
    totalBorrow := p.totalBorrow + fill.borrowCost
    tradeLog := p.tradeLog ++ [{
      bar := bar
      timestamp := fill.timestamp
      ticker := fill.ticker
      qty := PyFloat.round fill.quantity 2
      price := PyFloat.round fill.fillPrice 4
      commission := PyFloat.round fill.commission 4
      slippage := PyFloat.round fill.slippage 4 }] }

/-- `update_equity`; the order of a set of names is that of the interpreter. -/
def updateEquity (setOrder : List String → List String) (prices : Dict String F) : Portfolio F :=
  let value := PyFloat.sum ((setOrder (p.positions.keys ++ prices.keys)).map fun ticker =>
    p.position ticker * (prices.get? ticker).getD (lit 0))
  let equity := p.cash + value
  { p with
    equityCurve := p.equityCurve ++ [equity]
    returns := p.returns ++
      [match p.equityCurve.getLast? with
        | some prev => (equity - prev) / pyMax (PyFloat.abs prev) (lit 1e-9)
        | none => lit 0] }

/-- `accrue_borrow` -/
def accrueBorrow (prices : Dict String F) (annualRate : F) : Portfolio F :=
  let dailyCost := PyFloat.sum ((p.positions.items.filter fun item =>
    PyFloat.lt item.2 (lit 0)).map fun item =>
      PyFloat.abs item.2 * (prices.get? item.1).getD (lit 0) * annualRate / lit 252)
  { p with
    cash := p.cash - dailyCost
    totalBorrow := p.totalBorrow + dailyCost }

/-- The gross exposure behind a fill. -/
def projectedNotional (prices : Dict String F) (fill : FillEvent F) : F :=
  let held := PyFloat.sum (p.positions.items.map fun item =>
    PyFloat.abs (item.2 + if item.1 = fill.ticker then fill.quantity else lit 0) *
      (prices.get? item.1).getD (lit 0))
  if fill.ticker ∈ p.positions.keys then held
  else held + PyFloat.abs fill.quantity * (prices.get? fill.ticker).getD (lit 0)

end Portfolio

/-! ## Strategies -/

/-- The strategies and their parameters. -/
inductive EventStrategy (F : Type) where
  | maCrossover (fast slow : ℤ)
  | momentum (lookback nLong nShort : ℤ)
  | meanReversion (window : ℤ) (nStd : F)

/-- The prices so far, by ticker. -/
abbrev History (F : Type) := Dict String (List F)

/-- The signal of the crossover on one market event.  Without a prepared series it is the one of
the end of the history. -/
def maCrossoverSignal (fast slow : ℤ) (series : Option F) (history : History F)
    (ticker : String) : Except Raised F :=
  match series with
  | some signal => .ok signal
  | none =>
    let tail := sliceFrom ((history.get? ticker).getD []) (-(max fast slow + 1))
    if tail = [] then .ok (lit 0)
    else do
      let signals ← (maCrossoverSeries tail fast slow).mapError Raised.shape
      match signals.getLast? with
      | some signal => .ok signal
      | none => .error .indexError

/-- `MACrossoverStrategy.on_market` -/
def maCrossoverOnMarket (bar : ℕ) (ticker : String) (signal : F) : List (SignalEvent F) :=
  if PyFloat.lt (lit 0) signal then [⟨bar, ticker, lit 1, 1⟩]
  else if PyFloat.lt signal (lit 0) then [⟨bar, ticker, lit (-1), -1⟩]
  else []

/-- The momentum of one ticker, where its history is long enough. -/
def momentumScore (lookback : ℤ) (item : String × List F) :
    Except Raised (Option (String × F)) :=
  if lookback ≤ item.2.length then
    match pyGet? item.2 (-1), pyGet? item.2 (-lookback) with
    | some last, some before =>
      .ok (some (item.1, last / pyMax before (lit 1e-9) - lit 1))
    | _, _ => .error .indexError
  else .ok none

/-- The signals of tickers that are ranked by their momentum. -/
def rankedSignals (nLong nShort : ℤ) (bar : ℕ) (scores : List (String × F)) :
    List (SignalEvent F) :=
  let ranked := scores.mergeSort fun a b => !PyFloat.lt a.2 b.2
  let n := ranked.length
  let long := min nLong (n / 3 : ℕ)
  let short := min nShort (n / 3 : ℕ)
  ranked.zipIdx.map fun entry =>
    if entry.2 < long then ⟨bar, entry.1.1, entry.1.2, 1⟩
    else if n - short ≤ entry.2 then ⟨bar, entry.1.1, entry.1.2, -1⟩
    else ⟨bar, entry.1.1, lit 0, 0⟩

/-- `MomentumStrategy.on_market`, on its call number `calls`. -/
def momentumOnMarket (lookback nLong nShort : ℤ) (bar calls : ℕ) (history : History F) :
    Except Raised (List (SignalEvent F)) :=
  if calls % 5 ≠ 0 then .ok []
  else do
    let scores ← history.items.mapM (momentumScore lookback)
    .ok (rankedSignals nLong nShort bar (scores.filterMap id))

/-- `MeanReversionStrategy.on_market` -/
def meanReversionOnMarket (window : ℤ) (nStd : F) (bar : ℕ) (ticker : String)
    (history : History F) : List (SignalEvent F) :=
  let prices := (history.get? ticker).getD []
  if prices.length < window then []
  else
    let w := sliceFrom prices (-window)
    let mu := PyFloat.mean w
    let sd := PyFloat.std w 0
    if PyFloat.lt sd (lit 1e-9) then []
    else
      match prices.getLast? with
      | none => []
      | some price =>
        let z := (price - mu) / sd
        if PyFloat.lt z (-nStd) then [⟨bar, ticker, -z, 1⟩]
        else if PyFloat.lt nStd z then [⟨bar, ticker, z, -1⟩]
        else if PyFloat.lt (PyFloat.abs z) (lit 0.5) then [⟨bar, ticker, lit 0, 0⟩]
        else []

/-- What the simulator reads of the prices at one bar. -/
structure EventView (F : Type) where
  bar : ℕ
  /-- `current_prices` -/
  prices : Dict String F
  /-- the prepared signal of the bar, where there is one -/
  series : String → Option F

/-- `on_market`, on call number `calls` of the strategy. -/
def onMarket (strategy : EventStrategy F) (view : EventView F) (history : History F) (calls : ℕ)
    (ticker : String) : Except Raised (List (SignalEvent F)) :=
  match strategy with
  | .maCrossover fast slow =>
    maCrossoverOnMarket view.bar ticker <$>
      maCrossoverSignal fast slow (view.series ticker) history ticker
  | .momentum lookback nLong nShort => momentumOnMarket lookback nLong nShort view.bar calls history
  | .meanReversion window nStd => .ok (meanReversionOnMarket window nStd view.bar ticker history)

/-! ## Sizes -/

/-- The sizers and their parameters. -/
inductive EventSizer (F : Type) where
  | fixedFractional (fraction : F)
  | volatilityTarget (targetVol : F) (lookback : ℤ)

/-- `size` of the sizers; the direction of a signal is a whole number. -/
def EventSizer.size (sizer : EventSizer F) (signal : SignalEvent F) (price equity : F)
    (history : List F) : F :=
  match sizer with
  | .fixedFractional fraction =>
    if PyFloat.le price (lit 0) then lit 0
    else lit signal.suggestedDirection *
      (equity * fraction * PyFloat.abs signal.signalStrength) / price
  | .volatilityTarget targetVol lookback =>
    let returns := if 2 < history.length then simpleReturns history else []
    let assetVol := PyFloat.std (sliceFrom returns (-lookback)) 1 * PyFloat.sqrt (lit 252)
    if PyFloat.le price (lit 0) || decide (returns.length < lookback) then lit 0
    else if PyFloat.lt assetVol (lit 1e-9) then lit 0
    else
      let targetValue := equity * pyMin (targetVol / assetVol) (lit 5)
      lit signal.suggestedDirection * pyMin targetValue (equity * lit 0.25) / price

/-! ## One bar -/

/-- The parameters of a run. -/
structure EventConfig (F : Type) where
  tickers : List String
  strategy : EventStrategy F
  initialCapital : F
  costModelName : String
  allowShort : Bool
  sizer : EventSizer F
  /-- `params.get("leverage_limit")` -/
  leverageLimit : Option F
  /-- the order in which the interpreter goes through a set -/
  setOrder : List String → List String

/-- The variables of the loop. -/
structure EventState (F : Type) where
  portfolio : Portfolio F
  history : History F
  pendingOrders : List (OrderEvent F)
  /-- the calls of `on_market` so far -/
  calls : ℕ

namespace EventConfig

variable (cfg : EventConfig F)

/-- `cost_model` -/
def costModel : TransactionCostModel F :=
  costPreset cfg.costModelName

/-- The volatility of the last prices that are known. -/
def fillVolatility (history : List F) : F :=
  if 12 ≤ history.length then
    pyMax (PyFloat.std (simpleReturns (sliceFrom history (-12))) 1) (lit 1e-6)
  else lit 0.01

/-- What is executed of an order: all of it, nothing more than is held, or nothing. -/
def executed (view : EventView F) (history : History F) (p : Portfolio F)
    (order : OrderEvent F) : Option (FillEvent F) :=
  let openPrice := (view.prices.get? order.ticker).getD (lit 0)
  let dailyVol := fillVolatility ((history.get? order.ticker).getD [])
  let fill := cfg.costModel.computeFill order openPrice dailyVol
  let projected := p.projectedNotional view.prices fill / pyMax p.lastEquity (lit 1e-9)
  let held := p.position order.ticker
  let final :=
    if PyFloat.lt fill.quantity (lit 0) && !p.allowShort &&
        PyFloat.lt (held + fill.quantity) (lit 0) then
      cfg.costModel.computeFill { order with quantity := -held } openPrice dailyVol
    else fill
  if PyFloat.le openPrice (lit 0) then none
  else if PyFloat.lt (p.leverageLimit + lit 1e-9) projected then none
  else if PyFloat.lt (lit 1e-6) (PyFloat.abs final.quantity) then some final
  else none

/-- One pending order. -/
def fillOrder (view : EventView F) (history : History F) (p : Portfolio F)
    (order : OrderEvent F) : Portfolio F :=
  match cfg.executed view history p order with
  | some fill => p.processFill view.bar fill
  | none => p

/-- The pending orders are filled at the open of the bar. -/
def fillPending (view : EventView F) (s : EventState F) : EventState F :=
  if 0 < view.bar then
    { s with
      portfolio := s.pendingOrders.foldl (cfg.fillOrder view s.history) s.portfolio
      pendingOrders := [] }
  else s

/-- The cost of borrowing, and the pending orders. -/
def openBar (view : EventView F) (s : EventState F) : EventState F :=
  cfg.fillPending view
    { s with portfolio := s.portfolio.accrueBorrow view.prices cfg.costModel.borrowRateAnnual }

/-- The price of the bar joins the history of a ticker. -/
def record (view : EventView F) (history : History F) (ticker : String) : History F :=
  match view.prices.get? ticker with
  | some price => history.set ticker ((history.get? ticker).getD [] ++ [price])
  | none => history

/-- The signals of a bar, ticker by ticker. -/
def signals (view : EventView F) (history : History F) (calls : ℕ) :
    Except Raised (List (SignalEvent F)) :=
  List.flatten <$> cfg.tickers.zipIdx.mapM fun entry =>
    onMarket cfg.strategy view history (calls + entry.2 + 1) entry.1

/-- The order of a signal. -/
def orderOf (view : EventView F) (history : History F) (p : Portfolio F)
    (signal : SignalEvent F) : Option (OrderEvent F) :=
  let price := (view.prices.get? signal.ticker).getD (lit 0)
  let qty := cfg.sizer.size signal price p.lastEquity ((history.get? signal.ticker).getD [])
  let flat := -p.position signal.ticker
  if PyFloat.le price (lit 0) then none
  else if PyFloat.lt (PyFloat.abs qty) (lit 1e-4) then none
  else if signal.suggestedDirection = 0 then
    if PyFloat.lt (PyFloat.abs flat) (lit 1e-4) then none
    else some ⟨view.bar, signal.ticker, flat⟩
  else some ⟨view.bar, signal.ticker, qty⟩

end EventConfig

/-- One bar: the cost of borrowing, the orders of the bar before, the history, the signals and
their orders, mark to market. -/
def eventBar (cfg : EventConfig F) (s : EventState F) (view : EventView F) :
    Except Raised (EventState F) :=
  let filled := cfg.openBar view s
  let history := cfg.tickers.foldl (EventConfig.record view) filled.history
  (fun signals =>
    { portfolio := filled.portfolio.updateEquity cfg.setOrder view.prices
      history := history
      pendingOrders := filled.pendingOrders ++
        signals.filterMap (cfg.orderOf view history filled.portfolio)
      calls := filled.calls + cfg.tickers.length }) <$>
    cfg.signals view history filled.calls

/-! ## The run -/

/-- `current_prices` -/
def currentPrices (priceData : Dict String (List F)) (tickers : List String) (bar : ℕ) :
    Dict String F :=
  tickers.foldl (fun prices ticker =>
    match (priceData.get? ticker).bind fun values => values[bar]? with
    | some price => prices.set ticker price
    | none => prices) Dict.empty

/-- `prepare`: the series of the crossover. -/
def prepare (cfg : EventConfig F) (priceData : Dict String (List F)) :
    Except Raised (Dict String (List F)) :=
  match cfg.strategy with
  | .maCrossover fast slow =>
    (fun series => series.foldl (fun d item => d.set item.1 item.2) Dict.empty) <$>
      cfg.tickers.mapM fun ticker =>
        match priceData.get? ticker with
        | none => .error (.keyError ticker)
        | some prices =>
          (fun series => (ticker, series)) <$>
            (maCrossoverSeries prices fast slow).mapError Raised.shape
  | _ => .ok Dict.empty

/-- The view of the prices at a bar. -/
def eventViewAt (cfg : EventConfig F) (priceData series : Dict String (List F)) (bar : ℕ) :
    EventView F where
  bar := bar
  prices := currentPrices priceData cfg.tickers bar
  series ticker := (series.get? ticker).bind fun values => values[bar]?

/-- The length of the price arrays, when it is one. -/
def commonLength (cfg : EventConfig F) (priceData : Dict String (List F)) : Except Raised ℕ := do
  let lengths ← cfg.tickers.mapM fun ticker =>
    match priceData.get? ticker with
    | none => Except.error (Raised.keyError ticker)
    | some prices => .ok prices.length
  match lengths.dedup with
  | [length] => .ok length
  | _ => .error (.valueError "price_data must be date-aligned arrays of equal length")

/-- The state in front of the first bar. -/
def EventState.initial (cfg : EventConfig F) : EventState F where
  portfolio := Portfolio.initial cfg.initialCapital cfg.allowShort
    (cfg.leverageLimit.getD (if cfg.allowShort then lit 2 else lit 1))
  history := cfg.tickers.foldl (fun history ticker => history.set ticker []) Dict.empty
  pendingOrders := []
  calls := 0

/-- The bars of a run. -/
def eventBars (cfg : EventConfig F) (view : ℕ → EventView F) (bars : List ℕ) (s : EventState F) :
    Except Raised (EventState F) :=
  bars.foldlM (fun state bar => eventBar cfg state (view bar)) s

/-- `run_event_backtest` -/
def runEventBacktest (cfg : EventConfig F) (priceData : Dict String (List F)) :
    Except Raised (Portfolio F) := do
  let length ← commonLength cfg priceData
  let series ← prepare cfg priceData
  let final ← eventBars cfg (eventViewAt cfg priceData series) (List.range length)
    (EventState.initial cfg)
  .ok final.portfolio

end QuantumSentinel.Backtest
