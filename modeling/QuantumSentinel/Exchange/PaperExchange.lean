import QuantumSentinel.Exchange.Engine
import QuantumSentinel.Lib.Transition

/-!
# Paper exchange: the exchange

`paper_exchange.py`: orders are checked against cash and position, travel for the
latency, and reach the matching engine; cash and position change from fill events only.

Main results:

- Definition `PaperExchange.submitOrder`, `PaperExchange.cancelOrder`,
  `PaperExchange.advanceTo` and `PaperExchange.onMarketEvent`: the operations.
- Definition `PaperExchange.machine`: an exchange that starts empty.

Current gaps:

- Reports and marks (`portfolio_summary`, `exchange_stats`) are left out.
- A heap queue is its contents in ascending order.
-/

namespace QuantumSentinel.Exchange

open Lib

/-! ## Positions -/

/-- `PaperPosition`. -/
structure PaperPosition where
  symbol : String
  quantity : ℚ
  avgEntryPrice : ℚ
  realizedPnl : ℚ
  unrealizedPnl : ℚ
deriving DecidableEq, Repr

namespace PaperPosition

/-- A new position of a symbol. -/
def flat (symbol : String) : PaperPosition where
  symbol := symbol
  quantity := 0
  avgEntryPrice := 0
  realizedPnl := 0
  unrealizedPnl := 0

/-- The size below which a closed position counts as flat. -/
def flatBelow : ℚ := 1 / 10000000000

/-- The quantity with the sign of the side. -/
def signed (side : TradeSide) (quantity : ℚ) : ℚ :=
  match side with
  | .buy => quantity
  | .sell => -quantity

/-- A fill against the position. -/
def closeFill (p : PaperPosition) (fillPrice signedQty : ℚ) : PaperPosition :=
  let closeQty := min |signedQty| |p.quantity|
  let pnlPerUnit :=
    if p.quantity < 0 then -(fillPrice - p.avgEntryPrice) else fillPrice - p.avgEntryPrice
  let realized := p.realizedPnl + closeQty * pnlPerUnit
  let remaining := |signedQty| - closeQty
  if 0 < remaining then
    { p with
      realizedPnl := realized
      quantity := if 0 < signedQty then remaining else -remaining
      avgEntryPrice := fillPrice }
  else
    let quantity := p.quantity + signedQty
    if |quantity| < flatBelow then
      { p with realizedPnl := realized, quantity := 0, avgEntryPrice := 0 }
    else
      { p with realizedPnl := realized, quantity := quantity }

/-- A fill that opens the position or adds to it. -/
def openFill (p : PaperPosition) (fillPrice fillQty signedQty : ℚ) : PaperPosition :=
  let totalCost := |p.quantity| * p.avgEntryPrice + fillQty * fillPrice
  let quantity := p.quantity + signedQty
  if 0 < |quantity| then
    { p with quantity := quantity, avgEntryPrice := totalCost / |quantity| }
  else
    { p with quantity := quantity }

/-- `apply_fill`. -/
def applyFill (p : PaperPosition) (fillPrice fillQty : ℚ) (side : TradeSide) :
    PaperPosition :=
  let signedQty := signed side fillQty
  if (0 < p.quantity ∧ signedQty < 0) ∨ (p.quantity < 0 ∧ 0 < signedQty) then
    p.closeFill fillPrice signedQty
  else
    p.openFill fillPrice fillQty signedQty

end PaperPosition

/-! ## The state of the exchange -/

/-- The arguments of the constructor; a negative latency is an error. -/
structure ExchangeConfig where
  symbol : String
  latencyMs : ℚ
  initialCash : ℚ
  grid : TickGrid
  latency_nonneg : 0 ≤ latencyMs

/-- The sequential id of the `n`th order: a P and at least eight digits. -/
def paperId (n : ℕ) : String :=
  String.ofList ('P' :: (Nat.toDigits 10 n).leftpad 8 '0')

theorem paperId_toList (n : ℕ) :
    (paperId n).toList = 'P' :: (Nat.toDigits 10 n).leftpad 8 '0' := by
  simp [paperId]

/-- Different orders get different ids. -/
theorem paperId_injective {n m : ℕ} (h : paperId n = paperId m) : n = m := by
  have hlist := congrArg String.toList h
  rw [paperId_toList, paperId_toList] at hlist
  have hvalue := congrArg (fun digits => Nat.ofDigitChars 10 digits 0) (List.cons.inj hlist).2
  simpa [List.leftpad, Nat.ofDigitChars_append, Nat.ofDigitChars_replicate_zero] using hvalue

/-- Random digits are no paper id. -/
theorem HexId.ne_paperId (uuid : HexId) (n : ℕ) : uuid.text ≠ paperId n := by
  intro h
  have hhex := uuid.hex
  rw [h, paperId_toList, List.all_cons] at hhex
  have hP : isHexDigit 'P' = false := by decide
  rw [hP] at hhex
  cases hhex

/-- An order in flight: its arrival time, its sequence number and the order. -/
structure Flight where
  arrival : ℚ
  seq : ℕ
  order : Ref
deriving DecidableEq, Repr

/-- The order of the heap queue: by arrival, then by sequence number. -/
def Flight.before (f g : Flight) : Bool :=
  f.arrival < g.arrival || (decide (f.arrival = g.arrival) && decide (f.seq < g.seq))

/-- `heapq.heappush` on the contents in ascending order. -/
def pushFlight (f : Flight) (flights : List Flight) : List Flight :=
  (flights.takeWhile fun g => g.before f) ++ f :: flights.dropWhile fun g => g.before f

/-- `PaperExchange`. -/
structure PaperExchange where
  config : ExchangeConfig
  cash : ℚ
  engine : MatchingEngine
  positions : Dict String PaperPosition
  fillHistory : List Fill
  orderHistory : List Ref
  eventLog : List ExchangeEvent
  decisionMid : Dict String (Option ℚ)
  arrivalMid : Dict String (Option ℚ)
  midHistory : List (ℚ × ℚ)
  byId : Dict String Ref
  orderSeq : ℕ
  inflight : List Flight
  marketCostEstimate : Dict String ℚ
  seq : ℕ
  eventCount : ℕ
  currentTime : ℚ
  hasExpiring : Bool

/-- The arguments of `submit_order`. -/
structure OrderRequest where
  side : TradeSide
  quantity : ℚ
  orderType : OrderType
  limitPrice : Option ℚ
  stopPrice : Option ℚ
  timeInForce : TimeInForce
  expiresAt : Option ℚ
deriving DecidableEq, Repr

/-- Membership in `_WORKING`. -/
def OrderStatus.isWorking : OrderStatus → Bool
  | .submitted | .accepted | .queued | .partiallyFilled => true
  | _ => false

/-- The price a working limit or stop order commits cash at. -/
def Order.commitPrice (o : Order) : ℚ :=
  (o.limitPrice.or o.stopPrice).getD 0

/-- The loop of `_estimate_market_buy_cost` over the ask levels. -/
def estimateFrom (heap : Heap) :
    List LevelQueue → (remaining cost : ℚ) → Option ℚ → Option ℚ
  | [], remaining, cost, lastPrice => lastPrice.map fun p => cost + max 0 remaining * p
  | level :: rest, remaining, cost, _ =>
    let take := min remaining (marketSize heap level.orders)
    if remaining - take ≤ eps then
      some (cost + take * level.price + max 0 (remaining - take) * level.price)
    else
      estimateFrom heap rest (remaining - take) (cost + take * level.price)
        (some level.price)

/-- `_estimate_market_buy_cost`. -/
def OrderBook.estimateMarketBuyCost (b : OrderBook) (quantity : ℚ) : Option ℚ :=
  estimateFrom b.heap b.askLevels quantity 0 none

namespace PaperExchange

/-- `PaperExchange.__init__`. -/
def empty (config : ExchangeConfig) : PaperExchange where
  config := config
  cash := config.initialCash
  engine := ⟨OrderBook.empty config.grid config.symbol, [], []⟩
  positions := Dict.empty
  fillHistory := []
  orderHistory := []
  eventLog := []
  decisionMid := Dict.empty
  arrivalMid := Dict.empty
  midHistory := []
  byId := Dict.empty
  orderSeq := 0
  inflight := []
  marketCostEstimate := Dict.empty
  seq := 0
  eventCount := 0
  currentTime := 0
  hasExpiring := false

variable (x : PaperExchange)

/-- The book of the engine. -/
abbrev book : OrderBook :=
  x.engine.book

/-- An order object. -/
abbrev order (r : Ref) : Order :=
  x.engine.book.heap r

/-- The exchange over another book. -/
def withBook (book : OrderBook) : PaperExchange :=
  { x with engine := { x.engine with book := book } }

/-! ## Cash and shares that orders commit -/

/-- `position_quantity`. -/
def positionQuantity : ℚ :=
  ((x.positions.get? x.config.symbol).map PaperPosition.quantity).getD 0

/-- `_working`. -/
def working (side : TradeSide) : List Ref :=
  x.orderHistory.filter fun r =>
    decide ((x.order r).side = side) && (x.order r).status.isWorking

/-- The cash `committed_cash` counts for one working buy order. -/
def commitment (o : Order) : ℚ :=
  if o.orderType = .market then
    (x.marketCostEstimate.get? o.orderId).getD 0
  else
    o.remainingQuantity * o.commitPrice

/-- `committed_cash`. -/
def committedCash : ℚ :=
  ((x.working .buy).map fun r => x.commitment (x.order r)).sum

/-- `available_cash`. -/
def availableCash : ℚ :=
  x.cash - x.committedCash

/-- `sellable_quantity`. -/
def sellableQuantity : ℚ :=
  x.positionQuantity - ((x.working .sell).map fun r => (x.order r).remainingQuantity).sum

/-- The cost `_pretrade_reject_reason` checks for a buy order. -/
def buyCost (o : Order) : Option ℚ :=
  if o.orderType = .market then
    x.book.estimateMarketBuyCost o.quantity
  else
    some (o.quantity * o.commitPrice)

/-- The exchange after `_pretrade_reject_reason` noted the estimate of a market buy. -/
def noteEstimate (o : Order) : PaperExchange :=
  match o.side, o.orderType, x.book.estimateMarketBuyCost o.quantity with
  | .buy, .market, some cost =>
    { x with marketCostEstimate := x.marketCostEstimate.set o.orderId cost }
  | _, _, _ => x

/-- The tolerance of the cash check. -/
def cashTolerance : ℚ := 1 / 1000000

/-- `_pretrade_reject_reason`. -/
def pretradeRejectReason (o : Order) : Option Reason :=
  match o.side with
  | .buy =>
    match x.buyCost o with
    | none => none
    | some cost =>
      if x.availableCash + cashTolerance < cost then
        some (.insufficientCash cost x.availableCash)
      else
        none
  | .sell => if x.sellableQuantity + eps < o.quantity then some .noShortSelling else none

/-! ## Fill settlement -/

/-- `_apply_fill`. -/
def applyFill (orderId : String) (price quantity : ℚ) (side : TradeSide) (timestamp : ℚ)
    (aggressor : Bool) : PaperExchange :=
  let position :=
    (x.positions.get? x.config.symbol).getD (PaperPosition.flat x.config.symbol)
  let fill : Fill :=
    { orderId := orderId
      fillPrice := price
      fillQuantity := quantity
      timestamp := timestamp
      isPartial := (x.byId.get? orderId).any fun r => (x.order r).status ≠ .filled
      aggressor := aggressor
      side := some side }
  { x with
    positions := x.positions.set x.config.symbol (position.applyFill price quantity side)
    cash := x.cash + match side with
      | .buy => -price * quantity
      | .sell => price * quantity
    fillHistory := x.fillHistory ++ [fill] }

/-- One event of `_settle`; a fill event carries fill details. -/
def settleEvent (event : ExchangeEvent) : PaperExchange :=
  let noted := { x with eventLog := x.eventLog ++ [event] }
  match event.eventType.isFill, event.details with
  | true, .fill details =>
    noted.applyFill (event.orderId.getD "") details.fillPrice details.fillQuantity
      details.side event.timestamp details.taker
  | _, _ => noted

/-- `_settle`. -/
def settle (events : List ExchangeEvent) : PaperExchange :=
  events.foldl settleEvent x

/-! ## Submission and cancel -/

/-- `_activate`. -/
def activate (r : Ref) : PaperExchange :=
  let o := x.order r
  let (engine, events) := x.engine.submitOrder r (o.activeAt.getD x.currentTime)
  let arrived :=
    { x with arrivalMid := x.arrivalMid.set o.orderId x.book.midPrice, engine := engine }
  let settled := arrived.settle events
  { settled with marketCostEstimate := settled.marketCostEstimate.erase o.orderId }

/-- The order that `submit_order` creates. -/
def requestedOrder (request : OrderRequest) : Order :=
  Order.new (paperId (x.orderSeq + 1)) x.config.symbol request.side request.orderType
    request.quantity request.limitPrice request.stopPrice request.timeInForce x.currentTime
    request.expiresAt .paper

/-- The exchange with the new order in its records. -/
def recorded (o : Order) : PaperExchange :=
  { (x.withBook (x.book.alloc o)) with
    orderSeq := x.orderSeq + 1
    orderHistory := x.orderHistory ++ [x.book.nextRef]
    byId := x.byId.set o.orderId x.book.nextRef
    decisionMid := x.decisionMid.set o.orderId x.book.midPrice }

/-- `event_log.append` of an event of the exchange itself. -/
def logEvent (eventType : ExchangeEventType) (orderId : String) (details : EventDetails) :
    PaperExchange :=
  { x with
    eventLog := x.eventLog ++
      [{ timestamp := x.currentTime
         eventType := eventType
         orderId := some orderId
         symbol := x.config.symbol
         details := details }] }

/-- An order that the checks refused. -/
def refuse (r : Ref) (orderId : String) (reason : Reason) : PaperExchange :=
  (x.withBook (x.book.modify r (withStatus .rejected))).logEvent .orderRejected orderId
    (.reason reason)

/-- The order with its arrival time. -/
def withActiveAt (activeAt : ℚ) (o : Order) : Order :=
  { o with activeAt := some activeAt }

/-- An accepted order goes on its way. -/
def dispatch (r : Ref) (o : Order) : PaperExchange :=
  let activeAt := x.currentTime + x.config.latencyMs / 1000
  let stamped :=
    { x.withBook (x.book.modify r (withActiveAt activeAt)) with
      hasExpiring := x.hasExpiring || o.expiresAt.isSome }
  if 0 < x.config.latencyMs then
    { stamped with
      inflight := pushFlight ⟨activeAt, stamped.seq, r⟩ stamped.inflight
      seq := stamped.seq + 1 }.logEvent .orderSubmitted o.orderId (.inFlightUntil activeAt)
  else
    stamped.activate r

/-- `submit_order`. -/
def submitOrder (request : OrderRequest) : PaperExchange :=
  let o := x.requestedOrder request
  let entered := (x.noteEstimate o).recorded o
  match x.pretradeRejectReason o with
  | some reason => entered.refuse x.book.nextRef o.orderId reason
  | none => entered.dispatch x.book.nextRef o

/-- `cancel_order`. -/
def cancelOrder (orderId : String) : PaperExchange :=
  match x.inflight.find? fun f => (x.order f.order).orderId = orderId with
  | some f =>
    { x.withBook (x.book.modify f.order (withStatus .cancelled)) with
      inflight := x.inflight.eraseP fun f => (x.order f.order).orderId = orderId
      marketCostEstimate := x.marketCostEstimate.erase orderId }.logEvent .orderCancelled
        orderId (.reason .cancelledInFlight)
  | none =>
    let (engine, events) := x.engine.cancelOrder orderId x.currentTime
    { x with engine := engine, eventLog := x.eventLog ++ events }

/-! ## Clock and market events -/

/-- The loop of `advance_to` that releases the orders whose time has come. -/
def releaseFrom (timestamp : ℚ) : List Flight → PaperExchange → PaperExchange
  | [], x => { x with inflight := [] }
  | f :: rest, x =>
    if f.arrival ≤ timestamp + eps then
      releaseFrom timestamp rest
        ({ x with inflight := rest, currentTime := max x.currentTime f.arrival }.activate
          f.order)
    else
      { x with inflight := f :: rest }

/-- `advance_to`. -/
def advanceTo (timestamp : ℚ) : PaperExchange :=
  let released := releaseFrom timestamp x.inflight x
  let moved := { released with currentTime := max released.currentTime timestamp }
  if moved.hasExpiring then
    let (engine, events) := moved.engine.expireOrders moved.currentTime
    { moved with engine := engine }.settle events
  else
    moved

/-- The mid history after an event. -/
def noteMid (timestamp : ℚ) : PaperExchange :=
  match x.book.midPrice with
  | none => x
  | some mid =>
    if x.midHistory.getLast?.any fun last => last.2 = mid then
      x
    else
      { x with midHistory := x.midHistory ++ [(timestamp, mid)] }

/-- `on_market_event`. -/
def onMarketEvent (event : BookEvent) (uuid : HexId) : PaperExchange :=
  let advanced := x.advanceTo event.timestamp
  let (engine, events) := advanced.engine.onMarketEvent event uuid
  let applied := { advanced with engine := engine, eventCount := advanced.eventCount + 1 }
  (applied.settle events).noteMid event.timestamp

/-! ## Runs -/

/-- An operation on the exchange. -/
inductive Op
  | submitOrder (request : OrderRequest)
  | cancelOrder (orderId : String)
  | advanceTo (timestamp : ℚ)
  | onMarketEvent (event : BookEvent) (uuid : HexId)

/-- One operation. -/
def apply : Op → PaperExchange
  | .submitOrder request => x.submitOrder request
  | .cancelOrder orderId => x.cancelOrder orderId
  | .advanceTo timestamp => x.advanceTo timestamp
  | .onMarketEvent event uuid => x.onMarketEvent event uuid

/-- An exchange that starts empty. -/
def machine (config : ExchangeConfig) : Machine PaperExchange Op where
  init := empty config
  step := fun x op => some (x.apply op)

end PaperExchange

end QuantumSentinel.Exchange
