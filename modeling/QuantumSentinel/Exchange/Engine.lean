import QuantumSentinel.Exchange.Book

/-!
# Paper exchange: the matching engine

`matching_engine.py`: paper orders are validated and executed against the book, stops
wait for a trigger print, and every execution of a paper order is an event of its own.

Main results:

- Definition `MatchingEngine.submitOrder`: validation and execution of an order.
- Definition `MatchingEngine.onMarketEvent`: maker fills and stop triggers.
- Definition `MatchingEngine.expireOrders`: expiry of resting orders and stops.

Current gaps:

- The texts of reasons are constructors that hold the data the text is printed from.
-/

namespace QuantumSentinel.Exchange

open Lib

/-- `ExchangeEventType`. -/
inductive ExchangeEventType
  | orderSubmitted
  | orderAccepted
  | orderQueued
  | orderTriggered
  | orderPartiallyFilled
  | orderFilled
  | orderCancelled
  | orderRejected
  | orderExpired
  | quoteUpdate
  | tradeEvent
  | bookUpdate
deriving DecidableEq, Repr

/-- Membership in `FILL_EVENTS`. -/
def ExchangeEventType.isFill : ExchangeEventType → Bool
  | .orderFilled | .orderPartiallyFilled => true
  | _ => false

/-- Why an order was rejected or cancelled. -/
inductive Reason
  /-- quantity must be positive -/
  | quantityNotPositive
  /-- limit order requires limit_price -/
  | limitPriceMissing
  /-- stop order requires stop_price -/
  | stopPriceMissing
  /-- price must be positive and a multiple of the tick size … -/
  | offGrid (tickSize : ℚ)
  /-- insufficient liquidity -/
  | insufficientLiquidity
  /-- FOK - insufficient liquidity for full fill -/
  | fokLiquidity
  /-- unfilled market remainder cancelled -/
  | marketRemainder
  /-- … remainder cancelled -/
  | remainderCancelled (timeInForce : TimeInForce)
  /-- insufficient available cash: order needs …, … available -/
  | insufficientCash (cost available : ℚ)
  /-- sell quantity exceeds the sellable position (no short selling) -/
  | noShortSelling
  /-- cancelled in flight -/
  | cancelledInFlight
deriving DecidableEq, Repr

/-- The details of a fill event. -/
structure FillDetails where
  fillPrice : ℚ
  fillQuantity : ℚ
  side : TradeSide
  /-- `liquidity`: taker, or else maker -/
  taker : Bool
  avgPrice : ℚ
  quantity : ℚ
  cumulativeFilled : ℚ
  remaining : ℚ
deriving DecidableEq, Repr

/-- The `details` dictionary of an event. -/
inductive EventDetails
  | empty
  | submitted (side : TradeSide) (orderType : OrderType) (quantity : ℚ)
  | fill (details : FillDetails)
  | reason (reason : Reason)
  | reasonFilled (reason : Reason) (filledQuantity : ℚ)
  | filledQuantity (filledQuantity : ℚ)
  | queued (price : Option ℚ) (quantity queueAhead : ℚ)
  | triggerPrice (price : ℚ)
  | inFlightUntil (activeAt : ℚ)
deriving DecidableEq, Repr

/-- `ExchangeEvent`. -/
structure ExchangeEvent where
  timestamp : ℚ
  eventType : ExchangeEventType
  orderId : Option String
  symbol : String
  details : EventDetails
deriving DecidableEq, Repr

/-- `_event`. -/
def orderEvent (now : ℚ) (eventType : ExchangeEventType) (o : Order)
    (details : EventDetails) : ExchangeEvent where
  timestamp := now
  eventType := eventType
  orderId := some o.orderId
  symbol := o.symbol
  details := details

/-- `_fill_event`. -/
def fillEvent (o : Order) (price quantity now : ℚ) (aggressor : Bool) : ExchangeEvent :=
  orderEvent now (if o.status = .filled then .orderFilled else .orderPartiallyFilled) o
    (.fill
      { fillPrice := price
        fillQuantity := quantity
        side := o.side
        taker := aggressor
        avgPrice := roundDecimals o.avgFillPrice 8
        quantity := o.quantity
        cumulativeFilled := o.filledQuantity
        remaining := o.remainingQuantity })

/-! ## Execution against the book -/

namespace OrderBook

variable (b : OrderBook)

/-- `_reject`. -/
def reject (r : Ref) (now : ℚ) (reason : Reason) : OrderBook × List ExchangeEvent :=
  (b.modify r (withStatus .rejected),
    [orderEvent now .orderRejected (b.heap r) (.reason reason)])

/-- The loop of `_take` over the fills of the resting orders. -/
def recordFills (r : Ref) (now : ℚ) : List Fill → OrderBook → OrderBook × List ExchangeEvent
  | [], b => (b, [])
  | fill :: rest, b =>
    let filled := b.modify r (Order.recordFill fill.fillPrice fill.fillQuantity now)
    let (last, events) := recordFills r now rest filled
    (last, fillEvent (filled.heap r) fill.fillPrice fill.fillQuantity now true :: events)

/-- `_take`. -/
def take (r : Ref) (now : ℚ) (limitPrice : Option ℚ) : OrderBook × List ExchangeEvent :=
  let o := b.heap r
  let (taken, fills) := b.consumeLiquidity o.side o.remainingQuantity now limitPrice true
  recordFills r now fills taken

/-- Whether `_available` still counts a level. -/
def withinLimit (aggressor : TradeSide) (limitPrice : Option ℚ) (level : LevelQueue) : Bool :=
  match limitPrice, aggressor with
  | none, _ => true
  | some limit, .buy => level.price ≤ limit + eps
  | some limit, .sell => limit - eps ≤ level.price

/-- The levels of the side an aggressor trades with, best first. -/
def oppositeLevels (aggressor : TradeSide) : List LevelQueue :=
  match aggressor with
  | .buy => b.askLevels
  | .sell => b.bidLevels

/-- `_available`. -/
def available (aggressor : TradeSide) (limitPrice : Option ℚ) : ℚ :=
  (((b.oppositeLevels aggressor).takeWhile (withinLimit aggressor limitPrice)).map
    fun level => marketSize b.heap level.orders).sum

/-- `_is_marketable`. -/
def isMarketable (o : Order) : Bool :=
  match o.limitPrice, o.side with
  | none, _ => false
  | some limit, .buy => b.bestAsk.any fun bestAsk => bestAsk - eps ≤ limit
  | some limit, .sell => b.bestBid.any fun bestBid => limit ≤ bestBid + eps

/-- `_execute_market_order`. -/
def executeMarketOrder (r : Ref) (now : ℚ) : OrderBook × List ExchangeEvent :=
  let (taken, events) := b.take r now none
  let o := taken.heap r
  if o.filledQuantity ≤ eps then
    let (rejected, more) := taken.reject r now .insufficientLiquidity
    (rejected, events ++ more)
  else if eps < o.remainingQuantity then
    -- a market order never rests
    (taken.modify r (withStatus .cancelled),
      events ++ [orderEvent now .orderCancelled o
        (.reasonFilled .marketRemainder o.filledQuantity)])
  else
    (taken, events)

/-- What happens to a limit order after it took liquidity. -/
def restRemainder (r : Ref) (now : ℚ) : OrderBook × List ExchangeEvent :=
  let o := b.heap r
  if o.remainingQuantity ≤ eps then
    (b, [])
  else if o.timeInForce = .ioc ∨ o.timeInForce = .fok then
    (b.modify r (withStatus .cancelled),
      [orderEvent now .orderCancelled o
        (.reasonFilled (.remainderCancelled o.timeInForce) o.filledQuantity)])
  else
    let rested := b.addOrder r now
    let queued := rested.heap r
    (rested, [orderEvent now .orderQueued queued
      (.queued queued.limitPrice queued.remainingQuantity queued.queueAhead)])

/-- Whether a FOK order finds too little liquidity. -/
def fokShort (o : Order) : Bool :=
  o.timeInForce = .fok && decide (b.available o.side o.limitPrice + eps < o.quantity)

/-- `_execute_limit_order`. -/
def executeLimitOrder (r : Ref) (now : ℚ) : OrderBook × List ExchangeEvent :=
  let o := b.heap r
  if b.fokShort o then
    b.reject r now .fokLiquidity
  else
    let (taken, events) := if b.isMarketable o then b.take r now o.limitPrice else (b, [])
    let (rested, more) := taken.restRemainder r now
    (rested, events ++ more)

/-- Why `submit_order` of the engine rejects an order. -/
def invalidReason (o : Order) : Option Reason :=
  let priceBad := fun price : ℚ => decide (price ≤ 0) || !b.grid.isOnGrid price
  if o.quantity ≤ 0 then
    some .quantityNotPositive
  else if (o.orderType = .limit ∨ o.orderType = .stopLimit) ∧ o.limitPrice = none then
    some .limitPriceMissing
  else if (o.orderType = .stop ∨ o.orderType = .stopLimit) ∧ o.stopPrice = none then
    some .stopPriceMissing
  else if o.limitPrice.any priceBad || o.stopPrice.any priceBad then
    some (.offGrid b.grid.tickSize)
  else
    none

end OrderBook

/-- Whether a print triggers a stop; a stop without a price never enters the list. -/
def isTriggered (tradePrice : ℚ) (o : Order) : Bool :=
  match o.stopPrice, o.side with
  | none, _ => false
  | some stop, .buy => stop - eps ≤ tradePrice
  | some stop, .sell => tradePrice ≤ stop + eps

/-- The order type a triggered stop executes as. -/
def OrderType.triggered : OrderType → OrderType
  | .stop => .market
  | _ => .limit

/-- The order with another type. -/
def withType (orderType : OrderType) (o : Order) : Order :=
  { o with orderType := orderType }

/-- `order.expires_at and now >= order.expires_at`: zero is no expiry. -/
def isExpired (now : ℚ) (o : Order) : Bool :=
  o.expiresAt.any fun expiresAt => expiresAt ≠ 0 && decide (expiresAt ≤ now)

/-! ## The engine -/

/-- `MatchingEngine`. -/
structure MatchingEngine where
  book : OrderBook
  eventLog : List ExchangeEvent
  pendingStops : List Ref

namespace MatchingEngine

variable (e : MatchingEngine)

/-- `event_log.extend`. -/
def logged (events : List ExchangeEvent) : MatchingEngine :=
  { e with eventLog := e.eventLog ++ events }

/-- The order as `submit_order` takes it over. -/
def received (o : Order) : Order :=
  { o with owner := .paper, symbol := if o.symbol = "" then e.book.symbol else o.symbol }

/-- The branches of `submit_order` behind the ORDER_SUBMITTED event. -/
def process (r : Ref) (now : ℚ) : MatchingEngine × List ExchangeEvent :=
  let o := e.book.heap r
  match e.book.invalidReason o with
  | some reason =>
    let (book, events) := e.book.reject r now reason
    ({ e with book := book }, events)
  | none =>
    let accepted := e.book.modify r (withStatus .accepted)
    let event := orderEvent now .orderAccepted o .empty
    match o.orderType with
    | .market =>
      let (book, events) := accepted.executeMarketOrder r now
      ({ e with book := book }, event :: events)
    | .limit =>
      let (book, events) := accepted.executeLimitOrder r now
      ({ e with book := book }, event :: events)
    | _ => ({ e with book := accepted, pendingStops := e.pendingStops ++ [r] }, [event])

/-- `submit_order` at the clock reading `now`. -/
def submitOrder (r : Ref) (now : ℚ) : MatchingEngine × List ExchangeEvent :=
  let taken := { e with book := e.book.modify r e.received }
  let o := taken.book.heap r
  let submitted := orderEvent now .orderSubmitted o (.submitted o.side o.orderType o.quantity)
  let (processed, events) := taken.process r now
  (processed.logged (submitted :: events), submitted :: events)

/-- The events of a cancel through the book. -/
def cancelEvents (now : ℚ) (book : OrderBook) : Option Ref → List ExchangeEvent
  | none => []
  | some r =>
    [orderEvent now .orderCancelled (book.heap r)
      (.filledQuantity (book.heap r).filledQuantity)]

/-- `cancel_order`: an untriggered stop, or else a resting order. -/
def cancelOrder (orderId : String) (now : ℚ) : MatchingEngine × List ExchangeEvent :=
  match e.pendingStops.find? fun r => (e.book.heap r).orderId = orderId with
  | some r =>
    let events := [orderEvent now .orderCancelled (e.book.heap r) .empty]
    ({ e with
        book := e.book.modify r (withStatus .cancelled)
        pendingStops := removeId e.book.heap orderId e.pendingStops }.logged events,
      events)
  | none =>
    let (book, cancelled) := e.book.cancelOrder orderId
    let events := cancelEvents now book cancelled
    ({ e with book := book }.logged events, events)

/-- The events for the fills `apply_market_event` reports. -/
def makerEvents (now : ℚ) (book : OrderBook) (fills : List Fill) : List ExchangeEvent :=
  fills.filterMap fun fill =>
    (book.orders.get? fill.orderId).map fun r =>
      fillEvent (book.heap r) fill.fillPrice fill.fillQuantity now false

/-- The execution of a triggered stop. -/
def executeTriggered (book : OrderBook) (r : Ref) (now : ℚ) :
    OrderBook × List ExchangeEvent :=
  let retyped := book.modify r (withType (book.heap r).orderType.triggered)
  match (book.heap r).orderType with
  | .stop => retyped.executeMarketOrder r now
  | _ => retyped.executeLimitOrder r now

/-- What `_check_stop_triggers` leaves. -/
structure StopRun where
  book : OrderBook
  stillPending : List Ref
  events : List ExchangeEvent

/-- The loop of `_check_stop_triggers`. -/
def checkStopTriggers (tradePrice now : ℚ) : List Ref → OrderBook → StopRun
  | [], book => ⟨book, [], []⟩
  | r :: rest, book =>
    if isTriggered tradePrice (book.heap r) then
      let triggered := orderEvent now .orderTriggered (book.heap r) (.triggerPrice tradePrice)
      let (executed, events) := executeTriggered book r now
      let run := checkStopTriggers tradePrice now rest executed
      { run with events := triggered :: events ++ run.events }
    else
      let run := checkStopTriggers tradePrice now rest book
      { run with stillPending := r :: run.stillPending }

/-- `on_market_event`. -/
def onMarketEvent (event : BookEvent) (uuid : HexId) :
    MatchingEngine × List ExchangeEvent :=
  let now := event.timestamp
  let (book, fills) := e.book.applyMarketEvent event uuid
  let maker := makerEvents now book fills
  let applied := { e with book := book }
  if event.eventType = .trade then
    let run := checkStopTriggers event.price now e.pendingStops book
    let events := maker ++ run.events
    ({ applied with book := run.book, pendingStops := run.stillPending }.logged events, events)
  else
    (applied.logged maker, maker)

/-- The loop of `expire_orders` over the items of the id index. -/
def expireResting (now : ℚ) :
    List (String × Ref) → OrderBook → OrderBook × List ExchangeEvent
  | [], book => (book, [])
  | (orderId, r) :: rest, book =>
    let o := book.heap r
    if o.owner = .paper && o.isActive && isExpired now o then
      match book.cancelOrder orderId with
      | (cancelled, some _) =>
        let expired := cancelled.modify r (withStatus .expired)
        let (last, events) := expireResting now rest expired
        (last, orderEvent now .orderExpired (expired.heap r) .empty :: events)
      | (same, none) => expireResting now rest same
    else
      expireResting now rest book

/-- The loop of `expire_orders` over the untriggered stops. -/
def expireStops (now : ℚ) : List Ref → OrderBook → StopRun
  | [], book => ⟨book, [], []⟩
  | r :: rest, book =>
    if isExpired now (book.heap r) then
      let run := expireStops now rest (book.modify r (withStatus .expired))
      { run with
        events := orderEvent now .orderExpired (book.heap r) .empty :: run.events }
    else
      let run := expireStops now rest book
      { run with stillPending := r :: run.stillPending }

/-- `expire_orders`. -/
def expireOrders (now : ℚ) : MatchingEngine × List ExchangeEvent :=
  let (book, resting) := expireResting now e.book.orders.items e.book
  let run := expireStops now e.pendingStops book
  let events := resting ++ run.events
  ({ e with book := run.book, pendingStops := run.stillPending }.logged events, events)

end MatchingEngine

end QuantumSentinel.Exchange
