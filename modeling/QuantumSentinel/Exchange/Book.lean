import Mathlib.Logic.Function.Basic
import QuantumSentinel.Exchange.Types
import QuantumSentinel.Lib.Dict
import QuantumSentinel.Lib.SortedKeys

/-!
# Paper exchange: the order book

`order_book.py` as functions on the state of the book.  Orders are mutable objects
that the levels, the id index and the exchange share, so a level holds references and the
book carries the heap they point into.

Main results:

- Definition `OrderBook.prune`, `OrderBook.addOrder` and
  `OrderBook.cancelOrder`: the operations on one level.
- Definition `OrderBook.walk`: the sweep over levels that `consume_liquidity`
  and the TRADE branch of `apply_market_event` share.
- Definition `OrderBook.applyMarketEvent`: the dispatcher of feed events.

Current gaps:

- Snapshots and report dictionaries are left out.
- A wall-clock reading is a parameter, and so are the digits a `uuid4` draws.
-/

namespace QuantumSentinel.Exchange

open Lib

/-- A reference to an order object. -/
abbrev Ref := ℕ

/-- The order objects. -/
abbrev Heap := Ref → Order

/-- `LevelQueue`: the orders at one price, first in first out. -/
structure LevelQueue where
  price : ℚ
  ticks : ℤ
  orders : List Ref
deriving DecidableEq, Repr

/-- One side of the book: its levels by tick, and their ticks in ascending order. -/
structure BookSide where
  levels : Dict ℤ LevelQueue
  ticks : List ℤ

/-- `OrderBook`, with the heap its references point into. -/
structure OrderBook where
  grid : TickGrid
  symbol : String
  heap : Heap
  nextRef : Ref
  bids : BookSide
  asks : BookSide
  orders : Dict String Ref
  lastTradePrice : Option ℚ
  lastTradeSize : Option ℚ
  lastEventTime : ℚ

/-! ## Level queues -/

section Queues

variable (heap : Heap)

/-- `total_size`. -/
def totalSize (orders : List Ref) : ℚ :=
  (orders.map fun r => (heap r).remainingQuantity).sum

/-- Whether an order is liquidity of the feed. -/
def isMarket (r : Ref) : Bool :=
  (heap r).owner = .market

/-- Whether an order is one of ours. -/
def isPaper (r : Ref) : Bool :=
  (heap r).owner = .paper

/-- `market_size`. -/
def marketSize (orders : List Ref) : ℚ :=
  totalSize heap (orders.filter (isMarket heap))

/-- `LevelQueue.remove`: drop the first order with the id. -/
def removeId (id : String) (orders : List Ref) : List Ref :=
  orders.eraseP fun r => (heap r).orderId = id

end Queues

/-- The order at its queue position. -/
def Order.queuedBehind (ahead : ℚ) (o : Order) : Order :=
  match o.owner with
  | .market => o
  | .paper => { o with queueAhead := ahead, queueAheadPeak := max o.queueAheadPeak ahead }

/-- The loop of `refresh_queue_positions`, with `ahead` in front of the rest. -/
def refreshFrom (ahead : ℚ) : List Ref → Heap → Heap
  | [], heap => heap
  | r :: rest, heap =>
    refreshFrom (ahead + (heap r).remainingQuantity) rest
      (Function.update heap r ((heap r).queuedBehind ahead))

/-- `refresh_queue_positions`. -/
def refreshQueuePositions (orders : List Ref) (heap : Heap) : Heap :=
  refreshFrom 0 orders heap

/-- The order with another status. -/
def withStatus (status : OrderStatus) (o : Order) : Order :=
  { o with status := status }

/-- `OrderBook.__init__`. -/
def OrderBook.empty (grid : TickGrid) (symbol : String) : OrderBook where
  grid := grid
  symbol := symbol
  heap := fun _ => default
  nextRef := 0
  bids := ⟨Dict.empty, []⟩
  asks := ⟨Dict.empty, []⟩
  orders := Dict.empty
  lastTradePrice := none
  lastTradeSize := none
  lastEventTime := 0

namespace OrderBook

variable (b : OrderBook)

/-! ## Level bookkeeping -/

/-- `_side`. -/
def side : TradeSide → BookSide
  | .buy => b.bids
  | .sell => b.asks

/-- Replace one side. -/
def setSide (s : TradeSide) (new : BookSide) : OrderBook :=
  match s with
  | .buy => { b with bids := new }
  | .sell => { b with asks := new }

/-- `_level` without creation. -/
def level? (s : TradeSide) (t : ℤ) : Option LevelQueue :=
  (b.side s).levels.get? t

/-- Replace the queue of a level. -/
def setLevel (s : TradeSide) (t : ℤ) (level : LevelQueue) : OrderBook :=
  b.setSide s { b.side s with levels := (b.side s).levels.set t level }

/-- Change one order object. -/
def modify (r : Ref) (f : Order → Order) : OrderBook :=
  { b with heap := Function.update b.heap r (f (b.heap r)) }

/-- A new order object; its reference is the old `nextRef`. -/
def alloc (o : Order) : OrderBook :=
  { b with heap := Function.update b.heap b.nextRef o, nextRef := b.nextRef + 1 }

/-- `_level` with `create=True`: the book in which the level exists. -/
def ensureLevel (s : TradeSide) (t : ℤ) : OrderBook :=
  match b.level? s t with
  | some _ => b
  | none =>
    b.setSide s
      { levels := (b.side s).levels.set t
          { price := b.grid.fromTicks t, ticks := t, orders := [] }
        ticks := insort (b.side s).ticks t }

/-- The index after `_prune` dropped the exhausted feed orders of a level. -/
def forgetDead (orders : List Ref) : Dict String Ref :=
  (orders.filter fun r => !(b.heap r).isLive && isMarket b.heap r).foldl
    (fun index r => index.erase (b.heap r).orderId) b.orders

/-- `_prune`. -/
def prune (s : TradeSide) (t : ℤ) : OrderBook :=
  match b.level? s t with
  | none => b
  | some level =>
    let kept := level.orders.filter fun r => (b.heap r).isLive
    let pruned :=
      { b with
        heap := refreshQueuePositions kept b.heap
        orders := b.forgetDead level.orders }
    if kept = [] then
      pruned.setSide s
        { levels := (b.side s).levels.erase t, ticks := popKey (b.side s).ticks t }
    else
      pruned.setLevel s t { level with orders := kept }

/-! ## Sorted level accessors -/

/-- `bid_levels`, best first. -/
def bidLevels : List LevelQueue :=
  b.bids.ticks.reverse.filterMap b.bids.levels.get?

/-- `ask_levels`, best first. -/
def askLevels : List LevelQueue :=
  b.asks.ticks.filterMap b.asks.levels.get?

/-- `best_bid`. -/
def bestBid : Option ℚ :=
  b.bids.ticks.getLast?.map b.grid.fromTicks

/-- `best_ask`. -/
def bestAsk : Option ℚ :=
  b.asks.ticks.head?.map b.grid.fromTicks

/-- `mid_price`. -/
def midPrice : Option ℚ :=
  b.bestBid.bind fun bb => b.bestAsk.map fun ba => (bb + ba) / 2

/-! ## Resting orders -/

/-- The order as `add_order` leaves it at the back of a level. -/
def entered (o : Order) (limit ahead now : ℚ) : Order :=
  { o with
    limitPrice := some limit
    queueAhead := ahead
    queueAheadAtEntry := ahead
    queueAheadPeak := ahead
    enteredBookAt := some now
    status := if o.filledQuantity ≤ 0 then .queued else o.status }

/-- The limit price `add_order` keeps: feed noise snaps to the grid. -/
def restingLimit (o : Order) (limit : ℚ) : ℚ :=
  match o.owner with
  | .market => b.grid.fromTicks (b.grid.toTicks limit)
  | .paper => limit

/-- `add_order` at the clock reading `now`. -/
def addOrder (r : Ref) (now : ℚ) : OrderBook :=
  let o := b.heap r
  match o.limitPrice with
  | none => b
  | some limit =>
    let t := b.grid.toTicks limit
    let found := b.ensureLevel o.side t
    match found.level? o.side t with
    | none => found
    | some level =>
      let ahead := totalSize found.heap level.orders
      let queued :=
        (found.modify r fun o => entered o (b.restingLimit o limit) ahead now).setLevel
          o.side t { level with orders := level.orders ++ [r] }
      { queued with orders := queued.orders.set o.orderId r }

/-- The index entry `cancel_order` acts on: an active order with a limit. -/
def cancellable (id : String) : Option (Ref × ℚ) :=
  (b.orders.get? id).bind fun r =>
    if (b.heap r).isActive then (b.heap r).limitPrice.map fun limit => (r, limit) else none

/-- `cancel_order`: the book, and the cancelled order. -/
def cancelOrder (id : String) : OrderBook × Option Ref :=
  match b.cancellable id with
  | none => (b, none)
  | some (r, limit) =>
    let s := (b.heap r).side
    let t := b.grid.toTicks limit
    let marked := b.modify r (withStatus .cancelled)
    match marked.level? s t with
    | none => (marked, some r)
    | some level =>
      let removed :=
        marked.setLevel s t { level with orders := removeId marked.heap id level.orders }
      (removed.prune s t, some r)

/-! ## Sweeps -/

/-- What a sweep does at each order: which it passes over, how it changes one, and which
changes it reports as fills. -/
structure Sweeper where
  timestamp : ℚ
  skips : Order → Bool
  hit : (price quantity : ℚ) → Order → Order
  reports : Order → Bool

/-- The fill of a resting order. -/
def restingFill (o : Order) (price quantity timestamp : ℚ) : Fill where
  orderId := o.orderId
  fillPrice := price
  fillQuantity := quantity
  timestamp := timestamp
  isPartial := o.status ≠ .filled
  aggressor := false
  side := some o.side

/-- What the loop over one level leaves. -/
structure LevelRun where
  heap : Heap
  remaining : ℚ
  fills : List Fill

/-- The loop over the orders of one level. -/
def walkLevel (k : Sweeper) (price : ℚ) : List Ref → Heap → ℚ → LevelRun
  | [], heap, remaining => ⟨heap, remaining, []⟩
  | r :: rest, heap, remaining =>
    if remaining ≤ eps then
      ⟨heap, remaining, []⟩
    else if k.skips (heap r) then
      walkLevel k price rest heap remaining
    else
      let quantity := min remaining (heap r).remainingQuantity
      if quantity ≤ eps then
        walkLevel k price rest heap remaining
      else
        let o := k.hit price quantity (heap r)
        let run := walkLevel k price rest (Function.update heap r o) (remaining - quantity)
        if k.reports o then
          { run with fills := restingFill o price quantity k.timestamp :: run.fills }
        else
          run

/-- What a sweep over levels leaves. -/
structure BookRun where
  book : OrderBook
  remaining : ℚ
  fills : List Fill

/-- The loop over levels: stop when nothing remains or at a level that is out of reach, and
prune each level after it was walked. -/
def walk (k : Sweeper) (passive : TradeSide) (beyond : ℤ → Bool) :
    List ℤ → OrderBook → ℚ → BookRun
  | [], b, remaining => ⟨b, remaining, []⟩
  | t :: rest, b, remaining =>
    if remaining ≤ eps || beyond t then
      ⟨b, remaining, []⟩
    else
      match b.level? passive t with
      -- a missing key; the invariant of the book excludes it
      | none => ⟨b, remaining, []⟩
      | some level =>
        let run := walkLevel k level.price level.orders b.heap remaining
        let next :=
          walk k passive beyond rest ({ b with heap := run.heap }.prune passive t)
            run.remaining
        { next with fills := run.fills ++ next.fills }

/-- The ticks of the side an aggressor trades with, best first. -/
def bestFirst (aggressor : TradeSide) : List ℤ :=
  match aggressor with
  | .buy => b.asks.ticks
  | .sell => b.bids.ticks.reverse

/-- Whether a tick is worse for the aggressor than another. -/
def worseThan (aggressor : TradeSide) (t limit : ℤ) : Bool :=
  match aggressor with
  | .buy => limit < t
  | .sell => t < limit

/-- How `consume_liquidity` executes. -/
def aggressorSweep (skipPaper : Bool) (timestamp : ℚ) : Sweeper where
  timestamp := timestamp
  skips := fun o => skipPaper && decide (o.owner = .paper)
  hit := fun price quantity => Order.recordFill price quantity timestamp
  reports := fun _ => true

/-- Whether a level lies beyond the limit of an aggressor. -/
def beyondLimit (aggressor : TradeSide) (limitPrice : Option ℚ) (t : ℤ) : Bool :=
  match limitPrice with
  | none => false
  | some limit => worseThan aggressor t (b.grid.toTicks limit)

/-- `consume_liquidity`. -/
def consumeLiquidity (aggressor : TradeSide) (quantity timestamp : ℚ)
    (limitPrice : Option ℚ) (skipPaper : Bool) : OrderBook × List Fill :=
  let run :=
    walk (aggressorSweep skipPaper timestamp) aggressor.opposite
      (b.beyondLimit aggressor limitPrice) (b.bestFirst aggressor) b quantity
  match run.fills.getLast? with
  | none => (run.book, [])
  | some last =>
    ({ run.book with
        lastTradePrice := some last.fillPrice
        lastTradeSize := some (run.fills.map Fill.fillQuantity).sum },
      run.fills)

/-! ## Feed events -/

/-- The market order that a feed event adds to the book. -/
def feedOrder (event : BookEvent) (uuid : HexId) (quantity limit : ℚ) : Order :=
  Order.new (event.idOr uuid) b.symbol event.side .limit quantity (some limit) none .gtc
    event.timestamp none .market

/-- A new market order at the back of its level. -/
def insertFeed (event : BookEvent) (uuid : HexId) (quantity limit : ℚ) : OrderBook :=
  (b.alloc (b.feedOrder event uuid quantity limit)).addOrder b.nextRef event.timestamp

/-- The ADD branch. -/
def applyAdd (event : BookEvent) (uuid : HexId) : OrderBook :=
  if eps < event.size then
    b.insertFeed event uuid event.size (b.grid.fromTicks (b.grid.toTicks event.price))
  else
    b

/-- The market order a CANCEL or MODIFY names, if it rests in the level. -/
def knownIn (event : BookEvent) (level : LevelQueue) : Option Ref :=
  (event.named.bind b.orders.get?).filter fun r =>
    isMarket b.heap r && decide (r ∈ level.orders)

/-- The quantity an order keeps when `size` of it is cancelled. -/
def cancelSize (size : ℚ) (o : Order) : Order :=
  { o with quantity := max o.filledQuantity (o.quantity - size) }

/-- The order with `size` remaining. -/
def resize (size : ℚ) (o : Order) : Order :=
  { o with quantity := o.filledQuantity + size }

/-- CANCEL or MODIFY of a known order of the level. -/
def changeKnown (event : BookEvent) (t : ℤ) (level : LevelQueue) (r : Ref) : OrderBook :=
  match event.eventType with
  | .cancel => b.modify r (cancelSize event.size)
  | _ =>
    if event.size ≤ (b.heap r).remainingQuantity then
      -- a decrease keeps priority
      b.modify r (resize event.size)
    else
      -- an increase loses priority
      (b.modify r (resize event.size)).setLevel event.side t
        { level with orders := removeId b.heap (b.heap r).orderId level.orders ++ [r] }

/-- The order with a share of its remaining size taken out. -/
def shrink (share : ℚ) (o : Order) : Order :=
  { o with quantity := o.quantity - o.remainingQuantity * share }

/-- `_reduce_market`. -/
def reduceMarket (level : LevelQueue) (amount : ℚ) : OrderBook :=
  let market := level.orders.filter fun r =>
    isMarket b.heap r && decide (eps < (b.heap r).remainingQuantity)
  let total := totalSize b.heap market
  if total ≤ eps then
    b
  else
    market.foldl (fun b r => b.modify r (shrink (min 1 (amount / total)))) b

/-- The market size a level shall have after an aggregated CANCEL or MODIFY. -/
def targetSize (event : BookEvent) (current : ℚ) : ℚ :=
  match event.eventType with
  | .cancel => max 0 (current - event.size)
  | _ => event.size

/-- CANCEL or MODIFY without a known order: an aggregated change of the level. -/
def changeAggregated (event : BookEvent) (uuid : HexId) (level : LevelQueue) : OrderBook :=
  let current := marketSize b.heap level.orders
  let target := targetSize event current
  if target < current then
    b.reduceMarket level (current - target)
  else if current + eps < target then
    b.insertFeed event uuid (target - current) level.price
  else
    b

/-- The CANCEL and MODIFY branch. -/
def applyChange (event : BookEvent) (uuid : HexId) : OrderBook :=
  let t := b.grid.toTicks event.price
  match b.level? event.side t with
  | none => if event.eventType = .modify then b.applyAdd event uuid else b
  | some level =>
    match b.knownIn event level with
    | some r => (b.changeKnown event t level r).prune event.side t
    | none => (b.changeAggregated event uuid level).prune event.side t

/-- How a TRADE print executes: paper orders fill, market orders shrink. -/
def printSweep (timestamp : ℚ) : Sweeper where
  timestamp := timestamp
  skips := fun _ => false
  hit := fun price quantity o =>
    match o.owner with
    | .paper => o.recordFill price quantity timestamp
    | .market => { o with quantity := o.quantity - quantity }
  reports := fun o => o.owner = .paper

/-- The levels in the path of a print, best first. -/
def tradePath (event : BookEvent) : List ℤ :=
  (b.bestFirst event.side).filter fun t =>
    !worseThan event.side t (b.grid.toTicks event.price)

/-- The TRADE branch. -/
def applyTrade (event : BookEvent) : OrderBook × List Fill :=
  let printed :=
    { b with
      lastTradePrice := some (b.grid.fromTicks (b.grid.toTicks event.price))
      lastTradeSize := some event.size }
  let run :=
    walk (printSweep event.timestamp) event.side.opposite (fun _ => false)
      (b.tradePath event) printed event.size
  (run.book, run.fills)

/-- `apply_market_event`: the book, and the fills of resting paper orders. -/
def applyMarketEvent (event : BookEvent) (uuid : HexId) : OrderBook × List Fill :=
  let b := { b with lastEventTime := event.timestamp }
  match event.eventType with
  | .add => (b.applyAdd event uuid, [])
  | .cancel | .modify => (b.applyChange event uuid, [])
  | .trade => b.applyTrade event

end OrderBook

end QuantumSentinel.Exchange
