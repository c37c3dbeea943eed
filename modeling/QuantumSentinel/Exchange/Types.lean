import Mathlib.Algebra.Order.BigOperators.Group.List
import QuantumSentinel.Lib.Rounding

/-!
# Paper exchange: orders, fills and feed events

The data of `order_book.py` and `market_microstructure.py` that the order book,
the matching engine and the paper exchange work on.  Prices, sizes and times are exact
rationals.

Main results:

- Theorem `TickGrid.toTicks_fromTicks`: a price on the grid is at its own tick.
- Theorem `recordFill_status`: an order is FILLED exactly when at most the tolerance
  remains.

Current gaps:

- The dictionaries and texts made for reports (`to_dict`) are left out.
-/

namespace QuantumSentinel.Exchange

open Lib

/-- `_EPS`, the size below which a remainder counts as nothing. -/
def eps : ℚ := 1 / 1000000000

theorem eps_pos : 0 < eps := by norm_num [eps]

/-- `TradeSide`. -/
inductive TradeSide
  | buy
  | sell
deriving DecidableEq, Repr, Inhabited

/-- The other side of the book. -/
def TradeSide.opposite : TradeSide → TradeSide
  | .buy => .sell
  | .sell => .buy

/-- `OrderType`. -/
inductive OrderType
  | market
  | limit
  | stop
  | stopLimit
deriving DecidableEq, Repr, Inhabited

/-- `OrderStatus`. -/
inductive OrderStatus
  | submitted
  | accepted
  | queued
  | partiallyFilled
  | filled
  | cancelled
  | rejected
  | expired
deriving DecidableEq, Repr, Inhabited

/-- The statuses no order leaves. -/
def OrderStatus.isTerminal : OrderStatus → Bool
  | .filled | .cancelled | .rejected | .expired => true
  | _ => false

/-- `TimeInForce`. -/
inductive TimeInForce
  | day
  | gtc
  | ioc
  | fok
deriving DecidableEq, Repr, Inhabited

/-- `Owner`: liquidity of the feed, or our simulated orders. -/
inductive Owner
  | market
  | paper
deriving DecidableEq, Repr, Inhabited

/-- `Order`. -/
structure Order where
  orderId : String
  symbol : String
  side : TradeSide
  orderType : OrderType
  quantity : ℚ
  limitPrice : Option ℚ
  stopPrice : Option ℚ
  timeInForce : TimeInForce
  submittedAt : ℚ
  expiresAt : Option ℚ
  owner : Owner
  status : OrderStatus
  filledQuantity : ℚ
  avgFillPrice : ℚ
  queueAhead : ℚ
  queueAheadAtEntry : ℚ
  queueAheadPeak : ℚ
  enteredBookAt : Option ℚ
  filledAt : Option ℚ
  activeAt : Option ℚ
deriving DecidableEq, Repr, Inhabited

namespace Order

/-- A new order: the fields its creator sets, and the defaults of the others. -/
def new (orderId symbol : String) (side : TradeSide) (orderType : OrderType) (quantity : ℚ)
    (limitPrice stopPrice : Option ℚ) (timeInForce : TimeInForce) (submittedAt : ℚ)
    (expiresAt : Option ℚ) (owner : Owner) : Order where
  orderId := orderId
  symbol := symbol
  side := side
  orderType := orderType
  quantity := quantity
  limitPrice := limitPrice
  stopPrice := stopPrice
  timeInForce := timeInForce
  submittedAt := submittedAt
  expiresAt := expiresAt
  owner := owner
  status := .submitted
  filledQuantity := 0
  avgFillPrice := 0
  queueAhead := 0
  queueAheadAtEntry := 0
  queueAheadPeak := 0
  enteredBookAt := none
  filledAt := none
  activeAt := none

/-- `remaining_quantity`. -/
def remainingQuantity (o : Order) : ℚ :=
  o.quantity - o.filledQuantity

/-- `is_active`. -/
def isActive (o : Order) : Bool :=
  match o.status with
  | .accepted | .queued | .partiallyFilled => true
  | _ => false

/-- Whether `_prune` keeps the order in its level. -/
def isLive (o : Order) : Bool :=
  eps < o.remainingQuantity && o.isActive

/-- Whether a filled quantity leaves at most the tolerance. -/
def statusAfterFill (quantity filled : ℚ) : OrderStatus :=
  if quantity - filled ≤ eps then .filled else .partiallyFilled

/-- `record_fill`. -/
def recordFill (price quantity timestamp : ℚ) (o : Order) : Order :=
  let filled := o.filledQuantity + quantity
  { o with
    filledQuantity := filled
    avgFillPrice := (o.avgFillPrice * o.filledQuantity + price * quantity) / filled
    filledAt := some timestamp
    status := statusAfterFill o.quantity filled }

/-- The order without its queue position, which any change of its level rewrites. -/
def sansQueue (o : Order) : Order :=
  { o with queueAhead := 0, queueAheadPeak := 0 }

theorem isLive_iff {o : Order} :
    o.isLive = true ↔ eps < o.remainingQuantity ∧ o.isActive = true := by
  rw [isLive, Bool.and_eq_true, decide_eq_true_eq]

end Order

/-- An order is FILLED exactly when at most the tolerance remains. -/
theorem recordFill_status (price quantity timestamp : ℚ) (o : Order) :
    (o.recordFill price quantity timestamp).status = .filled ↔
      (o.recordFill price quantity timestamp).remainingQuantity ≤ eps := by
  by_cases h : o.quantity - (o.filledQuantity + quantity) ≤ eps
  · simp [Order.recordFill, Order.statusAfterFill, Order.remainingQuantity, h]
  · simp [Order.recordFill, Order.statusAfterFill, Order.remainingQuantity, h]

@[simp]
theorem recordFill_remaining (price quantity timestamp : ℚ) (o : Order) :
    (o.recordFill price quantity timestamp).remainingQuantity =
      o.remainingQuantity - quantity := by
  simp only [Order.recordFill, Order.remainingQuantity]
  ring

/-- `Fill`. -/
structure Fill where
  orderId : String
  fillPrice : ℚ
  fillQuantity : ℚ
  timestamp : ℚ
  isPartial : Bool
  aggressor : Bool
  side : Option TradeSide
deriving DecidableEq, Repr

/-- `BookEventType`. -/
inductive BookEventType
  | add
  | cancel
  | modify
  | trade
deriving DecidableEq, Repr

/-- `BookEvent`: one event of the feed. -/
structure BookEvent where
  timestamp : ℚ
  eventType : BookEventType
  side : TradeSide
  price : ℚ
  size : ℚ
  orderId : Option String
deriving DecidableEq, Repr

/-- Whether a character is a hexadecimal digit. -/
def isHexDigit (c : Char) : Bool :=
  c ∈ "0123456789abcdef".toList

/-- `uuid.uuid4().hex[:16]`: sixteen hexadecimal digits. -/
structure HexId where
  text : String
  length : text.toList.length = 16
  hex : text.toList.all isHexDigit = true

/-- `event.order_id or …`: the id the event names, when it names one. -/
def BookEvent.named (event : BookEvent) : Option String :=
  event.orderId.filter fun id => id ≠ ""

/-- `event.order_id or uuid.uuid4().hex[:16]`. -/
def BookEvent.idOr (event : BookEvent) (uuid : HexId) : String :=
  event.named.getD uuid.text

/-! ## The tick grid -/

/-- A positive decimal tick size, as an integer number of its last decimal place. -/
structure TickGrid where
  mantissa : Nat
  decimals : Nat
  mantissa_pos : 0 < mantissa

namespace TickGrid

variable (grid : TickGrid)

/-- `tick_size`. -/
def tickSize : ℚ :=
  grid.mantissa / 10 ^ grid.decimals

/-- `to_ticks`. -/
def toTicks (price : ℚ) : ℤ :=
  roundHalfEven (price / grid.tickSize)

/-- `from_ticks`. -/
def fromTicks (ticks : ℤ) : ℚ :=
  roundDecimals (ticks * grid.tickSize) grid.decimals

/-- `is_on_grid`. -/
def isOnGrid (price : ℚ) : Bool :=
  let units := price / grid.tickSize
  |units - roundHalfEven units| < 1 / 1000000

theorem tickSize_pos : 0 < grid.tickSize := by
  have hm : (0 : ℚ) < grid.mantissa := by exact_mod_cast grid.mantissa_pos
  unfold tickSize
  positivity

/-- The rounding in `from_ticks` changes nothing in exact arithmetic. -/
theorem fromTicks_eq (ticks : ℤ) : grid.fromTicks ticks = ticks * grid.tickSize := by
  have hgrid := roundDecimals_of_grid (ticks * grid.mantissa) grid.decimals
  unfold fromTicks tickSize
  rw [← mul_div_assoc]
  push_cast at hgrid
  exact hgrid

/-- A price on the grid is at its own tick. -/
@[simp]
theorem toTicks_fromTicks (ticks : ℤ) : grid.toTicks (grid.fromTicks ticks) = ticks := by
  rw [toTicks, fromTicks_eq, mul_div_assoc, div_self grid.tickSize_pos.ne', mul_one,
    roundHalfEven_intCast]

/-- Greater ticks are greater prices. -/
theorem fromTicks_le_iff {t t' : ℤ} : grid.fromTicks t ≤ grid.fromTicks t' ↔ t ≤ t' := by
  rw [fromTicks_eq, fromTicks_eq, mul_le_mul_iff_left₀ grid.tickSize_pos]
  exact Int.cast_le

end TickGrid

end QuantumSentinel.Exchange
