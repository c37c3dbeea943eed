import Mathlib.Data.List.Sort
import QuantumSentinel.Lib.Dict
import QuantumSentinel.Lib.Rounding

/-!
# Paper broker: money, orders and single transactions

The paper account of one user and that user's rows of `trades`, with the
functions of `paper_broker.py` and the fill rule of `trading_service.py` on
them.  A database transaction is one function from the committed tables to the tables
it commits.  Quantities and prices are exact rationals, money is an integer number of
micros, and a floating-point price is its value.

Main results:

- Theorem `reservationMicros_nonneg`: no order reserves a negative amount.
- Theorem `simulateFill_nonneg` and `checkPendingLimitFill_nonneg`: fill prices
  are not negative.
- Theorem `released_of_le`: a covered release subtracts exactly the amount.

Current gaps:

- The user id is left out: every statement of these functions is for one user.
- Signatures, webhooks and the audit log of an order are not part of the ledger.
-/

namespace QuantumSentinel.Broker

open Lib

/-- Microseconds since the epoch, the resolution of a timestamp column. -/
abbrev Time := Int

/-- Primary key of a trade. -/
abbrev OrderId := String

/-- `side`. -/
inductive Side
  | buy
  | sell
deriving DecidableEq, Repr

/-- `order_type`. -/
inductive OrderType
  | market
  | limit
  | stop
  | stopLimit
deriving DecidableEq, Repr

/-- `time_in_force`. -/
inductive TimeInForce
  | day
  | gtc
  | ioc
deriving DecidableEq, Repr

/-- `status`. -/
inductive TradeStatus
  | pending
  | accepted
  | filled
  | cancelled
  | rejected
  | expired
deriving DecidableEq, Repr

/-- `OPEN_STATUSES`. -/
def TradeStatus.isOpen : TradeStatus → Bool
  | .pending | .accepted => true
  | _ => false

/-- One row of `trades`. -/
structure Trade where
  asset : String
  side : Side
  quantity : ℚ
  orderType : OrderType
  limitPrice : Option ℚ
  stopPrice : Option ℚ
  timeInForce : TimeInForce
  status : TradeStatus
  filledPrice : Option ℚ
  submittedAt : Time
  filledAt : Option Time
deriving DecidableEq, Repr

/-- The row of `paper_accounts`. -/
structure Account where
  cashMicros : ℤ
  reservedMicros : ℤ
deriving DecidableEq, Repr

/-- The committed tables: the account of the user and the user's trades. -/
structure Ledger where
  account : Account
  trades : Dict OrderId Trade

/-! ## Money -/

/-- `MICROS`. -/
def microsPerDollar : ℚ := 1000000

/-- `to_micros`. -/
def toMicros (amount : ℚ) : ℤ :=
  roundHalfUp (amount * microsPerDollar)

/-- `notional_micros`. -/
def notionalMicros (quantity price : ℚ) : ℤ :=
  toMicros (quantity * price)

theorem notionalMicros_nonneg {quantity price : ℚ} (hq : 0 ≤ quantity) (hp : 0 ≤ price) :
    0 ≤ notionalMicros quantity price :=
  roundHalfUp_nonneg (mul_nonneg (mul_nonneg hq hp) (by norm_num [microsPerDollar]))

/-- The price `reservation_micros` values an order at. -/
def reservationReference (orderType : OrderType) (limitPrice stopPrice marketPrice : Option ℚ) :
    Option ℚ :=
  match orderType with
  | .limit | .stopLimit => limitPrice
  | .stop => stopPrice
  | .market => marketPrice

/-- `reservation_micros`: the cash a buy order holds while it is open. -/
def reservationMicros (side : Side) (quantity : ℚ) (orderType : OrderType)
    (limitPrice stopPrice marketPrice : Option ℚ) : ℤ :=
  match side with
  | .sell => 0
  | .buy =>
    match reservationReference orderType limitPrice stopPrice marketPrice with
    | none => 0
    | some reference => notionalMicros quantity reference

/-- `trade_reservation_micros`. -/
def tradeReservationMicros (trade : Trade) : ℤ :=
  if trade.orderType = .market then 0
  else
    reservationMicros trade.side trade.quantity trade.orderType trade.limitPrice
      trade.stopPrice none

/-- No order reserves a negative amount. -/
theorem reservationMicros_nonneg {side : Side} {quantity : ℚ} {orderType : OrderType}
    {limitPrice stopPrice marketPrice : Option ℚ} (hq : 0 ≤ quantity)
    (hlimit : ∀ p ∈ limitPrice, 0 ≤ p) (hstop : ∀ p ∈ stopPrice, 0 ≤ p)
    (hmarket : ∀ p ∈ marketPrice, 0 ≤ p) :
    0 ≤ reservationMicros side quantity orderType limitPrice stopPrice marketPrice := by
  have href : ∀ p ∈ reservationReference orderType limitPrice stopPrice marketPrice,
      0 ≤ p := by
    cases orderType with
    | market => exact hmarket
    | limit => exact hlimit
    | stop => exact hstop
    | stopLimit => exact hlimit
  cases side with
  | sell => exact le_rfl
  | buy =>
    unfold reservationMicros
    cases hr : reservationReference orderType limitPrice stopPrice marketPrice with
    | none => exact le_rfl
    | some p => exact notionalMicros_nonneg hq (href p hr)

/-! ## The account row -/

/-- `try_reserve`: the account after the reservation, when the cash is available. -/
def tryReserve (account : Account) (amount : ℤ) : Option Account :=
  if amount ≤ 0 then some account
  else if amount ≤ account.cashMicros - account.reservedMicros then
    some { account with reservedMicros := account.reservedMicros + amount }
  else none

/-- `_released`: the reserved cash once `amount` of it is given back. -/
def released (account : Account) (amount : ℤ) : ℤ :=
  if amount ≤ account.reservedMicros then account.reservedMicros - amount else 0

/-- A covered release subtracts exactly the amount. -/
theorem released_of_le {account : Account} {amount : ℤ}
    (h : amount ≤ account.reservedMicros) :
    released account amount = account.reservedMicros - amount :=
  if_pos h

/-! ## Order transitions -/

/-- The compare-and-set of `_cas_status`: `WHERE id = … AND status IN OPEN_STATUSES`. -/
def isOpen (trade : Trade) : Bool :=
  trade.status.isOpen

/-- The tail of `place_order`: the reservation and the insert of the row commit
together, or neither does. -/
def place (ledger : Ledger) (id : OrderId) (trade : Trade) (reserve : ℤ) : Option Ledger :=
  match tryReserve ledger.account reserve with
  | none => none
  | some account =>
    -- a used id violates the primary key, and the insert rolls back
    if (ledger.trades.get? id).isSome then none
    else some { account := account, trades := ledger.trades.set id trade }

/-- `close_order`: the tables it commits, when the order was still open. -/
def closeOrder (ledger : Ledger) (id : OrderId) (toStatus : TradeStatus) (reserved : ℤ) :
    Option Ledger :=
  if ledger.trades.matchesWhere id isOpen then
    some {
      account :=
        if 0 < reserved then
          { ledger.account with reservedMicros := released ledger.account reserved }
        else ledger.account
      trades := ledger.trades.updateWhere id isOpen fun row => { row with status := toStatus } }
  else none

/-- `accept_order`. -/
def acceptOrder (ledger : Ledger) (id : OrderId) : Ledger :=
  { ledger with
    trades := ledger.trades.updateWhere id (fun row => row.status = .pending)
      fun row => { row with status := .accepted } }

/-- The update of the sweeper that turns a triggered stop-limit order into a limit order. -/
def convertAccepted (ledger : Ledger) (id : OrderId) : Ledger :=
  { ledger with
    trades := ledger.trades.updateWhere id (fun row => row.status = .accepted)
      fun row => { row with orderType := .limit } }

/-- The same change as `place_order` makes it, on the row it has just inserted. -/
def convertPlaced (ledger : Ledger) (id : OrderId) : Ledger :=
  { ledger with
    trades := ledger.trades.updateWhere id (fun _ => true)
      fun row => { row with orderType := .limit } }

/-! ## The holding -/

/-- Filled trades of an asset in `filled_at` order. -/
def filledTrades (trades : List Trade) (asset : String) : List Trade :=
  (trades.filter fun t => t.asset = asset && decide (t.status = .filled)).insertionSort
    fun a b => a.filledAt.getD 0 ≤ b.filledAt.getD 0

/-- One step of the fold of `held_quantity`: a sell never takes the holding below zero. -/
def foldHolding (held : ℚ) (trade : Trade) : ℚ :=
  match trade.side with
  | .buy => held + trade.quantity
  | .sell => max 0 (held - trade.quantity)

/-- `held_quantity` over the rows the query returns. -/
def heldQuantity (trades : List Trade) (asset : String) : ℚ :=
  (filledTrades trades asset).foldl foldHolding 0

/-- `held_quantity` with `exclude_trade_id`. -/
def heldExcluding (ledger : Ledger) (id : OrderId) (asset : String) : ℚ :=
  heldQuantity (ledger.trades.erase id).values asset

/-! ## Filling an order -/

/-- Why a fill is rejected. -/
inductive FillRefusal
  | cash
  | holding
deriving DecidableEq, Repr

/-- The text of the reason. -/
def FillRefusal.reason : FillRefusal → String
  | .cash => "insufficient available cash at fill"
  | .holding => "sell quantity exceeds the current position"

/-- What the first transaction of `fill_order` does: the order is no longer open, the
fill is refused and rolled back, or the tables it commits. -/
inductive FillResult
  | notOpen
  | refused (why : FillRefusal)
  | filled (ledger : Ledger)

/-- `fill_order` up to its commit or rollback.  A refused fill is closed as
REJECTED by a second transaction. -/
def fillOrder (ledger : Ledger) (id : OrderId) (trade : Trade) (fillPrice : ℚ)
    (reserved : ℤ) (now : Time) : FillResult :=
  let cost := notionalMicros trade.quantity fillPrice
  if ledger.trades.matchesWhere id isOpen then
    let trades := ledger.trades.updateWhere id isOpen fun row =>
      { row with status := .filled, filledPrice := some fillPrice, filledAt := some now }
    match trade.side with
    | .buy =>
      let newReserved := released ledger.account reserved
      if newReserved ≤ ledger.account.cashMicros - cost then
        .filled {
          account :=
            { cashMicros := ledger.account.cashMicros - cost, reservedMicros := newReserved }
          trades := trades }
      else .refused .cash
    | .sell =>
      if heldExcluding ledger id trade.asset < trade.quantity then .refused .holding
      else
        .filled {
          account := { ledger.account with cashMicros := ledger.account.cashMicros + cost }
          trades := trades }
  else .notOpen

/-! ## The fill rule -/

/-- Whether `simulate_fill` finds a stop order triggered.  A missing or zero stop price
stands for infinity on the buy side and for zero on the sell side. -/
def stopReached (side : Side) (lastPrice : ℚ) (stopPrice : Option ℚ) : Bool :=
  match side with
  | .buy =>
    match stopPrice with
    | none => false
    | some stop => stop ≠ 0 && stop ≤ lastPrice
  | .sell => lastPrice ≤ stopPrice.getD 0

/-- `stop_triggered`. -/
def stopTriggered (side : Side) (stop lastPrice : ℚ) : Bool :=
  match side with
  | .buy => stop ≤ lastPrice
  | .sell => lastPrice ≤ stop

/-- Whether the market has reached a limit price. -/
def limitReached (side : Side) (lastPrice limit : ℚ) : Bool :=
  match side with
  | .buy => lastPrice ≤ limit
  | .sell => limit ≤ lastPrice

/-- The better of the market price and the limit price. -/
def improvedPrice (side : Side) (lastPrice limit : ℚ) : ℚ :=
  match side with
  | .buy => min lastPrice limit
  | .sell => max lastPrice limit

/-- `simulate_fill`: the fill price, or nothing when the order stays ACCEPTED. -/
def simulateFill (side : Side) (orderType : OrderType) (limitPrice stopPrice : Option ℚ)
    (lastPrice : ℚ) : Option ℚ :=
  let atLimit : Option ℚ :=
    match limitPrice with
    | none => some lastPrice
    | some limit =>
      if limitReached side lastPrice limit then
        let price := improvedPrice side lastPrice limit
        some (roundDecimals price (if price < 1 then 6 else 2))
      else none
  match orderType with
  | .market => some lastPrice
  | .limit => atLimit
  | .stop => if stopReached side lastPrice stopPrice then some lastPrice else none
  | .stopLimit => if stopReached side lastPrice stopPrice then atLimit else none

/-- `check_pending_limit_fill`. -/
def checkPendingLimitFill (side : Side) (limitPrice lastPrice : ℚ) : Option ℚ :=
  if limitReached side lastPrice limitPrice then
    some (roundDecimals (improvedPrice side lastPrice limitPrice) (if lastPrice < 1 then 6 else 2))
  else none

theorem improvedPrice_nonneg {side : Side} {lastPrice limit : ℚ} (hlast : 0 ≤ lastPrice)
    (hlimit : 0 ≤ limit) : 0 ≤ improvedPrice side lastPrice limit := by
  cases side with
  | buy => exact le_min hlast hlimit
  | sell => exact le_max_of_le_left hlast

/-- A resting limit order never fills at a negative price. -/
theorem checkPendingLimitFill_nonneg {side : Side} {limitPrice lastPrice price : ℚ}
    (hlast : 0 ≤ lastPrice) (hlimit : 0 ≤ limitPrice)
    (h : checkPendingLimitFill side limitPrice lastPrice = some price) : 0 ≤ price := by
  unfold checkPendingLimitFill at h
  split at h
  · cases h
    exact roundDecimals_nonneg (improvedPrice_nonneg hlast hlimit) _
  · cases h

/-- No order is filled at a negative price. -/
theorem simulateFill_nonneg {side : Side} {orderType : OrderType}
    {limitPrice stopPrice : Option ℚ} {lastPrice price : ℚ} (hlast : 0 ≤ lastPrice)
    (hlimit : ∀ p ∈ limitPrice, 0 ≤ p)
    (h : simulateFill side orderType limitPrice stopPrice lastPrice = some price) :
    0 ≤ price := by
  have hatLimit : ∀ price, (match limitPrice with
      | none => some lastPrice
      | some limit =>
        if limitReached side lastPrice limit then
          some (roundDecimals (improvedPrice side lastPrice limit)
            (if improvedPrice side lastPrice limit < 1 then 6 else 2))
        else none) = some price → 0 ≤ price := by
    intro price hprice
    cases limitPrice with
    | none =>
      cases hprice
      exact hlast
    | some limit =>
      simp only at hprice
      split at hprice
      · cases hprice
        exact roundDecimals_nonneg (improvedPrice_nonneg hlast (hlimit limit rfl)) _
      · cases hprice
  cases orderType with
  | market =>
    cases h
    exact hlast
  | limit => exact hatLimit price h
  | stop =>
    simp only [simulateFill] at h
    split at h
    · cases h
      exact hlast
    · cases h
  | stopLimit =>
    simp only [simulateFill] at h
    split at h
    · exact hatLimit price h
    · cases h

/-- The price at which one pass of `process_open_orders` fills an order it has loaded. -/
def sweepPrice (trade : Trade) (lastPrice : ℚ) : Option ℚ :=
  match trade.orderType, trade.limitPrice, trade.stopPrice with
  | .limit, some limit, _ => checkPendingLimitFill trade.side limit lastPrice
  | .stop, limit, some stop => simulateFill trade.side .stop limit (some stop) lastPrice
  | .stopLimit, limit, some stop => simulateFill trade.side .stopLimit limit (some stop) lastPrice
  | _, _, _ => some lastPrice

/-- Whether that pass turns the order into a limit order instead. -/
def sweepConverts (trade : Trade) (lastPrice : ℚ) : Bool :=
  match trade.orderType, trade.stopPrice with
  | .stopLimit, some stop =>
    (sweepPrice trade lastPrice).isNone && stopTriggered trade.side stop lastPrice
  | _, _ => false

/-- `_actionable`: the resting orders a sweep at this price loads. -/
def actionable (lastPrice : ℚ) (trade : Trade) : Bool :=
  match trade.orderType, trade.limitPrice, trade.stopPrice with
  | .limit, some limit, _ => limitReached trade.side lastPrice limit
  | .stop, _, some stop => stopTriggered trade.side stop lastPrice
  | .stopLimit, _, some stop => stopTriggered trade.side stop lastPrice
  | _, _, _ => true

/-- A sweep fills no order at a negative price. -/
theorem sweepPrice_nonneg {trade : Trade} {lastPrice price : ℚ} (hlast : 0 ≤ lastPrice)
    (hlimit : ∀ p ∈ trade.limitPrice, 0 ≤ p) (h : sweepPrice trade lastPrice = some price) :
    0 ≤ price := by
  unfold sweepPrice at h
  split at h
  · rename_i limit _ hl
    exact checkPendingLimitFill_nonneg hlast (hlimit limit hl) h
  · exact simulateFill_nonneg hlast hlimit h
  · exact simulateFill_nonneg hlast hlimit h
  · cases h
    exact hlast

end QuantumSentinel.Broker
