import QuantumSentinel.Lib.Transition
import QuantumSentinel.Broker.Ledger

/-!
# Paper broker: the interleaved system

Any number of API processes and sweepers act on the ledger of one user.  A state holds
the committed tables together with the tasks in progress: what a process carries from
one of its transactions to the next.  An action is one transaction of the paper account
(the placement, the acceptance, a close or a fill), one read that starts a task, or the
end of a task that crashed.

A sweeper that has loaded several orders is one task for each of them, so the fills of
one sweep may run in any order and beside any other task.  The last two fields of the
state are history; no step reads them.

Main results:

- Definition `broker`: the system, for a given initial cash.
- Theorem `step_effect`: what one step does to the tables, in five cases.

Current gaps:

- The position and risk checks that refuse an order before its reservation are not
  modelled: a placement is possible whenever the cash is there.
-/

namespace QuantumSentinel.Broker

open Lib

/-- An order request the schema and the head of `place_order` let through. -/
structure OrderRequest where
  asset : String
  side : Side
  quantity : ℚ
  orderType : OrderType
  limitPrice : Option ℚ
  stopPrice : Option ℚ
  timeInForce : TimeInForce
  quantity_pos : 0 < quantity
  quantity_le : quantity ≤ 1000000
  limit_pos : ∀ p ∈ limitPrice, 0 < p
  stop_pos : ∀ p ∈ stopPrice, 0 < p
  limit_present : orderType = .limit ∨ orderType = .stopLimit → limitPrice.isSome
  stop_present : orderType = .stop ∨ orderType = .stopLimit → stopPrice.isSome

/-- The row `place_order` inserts. -/
def OrderRequest.trade (req : OrderRequest) (now : Time) : Trade where
  asset := req.asset
  side := req.side
  quantity := req.quantity
  orderType := req.orderType
  limitPrice := req.limitPrice
  stopPrice := req.stopPrice
  timeInForce := req.timeInForce
  status := .pending
  filledPrice := none
  submittedAt := now
  filledAt := none

/-- The amount `place_order` reserves at the price it has observed. -/
def OrderRequest.reserve (req : OrderRequest) (lastPrice : ℚ) : ℤ :=
  reservationMicros req.side req.quantity req.orderType req.limitPrice req.stopPrice
    (some lastPrice)

/-- What a process carries between two transactions. -/
inductive Task
  /-- `place_order` has inserted the row; it fills, expires or rests the order next -/
  | placing (id : OrderId) (trade : Trade) (reserve : ℤ) (lastPrice : ℚ) (quoteStale : Bool)
  /-- `place_order` has turned a triggered stop-limit order into a limit order -/
  | resting (id : OrderId)
  /-- `fill_order` has rolled a refused fill back; it closes the order next -/
  | rejecting (id : OrderId) (reserve : ℤ)
  /-- `cancel_order` has read an ACCEPTED row; it closes the order next -/
  | cancelling (id : OrderId) (trade : Trade)
  /-- `process_open_orders` has loaded an ACCEPTED row at a price -/
  | sweeping (id : OrderId) (trade : Trade) (lastPrice : ℚ)
deriving DecidableEq, Repr

/-- The system state. -/
structure BrokerState where
  ledger : Ledger
  tasks : List Task
  /-- the amount reserved when an order was placed -/
  placedReserve : OrderId → ℤ
  /-- one entry for each committed fill or close -/
  settled : List OrderId

/-- One transaction, one read that starts a task, or the end of a task. -/
inductive Action
  | place (id : OrderId) (req : OrderRequest) (lastPrice : ℚ) (quoteStale : Bool) (now : Time)
  | cancel (id : OrderId)
  | sweep (asset : String) (lastPrice : ℚ)
  | refresh (task : Task)
  | run (task : Task) (now : Time)
  | crash (task : Task)

namespace BrokerState

variable (s : BrokerState)

/-- The row of an order. -/
def trade? (id : OrderId) : Option Trade :=
  s.ledger.trades.get? id

/-- End a task. -/
def done (task : Task) : BrokerState :=
  { s with tasks := s.tasks.erase task }

/-- Replace a task by its continuation. -/
def next (task continuation : Task) : BrokerState :=
  { s with tasks := continuation :: s.tasks.erase task }

/-- Commit tables in which an order has left the open statuses. -/
def settle (id : OrderId) (ledger : Ledger) : BrokerState :=
  { s with ledger := ledger, settled := id :: s.settled }

/-- The commit of a `close_order` call, and the end of its task. -/
def close (task : Task) (id : OrderId) (toStatus : TradeStatus) (reserved : ℤ) :
    BrokerState :=
  match closeOrder s.ledger id toStatus reserved with
  | none => s.done task
  | some ledger => (s.done task).settle id ledger

/-- The first transaction of a `fill_order` call. -/
def fill (task : Task) (id : OrderId) (trade : Trade) (price : ℚ) (reserved : ℤ)
    (now : Time) : BrokerState :=
  match fillOrder s.ledger id trade price reserved now with
  | .notOpen => s.done task
  | .refused _ => s.next task (.rejecting id reserved)
  | .filled ledger => (s.done task).settle id ledger

end BrokerState

/-- The next transaction of a task. -/
def runTask (s : BrokerState) (task : Task) (now : Time) : BrokerState :=
  match task with
  | .placing id trade reserve lastPrice quoteStale =>
    let fill :=
      if quoteStale then none
      else
        simulateFill trade.side trade.orderType trade.limitPrice trade.stopPrice lastPrice
    match fill with
    | some price => s.fill task id trade price reserve now
    | none =>
      if trade.timeInForce = .ioc then s.close task id .expired reserve
      else if !quoteStale && trade.orderType = .stopLimit &&
          stopTriggered trade.side (trade.stopPrice.getD 0) lastPrice then
        { s.next task (.resting id) with ledger := convertPlaced s.ledger id }
      else { s.done task with ledger := acceptOrder s.ledger id }
  | .resting id => { s.done task with ledger := acceptOrder s.ledger id }
  | .rejecting id reserve => s.close task id .rejected reserve
  | .cancelling id trade => s.close task id .cancelled (tradeReservationMicros trade)
  | .sweeping id trade lastPrice =>
    match sweepPrice trade lastPrice with
    | some price => s.fill task id trade price (tradeReservationMicros trade) now
    | none =>
      if sweepConverts trade lastPrice then
        { s.done task with ledger := convertAccepted s.ledger id }
      else s.done task

/-- The tasks a sweep of an asset starts at a price. -/
def sweepTasks (ledger : Ledger) (asset : String) (lastPrice : ℚ) : List Task :=
  (ledger.trades.items.filter fun item =>
    decide (item.2.status = .accepted) && decide (item.2.asset = asset) &&
      actionable lastPrice item.2).map
    fun item => .sweeping item.1 item.2 lastPrice

/-- A task whose session reads the row of its order again. -/
def refreshed (s : BrokerState) : Task → Option Task
  | .cancelling id _ => (s.trade? id).map fun row => .cancelling id row
  | .sweeping id _ lastPrice => (s.trade? id).map fun row => .sweeping id row lastPrice
  | _ => none

/-- One step of the system. -/
def step (s : BrokerState) : Action → Option BrokerState
  | .place id req lastPrice quoteStale now =>
    -- market data yields positive prices, and no market order passes a stale quote
    if lastPrice ≤ 0 ∨ (quoteStale = true ∧ req.orderType = .market) then none
    else
      match place s.ledger id (req.trade now) (req.reserve lastPrice) with
      | none => some s
      | some ledger =>
        some { s with
          ledger := ledger
          tasks :=
            .placing id (req.trade now) (req.reserve lastPrice) lastPrice quoteStale :: s.tasks
          placedReserve := fun k =>
            if k = id then req.reserve lastPrice else s.placedReserve k }
  | .cancel id =>
    match s.trade? id with
    | none => some s
    | some trade =>
      if trade.status = .accepted then
        some { s with tasks := .cancelling id trade :: s.tasks }
      else some s
  | .sweep asset lastPrice =>
    if lastPrice ≤ 0 then none
    else some { s with tasks := s.tasks ++ sweepTasks s.ledger asset lastPrice }
  | .refresh task =>
    if task ∈ s.tasks then (refreshed s task).map (s.next task) else none
  | .run task now => if task ∈ s.tasks then some (runTask s task now) else none
  | .crash task => some (s.done task)

/-- The cash a new account is opened with. -/
def openingCash (initialDollars : ℚ) : ℤ :=
  max 0 (toMicros initialDollars)

/-- `get_or_create_account` for a user without trades. -/
def openAccount (initialDollars : ℚ) : Account where
  cashMicros := openingCash initialDollars
  reservedMicros := min 0 (openingCash initialDollars)

/-- A freshly created account. -/
def freshBroker (initialDollars : ℚ) : BrokerState where
  ledger := { account := openAccount initialDollars, trades := Dict.empty }
  tasks := []
  placedReserve := fun _ => 0
  settled := []

/-- The ledger of one user under any number of processes. -/
def broker (initialDollars : ℚ) : Machine BrokerState Action where
  init := freshBroker initialDollars
  step := step

/-! ## What a step does to the tables -/

/-- Two rows of one order: the terms agree, up to the conversion of a triggered
stop-limit order into a limit order. -/
structure SameOrder (old new : Trade) : Prop where
  asset : new.asset = old.asset
  side : new.side = old.side
  quantity : new.quantity = old.quantity
  limitPrice : new.limitPrice = old.limitPrice
  stopPrice : new.stopPrice = old.stopPrice
  orderType : new.orderType = old.orderType ∨
    (old.orderType = .stopLimit ∧ new.orderType = .limit)

theorem SameOrder.refl (trade : Trade) : SameOrder trade trade :=
  ⟨rfl, rfl, rfl, rfl, rfl, Or.inl rfl⟩

theorem SameOrder.trans {a b c : Trade} (h₁ : SameOrder a b) (h₂ : SameOrder b c) :
    SameOrder a c where
  asset := h₂.asset.trans h₁.asset
  side := h₂.side.trans h₁.side
  quantity := h₂.quantity.trans h₁.quantity
  limitPrice := h₂.limitPrice.trans h₁.limitPrice
  stopPrice := h₂.stopPrice.trans h₁.stopPrice
  orderType := by
    rcases h₁.orderType with h | ⟨hold, hnew⟩
    · rw [← h]
      exact h₂.orderType
    · rcases h₂.orderType with h | ⟨hstop, _⟩
      · exact Or.inr ⟨hold, h.trans hnew⟩
      · rw [hnew] at hstop
        cases hstop

/-- The conversion does not make or unmake market orders. -/
theorem SameOrder.market_iff {old new : Trade} (h : SameOrder old new) :
    new.orderType = .market ↔ old.orderType = .market := by
  rcases h.orderType with h | ⟨hold, hnew⟩
  · rw [h]
  · rw [hold, hnew]
    simp

/-- The conversion keeps the reservation. -/
theorem SameOrder.tradeReservationMicros_eq {old new : Trade} (h : SameOrder old new) :
    tradeReservationMicros new = tradeReservationMicros old := by
  unfold tradeReservationMicros
  rw [h.side, h.quantity, h.limitPrice, h.stopPrice]
  rcases h.orderType with h | ⟨hold, hnew⟩
  · rw [h]
  · rw [hold, hnew]
    simp [reservationMicros, reservationReference]

/-- What the amounts a task carries have to do with the rows. -/
def TaskOk (s : BrokerState) : Task → Prop
  | .placing id trade reserve lastPrice quoteStale =>
    (∃ row, s.trade? id = some row ∧ SameOrder trade row) ∧
      reserve = s.placedReserve id ∧ 0 < lastPrice ∧
      (quoteStale = true → trade.orderType ≠ .market)
  | .resting id => ∃ row, s.trade? id = some row ∧ row.orderType ≠ .market
  | .rejecting id reserve =>
    (∃ row, s.trade? id = some row) ∧ reserve = s.placedReserve id
  | .cancelling id trade =>
    (∃ row, s.trade? id = some row ∧ SameOrder trade row) ∧ trade.orderType ≠ .market
  | .sweeping id trade lastPrice =>
    (∃ row, s.trade? id = some row ∧ SameOrder trade row) ∧ trade.orderType ≠ .market ∧
      0 < lastPrice

/-- What holds of the row of an order. -/
structure RowOk (s : BrokerState) (id : OrderId) (row : Trade) : Prop where
  quantity_pos : 0 < row.quantity
  limit_pos : ∀ p ∈ row.limitPrice, 0 < p
  reserve_nonneg : 0 ≤ s.placedReserve id
  reserve_sell : row.side = .sell → s.placedReserve id = 0
  reserve_eq : row.orderType ≠ .market → tradeReservationMicros row = s.placedReserve id
  market_not_accepted : row.orderType = .market → row.status ≠ .accepted

/-- The five things a step can do to the tables and the history. -/
inductive Effect (s s' : BrokerState) : Prop
  | quiet (ledger : s'.ledger = s.ledger) (placed : s'.placedReserve = s.placedReserve)
      (settled : s'.settled = s.settled)
  | placed {id : OrderId} {trade : Trade} {reserve : ℤ}
      (fresh : s.trade? id = none) (pending : trade.status = .pending)
      (row : RowOk s' id trade)
      (available : reserve ≤ s.ledger.account.cashMicros - s.ledger.account.reservedMicros ∨
        reserve = 0)
      (ledger : s'.ledger =
        { account := { s.ledger.account with
            reservedMicros := s.ledger.account.reservedMicros + reserve }
          trades := s.ledger.trades.set id trade })
      (placed : s'.placedReserve = fun k => if k = id then reserve else s.placedReserve k)
      (settled : s'.settled = s.settled)
  | relabelled {id : OrderId} {row row' : Trade} (found : s.trade? id = some row)
      (same : SameOrder row row')
      (status : row'.status = row.status ∨
        (row.status = .pending ∧ row'.status = .accepted ∧ row.orderType ≠ .market))
      (price : row'.filledPrice = row.filledPrice)
      (ledger : s'.ledger = { s.ledger with trades := s.ledger.trades.set id row' })
      (placed : s'.placedReserve = s.placedReserve) (settled : s'.settled = s.settled)
  | closed {id : OrderId} {row : Trade} {toStatus : TradeStatus}
      (found : s.trade? id = some row) (wasOpen : row.status.isOpen = true)
      (terminal : toStatus.isOpen = false) (unfilled : toStatus ≠ .filled)
      (ledger : s'.ledger =
        { account :=
            if 0 < s.placedReserve id then
              { s.ledger.account with
                reservedMicros := released s.ledger.account (s.placedReserve id) }
            else s.ledger.account
          trades := s.ledger.trades.set id { row with status := toStatus } })
      (placed : s'.placedReserve = s.placedReserve) (settled : s'.settled = id :: s.settled)
  | filled {id : OrderId} {row : Trade} {price : ℚ} {now : Time}
      (found : s.trade? id = some row) (wasOpen : row.status.isOpen = true)
      (price_nonneg : 0 ≤ price)
      (trades : s'.ledger.trades = s.ledger.trades.set id
        { row with status := .filled, filledPrice := some price, filledAt := some now })
      (account : (row.side = .buy ∧
          released s.ledger.account (s.placedReserve id) ≤
            s.ledger.account.cashMicros - notionalMicros row.quantity price ∧
          s'.ledger.account =
            { cashMicros := s.ledger.account.cashMicros - notionalMicros row.quantity price
              reservedMicros := released s.ledger.account (s.placedReserve id) }) ∨
        (row.side = .sell ∧ s'.ledger.account =
          { s.ledger.account with
            cashMicros := s.ledger.account.cashMicros + notionalMicros row.quantity price }))
      (placed : s'.placedReserve = s.placedReserve) (settled : s'.settled = id :: s.settled)

end QuantumSentinel.Broker
