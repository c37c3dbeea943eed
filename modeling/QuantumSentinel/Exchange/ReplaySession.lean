import QuantumSentinel.Exchange.LongOnly

/-!
# Paper exchange: replaying a strategy

A stream of market events is replayed through the exchange.  Every few events a strategy sees the
book and the recent trades and may answer with a signal, and the signal becomes an order when no
other order is working.  Passive orders are cancelled after a number of events.

Main results:

- Definition `ReplaySession.replayEvent`: one event of the stream.
- Theorem `ReplaySession.exec_replaySession`: a session is a run of the machine.

Current gaps:

- The report at the end of a session, and the rendering of snapshots as dictionaries.
- Sessions without an exchange.
-/

namespace QuantumSentinel.Exchange

open Lib

/-! ## What a strategy sees -/

/-- A price level of a snapshot. -/
structure PriceLevel where
  price : ℚ
  size : ℚ
deriving DecidableEq, Repr

/-- A snapshot of the book, best levels first. -/
structure OrderBookSnapshot where
  timestamp : ℚ
  bids : List PriceLevel
  asks : List PriceLevel
  lastTradePrice : Option ℚ
  lastTradeSize : Option ℚ
deriving DecidableEq, Repr

/-- `OrderBook.snapshot`. -/
def OrderBook.snapshot (b : OrderBook) (levels : ℕ) : OrderBookSnapshot where
  timestamp := b.lastEventTime
  bids := (b.bidLevels.take levels).map fun q => ⟨q.price, totalSize b.heap q.orders⟩
  asks := (b.askLevels.take levels).map fun q => ⟨q.price, totalSize b.heap q.orders⟩
  lastTradePrice := b.lastTradePrice
  lastTradeSize := b.lastTradeSize

/-- A trade of the market. -/
structure TradeEvent where
  timestamp : ℚ
  price : ℚ
  size : ℚ
  aggressorSide : TradeSide
deriving DecidableEq, Repr

/-- What a strategy answers: the entry `signal` of its dictionary. -/
structure Signal where
  signal : Option String
deriving DecidableEq, Repr

/-- A strategy function. -/
abbrev StrategyFn : Type :=
  OrderBookSnapshot → List TradeEvent → Option Signal

/-! ## Sessions -/

/-- `ReplayConfig`, as far as the orders depend on it. -/
structure ReplayConfig where
  snapshotInterval : ℕ
  warmupEvents : ℕ
  maxEvents : Option ℕ
  snapshotLevels : ℕ
  orderQuantity : ℚ
  orderStyle : String
  cancelAfterEvents : Option ℤ
  interval_pos : 0 < snapshotInterval

/-- An entry of the signal history. -/
structure SignalRecord where
  signal : Option String
  timestamp : ℚ
  orderId : Option String
  orderStatus : Option OrderStatus
deriving DecidableEq, Repr

/-- `ReplayResult`, as far as the loop writes it. -/
structure ReplayResult where
  totalEvents : ℕ
  snapshotsGenerated : ℕ
  strategySignals : ℕ
  tradesObserved : ℕ
  snapshotHistory : List OrderBookSnapshot
  signalHistory : List SignalRecord
deriving DecidableEq, Repr

/-- The variables of the loop: `working` has the passive orders with the index of the event
at which each was submitted. -/
structure ReplaySession where
  exchange : PaperExchange
  index : ℕ
  recentTrades : List TradeEvent
  working : Dict String ℕ
  result : ReplayResult

/-- An event of the stream, the id drawn for it, and the strategy function as it is then: a
strategy may keep a state of its own. -/
structure ReplayInput where
  event : BookEvent
  uuid : HexId
  strategy : Option StrategyFn

/-- The last entries of a list that has grown too long. -/
def keepLast {α : Type} (limit kept : ℕ) (l : List α) : List α :=
  if limit < l.length then l.drop (l.length - kept) else l

/-- The price of a passive order. -/
def PaperExchange.passivePrice (x : PaperExchange) : TradeSide → Option ℚ
  | .buy => x.book.bestBid
  | .sell => x.book.bestAsk

/-- The side and the size of the order that a signal asks for. -/
def PaperExchange.signalOrder (x : PaperExchange) (signal : Option String)
    (config : ReplayConfig) : Option (TradeSide × ℚ) :=
  let held := x.positionQuantity
  if signal = some "BUY" ∧ held ≤ 0 then some (.buy, config.orderQuantity)
  else if signal = some "SELL" ∧ 0 < held then some (.sell, held)
  else none

/-- `_order_for_signal`, up to the submission. -/
def PaperExchange.orderForSignal (x : PaperExchange) (signal : Option String)
    (config : ReplayConfig) : Option OrderRequest :=
  if x.orderHistory.any fun r => (x.order r).status.isWorking then none
  else
    (x.signalOrder signal config).bind fun (side, qty) =>
      if config.orderStyle = "passive" then
        (x.passivePrice side).map fun price => ⟨side, qty, .limit, some price, none, .gtc, none⟩
      else some ⟨side, qty, .market, none, none, .gtc, none⟩

namespace ReplaySession

/-- The start of a session with a new exchange. -/
def start (config : ExchangeConfig) : ReplaySession where
  exchange := PaperExchange.empty config
  index := 0
  recentTrades := []
  working := Dict.empty
  result := ⟨0, 0, 0, 0, [], []⟩

/-- The loop over the passive orders on record: those that have ended are dropped, those that
are too old are cancelled. -/
def cancelStale (n : ℤ) (index : ℕ) :
    List (String × ℕ) → PaperExchange → Dict String ℕ → PaperExchange × Dict String ℕ
  | [], x, working => (x, working)
  | (oid, submittedAt) :: rest, x, working =>
    match x.byId.get? oid with
    | none => cancelStale n index rest x (working.erase oid)
    | some r =>
      if (x.order r).status.isWorking = false then
        cancelStale n index rest x (working.erase oid)
      else if n ≤ (index : ℤ) - submittedAt then
        cancelStale n index rest (x.cancelOrder oid) (working.erase oid)
      else
        cancelStale n index rest x working

variable (config : ReplayConfig) (s : ReplaySession) (input : ReplayInput)

/-- The event is applied to the book, and a trade is noted. -/
def received : ReplaySession :=
  let isTrade := input.event.eventType = .trade
  { s with
    exchange := s.exchange.onMarketEvent input.event input.uuid
    recentTrades :=
      if isTrade then
        keepLast 100 100 (s.recentTrades ++
          [⟨input.event.timestamp, input.event.price, input.event.size, input.event.side⟩])
      else s.recentTrades
    result := { s.result with
      totalEvents := s.result.totalEvents + 1
      tradesObserved := s.result.tradesObserved + if isTrade then 1 else 0 } }

/-- Old passive orders are cancelled. -/
def tended : ReplaySession :=
  match config.cancelAfterEvents with
  | none => s
  | some n =>
    let (exchange, working) := cancelStale n s.index s.working.items s.exchange s.working
    { s with exchange := exchange, working := working }

/-- The snapshot of the book. -/
def snapshot : OrderBookSnapshot :=
  s.exchange.book.snapshot config.snapshotLevels

/-- Whether a snapshot is taken at the current event. -/
def snapshotDue : Prop :=
  (s.index + 1) % config.snapshotInterval = 0

instance : Decidable (s.snapshotDue config) :=
  inferInstanceAs (Decidable (_ = _))

/-- The snapshot is noted. -/
def noted : ReplaySession :=
  if s.snapshotDue config then
    { s with result := { s.result with
      snapshotsGenerated := s.result.snapshotsGenerated + 1
      snapshotHistory := keepLast 500 250 (s.result.snapshotHistory ++ [s.snapshot config]) } }
  else s

/-- What the strategy answers, when it is asked. -/
def answer : Option Signal :=
  if s.snapshotDue config ∧ config.warmupEvents ≤ s.index then
    input.strategy.bind fun strategyFn => strategyFn (s.snapshot config) s.recentTrades
  else none

/-- The order that the answer becomes. -/
def request : Option OrderRequest :=
  (s.answer config input).bind fun signal => s.exchange.orderForSignal signal.signal config

/-- The order is submitted, and a passive one is put on record. -/
def placed (request : OrderRequest) : ReplaySession :=
  let oid := paperId (s.exchange.orderSeq + 1)
  { s with
    exchange := s.exchange.submitOrder request
    working := if config.orderStyle = "passive" then s.working.set oid s.index else s.working }

/-- The signal is counted, and becomes an order if it can. -/
def acted (signal : Signal) : ReplaySession :=
  let counted :=
    { s with result := { s.result with strategySignals := s.result.strategySignals + 1 } }
  match s.exchange.orderForSignal signal.signal config with
  | none =>
    { counted with result := { counted.result with
      signalHistory := counted.result.signalHistory ++
        [⟨signal.signal, input.event.timestamp, none, none⟩] } }
  | some request =>
    let r := s.exchange.book.nextRef
    let placed := counted.placed config request
    let order := placed.exchange.order r
    { placed with result := { placed.result with
      signalHistory := placed.result.signalHistory ++
        [⟨signal.signal, input.event.timestamp, some order.orderId, some order.status⟩] } }

/-- The strategy is asked, and answered. -/
def consulted : ReplaySession :=
  match s.answer config input with
  | none => s.noted config
  | some signal => (s.noted config).acted config input signal

/-- One round of the loop of `replay_session`. -/
def replayEvent : ReplaySession :=
  if config.maxEvents.any fun maxEvents => maxEvents ≤ s.index then s
  else
    let s := ((s.received input).tended config).consulted config input
    { s with index := s.index + 1 }

end ReplaySession

/-- `replay_session` with a new exchange. -/
def replaySession (exchange : ExchangeConfig) (config : ReplayConfig) (stream : List ReplayInput) :
    ReplaySession :=
  stream.foldl (ReplaySession.replayEvent config) (ReplaySession.start exchange)

namespace ReplaySession

/-- The loop, event by event. -/
def machine (exchange : ExchangeConfig) (config : ReplayConfig) :
    Machine ReplaySession ReplayInput where
  init := start exchange
  step := fun s input => some (s.replayEvent config input)

/-- A session is a run of the loop. -/
theorem exec_replaySession (exchange : ExchangeConfig) (config : ReplayConfig)
    (stream : List ReplayInput) :
    (machine exchange config).exec (start exchange) stream =
      some (replaySession exchange config stream) := by
  rw [replaySession]
  generalize start exchange = s
  induction stream generalizing s with
  | nil => rfl
  | cons input rest ih => exact ih (s.replayEvent config input)

end ReplaySession

end QuantumSentinel.Exchange
