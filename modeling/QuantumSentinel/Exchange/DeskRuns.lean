import QuantumSentinel.Exchange.EngineMoves

/-!
# Paper exchange: the exchange mirrors the desk

Every operation of the paper exchange is a sequence of actions of the desk: the orders of the
history are the entries, the orders in flight are the entries at that place, and cash, position
and the record of fills are those of the desk.

Main results:

- Theorem `PaperExchange.deliver`: what the engine returns is settled once.
- Theorem `PaperExchange.activate_stage`: an order that arrives is moved by the desk.
- Theorem `PaperExchange.applyEvent_stage`: an event of the feed moves entries.
- Theorem `PaperExchange.cancelOrder_stage`: a cancel closes at most one entry.
-/

namespace QuantumSentinel.Exchange

open Lib

variable {F : String → Prop}

/-! ## Desks and moves -/

/-- What a fill of the history and an execution have in common. -/
def Fill.trade (f : Fill) : String × Option TradeSide × ℚ × ℚ :=
  (f.orderId, f.side, f.fillPrice, f.fillQuantity)

/-- What an execution and a fill of the history have in common. -/
def Execution.trade (f : Execution) : String × Option TradeSide × ℚ × ℚ :=
  (f.orderId, some f.side, f.price, f.quantity)

/-- An entry of the desk after one move. -/
theorem Desk.get?_put (d : Desk) (r : Ref) (e : Entry) :
    (d.put r e).entries.get? = Function.update d.entries.get? r (some e) := by
  funext q
  by_cases hq : q = r
  · rw [hq, Function.update_self]
    exact Dict.get?_set_self ..
  · rw [Function.update_of_ne hq]
    exact Dict.get?_set_ne _ _ hq

/-- One move of an entry of the desk. -/
inductive Desk.MoveStep (config : ExchangeConfig) (d : Desk) : Act → Desk → Prop
  | move {act : Act} {e e' : Entry} {fills : List Execution}
      (hentry : d.entries.get? act.ref = some e) (hmoves : Desk.Moves config e act e' fills) :
      MoveStep config d act ((d.put act.ref e').withFills fills)

/-- A move is an action of the desk. -/
theorem Desk.MoveStep.step {config : ExchangeConfig} {d d' : Desk} {act : Act}
    (h : Desk.MoveStep config d act d') : Desk.Step config d act d' := by
  cases h with
  | move hentry hmoves => exact Desk.Step.move hentry hmoves

/-- Moves of entries are moves of the desk. -/
theorem Evolves.desk {config : ExchangeConfig} {look look' : Look} {acts : List Act}
    {fills : List Execution} (h : Evolves config look acts fills look') {d : Desk}
    (hd : d.entries.get? = look) :
    ∃ d', Path (Desk.MoveStep config) d acts d' ∧ d'.entries.get? = look' ∧
      d'.entries.keys = d.entries.keys ∧ d'.fills = d.fills ++ fills := by
  induction h generalizing d with
  | nil => exact ⟨d, Path.nil d, hd, rfl, (List.append_nil _).symm⟩
  | @move look look' act acts e e' fills later hentry hmoves _ ih =>
    subst hd
    obtain ⟨d', hpath, hlook, hkeys, hfills⟩ := ih (d := (d.put act.ref e').withFills fills)
      (d.get?_put act.ref e')
    have hmem : act.ref ∈ d.entries.keys := by
      by_contra hnot
      rw [Dict.get?_eq_none_iff.mpr hnot] at hentry
      cases hentry
    refine ⟨d', Path.cons (Desk.MoveStep.move hentry hmoves) hpath, hlook,
      hkeys.trans (Dict.keys_set_of_mem e' hmem), ?_⟩
    rw [hfills, ← List.append_assoc]
    rfl

/-- Every execution of moves is one of an order that moved. -/
theorem Evolves.order_of_fill {config : ExchangeConfig} {look look' : Look} {acts : List Act}
    {fills : List Execution} (h : Evolves config look acts fills look') {f : Execution}
    (hf : f ∈ fills) :
    ∃ act ∈ acts, act.hits ≠ [] ∧ ∃ e, look act.ref = some e ∧ f.orderId = e.ticket.orderId := by
  induction h with
  | nil => cases hf
  | @move look look' act acts e e' fills later hentry hmoves _ ih =>
    rcases List.mem_append.mp hf with hnow | hlater
    · cases hmoves with
      | close => cases hnow
      | park => cases hnow
      | @execute r attempt hits ending =>
        refine ⟨_, List.mem_cons_self .., ?_, e, hentry,
          execution_orderId e.ticket.started _ f hnow⟩
        intro hnone
        have hempty : hits = [] := hnone
        rw [hempty] at hnow
        cases hnow
      | passive =>
        refine ⟨_, List.mem_cons_self .., List.cons_ne_nil _ _, e, hentry, ?_⟩
        rw [List.mem_singleton.mp hnow]
        rfl
    · obtain ⟨act', hact, hhits, g, hg, hid⟩ := ih hlater
      rcases look_update hg with ⟨hsame, rfl⟩ | ⟨-, hold⟩
      · exact ⟨act', List.mem_cons_of_mem _ hact, hhits, e, hsame ▸ hentry,
          hid.trans hmoves.terms.orderId⟩
      · exact ⟨act', List.mem_cons_of_mem _ hact, hhits, g, hold, hid⟩

/-! ## Exchanges and desks -/

/-- The exchange as the desk sees it, with the orders that have not been activated. -/
structure Mirrors (F : String → Prop) (x : PaperExchange) (flights : List Ref) (d : Desk) :
    Prop where
  engine : MatchingEngine.Follows F x.config x.engine d.entries.get?
  flying : ∀ r, r ∈ flights ↔ ∃ e, d.entries.get? r = some e ∧ e.place = .flying
  once : flights.Nodup
  history : x.orderHistory = d.entries.keys
  numbered : ∀ r e n, d.entries.get? r = some e → e.ticket.orderId = paperId n → n ≤ x.orderSeq
  /-- the estimates noted for market buys in flight -/
  estimates : ∀ r e, d.entries.get? r = some e → e.place = .flying → e.ticket.side = .buy →
    e.ticket.orderType = .market →
      (x.marketCostEstimate.get? e.ticket.orderId).getD 0 = e.estimate
  unnoted : ∀ n, x.orderSeq < n → x.marketCostEstimate.get? (paperId n) = none
  cash : x.cash = d.cash x.config
  position : x.positionQuantity = d.position
  fills : x.fillHistory.map Fill.trade = d.fills.map Execution.trade

namespace PaperExchange

variable {x y : PaperExchange} {flights flights' : List Ref} {d : Desk} {r : Ref} {now : ℚ}

/-! ## Settlement -/

/-- What settling events does to the account. -/
structure Settled (x y : PaperExchange) (fills : List Execution) (now : ℚ) : Prop where
  cash : y.cash = x.cash + (fills.map Execution.cashFlow).sum
  position : y.positionQuantity = positionAfter x.positionQuantity fills
  log : reported y.eventLog = reported x.eventLog ++ fills
  fills : ∃ new, y.fillHistory = x.fillHistory ++ new ∧
    new.map Fill.trade = fills.map Execution.trade ∧ ∀ f ∈ new, f.timestamp = now

/-- Nothing is settled. -/
theorem Settled.nothing {fills : List Execution} (hfills : fills = []) (hcash : y.cash = x.cash)
    (hposition : y.positionQuantity = x.positionQuantity)
    (hhistory : y.fillHistory = x.fillHistory)
    (hlog : reported y.eventLog = reported x.eventLog) : Settled x y fills now := by
  subst hfills
  refine ⟨?_, hposition, ?_, [], ?_, rfl, fun f hf => (by cases hf)⟩
  · rw [hcash]
    exact (add_zero _).symm
  · rw [hlog, List.append_nil]
  · rw [hhistory, List.append_nil]

/-- Settling events writes the account and the logs only. -/
theorem settle_rest (x : PaperExchange) (events : List ExchangeEvent) :
    ∃ positions cash fillHistory eventLog, x.settle events = { x with
      positions := positions, cash := cash, fillHistory := fillHistory, eventLog := eventLog } := by
  induction events generalizing x with
  | nil => exact ⟨_, _, _, _, rfl⟩
  | cons event rest ih =>
    have hevent : ∃ positions cash fillHistory eventLog, x.settleEvent event = { x with
        positions := positions, cash := cash, fillHistory := fillHistory
        eventLog := eventLog } := by
      unfold settleEvent
      dsimp only
      split
      · exact ⟨_, _, _, _, rfl⟩
      · exact ⟨_, _, _, _, rfl⟩
    obtain ⟨p, c, f, l, hevent⟩ := hevent
    obtain ⟨p', c', f', l', hrest⟩ := ih (x.settleEvent event)
    rw [hevent] at hrest
    refine ⟨p', c', f', l', ?_⟩
    rw [settle, List.foldl_cons, hevent]
    exact hrest

theorem settle_engine (x : PaperExchange) (events : List ExchangeEvent) :
    (x.settle events).engine = x.engine := by
  obtain ⟨p, c, f, l, hrest⟩ := settle_rest x events
  rw [hrest]

/-- What settlement and the engine leave alone. -/
structure Kept (x y : PaperExchange) : Prop where
  config : y.config = x.config
  orderHistory : y.orderHistory = x.orderHistory
  orderSeq : y.orderSeq = x.orderSeq
  inflight : y.inflight = x.inflight
  seq : y.seq = x.seq
  currentTime : y.currentTime = x.currentTime
  hasExpiring : y.hasExpiring = x.hasExpiring
  byId : y.byId = x.byId

theorem settle_kept (x : PaperExchange) (events : List ExchangeEvent) :
    Kept x (x.settle events) := by
  obtain ⟨p, c, f, l, hrest⟩ := settle_rest x events
  rw [hrest]
  exact ⟨rfl, rfl, rfl, rfl, rfl, rfl, rfl, rfl⟩

/-- One event is settled: a fill event once, another one not at all. -/
theorem settleEvent_settled (x : PaperExchange) (event : ExchangeEvent) :
    Settled x (x.settleEvent event) event.execution?.toList event.timestamp := by
  by_cases hfill : event.eventType.isFill = true ∧ ∃ details, event.details = .fill details
  · obtain ⟨hfill, details, hdetails⟩ := hfill
    have hexecution : event.execution? = some
        { orderId := event.orderId.getD ""
          side := details.side
          price := details.fillPrice
          quantity := details.fillQuantity
          completes := event.eventType = .orderFilled } := by
      simp only [ExchangeEvent.execution?, hfill, hdetails]
    have hsettle : x.settleEvent event =
        ({ x with eventLog := x.eventLog ++ [event] } : PaperExchange).applyFill
          (event.orderId.getD "") details.fillPrice details.fillQuantity details.side
          event.timestamp details.taker := by
      simp only [settleEvent, hfill, hdetails]
    have hquantity : ∀ p : Option PaperPosition,
        (p.getD (PaperPosition.flat x.config.symbol)).quantity =
          (p.map PaperPosition.quantity).getD 0 := by
      intro p
      cases p <;> rfl
    have hlog : reported (x.eventLog ++ [event]) = reported x.eventLog ++
        event.execution?.toList := reported_concat ..
    rw [hexecution] at hlog
    rw [hsettle, hexecution]
    refine ⟨?_, ?_, hlog, _, rfl, rfl, ?_⟩
    · cases hside : details.side <;> simp [applyFill, Execution.cashFlow]
    · simp only [positionQuantity, applyFill, Dict.get?_set_self, Option.map_some, Option.getD_some,
        PaperPosition.applyFill_quantity, hquantity, positionAfter, Option.toList_some,
        List.foldl_cons, List.foldl_nil]
    · intro f hf
      rw [List.mem_singleton.mp hf]
  · have hnone : event.execution? = none ∧
        x.settleEvent event = { x with eventLog := x.eventLog ++ [event] } := by
      unfold ExchangeEvent.execution? settleEvent
      cases htype : event.eventType.isFill with
      | false => exact ⟨rfl, rfl⟩
      | true =>
        cases hdetails : event.details with
        | fill details => exact absurd ⟨htype, details, hdetails⟩ hfill
        | _ => exact ⟨rfl, rfl⟩
    have hlog : reported (x.eventLog ++ [event]) = reported x.eventLog := by
      rw [reported_concat, hnone.1]
      exact List.append_nil _
    rw [hnone.1, hnone.2]
    exact Settled.nothing rfl rfl rfl rfl hlog

theorem Settled.trans {z : PaperExchange} {fills fills' : List Execution}
    (h : Settled x y fills now) (h' : Settled y z fills' now) :
    Settled x z (fills ++ fills') now where
  cash := by
    rw [h'.cash, h.cash, List.map_append, List.sum_append]
    ring
  position := by
    rw [h'.position, h.position, positionAfter, positionAfter, positionAfter, List.foldl_append]
  fills := by
    obtain ⟨new, hnew, htrades, htimes⟩ := h.fills
    obtain ⟨new', hnew', htrades', htimes'⟩ := h'.fills
    refine ⟨new ++ new', ?_, ?_, ?_⟩
    · rw [hnew', hnew, List.append_assoc]
    · rw [List.map_append, List.map_append, htrades, htrades']
    · intro f hf
      exact (List.mem_append.mp hf).elim (htimes f) (htimes' f)
  log := by rw [h'.log, h.log, List.append_assoc]

/-- Events of one time are settled one by one. -/
theorem settle_settled (x : PaperExchange) {events : List ExchangeEvent}
    (htimes : ∀ event ∈ events, event.timestamp = now) :
    Settled x (x.settle events) (reported events) now := by
  induction events generalizing x with
  | nil => exact Settled.nothing rfl rfl rfl rfl rfl
  | cons event rest ih =>
    have hevent := settleEvent_settled x event
    rw [htimes event (List.mem_cons_self ..)] at hevent
    have hrest := ih (x.settleEvent event) fun later hlater =>
      htimes later (List.mem_cons_of_mem event hlater)
    have hreported : reported (event :: rest) = event.execution?.toList ++ reported rest := by
      rw [reported, List.filterMap_cons]
      cases event.execution? <;> rfl
    rw [hreported]
    exact hevent.trans hrest

/-! ## Steps -/

/-- One stage of an operation: moves at a time, whose executions are settled. -/
structure Stage (F : String → Prop) (x : PaperExchange) (d : Desk) (now : ℚ) (acts : List Act)
    (y : PaperExchange) (flights : List Ref) (d' : Desk) : Prop where
  path : Path (Desk.MoveStep x.config) d acts d'
  mirrors : Mirrors F y flights d'
  fills : ∀ f ∈ y.fillHistory, f ∈ x.fillHistory ∨ (f.timestamp = now ∧ ∃ act ∈ acts,
    act.hits ≠ [] ∧ ∃ e, d.entries.get? act.ref = some e ∧ f.orderId = e.ticket.orderId)
  /-- the log reports the executions -/
  logged : reported x.eventLog = d.fills → reported y.eventLog = d'.fills

/-- What the engine does and what is settled for it are one stage. -/
theorem stage_of_settled (h : Mirrors F x flights d) {result : MatchingEngine × List ExchangeEvent}
    {acts : List Act} {look' : Look}
    (hmoved : MatchingEngine.Moved F x.config x.engine d.entries.get? now result acts look')
    (hflying : ∀ r, r ∈ flights' ↔ ∃ e, look' r = some e ∧ e.place = .flying)
    (honce : flights'.Nodup)
    (hy : ∃ positions cash fillHistory eventLog, y = { x with
      engine := result.1, positions := positions, cash := cash, fillHistory := fillHistory
      eventLog := eventLog })
    (hsettled : Settled x y (reported result.2) now) :
    ∃ d', d'.entries.get? = look' ∧ Stage F x d now acts y flights' d' := by
  obtain ⟨d', hpath, hlook, hkeys, hfills⟩ := hmoved.evolves.desk rfl
  obtain ⟨positions, cash, fillHistory, eventLog, rfl⟩ := hy
  obtain ⟨new, hnew, htrades, htimes⟩ := hsettled.fills
  have hhistory : fillHistory = x.fillHistory ++ new := hnew
  refine ⟨d', hlook, hpath, ⟨?_, ?_, honce, ?_, ?_, ?_, h.unnoted, ?_, ?_, ?_⟩, ?_, fun hlog => ?_⟩
  · rw [hlook]
    exact hmoved.follows
  · rw [hlook]
    exact hflying
  · exact h.history.trans hkeys.symm
  · intro r e n hr hid
    rw [hlook] at hr
    obtain ⟨e₀, h₀, hsame⟩ := hmoved.evolves.terms hr
    exact h.numbered r e₀ n h₀ (hsame.orderId.symm.trans hid)
  · intro r e hr hplace
    rw [hlook] at hr
    exact h.estimates r e (hmoved.evolves.flying_kept hr hplace) hplace
  · refine hsettled.cash.trans ?_
    show x.cash + _ = d'.cash x.config
    rw [h.cash, Desk.cash, Desk.cash, hfills, List.map_append, List.sum_append, add_assoc]
  · refine hsettled.position.trans ?_
    rw [h.position, Desk.position, Desk.position, hfills, positionAfter, positionAfter,
      positionAfter, List.foldl_append]
  · show fillHistory.map Fill.trade = _
    rw [hhistory, List.map_append, htrades, hfills, List.map_append, ← h.fills]
  · intro f hf
    have hmem : f ∈ fillHistory := hf
    rw [hhistory] at hmem
    rcases List.mem_append.mp hmem with hold | hadded
    · exact Or.inl hold
    · refine Or.inr ⟨htimes f hadded, ?_⟩
      have hmem : f.trade ∈ (reported result.2).map Execution.trade :=
        htrades ▸ List.mem_map_of_mem hadded
      obtain ⟨g, hg, htrade⟩ := List.mem_map.mp hmem
      obtain ⟨act, hact, hhits, e, he, hid⟩ := hmoved.evolves.order_of_fill hg
      exact ⟨act, hact, hhits, e, he, (congrArg Prod.fst htrade).symm.trans hid⟩
  · rw [hsettled.log, hlog, hfills]

/-- What the engine returns is settled once. -/
theorem deliver (h : Mirrors F x flights d) {result : MatchingEngine × List ExchangeEvent}
    {acts : List Act} {look' : Look}
    (hmoved : MatchingEngine.Moved F x.config x.engine d.entries.get? now result acts look')
    (hflying : ∀ r, r ∈ flights' ↔ ∃ e, look' r = some e ∧ e.place = .flying)
    (honce : flights'.Nodup) :
    ∃ d', d'.entries.get? = look' ∧
      Stage F x d now acts ({ x with engine := result.1 }.settle result.2) flights' d' := by
  have hsettled := settle_settled { x with engine := result.1 } hmoved.times
  obtain ⟨positions, cash, fillHistory, eventLog, hrest⟩ :=
    settle_rest { x with engine := result.1 } result.2
  exact stage_of_settled h hmoved hflying honce ⟨_, _, _, _, hrest⟩
    ⟨hsettled.cash, hsettled.position, hsettled.log, hsettled.fills⟩

/-- The estimate of an order that is not in flight is dropped. -/
theorem dropEstimate (h : Mirrors F x flights d) (id : String)
    (hid : ∀ r e, d.entries.get? r = some e → e.place = .flying → e.ticket.orderId ≠ id) :
    Mirrors F { x with marketCostEstimate := x.marketCostEstimate.erase id } flights d := by
  refine ⟨h.engine, h.flying, h.once, h.history, h.numbered, ?_, ?_, h.cash, h.position, h.fills⟩
  · intro r e hr hplace hside htype
    rw [← h.estimates r e hr hplace hside htype]
    exact congrArg (Option.getD · 0) (Dict.get?_erase_ne _ (hid r e hr hplace))
  · intro n hn
    by_cases hsame : paperId n = id
    · rw [hsame]
      exact Dict.get?_erase_self ..
    · exact (Dict.get?_erase_ne _ hsame).trans (h.unnoted n hn)

/-! ## Activation -/

/-- An activation leaves the clock and the orders in flight alone. -/
theorem activate_kept (x : PaperExchange) (r : Ref) : Kept x (x.activate r) := by
  have h := settle_kept
    { x with
      arrivalMid := x.arrivalMid.set (x.order r).orderId x.book.midPrice
      engine := (x.engine.submitOrder r ((x.order r).activeAt.getD x.currentTime)).1 }
    (x.engine.submitOrder r ((x.order r).activeAt.getD x.currentTime)).2
  exact ⟨h.config, h.orderHistory, h.orderSeq, h.inflight, h.seq, h.currentTime, h.hasExpiring,
      h.byId⟩

/-- An order that is activated makes one move. -/
theorem activate_stage (h : Mirrors F x (r :: flights) d) :
    ∃ act e' d', act.ref = r ∧ e'.place ≠ .flying ∧
      d'.entries.get? = Function.update d.entries.get? r (some e') ∧
        Stage F x d ((x.order r).activeAt.getD x.currentTime) [act] (x.activate r) flights d' := by
  obtain ⟨e, hr, hfly⟩ := (h.flying r).mp (List.mem_cons_self ..)
  obtain ⟨hnot, honce⟩ := List.nodup_cons.mp h.once
  obtain ⟨act, e', href, hlanded, hmoved⟩ := MatchingEngine.submitOrder_moves h.engine hr hfly
    ((x.order r).activeAt.getD x.currentTime)
  have harrived : Mirrors F
      { x with arrivalMid := x.arrivalMid.set (x.order r).orderId x.book.midPrice }
      (r :: flights) d :=
    ⟨h.engine, h.flying, h.once, h.history, h.numbered, h.estimates, h.unnoted, h.cash,
      h.position, h.fills⟩
  have hflying : ∀ q, q ∈ flights ↔
      ∃ f, Function.update d.entries.get? r (some e') q = some f ∧ f.place = .flying := by
    intro q
    by_cases hq : q = r
    · subst hq
      rw [Function.update_self]
      refine iff_of_false hnot ?_
      rintro ⟨f, hf, hplace⟩
      cases hf
      exact hlanded hplace
    · rw [Function.update_of_ne hq, ← h.flying q, List.mem_cons, or_iff_right hq]
  obtain ⟨d', hlook, hstage⟩ := deliver harrived hmoved hflying honce
  refine ⟨act, e', d', href, hlanded, hlook, hstage.path, ?_, hstage.fills, hstage.logged⟩
  refine dropEstimate hstage.mirrors _ fun q f hq hplace hsame => ?_
  have hqr : q ≠ r := by
    rintro rfl
    exact hnot ((hstage.mirrors.flying q).mpr ⟨f, hq, hplace⟩)
  rw [hlook, Function.update_of_ne hqr] at hq
  refine hqr (h.engine.book.sim.unique r q e f hr hq ?_)
  exact hsame.trans (h.engine.book.sim.orderId_eq hr)

/-! ## The clock and the feed -/

/-- What every activation preserves holds when the orders whose time has come are released. -/
theorem releaseFrom_rule {I : PaperExchange → List Flight → Prop} {timestamp : ℚ}
    (hstep : ∀ x f rest, I x (f :: rest) → f.arrival ≤ timestamp + eps →
      I ({ x with inflight := rest, currentTime := max x.currentTime f.arrival }.activate f.order)
        rest) (flights : List Flight) (h : I x flights) :
    ∃ y left, releaseFrom timestamp flights x = { y with inflight := left } ∧ I y left ∧
      ∀ f ∈ left.head?, timestamp + eps < f.arrival := by
  induction flights generalizing x with
  | nil => exact ⟨x, [], rfl, h, fun f hf => (by cases hf)⟩
  | cons f rest ih =>
    simp only [releaseFrom]
    split
    · rename_i hdue
      exact ih (hstep x f rest h hdue)
    · rename_i hlater
      refine ⟨x, f :: rest, rfl, h, fun g hg => ?_⟩
      cases hg
      exact not_le.mp hlater

/-- The last part of `advance_to`. -/
def expirePassed (x : PaperExchange) : PaperExchange :=
  if x.hasExpiring then
    { x with engine := (x.engine.expireOrders x.currentTime).1 }.settle
      (x.engine.expireOrders x.currentTime).2
  else
    x

theorem advanceTo_eq (x : PaperExchange) (timestamp : ℚ) :
    x.advanceTo timestamp = ({ releaseFrom timestamp x.inflight x with
      currentTime := max (releaseFrom timestamp x.inflight x).currentTime timestamp } :
        PaperExchange).expirePassed :=
  rfl

/-- The last part of `on_market_event`. -/
def applyEvent (x : PaperExchange) (event : BookEvent) (uuid : HexId) : PaperExchange :=
  ({ x with
      engine := (x.engine.onMarketEvent event uuid).1
      eventCount := x.eventCount + 1 }.settle (x.engine.onMarketEvent event uuid).2).noteMid
    event.timestamp

theorem onMarketEvent_eq (x : PaperExchange) (event : BookEvent) (uuid : HexId) :
    x.onMarketEvent event uuid = (x.advanceTo event.timestamp).applyEvent event uuid :=
  rfl

theorem expirePassed_kept (x : PaperExchange) : Kept x x.expirePassed := by
  unfold expirePassed
  split
  · have h := settle_kept { x with engine := (x.engine.expireOrders x.currentTime).1 }
      (x.engine.expireOrders x.currentTime).2
    exact ⟨h.config, h.orderHistory, h.orderSeq, h.inflight, h.seq, h.currentTime, h.hasExpiring,
      h.byId⟩
  · exact ⟨rfl, rfl, rfl, rfl, rfl, rfl, rfl, rfl⟩

theorem applyEvent_kept (x : PaperExchange) (event : BookEvent) (uuid : HexId) :
    Kept x (x.applyEvent event uuid) := by
  have h := settle_kept
    { x with
      engine := (x.engine.onMarketEvent event uuid).1
      eventCount := x.eventCount + 1 }
    (x.engine.onMarketEvent event uuid).2
  unfold applyEvent noteMid
  split
  · exact ⟨h.config, h.orderHistory, h.orderSeq, h.inflight, h.seq, h.currentTime, h.hasExpiring,
      h.byId⟩
  · split
    · exact ⟨h.config, h.orderHistory, h.orderSeq, h.inflight, h.seq, h.currentTime, h.hasExpiring,
      h.byId⟩
    · exact ⟨h.config, h.orderHistory, h.orderSeq, h.inflight, h.seq, h.currentTime, h.hasExpiring,
      h.byId⟩

/-- Moves of orders that are not in flight leave those in flight. -/
theorem flying_of_evolves {config : ExchangeConfig} {look look' : Look} {acts : List Act}
    {fills : List Execution} (h : Evolves config look acts fills look')
    (hacts : ∀ act ∈ acts, ∀ e, look act.ref = some e → e.place ≠ .flying) (r : Ref) :
    (∃ e, look' r = some e ∧ e.place = .flying) ↔ ∃ e, look r = some e ∧ e.place = .flying := by
  constructor
  · rintro ⟨e, hr, hfly⟩
    exact ⟨e, h.flying_kept hr hfly, hfly⟩
  · rintro ⟨e, hr, hfly⟩
    refine ⟨e, ?_, hfly⟩
    rw [h.untouched (r := r), hr]
    rintro act hact rfl
    exact hacts act hact e hr hfly

/-- Nothing happens. -/
theorem Stage.refl (h : Mirrors F x flights d) (now : ℚ) : Stage F x d now [] x flights d :=
  ⟨Path.nil d, h, fun _ hf => Or.inl hf, id⟩

/-- When the clock has moved, no order at the engine is left whose expiry has passed. -/
theorem expirePassed_stage (h : Mirrors F x flights d) :
    ∃ acts d', Stage F x d x.currentTime acts x.expirePassed flights d' ∧
      (∀ act ∈ acts, ∃ r e, act = .close r .expired ∧ d.entries.get? r = some e ∧ e.AtEngine) ∧
      (x.hasExpiring = true → ∀ r e, d'.entries.get? r = some e → e.AtEngine →
        e.ticket.isExpired x.currentTime = false) := by
  unfold expirePassed
  split
  · rename_i hexpiring
    obtain ⟨acts, look', hmoved, hcloses, hlive⟩ :=
      MatchingEngine.expireOrders_moves h.engine x.currentTime
    have hflying : ∀ r, r ∈ flights ↔ ∃ e, look' r = some e ∧ e.place = .flying := by
      intro r
      rw [h.flying r]
      refine (flying_of_evolves hmoved.evolves ?_ r).symm
      intro act hact e hr
      obtain ⟨q, f, rfl, hq, hat⟩ := hcloses act hact
      rw [show d.entries.get? q = some e from hr] at hq
      cases hq
      exact hat.not_flying
    obtain ⟨d', hlook, hstage⟩ := deliver h hmoved hflying h.once
    exact ⟨acts, d', hstage, hcloses, fun _ => hlook ▸ hlive⟩
  · rename_i hnone
    exact ⟨[], d, Stage.refl h _, fun act hact => (by cases hact), fun hf => absurd hf hnone⟩

/-- A feed event moves orders at the engine. -/
theorem applyEvent_stage (h : Mirrors F x flights d) {event : BookEvent} {uuid : HexId}
    (hevent : F (event.idOr uuid)) :
    ∃ acts d', Stage F x d event.timestamp acts (x.applyEvent event uuid) flights d' ∧
      ∀ act ∈ acts, ∃ e, d.entries.get? act.ref = some e ∧ e.AtEngine := by
  obtain ⟨acts, look', hmoved, hat⟩ := MatchingEngine.onMarketEvent_moves h.engine hevent
  have hcounted : Mirrors F { x with eventCount := x.eventCount + 1 } flights d :=
    ⟨h.engine, h.flying, h.once, h.history, h.numbered, h.estimates, h.unnoted, h.cash,
      h.position, h.fills⟩
  have hflying : ∀ r, r ∈ flights ↔ ∃ e, look' r = some e ∧ e.place = .flying := by
    intro r
    rw [h.flying r]
    refine (flying_of_evolves hmoved.evolves ?_ r).symm
    intro act hact e hr
    obtain ⟨f, hf, hplace⟩ := hat act hact
    rw [hr] at hf
    cases hf
    exact hplace.not_flying
  obtain ⟨d', -, hstage⟩ := deliver hcounted hmoved hflying h.once
  have hm := hstage.mirrors
  refine ⟨acts, d', ⟨hstage.path, ?_, ?_, ?_⟩, hat⟩
  · unfold applyEvent noteMid
    split
    · exact hm
    · split
      · exact hm
      · exact ⟨hm.engine, hm.flying, hm.once, hm.history, hm.numbered, hm.estimates, hm.unnoted,
          hm.cash, hm.position, hm.fills⟩
  · have hhistory : (x.applyEvent event uuid).fillHistory =
        ({ x with
          engine := (x.engine.onMarketEvent event uuid).1
          eventCount := x.eventCount + 1 }.settle
            (x.engine.onMarketEvent event uuid).2).fillHistory := by
      unfold applyEvent noteMid
      split
      · rfl
      · split <;> rfl
    rw [hhistory]
    exact hstage.fills
  · have hlog : (x.applyEvent event uuid).eventLog =
        ({ x with
          engine := (x.engine.onMarketEvent event uuid).1
          eventCount := x.eventCount + 1 }.settle
            (x.engine.onMarketEvent event uuid).2).eventLog := by
      unfold applyEvent noteMid
      split
      · rfl
      · split <;> rfl
    rw [hlog]
    exact hstage.logged

/-! ## Cancels -/

/-- An order that is cancelled in flight. -/
theorem cancelFlight_moved (h : Mirrors F x flights d) (hr : r ∈ flights) :
    ∃ e, d.entries.get? r = some e ∧ e.place = .flying ∧
      MatchingEngine.Moved F x.config x.engine d.entries.get? x.currentTime
        ({ x.engine with book := x.book.modify r (withStatus .cancelled) }, [])
        [.close r .cancelled]
        (Function.update d.entries.get? r (some (MatchingEngine.cancelled e))) := by
  obtain ⟨e, hlook, hfly⟩ := (h.flying r).mp hr
  have hevolves := Evolves.single x.config (.close r .cancelled) hlook
    (Desk.Moves.close (by rw [hfly]; exact fun hf => by cases hf) (Or.inl rfl))
  refine ⟨e, hlook, hfly, hevolves, ⟨?_, ?_, ?_, h.engine.nodup⟩, le_rfl,
    fun event hevent => (by cases hevent)⟩
  · exact h.engine.book.modify hlook (Or.inl hfly) (fun _ => rfl) (fun _ => rfl)
      (congrArg (Ticket.withStatus · .cancelled) (h.engine.book.sim.ticket r e hlook))
      (fun hf => by cases hf)
  · exact hevolves.placed h.engine.placed
  · exact fun q => (h.engine.stops q).trans (MatchingEngine.atStop_update hlook
      (by rw [hfly]; exact fun hf => by cases hf) (fun hf => by cases hf) q).symm

/-- A cancel closes the order with the id, wherever it is. -/
theorem cancelOrder_stage (h : Mirrors F x (x.inflight.map Flight.order) d) (id : String) :
    ∃ acts d', Stage F x d x.currentTime acts (x.cancelOrder id)
        ((x.cancelOrder id).inflight.map Flight.order) d' ∧
      (∀ act ∈ acts, ∃ r, act = .close r .cancelled) ∧
      ∀ r e, d'.entries.get? r = some e → e.ticket.orderId = id → e.place = .gone := by
  unfold cancelOrder
  split
  · rename_i f hfind
    have hname : (x.order f.order).orderId = id := by
      have hfound := List.find?_some hfind
      exact of_decide_eq_true hfound
    have hmem := List.mem_map_of_mem (f := Flight.order) (List.mem_of_find?_eq_some hfind)
    obtain ⟨e, hr, hfly, hmoved⟩ := cancelFlight_moved h hmem
    have hid : e.ticket.orderId = id := (h.engine.book.sim.orderId_eq hr).symm.trans hname
    have hremove : (x.inflight.eraseP fun f => (x.order f.order).orderId = id).map Flight.order =
        (x.inflight.map Flight.order).filter fun q => q ≠ f.order := by
      have hfilter := OrderBook.removeId_eq_filter x.book.heap (r := f.order) h.once
        fun q hq hsame => by
          obtain ⟨g, hg, -⟩ := (h.flying q).mp hq
          exact h.engine.book.sim.eq_of_id hr (h.engine.book.sim.known q g hg) hsame
      rw [← hfilter, removeId, List.eraseP_map, ← hname]
      rfl
    have hflying : ∀ q, q ∈ (x.inflight.map Flight.order).filter (fun q => q ≠ f.order) ↔
        ∃ g, Function.update d.entries.get? f.order (some (MatchingEngine.cancelled e)) q = some g ∧
          g.place = .flying := by
      intro q
      rw [List.mem_filter, decide_eq_true_eq, h.flying q]
      by_cases hq : q = f.order
      · rw [hq, Function.update_self]
        refine iff_of_false (fun hf => hf.2 rfl) ?_
        rintro ⟨g, hg, hplace⟩
        cases hg
        cases hplace
      · rw [Function.update_of_ne hq]
        exact and_iff_left hq
    obtain ⟨d', hlook, hstage⟩ := stage_of_settled
      (y := (x.withBook (x.book.modify f.order (withStatus .cancelled))).logEvent .orderCancelled id
        (.reason .cancelledInFlight)) h hmoved hflying (h.once.filter _) ⟨_, _, _, _, rfl⟩
      (Settled.nothing rfl rfl rfl rfl ((reported_concat ..).trans (List.append_nil _)))
    have hgone : ∀ r g, d'.entries.get? r = some g → g.ticket.orderId = id → g.place = .gone := by
      intro q g hq hsame
      rw [hlook] at hq
      rcases look_update hq with ⟨-, rfl⟩ | ⟨hne, hold⟩
      · rfl
      · exact absurd (h.engine.book.sim.unique f.order q e g hr hold (hsame.trans hid.symm)) hne
    refine ⟨_, d', ⟨hstage.path, ?_, hstage.fills, hstage.logged⟩, fun act hact => ?_, hgone⟩
    · have hdropped := dropEstimate hstage.mirrors id fun q g hq hplace hsame => by
        rw [hgone q g hq hsame] at hplace
        cases hplace
      show Mirrors F _
        ((x.inflight.eraseP fun f => (x.order f.order).orderId = id).map Flight.order) d'
      rw [hremove]
      exact ⟨hdropped.engine, hdropped.flying, hdropped.once, hdropped.history, hdropped.numbered,
        hdropped.estimates, hdropped.unnoted, hdropped.cash, hdropped.position, hdropped.fills⟩
    · rw [List.mem_singleton.mp hact]
      exact ⟨f.order, rfl⟩
  · rename_i hfind
    have hnotFlying : ∀ r e, d.entries.get? r = some e → e.ticket.orderId = id →
        e.place ≠ .flying := by
      intro r e hr hid hfly
      obtain ⟨f, hf, rfl⟩ := List.mem_map.mp ((h.flying r).mpr ⟨e, hr, hfly⟩)
      exact List.find?_eq_none.mp hfind f hf
        (decide_eq_true ((h.engine.book.sim.orderId_eq hr).trans hid))
    have hnolog : reported (x.engine.cancelOrder id x.currentTime).2 = [] →
        reported (x.eventLog ++ (x.engine.cancelOrder id x.currentTime).2) =
          reported x.eventLog := fun hnone => by rw [reported_append, hnone, List.append_nil]
    rcases MatchingEngine.cancelOrder_moves h.engine id x.currentTime with
      ⟨r, e, hr, hid, hat, hmoved⟩ | ⟨hnone, hmoved⟩
    · have hflying : ∀ q, q ∈ x.inflight.map Flight.order ↔
          ∃ g, Function.update d.entries.get? r (some (MatchingEngine.cancelled e)) q = some g ∧
            g.place = .flying := by
        intro q
        rw [h.flying q]
        refine (flying_of_evolves hmoved.evolves ?_ q).symm
        intro act hact g hg
        rw [List.mem_singleton.mp hact] at hg
        rw [show d.entries.get? r = some g from hg] at hr
        cases hr
        exact hat.not_flying
      have hnofill := hmoved.evolves.closes fun act hact =>
        ⟨r, .cancelled, List.mem_singleton.mp hact⟩
      obtain ⟨d', hlook, hstage⟩ := stage_of_settled h hmoved hflying h.once ⟨_, _, _, _, rfl⟩
        (Settled.nothing hnofill rfl rfl rfl (hnolog hnofill))
      refine ⟨_, d', hstage, fun act hact => ⟨r, List.mem_singleton.mp hact⟩, ?_⟩
      intro q g hq hsame
      rw [hlook] at hq
      rcases look_update hq with ⟨-, rfl⟩ | ⟨hne, hold⟩
      · rfl
      · exact absurd (h.engine.book.sim.unique r q e g hr hold (hsame.trans hid.symm)) hne
    · have hnofill := hmoved.evolves.closes fun act hact => absurd hact List.not_mem_nil
      obtain ⟨d', hlook, hstage⟩ := stage_of_settled h hmoved h.flying h.once ⟨_, _, _, _, rfl⟩
        (Settled.nothing hnofill rfl rfl rfl (hnolog hnofill))
      refine ⟨_, d', hstage, fun act hact => (by cases hact), fun r e hr hid => ?_⟩
      rw [hlook] at hr
      cases hplace : e.place with
      | flying => exact absurd hplace (hnotFlying r e hr hid)
      | stop => exact absurd (Or.inl hplace) (hnone r e hr hid)
      | book => exact absurd (Or.inr hplace) (hnone r e hr hid)
      | gone => rfl

end PaperExchange

end QuantumSentinel.Exchange
