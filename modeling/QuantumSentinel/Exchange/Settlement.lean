import QuantumSentinel.Exchange.ExecutionReport

/-!
# Paper exchange: settlement

Executions come out of the engine on four paths, and the exchange books every fill event it is
handed: cash, position, history and log.  The engine keeps a log of its own.  Both logs report the
same executions, the account is what they add up to, and every order has the executions it counts.

Main results:

- Definition `PaperExchange.AccountReconciles`: the account, the orders and the logs agree.
- Theorem `PaperExchange.engine_log`: the exchange logs the executions of its engine.
- Theorem `Desk.completions_invariant`: one execution completes an order that is FILLED.
- Theorem `PaperExchange.account_reconciles`: they agree in runs whose feed carries no id
  that they issue.
-/

namespace QuantumSentinel.Exchange

open Lib

variable {F : String → Prop}

/-! ## The account of a history -/

/-- The signed quantity of a fill. -/
def Fill.signedQuantity (f : Fill) : ℚ :=
  f.side.elim 0 fun side => PaperPosition.signed side f.fillQuantity

/-- The signed money of a fill: a buy pays, a sell receives. -/
def Fill.cashFlow (f : Fill) : ℚ :=
  f.side.elim 0 fun side => -PaperPosition.signed side (f.fillPrice * f.fillQuantity)

/-- The signed sum of the quantities of fills, which snaps to zero where a fill against it leaves
less than `1e-10`. -/
def snappedSum (fills : List Fill) : ℚ :=
  fills.foldl (fun quantity f => f.side.elim quantity fun side =>
    nextQuantity quantity side f.fillQuantity) 0

/-- A fill takes the quantity to the sum, but for the snap. -/
theorem abs_nextQuantity_sub (quantity : ℚ) (side : TradeSide) (size : ℚ) :
    |nextQuantity quantity side size - (quantity + PaperPosition.signed side size)| ≤
      PaperPosition.flatBelow := by
  unfold nextQuantity
  dsimp only
  split
  · rename_i hsnap
    rw [zero_sub, abs_neg]
    exact hsnap.2.2.le
  · rw [sub_self, abs_zero]
    exact flatBelow_pos.le

/-- The snaps change the signed sum by less than `1e-10` each. -/
theorem abs_snappedSum_sub (fills : List Fill) :
    |snappedSum fills - (fills.map Fill.signedQuantity).sum| ≤
      fills.length * PaperPosition.flatBelow := by
  induction fills using List.reverseRecOn with
  | nil => exact (abs_eq_zero.mpr (sub_self (0 : ℚ))).le.trans (by simp)
  | append_singleton rest f ih =>
    have hstep : |snappedSum (rest ++ [f]) - (snappedSum rest + f.signedQuantity)| ≤
        PaperPosition.flatBelow := by
      rw [snappedSum, List.foldl_append, List.foldl_cons, List.foldl_nil, ← snappedSum,
        Fill.signedQuantity]
      cases f.side with
      | none => exact (abs_eq_zero.mpr (by simp)).le.trans flatBelow_pos.le
      | some side => exact abs_nextQuantity_sub _ side f.fillQuantity
    have hsplit : snappedSum (rest ++ [f]) - ((rest ++ [f]).map Fill.signedQuantity).sum =
        (snappedSum (rest ++ [f]) - (snappedSum rest + f.signedQuantity)) +
          (snappedSum rest - (rest.map Fill.signedQuantity).sum) := by
      rw [List.map_append, List.sum_append, List.map_singleton, List.sum_singleton]
      ring
    rw [hsplit, List.length_append, List.length_singleton, Nat.cast_add, Nat.cast_one, add_mul,
      one_mul, add_comm]
    exact (abs_add_le _ _).trans (by linarith)

/-! ## Completions -/

/-- Executions complete an order when nothing is left after the last of them, and then once. -/
theorem countP_completes {t : Ticket} {hits : List Hit} (hfits : Fits t.remaining hits) :
    (t.executions hits).countP Execution.completes =
      if hits ≠ [] ∧ t.remaining - hitSize hits ≤ eps then 1 else 0 := by
  induction hits generalizing t with
  | nil => rfl
  | cons h rest ih =>
    have hleft : (t.fill h).remaining = t.remaining - h.quantity := by
      rw [Ticket.remaining, Ticket.remaining, Ticket.fill]
      ring
    have hstatus : (t.fill h).status = if (t.fill h).remaining ≤ eps then .filled
        else .partiallyFilled := rfl
    have hcompletes : ((t.fill h).execution h).completes =
        decide ((t.fill h).remaining ≤ eps) := by
      refine decide_eq_decide.mpr ?_
      rw [hstatus]
      split
      · rename_i hdone
        exact iff_of_true rfl hdone
      · rename_i hmore
        exact iff_of_false (fun hf => by cases hf) hmore
    have hrest := ih (t := t.fill h) (by rw [hleft]; exact hfits.2.2)
    rw [Ticket.executions, List.countP_cons, hrest, hcompletes, hitSize_cons, ← sub_sub, ← hleft]
    simp only [decide_eq_true_eq]
    cases rest with
    | nil => simp
    | cons h' rest' =>
      -- what follows fits what is left, which is more than the tolerance
      have hmore : ¬(t.fill h).remaining ≤ eps := by
        rw [hleft]
        exact not_le.mpr (hfits.2.2.1.trans_le hfits.2.2.2.1)
      simp [hmore]

/-- No order that is somewhere is FILLED. -/
theorem Entry.Placed.not_filled {e : Entry} (h : e.Placed) (hplace : e.place ≠ .gone) :
    e.ticket.status ≠ .filled := by
  intro hfilled
  have hworks := h.working hplace
  rw [hfilled] at hworks
  cases hworks

namespace Desk

variable {config : ExchangeConfig} {d d' : Desk} {r : Ref} {e : Entry}

/-- An order is completed by one execution if it is FILLED, and by none otherwise. -/
structure Completions (d : Desk) : Prop where
  reconciled : d.Reconciled
  completed : ∀ r e, d.entries.get? r = some e →
    (d.executionsOf e.ticket.orderId).countP Execution.completes =
      if e.ticket.status = .filled then 1 else 0

/-- A move completes its order when it fills it. -/
theorem Completions.move (h : d.Completions) (hplaced : AllPlaced d.entries.get?) {act : Act}
    (hstep : MoveStep config d act d') : d'.Completions := by
  refine ⟨h.reconciled.move hstep, ?_⟩
  cases hstep with
  | @move e e' fills hentry hmoves =>
    obtain ⟨t, hits, htrades⟩ := hmoves.trades
    have hid : e'.ticket.orderId = e.ticket.orderId := hmoves.terms.orderId
    have hfills : ∀ f ∈ fills, f.orderId = e.ticket.orderId := fun f hf => by
      rw [htrades.eq] at hf
      exact (execution_orderId t hits f hf).trans htrades.orderId
    have hexecutions : ∀ id, ((d.put act.ref e').withFills fills).executionsOf id =
        d.executionsOf id ++ if e.ticket.orderId = id then fills else [] := fun id =>
      (d.put act.ref e').executionsOf_withFills hfills
    intro q f hq
    have hlook := (congrFun (d.get?_put act.ref e') q).symm.trans hq
    rw [hexecutions, List.countP_append]
    rcases look_update hlook with ⟨-, rfl⟩ | ⟨hne, hold⟩
    · have hbefore := h.completed _ _ hentry
      rw [if_neg ((hplaced _ _ hentry).not_filled hmoves.not_gone)] at hbefore
      have hleft : f.ticket.remaining = t.remaining - hitSize hits := by
        rw [Ticket.remaining, hmoves.terms.quantity, htrades.filled, htrades.remaining,
          Ticket.remaining]
        ring
      have hafter := countP_completes (t := t) (htrades.remaining ▸ htrades.fits)
      rw [hid, hbefore, if_pos rfl, htrades.eq, hafter, ← hleft, zero_add]
      simp only [htrades.completed]
    · have hother : e.ticket.orderId ≠ f.ticket.orderId := fun hsame =>
        hne (h.reconciled.unique act.ref q e f hentry hold hsame).symm
      rw [if_neg hother]
      exact h.completed q f hold

/-- A new order is not completed. -/
theorem Completions.enter (h : d.Completions) (hnew : d.entries.get? r = none)
    (hid : ∀ q f, d.entries.get? q = some f → f.ticket.orderId ≠ e.ticket.orderId)
    (hfilled : e.ticket.filled = 0) (hstatus : e.ticket.status ≠ .filled) :
    (d.put r e).Completions := by
  have hreconciled := h.reconciled.enter hnew hid hfilled
  refine ⟨hreconciled, fun q f hq => ?_⟩
  have hlook := (congrFun (d.get?_put r e) q).symm.trans hq
  rcases look_update hlook with ⟨-, rfl⟩ | ⟨-, hold⟩
  · have hnone : (d.put r f).executionsOf f.ticket.orderId = [] := by
      by_contra hsome
      have hpos := (hreconciled.filled_pos_iff hq).mpr hsome
      rw [hfilled] at hpos
      exact lt_irrefl _ hpos
    rw [hnone, if_neg hstatus]
    rfl
  · exact h.completed q f hold

open PaperExchange in
/-- In every run an order is completed by one execution if it is FILLED. -/
theorem completions_invariant (config : ExchangeConfig)
    (G : PaperExchange → OrderRequest → Prop) : DeskInvariant F config G Completions where
  move := fun hplaced hstep h => h.move hplaced hstep
  sent := fun hx _ _ h => h.enter (get?_nextRef hx.reflects)
    (fun _ _ hq => orderId_fresh hx.reflects hq) rfl fun hf => by cases hf
  refused := fun hx _ h => h.enter (get?_nextRef hx.reflects)
    (fun _ _ hq => orderId_fresh hx.reflects hq) rfl fun hf => by cases hf

/-- No order fills more than its quantity. -/
def Within (d : Desk) : Prop :=
  ∀ r e, d.entries.get? r = some e → e.ticket.filled ≤ max e.ticket.quantity 0

open PaperExchange in
/-- In every run no order fills more than its quantity. -/
theorem within_invariant (config : ExchangeConfig)
    (G : PaperExchange → OrderRequest → Prop) : DeskInvariant F config G Within := by
  refine DeskInvariant.of_entries (fun {e act e' fills} _ hmoves he => ?_)
    (fun _ _ => le_max_right _ _) fun _ => le_max_right _ _
  obtain ⟨t, hits, htrades⟩ := hmoves.trades
  rw [hmoves.terms.quantity, htrades.filled]
  by_cases hnone : hits = []
  · rw [hnone, hitSize_nil, add_zero]
    exact he
  · have hsize := htrades.fits.size_le hnone
    rw [Ticket.remaining] at hsize
    exact le_max_of_le_left (by linarith)

end Desk

/-! ## The logs -/

/-- A fill event names its order and carries the details of the fill. -/
def ExchangeEvent.CarriesFill (event : ExchangeEvent) : Prop :=
  event.eventType.isFill = true →
    ∃ id details, event.orderId = some id ∧ event.details = .fill details

/-- All fill events of a list carry their fills. -/
def CarryFills (events : List ExchangeEvent) : Prop :=
  ∀ event ∈ events, event.CarriesFill

@[simp]
theorem carryFills_nil : CarryFills [] :=
  List.forall_mem_nil _

@[simp]
theorem carryFills_cons {event : ExchangeEvent} {events : List ExchangeEvent} :
    CarryFills (event :: events) ↔ event.CarriesFill ∧ CarryFills events :=
  List.forall_mem_cons

@[simp]
theorem carryFills_append {events events' : List ExchangeEvent} :
    CarryFills (events ++ events') ↔ CarryFills events ∧ CarryFills events' :=
  List.forall_mem_append

@[simp]
theorem carriesFill_fillEvent (o : Order) (price quantity now : ℚ) (aggressor : Bool) :
    (fillEvent o price quantity now aggressor).CarriesFill :=
  fun _ => ⟨_, _, rfl, rfl⟩

theorem carriesFill_of_not_fill {event : ExchangeEvent} (h : event.eventType.isFill = false) :
    event.CarriesFill := fun hfill => by
  rw [h] at hfill
  cases hfill

/-- The ORDER_FILLED events of an order are the executions that complete it. -/
theorem countP_orderFilled {events : List ExchangeEvent} (h : CarryFills events) (id : String) :
    (events.countP fun event => event.eventType = .orderFilled ∧ event.orderId = some id) =
      (reported events).countP fun f => f.completes ∧ f.orderId = id := by
  induction events with
  | nil => rfl
  | cons event rest ih =>
    obtain ⟨hevent, hrest⟩ := carryFills_cons.mp h
    have hsplit : reported (event :: rest) = event.execution?.toList ++ reported rest := by
      rw [← List.singleton_append, reported_append]
      exact congrArg (· ++ reported rest) (reported_concat [] event)
    rw [List.countP_cons, ih hrest, hsplit, List.countP_append, Nat.add_comm]
    by_cases hfill : event.eventType.isFill = true
    · obtain ⟨name, details, hname, hdetails⟩ := hevent hfill
      have hexecution : event.execution? = some
          { orderId := name
            side := details.side
            price := details.fillPrice
            quantity := details.fillQuantity
            completes := event.eventType = .orderFilled } := by
        simp only [ExchangeEvent.execution?, hfill, hdetails, hname, Option.getD_some]
      rw [hexecution, Option.toList_some, List.countP_singleton, hname]
      simp only [decide_eq_true_eq, Option.some.injEq]
    · have hnone : event.execution? = none := by
        unfold ExchangeEvent.execution?
        split
        · contradiction
        · rfl
      have hother : event.eventType ≠ .orderFilled := fun hf => hfill (by rw [hf]; rfl)
      rw [hnone, if_neg (by simp [hother])]
      rfl

namespace OrderBook

variable (b : OrderBook) (r : Ref) (now : ℚ)

theorem recordFills_carry (fills : List Fill) : CarryFills (recordFills r now fills b).2 := by
  induction fills generalizing b with
  | nil => exact carryFills_nil
  | cons fill rest ih =>
    exact carryFills_cons.mpr ⟨carriesFill_fillEvent _ _ _ _ _, ih _⟩

theorem executeMarketOrder_carry : CarryFills (b.executeMarketOrder r now).2 := by
  have htake : CarryFills (b.take r now none).2 := recordFills_carry _ _ _ _
  unfold executeMarketOrder
  dsimp only
  split
  · exact carryFills_append.mpr
      ⟨htake, carryFills_cons.mpr ⟨carriesFill_of_not_fill rfl, carryFills_nil⟩⟩
  · split
    · exact carryFills_append.mpr
        ⟨htake, carryFills_cons.mpr ⟨carriesFill_of_not_fill rfl, carryFills_nil⟩⟩
    · exact htake

theorem restRemainder_carry : CarryFills (b.restRemainder r now).2 := by
  unfold restRemainder
  dsimp only
  split
  · exact carryFills_nil
  · split <;> exact carryFills_cons.mpr ⟨carriesFill_of_not_fill rfl, carryFills_nil⟩

theorem executeLimitOrder_carry : CarryFills (b.executeLimitOrder r now).2 := by
  unfold executeLimitOrder
  dsimp only
  split
  · exact carryFills_cons.mpr ⟨carriesFill_of_not_fill rfl, carryFills_nil⟩
  · refine carryFills_append.mpr ⟨?_, restRemainder_carry _ _ _⟩
    split
    · exact recordFills_carry _ _ _ _
    · exact carryFills_nil

end OrderBook

namespace MatchingEngine

variable (e : MatchingEngine)

/-- The engine logs the events it returns. -/
theorem submitOrder_eventLog (r : Ref) (now : ℚ) :
    (e.submitOrder r now).1.eventLog = e.eventLog ++ (e.submitOrder r now).2 := by
  have hprocess : ∀ taken : MatchingEngine, (taken.process r now).1.eventLog = taken.eventLog := by
    intro taken
    unfold process
    dsimp only
    split
    · rfl
    · split <;> rfl
  exact congrArg (· ++ _) (hprocess _)

theorem cancelOrder_eventLog (id : String) (now : ℚ) :
    (e.cancelOrder id now).1.eventLog = e.eventLog ++ (e.cancelOrder id now).2 := by
  unfold cancelOrder
  split <;> rfl

theorem onMarketEvent_eventLog (event : BookEvent) (uuid : HexId) :
    (e.onMarketEvent event uuid).1.eventLog = e.eventLog ++ (e.onMarketEvent event uuid).2 := by
  unfold onMarketEvent
  dsimp only
  split <;> rfl

theorem expireOrders_eventLog (now : ℚ) :
    (e.expireOrders now).1.eventLog = e.eventLog ++ (e.expireOrders now).2 :=
  rfl

theorem submitOrder_carry (r : Ref) (now : ℚ) : CarryFills (e.submitOrder r now).2 := by
  have hprocess : ∀ taken : MatchingEngine, CarryFills (taken.process r now).2 := by
    intro taken
    unfold process
    dsimp only
    split
    · exact carryFills_cons.mpr ⟨carriesFill_of_not_fill rfl, carryFills_nil⟩
    · split
      · exact carryFills_cons.mpr
          ⟨carriesFill_of_not_fill rfl, OrderBook.executeMarketOrder_carry _ _ _⟩
      · exact carryFills_cons.mpr
          ⟨carriesFill_of_not_fill rfl, OrderBook.executeLimitOrder_carry _ _ _⟩
      · exact carryFills_cons.mpr ⟨carriesFill_of_not_fill rfl, carryFills_nil⟩
  exact carryFills_cons.mpr ⟨carriesFill_of_not_fill rfl, hprocess _⟩

theorem cancelOrder_carry (id : String) (now : ℚ) : CarryFills (e.cancelOrder id now).2 := by
  have hresting : ∀ book cancelled, CarryFills (cancelEvents now book cancelled) := by
    intro book cancelled
    cases cancelled with
    | none => exact carryFills_nil
    | some r => exact carryFills_cons.mpr ⟨carriesFill_of_not_fill rfl, carryFills_nil⟩
  unfold cancelOrder
  split
  · exact carryFills_cons.mpr ⟨carriesFill_of_not_fill rfl, carryFills_nil⟩
  · exact hresting _ _

theorem checkStopTriggers_carry (tradePrice now : ℚ) (stops : List Ref) (b : OrderBook) :
    CarryFills (checkStopTriggers tradePrice now stops b).events := by
  induction stops generalizing b with
  | nil => exact carryFills_nil
  | cons r rest ih =>
    unfold checkStopTriggers
    split
    · have hexecuted : CarryFills (executeTriggered b r now).2 := by
        unfold executeTriggered
        dsimp only
        split
        · exact OrderBook.executeMarketOrder_carry _ _ _
        · exact OrderBook.executeLimitOrder_carry _ _ _
      exact carryFills_cons.mpr
        ⟨carriesFill_of_not_fill rfl, carryFills_append.mpr ⟨hexecuted, ih _⟩⟩
    · exact ih b

theorem onMarketEvent_carry (event : BookEvent) (uuid : HexId) :
    CarryFills (e.onMarketEvent event uuid).2 := by
  have hmaker : ∀ now book fills, CarryFills (makerEvents now book fills) := by
    intro now book fills ev hev
    obtain ⟨fill, -, hfill⟩ := List.mem_filterMap.mp hev
    obtain ⟨r, -, rfl⟩ := Option.map_eq_some_iff.mp hfill
    exact carriesFill_fillEvent _ _ _ _ _
  unfold onMarketEvent
  dsimp only
  split
  · exact carryFills_append.mpr ⟨hmaker _ _ _, checkStopTriggers_carry _ _ _ _⟩
  · exact hmaker _ _ _

theorem expireOrders_carry (now : ℚ) : CarryFills (e.expireOrders now).2 := by
  have hresting : ∀ items b, CarryFills (expireResting now items b).2 := by
    intro items
    induction items with
    | nil => exact fun _ => carryFills_nil
    | cons item rest ih =>
      intro b
      unfold expireResting
      dsimp only
      split
      · split
        · exact carryFills_cons.mpr ⟨carriesFill_of_not_fill rfl, ih _⟩
        · exact ih _
      · exact ih _
  have hstops : ∀ stops b, CarryFills (expireStops now stops b).events := by
    intro stops
    induction stops with
    | nil => exact fun _ => carryFills_nil
    | cons r rest ih =>
      intro b
      unfold expireStops
      split
      · exact carryFills_cons.mpr ⟨carriesFill_of_not_fill rfl, ih _⟩
      · exact ih _
  exact carryFills_append.mpr ⟨hresting _ _, hstops _ _⟩

end MatchingEngine

namespace PaperExchange

variable {x y : PaperExchange} {events : List ExchangeEvent} {config : ExchangeConfig}

/-- The logs of the exchange and of its engine report the same executions, and fill events carry
their fills. -/
structure Logged (x : PaperExchange) : Prop where
  agree : reported x.eventLog = reported x.engine.eventLog
  carry : CarryFills x.eventLog

/-- Settling events logs them. -/
theorem settle_eventLog (x : PaperExchange) (events : List ExchangeEvent) :
    (x.settle events).eventLog = x.eventLog ++ events := by
  induction events generalizing x with
  | nil => exact (List.append_nil _).symm
  | cons event rest ih =>
    have hevent : (x.settleEvent event).eventLog = x.eventLog ++ [event] := by
      unfold settleEvent
      dsimp only
      split <;> rfl
    have hrest := ih (x.settleEvent event)
    rw [hevent, List.append_assoc] at hrest
    exact hrest

/-- The events of the engine are logged by both. -/
theorem Logged.extend (h : Logged x) (hengine : y.engine.eventLog = x.engine.eventLog ++ events)
    (hlog : y.eventLog = x.eventLog ++ events) (hevents : CarryFills events) : Logged y where
  agree := by rw [hlog, hengine, reported_append, reported_append, h.agree]
  carry := by
    rw [hlog]
    exact carryFills_append.mpr ⟨h.carry, hevents⟩

/-- An event of the exchange itself reports no execution. -/
theorem Logged.note (h : Logged x) {event : ExchangeEvent}
    (hengine : y.engine.eventLog = x.engine.eventLog) (hlog : y.eventLog = x.eventLog ++ [event])
    (hevent : event.eventType.isFill = false) : Logged y where
  agree := by
    have hnone : event.execution? = none := by
      unfold ExchangeEvent.execution?
      rw [hevent]
    rw [hlog, hengine, reported_concat, hnone, h.agree]
    exact List.append_nil _
  carry := by
    rw [hlog]
    exact carryFills_append.mpr
      ⟨h.carry, carryFills_cons.mpr ⟨carriesFill_of_not_fill hevent, carryFills_nil⟩⟩

theorem Logged.activate (h : Logged x) (r : Ref) : Logged (x.activate r) := by
  have hengine : (x.activate r).engine.eventLog = x.engine.eventLog ++
      (x.engine.submitOrder r ((x.order r).activeAt.getD x.currentTime)).2 := by
    refine Eq.trans ?_ (x.engine.submitOrder_eventLog _ _)
    exact congrArg MatchingEngine.eventLog (settle_engine _ _)
  exact h.extend hengine (settle_eventLog _ _) (x.engine.submitOrder_carry _ _)

theorem Logged.advanceTo (h : Logged x) (timestamp : ℚ) : Logged (x.advanceTo timestamp) := by
  obtain ⟨y, left, hreleased, hy, -⟩ := releaseFrom_rule (I := fun y _ => Logged y)
    (fun z f rest hz _ => Logged.activate (x := { z with
      inflight := rest, currentTime := max z.currentTime f.arrival }) ⟨hz.agree, hz.carry⟩ f.order)
    x.inflight h
  rw [advanceTo_eq, hreleased]
  unfold expirePassed
  split
  · refine hy.extend ?_ (settle_eventLog _ _) (MatchingEngine.expireOrders_carry _ _)
    refine Eq.trans ?_ (MatchingEngine.expireOrders_eventLog _ _)
    exact congrArg MatchingEngine.eventLog (settle_engine _ _)
  · exact ⟨hy.agree, hy.carry⟩

/-- Every operation logs what the engine does. -/
theorem Logged.apply (h : Logged x) (op : Op) : Logged (x.apply op) := by
  cases op with
  | submitOrder request =>
    show Logged (x.submitOrder request)
    cases hreason : x.pretradeRejectReason (x.requestedOrder request) with
    | some reason =>
      rw [submitOrder_refused hreason]
      exact h.note rfl rfl rfl
    | none =>
      rw [submitOrder_accepted hreason]
      split
      · exact h.note rfl rfl rfl
      · exact Logged.activate (x := x.entered request) ⟨h.agree, h.carry⟩ _
  | cancelOrder id =>
    show Logged (x.cancelOrder id)
    unfold cancelOrder
    split
    · exact h.note rfl rfl rfl
    · exact h.extend (x.engine.cancelOrder_eventLog _ _) rfl (x.engine.cancelOrder_carry _ _)
  | advanceTo timestamp => exact h.advanceTo timestamp
  | onMarketEvent event uuid =>
    show Logged (x.onMarketEvent event uuid)
    have hbefore := h.advanceTo event.timestamp
    have hnote : ∀ (z : PaperExchange) (now : ℚ), Logged z → Logged (z.noteMid now) := by
      intro z now hz
      unfold noteMid
      split
      · exact hz
      · split
        · exact hz
        · exact ⟨hz.agree, hz.carry⟩
    refine hnote _ _ (hbefore.extend ?_ (settle_eventLog _ _)
      ((x.advanceTo event.timestamp).engine.onMarketEvent_carry event uuid))
    refine Eq.trans ?_ ((x.advanceTo event.timestamp).engine.onMarketEvent_eventLog event uuid)
    exact congrArg MatchingEngine.eventLog (settle_engine _ _)

/-- In every run the exchange logs the executions of its engine. -/
theorem engine_log (hx : (machine config).Reachable x) : Logged x := by
  refine hx.invariant ⟨rfl, carryFills_nil⟩ ?_
  rintro x op y hstep h
  cases hstep
  exact h.apply op

/-! ## The account of a run -/

/-- The account, the orders and the logs agree. -/
structure AccountReconciles (x : PaperExchange) : Prop where
  cash : x.cash = x.config.initialCash + (x.fillHistory.map Fill.cashFlow).sum
  position : x.positionQuantity = snappedSum x.fillHistory
  /-- the snaps are small -/
  near : |x.positionQuantity - (x.fillHistory.map Fill.signedQuantity).sum| ≤
    x.fillHistory.length * PaperPosition.flatBelow
  known : ∀ f ∈ x.fillHistory, ∃ r ∈ x.orderHistory, (x.order r).orderId = f.orderId
  filled : ∀ r ∈ x.orderHistory,
    (x.order r).filledQuantity = ((x.fillsOf (x.order r)).map Fill.fillQuantity).sum
  /-- an order of less than nothing fills nothing -/
  within : ∀ r ∈ x.orderHistory, (x.order r).filledQuantity ≤ max (x.order r).quantity 0
  /-- the history has every execution of the engine once -/
  settled : x.fillHistory.map Fill.trade = (reported x.engine.eventLog).map Execution.trade
  logged : reported x.eventLog = reported x.engine.eventLog
  completed : ∀ r ∈ x.orderHistory,
    (x.eventLog.countP fun event =>
      event.eventType = .orderFilled ∧ event.orderId = some (x.order r).orderId) =
        if (x.order r).status = .filled then 1 else 0

section Mirrored

variable {flights : List Ref} {d : Desk} {r : Ref} {e : Entry}

/-- The money of a trade. -/
def tradeCash (trade : String × Option TradeSide × ℚ × ℚ) : ℚ :=
  trade.2.1.elim 0 fun side => -PaperPosition.signed side (trade.2.2.1 * trade.2.2.2)

/-- The cash is what the fills of the history add up to. -/
theorem cash_of_mirrors (h : Mirrors F x flights d) :
    x.cash = x.config.initialCash + (x.fillHistory.map Fill.cashFlow).sum := by
  have hfills := congrArg (List.map tradeCash) h.fills
  rw [List.map_map, List.map_map] at hfills
  have hexecution : (tradeCash ∘ Execution.trade : Execution → ℚ) = Execution.cashFlow := by
    funext f
    cases hside : f.side with
    | buy =>
      simp only [Function.comp, tradeCash, Execution.trade, Execution.cashFlow, hside,
        Option.elim_some, PaperPosition.signed]
      ring
    | sell =>
      simp only [Function.comp, tradeCash, Execution.trade, Execution.cashFlow, hside,
        Option.elim_some, PaperPosition.signed]
      ring
  rw [h.cash, Desk.cash, ← hexecution, ← hfills]
  rfl

/-- The position is what the fills of the history add up to, with the snaps. -/
theorem position_of_mirrors (h : Mirrors F x flights d) :
    x.positionQuantity = snappedSum x.fillHistory := by
  let add : ℚ → String × Option TradeSide × ℚ × ℚ → ℚ := fun quantity trade =>
    trade.2.1.elim quantity fun side => nextQuantity quantity side trade.2.2.2
  have hfills := congrArg (List.foldl add 0) h.fills
  rw [List.foldl_map, List.foldl_map] at hfills
  rw [h.position]
  exact hfills.symm

/-- Every fill of the history is one of an order on record. -/
theorem known_of_mirrors (h : Mirrors F x flights d) (hd : d.Reconciled) {f : Fill}
    (hf : f ∈ x.fillHistory) : ∃ r ∈ x.orderHistory, (x.order r).orderId = f.orderId := by
  have htrade : f.trade ∈ d.fills.map Execution.trade := h.fills ▸ List.mem_map_of_mem hf
  obtain ⟨g, hg, hsame⟩ := List.mem_map.mp htrade
  obtain ⟨r, e, hr, hid⟩ := hd.known g hg
  have hticket : e.ticket = (x.order r).ticket := h.engine.book.sim.ticket r e hr
  refine ⟨r, (mem_orderHistory h).mpr ⟨e, hr⟩, ?_⟩
  exact (congrArg Ticket.orderId hticket).symm.trans (hid.trans (congrArg Prod.fst hsame))

/-- The log has one ORDER_FILLED event for an order that is FILLED, and none for another one. -/
theorem completed_of_mirrors (h : Mirrors F x flights d) (hd : d.Completions)
    (hlog : reported x.eventLog = d.fills) (hlogged : Logged x) (hr : d.entries.get? r = some e) :
    (x.eventLog.countP fun event =>
      event.eventType = .orderFilled ∧ event.orderId = some (x.order r).orderId) =
        if (x.order r).status = .filled then 1 else 0 := by
  have hticket : e.ticket = (x.order r).ticket := h.engine.book.sim.ticket r e hr
  have hid : e.ticket.orderId = (x.order r).orderId := congrArg Ticket.orderId hticket
  have hcompleted := hd.completed r e hr
  rw [countP_orderFilled hlogged.carry, hlog, status_eq h hr, ← hcompleted, Desk.executionsOf,
    List.countP_filter, hid]
  simp only [Bool.decide_and, Bool.decide_eq_true]

end Mirrored

/-- In every run whose feed carries no id that is issued in it the account, the orders and the
logs agree. -/
theorem account_reconciles (hx : (machine config).ReachableUnder (Guarded F fun _ _ => True) x) :
    x.AccountReconciles := by
  have hempty : Desk.empty.Completions ∧ Desk.empty.Within :=
    ⟨⟨⟨fun r q e f hr => (by cases hr), fun f hf => (by cases hf), fun f hf => (by cases hf),
      fun r e hr => (by cases hr), fun r e hr => (by cases hr)⟩, fun r e hr => (by cases hr)⟩,
      fun r e hr => (by cases hr)⟩
  obtain ⟨d, hrecords, hcompletions, hwithin⟩ := ((Desk.completions_invariant config _).and
    (Desk.within_invariant config _)).reachable hempty hx
  have hlogged := engine_log hx.reachable
  have hmirrors := hrecords.reflects
  have hentry : ∀ r ∈ x.orderHistory, ∃ e, d.entries.get? r = some e := fun r hr =>
    (mem_orderHistory hmirrors).mp hr
  have hposition := position_of_mirrors hmirrors
  refine ⟨cash_of_mirrors hmirrors, hposition, hposition ▸ abs_snappedSum_sub x.fillHistory,
    fun f hf => known_of_mirrors hmirrors hcompletions.reconciled hf, fun r hr => ?_,
    fun r hr => ?_, ?_, hlogged.agree, fun r hr => ?_⟩
  · obtain ⟨e, he⟩ := hentry r hr
    exact (money_of_mirrors hmirrors hcompletions.reconciled he).1
  · obtain ⟨e, he⟩ := hentry r hr
    have hticket : e.ticket = (x.order r).ticket := hmirrors.engine.book.sim.ticket r e he
    have hless := hwithin r e he
    rw [hticket] at hless
    exact hless
  · rw [hmirrors.fills, ← hrecords.log, hlogged.agree]
  · obtain ⟨e, he⟩ := hentry r hr
    exact completed_of_mirrors hmirrors hcompletions hrecords.log hlogged he

/-- A bought share, a stop that the next print triggers, and a sell that is partly filled. -/
def stoppedOut : List Op :=
  [.onMarketEvent ⟨1, .add, .sell, 100, 10, some "m1"⟩ OrderBook.zeros,
    .onMarketEvent ⟨1, .add, .buy, 98, 3, some "m2"⟩ OrderBook.zeros,
    .submitOrder ⟨.buy, 10, .limit, some 100, none, .gtc, none⟩,
    .submitOrder ⟨.sell, 4, .stop, none, some 97, .gtc, none⟩,
    .submitOrder ⟨.sell, 6, .limit, some 101, none, .gtc, none⟩,
    .onMarketEvent ⟨2, .trade, .sell, 97, 1, none⟩ OrderBook.zeros,
    .onMarketEvent ⟨3, .trade, .buy, 102, 5, none⟩ OrderBook.zeros]

theorem account_reconciles_stoppedOut :
    ∃ x, (machine instant).execUnder (Guarded (· ∈ ["m1", "m2", OrderBook.zeros.text])
        fun _ _ => True) (empty instant) stoppedOut = some x ∧
      (x.orderHistory.map fun r => ((x.order r).status, (x.order r).filledQuantity)) =
        [(.filled, 10), (.cancelled, 2), (.partiallyFilled, 5)] ∧ x.AccountReconciles := by
  have hrun : ((machine instant).execUnder (Guarded (· ∈ ["m1", "m2", OrderBook.zeros.text])
      fun _ _ => True) (empty instant) stoppedOut).map (fun x =>
        x.orderHistory.map fun r => ((x.order r).status, (x.order r).filledQuantity)) =
        some [(.filled, 10), (.cancelled, 2), (.partiallyFilled, 5)] := by
    decide +kernel
  obtain ⟨x, hexec, hx⟩ := Option.map_eq_some_iff.mp hrun
  exact ⟨x, hexec, hx, account_reconciles (Machine.reachableUnder_of_execUnder hexec)⟩

/-- An order of less than nothing, which the engine rejects. -/
def negativeOrder : List Op :=
  [.submitOrder ⟨.buy, -5, .market, none, none, .gtc, none⟩]

/-- It has filled nothing, which is more than its quantity. -/
theorem overfilled_negative :
    ∃ x, (machine instant).exec (empty instant) negativeOrder = some x ∧
      x.orderHistory = [0] ∧ (x.order 0).status = .rejected ∧
        ¬(x.order 0).filledQuantity ≤ (x.order 0).quantity + eps := by
  have hrun : ((machine instant).exec (empty instant) negativeOrder).map (fun x =>
      (x.orderHistory, (x.order 0).status,
        decide ((x.order 0).filledQuantity ≤ (x.order 0).quantity + eps))) =
        some ([0], .rejected, false) := by
    decide +kernel
  obtain ⟨x, hexec, hx⟩ := Option.map_eq_some_iff.mp hrun
  simp only [Prod.mk.injEq, decide_eq_false_iff_not] at hx
  exact ⟨x, hexec, hx⟩

end PaperExchange

end QuantumSentinel.Exchange
