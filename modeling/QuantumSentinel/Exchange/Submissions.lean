import QuantumSentinel.Exchange.DeskRuns

/-!
# Paper exchange: submissions and runs

An order that is submitted becomes an entry of the desk: declined by the checks, or recorded
with the cash it commits.  With it every operation of the exchange is a sequence of actions of
the desk, and every run of the exchange is a run of the desk.

Main results:

- Theorem `PaperExchange.admits_of_pretrade`: the checks are those of the desk.
- Theorem `PaperExchange.entered_mirrors`: an accepted order is recorded.
- Theorem `PaperExchange.ownIds_of_named`: the condition on the ids of a run, for a feed that
  names no paper order.
- Theorem `PaperExchange.apply_reflects`: every operation is a sequence of actions.
- Theorem `PaperExchange.reflects_of_reachable`: every run is a run of the desk.
-/

namespace QuantumSentinel.Exchange

open Lib

variable {F : String → Prop}

/-! ## New orders -/

/-- A change of a new order is a change of what is allocated. -/
theorem OrderBook.modify_alloc (b : OrderBook) (o : Order) (f : Order → Order) :
    (b.alloc o).modify b.nextRef f = b.alloc (f o) := by
  simp only [OrderBook.modify, OrderBook.alloc, Function.update_idem, Function.update_self]

/-- A new paper order that does not rest appears with its entry. -/
theorem PaperSim.alloc {b : OrderBook} {look : Look} (h : PaperSim F b look)
    (hok : b.Ok) {o : Order} {e : Entry} (howner : o.owner = .paper)
    (hticket : e.ticket = o.ticket) (hplace : e.place ≠ .book) (hid : ¬F o.orderId)
    (hfresh : ∀ r f, look r = some f → f.ticket.orderId ≠ o.orderId) :
    PaperSim F (b.alloc o) (Function.update look b.nextRef (some e)) := by
  have hname : e.ticket.orderId = o.orderId := congrArg Ticket.orderId hticket
  have hheap : ∀ q, q ≠ b.nextRef → (b.alloc o).heap q = b.heap q := fun q hq =>
    Function.update_of_ne hq ..
  have hself : (b.alloc o).heap b.nextRef = o := Function.update_self ..
  have hrests : ∀ q, (b.alloc o).Rests q ↔ b.Rests q := fun q => by
    simp only [OrderBook.Rests, OrderBook.queue_alloc]
  exact
    { paper := fun q => by
        by_cases hq : q = b.nextRef
        · rw [hq, Function.update_self, hself]
          exact iff_of_true ⟨e, rfl⟩ howner
        · rw [Function.update_of_ne hq, hheap q hq]
          exact h.paper q
      ticket := fun q f hf => by
        rcases look_update hf with ⟨rfl, rfl⟩ | ⟨hq, hold⟩
        · rw [hself]
          exact hticket
        · rw [hheap q hq]
          exact h.ticket q f hold
      rests := fun q f hf => by
        rcases look_update hf with ⟨rfl, rfl⟩ | ⟨hq, hold⟩
        · refine iff_of_false hplace fun hlive => ?_
          obtain ⟨s, t, hmem⟩ := (hrests _).mp hlive.1
          exact lt_irrefl _ (hok.lt_nextRef hmem)
        · rw [hheap q hq, hrests q]
          exact h.rests q f hold
      known := fun q f hf => by
        rcases look_update hf with ⟨rfl, -⟩ | ⟨-, hold⟩
        · exact Nat.lt_succ_self _
        · exact (h.known q f hold).trans (Nat.lt_succ_self _)
      ids := fun q f hf => by
        rcases look_update hf with ⟨-, rfl⟩ | ⟨-, hold⟩
        · exact hname ▸ hid
        · exact h.ids q f hold
      unique := fun q q' f f' hf hf' hsame => by
        rcases look_update hf with ⟨rfl, rfl⟩ | ⟨hq, hold⟩
        · rcases look_update hf' with ⟨rfl, -⟩ | ⟨hq', hold'⟩
          · rfl
          · exact absurd (hsame.trans hname) (hfresh q' f' hold')
        · rcases look_update hf' with ⟨rfl, rfl⟩ | ⟨hq', hold'⟩
          · exact absurd (hsame.symm.trans hname) (hfresh q f hold)
          · exact h.unique q q' f f' hold hold' hsame
      foreign := fun q hq hmarket => by
        by_cases hnew : q = b.nextRef
        · rw [hnew, hself, howner] at hmarket
          cases hmarket
        · rw [hheap q hnew] at hmarket ⊢
          have hlt : q < b.nextRef := lt_of_le_of_ne (Nat.lt_succ_iff.mp hq) hnew
          exact h.foreign q hlt hmarket
      indexed := fun q f hf hbook => by
        rcases look_update hf with ⟨rfl, rfl⟩ | ⟨-, hold⟩
        · exact absurd hbook hplace
        · exact h.indexed q f hold hbook
      index := fun id q hget => by
        obtain ⟨hqid, hlt⟩ := h.index id q hget
        rw [hheap q hlt.ne]
        exact ⟨hqid, hlt.trans (Nat.lt_succ_self _)⟩
      placed := fun id q f hget hf => by
        have hlt := (h.index id q hget).2
        rw [Function.update_of_ne hlt.ne] at hf
        rw [hheap q hlt.ne]
        exact h.placed id q f hget hf
      unused := fun q hq => by
        have hlt : b.nextRef < q := hq
        rw [hheap q hlt.ne']
        exact h.unused q hlt.le }

/-- An empty book holds no paper order. -/
theorem PaperSim.empty (grid : TickGrid) (symbol : String) :
    PaperSim F (OrderBook.empty grid symbol) fun _ => none where
  paper := fun r => iff_of_false (fun h => by cases h.choose_spec) fun h => by cases h
  ticket := fun r e hr => by cases hr
  rests := fun r e hr => by cases hr
  known := fun r e hr => by cases hr
  ids := fun r e hr => by cases hr
  unique := fun r q e f hr => by cases hr
  foreign := fun r hr => absurd hr (Nat.not_lt_zero r)
  indexed := fun r e hr => by cases hr
  index := fun id r hget => by cases hget
  placed := fun id r e hget => by cases hget
  unused := fun r hr => rfl

/-! ## What working orders commit -/

/-- A sum over some of the keys is a sum over the items. -/
theorem sum_filter_keys {items : List (Ref × Entry)} {P : Ref → Bool} {f : Ref → ℚ}
    {g : Entry → ℚ} (h : ∀ p ∈ items, g p.2 = if P p.1 = true then f p.1 else 0) :
    (((items.map Prod.fst).filter P).map f).sum = (items.map fun p => g p.2).sum := by
  induction items with
  | nil => rfl
  | cons p rest ih =>
    have hrest := ih fun q hq => h q (List.mem_cons_of_mem p hq)
    have hp := h p (List.mem_cons_self ..)
    rw [List.map_cons, List.map_cons, List.sum_cons, List.filter_cons, ← hrest, hp]
    split
    · rw [List.map_cons, List.sum_cons]
    · rw [zero_add]

/-- An order works until its status is final. -/
theorem OrderStatus.isWorking_eq (status : OrderStatus) :
    status.isWorking = !status.isTerminal := by
  cases status <;> rfl

/-- Only an order in flight works as a market order. -/
theorem Entry.Placed.flying_of_market {e : Entry} (h : e.Placed)
    (htype : e.ticket.orderType = .market) (hworking : e.ticket.status.isWorking = true) :
    e.place = .flying := by
  cases hplace : e.place with
  | flying => rfl
  | stop =>
    rw [Entry.Placed, hplace] at h
    rcases h.2.2 with hstop | ⟨hstop, -⟩ <;> rw [htype] at hstop <;> cases hstop
  | book =>
    rw [Entry.Placed, hplace] at h
    have hlimit := h.1
    rw [htype] at hlimit
    cases hlimit
  | gone =>
    rw [Entry.Placed, hplace] at h
    rcases h with hdone | ⟨-, -, hlimit, -⟩
    · rw [OrderStatus.isWorking_eq, hdone] at hworking
      cases hworking
    · rw [htype] at hlimit
      cases hlimit

namespace PaperExchange

variable {x y : PaperExchange} {flights flights' : List Ref} {d : Desk} {r : Ref}

/-- The exchange counts the cash that the desk commits. -/
theorem committedCash_eq (h : Mirrors F x flights d) : x.committedCash = d.committed := by
  rw [committedCash, working, h.history]
  refine sum_filter_keys fun p hp => ?_
  have hentry : d.entries.get? p.1 = some p.2 := Dict.get?_eq_some_iff.mpr hp
  have hticket : p.2.ticket = (x.order p.1).ticket := h.engine.book.sim.ticket _ _ hentry
  have hside : (x.order p.1).side = p.2.ticket.side := (congrArg Ticket.side hticket).symm
  have hstatus : (x.order p.1).status = p.2.ticket.status := (congrArg Ticket.status hticket).symm
  have hid : (x.order p.1).orderId = p.2.ticket.orderId := (congrArg Ticket.orderId hticket).symm
  have htype : (x.order p.1).orderType = p.2.ticket.orderType :=
    (congrArg Ticket.orderType hticket).symm
  have hlimit : (x.order p.1).remainingQuantity * (x.order p.1).commitPrice =
      p.2.ticket.remaining * p.2.ticket.commitPrice := by
    rw [hticket]
    rfl
  simp only [Entry.committed, hside, hstatus, Bool.and_eq_true, decide_eq_true_eq]
  split
  · rename_i hworks
    rw [commitment, Entry.commitment, htype, hid, hlimit]
    split
    · rename_i hmarket
      have hfly := (h.engine.placed _ _ hentry).flying_of_market hmarket hworks.2
      exact (h.estimates _ _ hentry hfly hworks.1 hmarket).symm
    · rfl
  · rfl

/-- The exchange counts the shares that the desk holds back. -/
theorem sellableQuantity_eq (h : Mirrors F x flights d) :
    x.sellableQuantity = d.position - d.reserved := by
  rw [sellableQuantity, h.position, working, h.history]
  congr 1
  refine sum_filter_keys fun p hp => ?_
  have hentry : d.entries.get? p.1 = some p.2 := Dict.get?_eq_some_iff.mpr hp
  have hticket : p.2.ticket = (x.order p.1).ticket := h.engine.book.sim.ticket _ _ hentry
  have hside : (x.order p.1).side = p.2.ticket.side := (congrArg Ticket.side hticket).symm
  have hstatus : (x.order p.1).status = p.2.ticket.status := (congrArg Ticket.status hticket).symm
  have hleft : (x.order p.1).remainingQuantity = p.2.ticket.remaining := by
    rw [hticket]
    rfl
  simp only [Entry.reserved, hside, hstatus, hleft, Bool.and_eq_true, decide_eq_true_eq]

/-- The checks are those of the desk. -/
theorem admits_of_pretrade (h : Mirrors F x flights d) {o : Order} (activeAt : ℚ)
    (hpass : x.pretradeRejectReason o = none) :
    d.Admits x.config (withActiveAt activeAt o).ticket
      (x.book.estimateMarketBuyCost o.quantity) := by
  have hside : (withActiveAt activeAt o).ticket.side = o.side := rfl
  cases hcase : o.side with
  | buy =>
    simp only [Desk.Admits, hside, hcase]
    intro cost hcost
    have hbuy : x.buyCost o = some cost := hcost
    simp only [pretradeRejectReason, hcase, hbuy] at hpass
    rw [← h.cash, ← committedCash_eq h]
    by_contra hover
    have hless : x.availableCash + cashTolerance < cost := not_le.mp hover
    rw [if_pos hless] at hpass
    cases hpass
  | sell =>
    simp only [Desk.Admits, hside, hcase]
    simp only [pretradeRejectReason, hcase] at hpass
    rw [← sellableQuantity_eq h]
    by_contra hover
    have hless : x.sellableQuantity + eps < o.quantity := not_le.mp hover
    rw [if_pos hless] at hpass
    cases hpass

/-! ## Records -/

/-- Only the engine, the orders and the account count. -/
theorem mirrors_congr (h : Mirrors F x flights d) (hconfig : y.config = x.config)
    (hengine : y.engine = x.engine) (hhistory : y.orderHistory = x.orderHistory)
    (hseq : y.orderSeq = x.orderSeq) (hestimates : y.marketCostEstimate = x.marketCostEstimate)
    (hcash : y.cash = x.cash) (hpositions : y.positions = x.positions)
    (hfills : y.fillHistory = x.fillHistory) : Mirrors F y flights d where
  engine := by rw [hconfig, hengine]; exact h.engine
  flying := h.flying
  once := h.once
  history := hhistory.trans h.history
  numbered := by rw [hseq]; exact h.numbered
  estimates := by rw [hestimates]; exact h.estimates
  unnoted := by rw [hestimates, hseq]; exact h.unnoted
  cash := by rw [hconfig, hcash]; exact h.cash
  position := by rw [positionQuantity, hpositions, hconfig]; exact h.position
  fills := by rw [hfills]; exact h.fills

/-- The list of the orders in flight may be in another order. -/
theorem mirrors_perm (h : Mirrors F x flights d) (hperm : flights'.Perm flights) :
    Mirrors F x flights' d :=
  ⟨h.engine, fun r => hperm.mem_iff.trans (h.flying r), hperm.nodup_iff.mpr h.once, h.history,
    h.numbered, h.estimates, h.unnoted, h.cash, h.position, h.fills⟩

/-- The entries are the orders of the history. -/
theorem mem_orderHistory (h : Mirrors F x flights d) :
    r ∈ x.orderHistory ↔ ∃ e, d.entries.get? r = some e := by
  rw [h.history]
  cases hr : d.entries.get? r with
  | none => exact iff_of_false (Dict.get?_eq_none_iff.mp hr) fun hsome => by cases hsome.choose_spec
  | some e =>
    refine iff_of_true (by_contra fun hnot => ?_) ⟨e, rfl⟩
    rw [Dict.get?_eq_none_iff.mpr hnot] at hr
    cases hr

theorem status_eq (h : Mirrors F x flights d) {e : Entry} (hr : d.entries.get? r = some e) :
    (x.order r).status = e.ticket.status :=
  (congrArg Ticket.status (h.engine.book.sim.ticket r e hr)).symm

/-- The next order is not among the entries. -/
theorem get?_nextRef (h : Mirrors F x flights d) : d.entries.get? x.book.nextRef = none := by
  cases hlook : d.entries.get? x.book.nextRef with
  | none => rfl
  | some e => exact absurd (h.engine.book.sim.known _ e hlook) (lt_irrefl _)

/-- The next id belongs to no entry. -/
theorem orderId_fresh (h : Mirrors F x flights d) {e : Entry} (hr : d.entries.get? r = some e) :
    e.ticket.orderId ≠ paperId (x.orderSeq + 1) := fun hid =>
  absurd (h.numbered r e _ hr hid) (Nat.not_succ_le_self _)

theorem freshId (h : Mirrors F x flights d) : d.FreshId (paperId (x.orderSeq + 1)) := fun _ hp =>
  orderId_fresh h (Dict.get?_eq_some_iff.mpr hp)

/-- A new order with a new entry. -/
theorem enter_mirrors (h : Mirrors F x flights d) (hfree : ¬F (paperId (x.orderSeq + 1)))
    (estimates : Dict String ℚ)
    (flights' : List Ref) {o : Order} {e : Entry} (howner : o.owner = .paper)
    (hid : o.orderId = paperId (x.orderSeq + 1)) (hticket : e.ticket = o.ticket)
    (hplaced : e.Placed) (hstop : e.place ≠ .stop) (hbook : e.place ≠ .book)
    (hestimates : ∀ id, id ≠ paperId (x.orderSeq + 1) →
      estimates.get? id = x.marketCostEstimate.get? id)
    (hnoted : e.place = .flying → e.ticket.side = .buy → e.ticket.orderType = .market →
      (estimates.get? (paperId (x.orderSeq + 1))).getD 0 = e.estimate)
    (hflights : ∀ r, r ∈ flights' ↔ r ∈ flights ∨ (r = x.book.nextRef ∧ e.place = .flying))
    (honce : flights'.Nodup) :
    Mirrors F { x with
      engine := { x.engine with book := x.book.alloc o }
      orderSeq := x.orderSeq + 1
      orderHistory := x.orderHistory ++ [x.book.nextRef]
      marketCostEstimate := estimates } flights' (d.put x.book.nextRef e) := by
  have hnew := get?_nextRef h
  have hname : e.ticket.orderId = paperId (x.orderSeq + 1) :=
    (congrArg Ticket.orderId hticket).trans hid
  have hlook := d.get?_put x.book.nextRef e
  refine ⟨⟨⟨?_, ?_, h.engine.book.grid⟩, ?_, ?_, h.engine.nodup⟩, ?_, honce, ?_, ?_, ?_, ?_,
    h.cash, h.position, h.fills⟩
  · exact OrderBook.alloc_ok h.engine.book.ok o
  · rw [hlook]
    exact h.engine.book.sim.alloc h.engine.book.ok howner hticket hbook (hid ▸ hfree)
      fun r f hr => hid ▸ orderId_fresh h hr
  · rw [hlook]
    intro r f hr
    rcases look_update hr with ⟨-, rfl⟩ | ⟨-, hold⟩
    · exact hplaced
    · exact h.engine.placed r f hold
  · intro r
    rw [hlook]
    refine (h.engine.stops r).trans ?_
    by_cases hr : r = x.book.nextRef
    · rw [hr, Function.update_self, hnew]
      refine iff_of_false ?_ ?_
      · rintro ⟨f, hf, -⟩
        cases hf
      · rintro ⟨f, hf, hplace⟩
        cases hf
        exact hstop hplace
    · rw [Function.update_of_ne hr]
  · intro r
    rw [hlook, hflights r]
    by_cases hr : r = x.book.nextRef
    · have hnot : ¬(x.book.nextRef ∈ flights) := fun hmem => by
        obtain ⟨f, hf, -⟩ := (h.flying _).mp hmem
        rw [hnew] at hf
        cases hf
      rw [hr, Function.update_self, or_iff_right hnot]
      refine ⟨fun hfly => ⟨e, rfl, hfly.2⟩, ?_⟩
      rintro ⟨f, hf, hplace⟩
      cases hf
      exact ⟨rfl, hplace⟩
    · rw [Function.update_of_ne hr, h.flying r]
      exact or_iff_left fun hf => hr hf.1
  · rw [Desk.put, Dict.keys_set_of_notMem e (Dict.get?_eq_none_iff.mp hnew), ← h.history]
  · intro r f n hr hfid
    rw [hlook] at hr
    rcases look_update hr with ⟨-, rfl⟩ | ⟨-, hold⟩
    · exact (paperId_injective (hfid.symm.trans hname)).le
    · exact (h.numbered r f n hold hfid).trans (Nat.le_succ _)
  · intro r f hr hplace hside htype
    rw [hlook] at hr
    rcases look_update hr with ⟨-, rfl⟩ | ⟨-, hold⟩
    · rw [hname]
      exact hnoted hplace hside htype
    · rw [hestimates _ (orderId_fresh h hold)]
      exact h.estimates r f hold hplace hside htype
  · intro n hn
    have hne : paperId n ≠ paperId (x.orderSeq + 1) := fun hsame =>
      absurd (paperId_injective hsame) hn.ne'
    rw [hestimates _ hne]
    exact h.unnoted n (Nat.lt_of_succ_lt hn)

/-! ## Submissions -/

/-- The estimate of a market buy is noted under its id, and nothing else changes. -/
theorem noteEstimate_spec (x : PaperExchange) (o : Order) :
    ∃ estimates, x.noteEstimate o = { x with marketCostEstimate := estimates } ∧
      (∀ id, id ≠ o.orderId → estimates.get? id = x.marketCostEstimate.get? id) ∧
      (x.marketCostEstimate.get? o.orderId = none → o.side = .buy → o.orderType = .market →
        (estimates.get? o.orderId).getD 0 =
          (x.book.estimateMarketBuyCost o.quantity).getD 0) := by
  unfold noteEstimate
  split
  · rename_i cost hside htype hcost
    refine ⟨_, rfl, fun id hid => Dict.get?_set_ne _ _ hid, fun _ _ _ => ?_⟩
    rw [Dict.get?_set_self, hcost]
  · rename_i hother
    refine ⟨_, rfl, fun _ _ => rfl, fun hnone hside htype => ?_⟩
    cases hcost : x.book.estimateMarketBuyCost o.quantity with
    | none => rw [hnone]
    | some cost => exact absurd hcost (hother cost hside htype)

/-- When an order that is submitted now arrives. -/
def arrivalTime (x : PaperExchange) : ℚ :=
  x.currentTime + x.config.latencyMs / 1000

/-- The order of a request as it goes on its way. -/
def sentOrder (x : PaperExchange) (request : OrderRequest) : Order :=
  withActiveAt x.arrivalTime (x.requestedOrder request)

/-- The exchange that has recorded an accepted order. -/
def entered (x : PaperExchange) (request : OrderRequest) : PaperExchange :=
  { x with
    engine := { x.engine with book := x.book.alloc (x.sentOrder request) }
    orderSeq := x.orderSeq + 1
    orderHistory := x.orderHistory ++ [x.book.nextRef]
    byId := x.byId.set (paperId (x.orderSeq + 1)) x.book.nextRef
    decisionMid := x.decisionMid.set (paperId (x.orderSeq + 1)) x.book.midPrice
    marketCostEstimate := (x.noteEstimate (x.requestedOrder request)).marketCostEstimate
    hasExpiring := x.hasExpiring || request.expiresAt.isSome }

/-- The exchange with the new order in flight. -/
def launched (x : PaperExchange) (request : OrderRequest) : PaperExchange :=
  { x.entered request with
    inflight := pushFlight ⟨x.arrivalTime, x.seq, x.book.nextRef⟩ x.inflight
    seq := x.seq + 1 }.logEvent .orderSubmitted (paperId (x.orderSeq + 1))
      (.inFlightUntil x.arrivalTime)

/-- An order that passes the checks is recorded and goes on its way, or arrives at once. -/
theorem submitOrder_accepted {request : OrderRequest}
    (hpass : x.pretradeRejectReason (x.requestedOrder request) = none) :
    x.submitOrder request =
      if 0 < x.config.latencyMs then x.launched request
      else (x.entered request).activate x.book.nextRef := by
  obtain ⟨estimates, hnoted, -⟩ := noteEstimate_spec x (x.requestedOrder request)
  have hentered : x.entered request = { x with
      engine := { x.engine with book := x.book.alloc (x.sentOrder request) }
      orderSeq := x.orderSeq + 1
      orderHistory := x.orderHistory ++ [x.book.nextRef]
      byId := x.byId.set (paperId (x.orderSeq + 1)) x.book.nextRef
      decisionMid := x.decisionMid.set (paperId (x.orderSeq + 1)) x.book.midPrice
      marketCostEstimate := estimates
      hasExpiring := x.hasExpiring || request.expiresAt.isSome } := by
    rw [entered, hnoted]
  have hbook : (x.book.alloc (x.requestedOrder request)).modify x.book.nextRef
      (withActiveAt x.arrivalTime) = x.book.alloc (x.sentOrder request) :=
    x.book.modify_alloc ..
  simp only [submitOrder, hpass]
  rw [hnoted, launched, hentered, ← hbook]
  rfl

/-- An order that the checks refuse is recorded as rejected. -/
theorem submitOrder_refused {request : OrderRequest} {reason : Reason}
    (hreason : x.pretradeRejectReason (x.requestedOrder request) = some reason) :
    x.submitOrder request = { x with
      engine := { x.engine with
        book := x.book.alloc (withStatus .rejected (x.requestedOrder request)) }
      orderSeq := x.orderSeq + 1
      orderHistory := x.orderHistory ++ [x.book.nextRef]
      byId := x.byId.set (paperId (x.orderSeq + 1)) x.book.nextRef
      decisionMid := x.decisionMid.set (paperId (x.orderSeq + 1)) x.book.midPrice
      marketCostEstimate := (x.noteEstimate (x.requestedOrder request)).marketCostEstimate }.logEvent
        .orderRejected (paperId (x.orderSeq + 1)) (.reason reason) := by
  obtain ⟨estimates, hnoted, -⟩ := noteEstimate_spec x (x.requestedOrder request)
  have hbook := x.book.modify_alloc (x.requestedOrder request) (withStatus .rejected)
  simp only [submitOrder, hreason]
  rw [hnoted, ← hbook]
  rfl

/-- The entry of an order that goes on its way. -/
def sentEntry (x : PaperExchange) (request : OrderRequest) : Entry where
  ticket := (x.sentOrder request).ticket
  place := .flying
  estimate := (x.book.estimateMarketBuyCost request.quantity).getD 0

/-- The entry of an order that was refused. -/
def refusedEntry (x : PaperExchange) (request : OrderRequest) : Entry where
  ticket := (withStatus .rejected (x.requestedOrder request)).ticket
  place := .gone
  estimate := 0

/-- An accepted order is recorded, and in flight. -/
theorem entered_mirrors (h : Mirrors F x flights d) (hfree : ¬F (paperId (x.orderSeq + 1)))
    {request : OrderRequest}
    (hpass : x.pretradeRejectReason (x.requestedOrder request) = none) :
    Desk.Step x.config d (.record x.book.nextRef (x.sentOrder request).ticket
        (x.book.estimateMarketBuyCost request.quantity))
      (d.put x.book.nextRef (x.sentEntry request)) ∧
    Mirrors F (x.entered request) (x.book.nextRef :: flights)
      (d.put x.book.nextRef (x.sentEntry request)) := by
  have hnew := get?_nextRef h
  obtain ⟨estimates, hnoted, hother, hcost⟩ := noteEstimate_spec x (x.requestedOrder request)
  refine ⟨Desk.Step.record hnew (freshId h) rfl rfl
    (admits_of_pretrade h x.arrivalTime hpass), ?_⟩
  have hmirrors := enter_mirrors h hfree estimates (x.book.nextRef :: flights)
    (o := x.sentOrder request) (e := x.sentEntry request) rfl rfl rfl ⟨rfl, rfl⟩
    (fun hf => by cases hf) (fun hf => by cases hf) hother
    (fun _ hside htype => hcost (h.unnoted _ (Nat.lt_succ_self _)) hside htype) ?_ ?_
  · refine mirrors_congr hmirrors rfl rfl rfl rfl ?_ rfl rfl rfl
    show (x.noteEstimate (x.requestedOrder request)).marketCostEstimate = estimates
    rw [hnoted]
  · intro r
    rw [List.mem_cons, or_comm]
    exact or_congr_right (and_iff_left rfl).symm
  · refine List.nodup_cons.mpr ⟨fun hmem => ?_, h.once⟩
    obtain ⟨f, hf, -⟩ := (h.flying _).mp hmem
    rw [hnew] at hf
    cases hf

/-- A refused order is recorded as such. -/
theorem refused_mirrors (h : Mirrors F x flights d) (hfree : ¬F (paperId (x.orderSeq + 1)))
    {request : OrderRequest} {reason : Reason}
    (hreason : x.pretradeRejectReason (x.requestedOrder request) = some reason) :
    Desk.Step x.config d (.decline x.book.nextRef (x.refusedEntry request).ticket)
      (d.put x.book.nextRef (x.refusedEntry request)) ∧
    Mirrors F (x.submitOrder request) flights (d.put x.book.nextRef (x.refusedEntry request)) := by
  have hnew := get?_nextRef h
  obtain ⟨estimates, hnoted, hother, -⟩ := noteEstimate_spec x (x.requestedOrder request)
  refine ⟨Desk.Step.decline hnew (freshId h) rfl rfl, ?_⟩
  have hmirrors := enter_mirrors h hfree estimates flights
    (o := withStatus .rejected (x.requestedOrder request)) (e := x.refusedEntry request) rfl rfl
    rfl (Or.inl rfl) (fun hf => by cases hf) (fun hf => by cases hf) hother
    (fun hf => by cases hf) ?_ h.once
  · rw [submitOrder_refused hreason, hnoted]
    exact mirrors_congr hmirrors rfl rfl rfl rfl rfl rfl rfl rfl
  · exact fun r => (or_iff_left fun hf => by cases hf.2).symm

/-- Pushing onto the heap queue adds one flight. -/
theorem pushFlight_perm (f : Flight) (flights : List Flight) :
    (pushFlight f flights).Perm (f :: flights) := by
  have hsplit : (flights.takeWhile fun g => g.before f) ++ (flights.dropWhile fun g => g.before f) =
      flights := List.takeWhile_append_dropWhile
  have hperm : (pushFlight f flights).Perm
      (f :: ((flights.takeWhile fun g => g.before f) ++ flights.dropWhile fun g => g.before f)) :=
    List.perm_middle
  rwa [hsplit] at hperm

/-- An order that goes on its way is in flight. -/
theorem launched_mirrors (h : Mirrors F x (x.inflight.map Flight.order) d)
    (hfree : ¬F (paperId (x.orderSeq + 1))) {request : OrderRequest}
    (hpass : x.pretradeRejectReason (x.requestedOrder request) = none) :
    Mirrors F (x.launched request) ((x.launched request).inflight.map Flight.order)
      (d.put x.book.nextRef (x.sentEntry request)) := by
  have hmirrors := (entered_mirrors h hfree hpass).2
  have hperm := (pushFlight_perm ⟨x.arrivalTime, x.seq, x.book.nextRef⟩ x.inflight).map Flight.order
  exact mirrors_perm (mirrors_congr hmirrors rfl rfl rfl rfl rfl rfl rfl rfl) hperm

/-! ## Operations -/

/-- The feed brings ids of a set, and the exchange issues ids outside it.  The set need not be
known to either: a run meets the condition for some set when no feed order carries an id that is
issued in the run. -/
def OwnIds (F : String → Prop) (x : PaperExchange) : Op → Prop
  | .onMarketEvent event uuid => F (event.idOr uuid)
  | .submitOrder _ => ¬F (paperId (x.orderSeq + 1))
  | _ => True

instance [DecidablePred F] (op : Op) : Decidable (x.OwnIds F op) :=
  match op with
  | .submitOrder _ => inferInstanceAs (Decidable (¬F (paperId (x.orderSeq + 1))))
  | .onMarketEvent event uuid => inferInstanceAs (Decidable (F (event.idOr uuid)))
  | .cancelOrder _ => isTrue trivial
  | .advanceTo _ => isTrue trivial

/-- A feed that names no paper order has ids of its own. -/
theorem ownIds_of_named {op : Op} (h : ∀ event uuid, op = .onMarketEvent event uuid →
    ∀ n, event.named ≠ some (paperId n)) : x.OwnIds (fun id => ∀ n, id ≠ paperId n) op := by
  cases op with
  | onMarketEvent event uuid =>
    intro n
    rw [BookEvent.idOr]
    cases hnamed : event.named with
    | none => exact uuid.ne_paperId n
    | some id => exact fun heq => h event uuid rfl n (heq ▸ hnamed)
  | submitOrder request => exact fun hall => hall (x.orderSeq + 1) rfl
  | cancelOrder id => trivial
  | advanceTo timestamp => trivial

/-- The orders in flight are the flying entries. -/
abbrev Reflects (F : String → Prop) (x : PaperExchange) (d : Desk) : Prop :=
  Mirrors F x (x.inflight.map Flight.order) d

/-- An exchange without orders is a desk without entries. -/
theorem reflects_empty (config : ExchangeConfig) : Reflects F (empty config) Desk.empty := by
  have hnone : ∀ r, Desk.empty.entries.get? r = none := fun _ => rfl
  refine ⟨⟨⟨OrderBook.empty_ok _ _, ?_, rfl⟩, fun r e hr => (by cases hr), fun r => ?_,
    List.nodup_nil⟩, fun r => ?_, List.nodup_nil, rfl, fun r e n hr => (by cases hr),
    fun r e hr => (by cases hr), fun n hn => rfl, ?_, rfl, rfl⟩
  · exact PaperSim.empty _ _
  · exact iff_of_false List.not_mem_nil fun h => by cases h.choose_spec.1
  · exact iff_of_false List.not_mem_nil fun h => by cases h.choose_spec.1
  · exact (add_zero _).symm

/-- Moves take one exchange to another. -/
structure Moved (F : String → Prop) (x : PaperExchange) (d : Desk) (y : PaperExchange)
    (flights : List Ref) (d' : Desk) : Prop where
  path : ∃ acts, Path (Desk.MoveStep x.config) d acts d'
  mirrors : Mirrors F y flights d'
  config : y.config = x.config
  logged : reported x.eventLog = d.fills → reported y.eventLog = d'.fills

theorem Moved.refl (h : Mirrors F x flights d) : Moved F x d x flights d :=
  ⟨⟨[], Path.nil d⟩, h, rfl, id⟩

theorem Moved.trans {z : PaperExchange} {d' d'' : Desk} (h : Moved F x d y flights d')
    (h' : Moved F y d' z flights' d'') : Moved F x d z flights' d'' := by
  obtain ⟨acts, hpath⟩ := h.path
  obtain ⟨acts', hpath'⟩ := h'.path
  rw [h.config] at hpath'
  exact ⟨⟨_, hpath.append hpath'⟩, h'.mirrors, h'.config.trans h.config,
    fun hlog => h'.logged (h.logged hlog)⟩

theorem Stage.moved {acts : List Act} {d' : Desk} {now : ℚ} (h : Stage F x d now acts y flights d')
    (hconfig : y.config = x.config) : Moved F x d y flights d' :=
  ⟨⟨acts, h.path⟩, h.mirrors, hconfig, h.logged⟩

/-- The clock moves entries. -/
theorem advanceTo_moved (h : Reflects F x d) (timestamp : ℚ) :
    ∃ d', Moved F x d (x.advanceTo timestamp) ((x.advanceTo timestamp).inflight.map Flight.order)
      d' := by
  have hstep : ∀ (z : PaperExchange) (f : Flight) (rest : List Flight),
      (∃ d', Moved F x d z ((f :: rest).map Flight.order) d') → f.arrival ≤ timestamp + eps →
        ∃ d', Moved F x d ({ z with
          inflight := rest, currentTime := max z.currentTime f.arrival }.activate f.order)
            (rest.map Flight.order) d' := by
    rintro z f rest ⟨d', hz⟩ -
    have hmirrors : Mirrors F
        { z with inflight := rest, currentTime := max z.currentTime f.arrival } (f.order :: rest.map Flight.order) d' :=
      mirrors_congr hz.mirrors rfl rfl rfl rfl rfl rfl rfl rfl
    obtain ⟨act, e', d'', -, -, -, hstage⟩ := activate_stage hmirrors
    exact ⟨d'', Moved.trans ⟨hz.path, hmirrors, hz.config, hz.logged⟩
      (hstage.moved (activate_kept _ f.order).config)⟩
  obtain ⟨y, left, hreleased, ⟨d₁, hmoved⟩, -⟩ := releaseFrom_rule
    (I := fun y flights => ∃ d', Moved F x d y (flights.map Flight.order) d') hstep x.inflight
    ⟨d, Moved.refl h⟩
  rw [advanceTo_eq, hreleased]
  have hmirrors : Mirrors F { y with inflight := left, currentTime := max y.currentTime timestamp }
      (left.map Flight.order) d₁ := mirrors_congr hmoved.mirrors rfl rfl rfl rfl rfl rfl rfl rfl
  obtain ⟨acts, d₂, hstage, -⟩ := expirePassed_stage hmirrors
  have hkept := expirePassed_kept
    { y with inflight := left, currentTime := max y.currentTime timestamp }
  have hinflight : left = (expirePassed
      { y with inflight := left, currentTime := max y.currentTime timestamp }).inflight :=
    hkept.inflight.symm
  refine ⟨d₂, ?_⟩
  rw [← hinflight]
  exact Moved.trans ⟨hmoved.path, hmirrors, hmoved.config, hmoved.logged⟩
    (hstage.moved hkept.config)

/-- A feed event moves entries. -/
theorem onMarketEvent_moved (h : Reflects F x d) {event : BookEvent} {uuid : HexId}
    (hevent : F (event.idOr uuid)) :
    ∃ d', Moved F x d (x.onMarketEvent event uuid)
      ((x.onMarketEvent event uuid).inflight.map Flight.order) d' := by
  obtain ⟨d₁, hadvanced⟩ := advanceTo_moved h event.timestamp
  obtain ⟨acts, d₂, hstage, -⟩ := applyEvent_stage hadvanced.mirrors hevent
  have hkept := applyEvent_kept (x.advanceTo event.timestamp) event uuid
  refine ⟨d₂, ?_⟩
  rw [onMarketEvent_eq, hkept.inflight]
  exact hadvanced.trans (hstage.moved hkept.config)

/-- A cancel moves entries. -/
theorem cancelOrder_moved (h : Reflects F x d) (id : String) :
    ∃ d', Moved F x d (x.cancelOrder id) ((x.cancelOrder id).inflight.map Flight.order) d' ∧
      ∀ r e, d'.entries.get? r = some e → e.ticket.orderId = id → e.place = .gone := by
  obtain ⟨acts, d', hstage, -, hgone⟩ := cancelOrder_stage h id
  refine ⟨d', hstage.moved ?_, hgone⟩
  unfold cancelOrder
  split <;> rfl

/-- A submission records the order or declines it, and may move its entry. -/
theorem submitOrder_reflects (h : Reflects F x d) (hfree : ¬F (paperId (x.orderSeq + 1)))
    (request : OrderRequest) :
    ∃ acts d', Path (Desk.Step x.config) d acts d' ∧ Reflects F (x.submitOrder request) d' ∧
      (x.submitOrder request).config = x.config := by
  cases hreason : x.pretradeRejectReason (x.requestedOrder request) with
  | some reason =>
    obtain ⟨hstep, hmirrors⟩ := refused_mirrors h hfree hreason
    have hfields : (x.submitOrder request).inflight = x.inflight ∧
        (x.submitOrder request).config = x.config := by
      rw [submitOrder_refused hreason]
      exact ⟨rfl, rfl⟩
    refine ⟨_, _, Path.single hstep, ?_, hfields.2⟩
    rw [Reflects, hfields.1]
    exact hmirrors
  | none =>
    obtain ⟨hstep, hmirrors⟩ := entered_mirrors h hfree hreason
    rw [submitOrder_accepted hreason]
    split
    · exact ⟨_, _, Path.single hstep, launched_mirrors h hfree hreason, rfl⟩
    · obtain ⟨act, e', d', -, -, -, hstage⟩ := activate_stage hmirrors
      have hkept := activate_kept (x.entered request) x.book.nextRef
      refine ⟨_, d', Path.cons hstep (hstage.path.mono fun _ _ _ hmove => hmove.step), ?_,
        hkept.config⟩
      rw [Reflects, hkept.inflight]
      exact hstage.mirrors

/-- Every operation is a sequence of actions of the desk. -/
theorem apply_reflects (h : Reflects F x d) {op : Op} (hop : x.OwnIds F op) :
    ∃ acts d', Path (Desk.Step x.config) d acts d' ∧ Reflects F (x.apply op) d' ∧
      (x.apply op).config = x.config := by
  have hof : ∀ {y : PaperExchange} {d' : Desk}, Moved F x d y (y.inflight.map Flight.order) d' →
      ∃ acts d', Path (Desk.Step x.config) d acts d' ∧ Reflects F y d' ∧ y.config = x.config := by
    intro y d' hmoved
    obtain ⟨acts, hpath⟩ := hmoved.path
    exact ⟨acts, d', hpath.mono fun _ _ _ hmove => hmove.step, hmoved.mirrors, hmoved.config⟩
  cases op with
  | submitOrder request => exact submitOrder_reflects h hop request
  | cancelOrder id =>
    obtain ⟨d', hmoved, -⟩ := cancelOrder_moved h id
    exact hof hmoved
  | advanceTo timestamp =>
    obtain ⟨d', hmoved⟩ := advanceTo_moved h timestamp
    exact hof hmoved
  | onMarketEvent event uuid =>
    obtain ⟨d', hmoved⟩ := onMarketEvent_moved h hop
    exact hof hmoved

/-- Every run of the exchange is a run of the desk. -/
theorem reflects_of_reachable {config : ExchangeConfig}
    (h : (machine config).ReachableUnder (OwnIds F) x) : x.config = config ∧
      ∃ acts d, Path (Desk.Step config) Desk.empty acts d ∧ Reflects F x d := by
  refine h.invariant (I := fun x => x.config = config ∧
    ∃ acts d, Path (Desk.Step config) Desk.empty acts d ∧ Reflects F x d)
    ⟨rfl, [], Desk.empty, Path.nil _, reflects_empty config⟩ ?_
  rintro x op y hop hstep ⟨hconfig, acts, d, hpath, hreflects⟩
  cases hstep
  obtain ⟨acts', d', hpath', hreflects', hconfig'⟩ := apply_reflects hreflects hop
  rw [hconfig] at hpath'
  exact ⟨hconfig'.trans hconfig, _, d', hpath.append hpath', hreflects'⟩

/-- An exchange at a latency, in cents. -/
def atLatency (latencyMs : ℚ) (h : 0 ≤ latencyMs) : ExchangeConfig where
  symbol := "X"
  latencyMs := latencyMs
  initialCash := 100000
  grid := OrderBook.cents
  latency_nonneg := h

/-- No latency. -/
def instant : ExchangeConfig :=
  atLatency 0 Rat.le_refl

/-- A latency of one second. -/
def oneSecond : ExchangeConfig :=
  atLatency 1000 (by norm_num)

/-- A market order that takes a feed order, and a limit order that is hit by a print and then
cancelled. -/
def takenAndHit : List Op :=
  [.onMarketEvent ⟨1, .add, .sell, 100, 10, some "m1"⟩ OrderBook.zeros,
    .submitOrder ⟨.buy, 4, .market, none, none, .gtc, none⟩,
    .submitOrder ⟨.buy, 3, .limit, some 99, none, .gtc, none⟩,
    .onMarketEvent ⟨2, .add, .buy, 98, 5, some "P00000003"⟩ OrderBook.zeros,
    .onMarketEvent ⟨3, .trade, .sell, 99, 1, none⟩ OrderBook.zeros,
    .cancelOrder (paperId 2)]

/-- The feed uses an id that the exchange would issue next. -/
theorem reflects_of_reachable_two :
    ∃ x, (machine oneSecond).execUnder (OwnIds fun id => id ∉ ["P00000001", "P00000002"])
        (empty oneSecond) takenAndHit = some x ∧
      (x.orderHistory.map fun r => (x.order r).status) = [.filled, .cancelled] ∧
      (x.fillHistory.map fun f => (f.orderId, f.fillPrice, f.fillQuantity)) =
        [("P00000001", 100, 4), ("P00000002", 99, 1)] ∧
      ∃ acts d, Path (Desk.Step oneSecond) Desk.empty acts d ∧
        Reflects (fun id => id ∉ ["P00000001", "P00000002"]) x d := by
  have hrun : ((machine oneSecond).execUnder (OwnIds fun id => id ∉ ["P00000001", "P00000002"])
      (empty oneSecond) takenAndHit).map (fun x =>
        (x.orderHistory.map fun r => (x.order r).status,
          x.fillHistory.map fun f => (f.orderId, f.fillPrice, f.fillQuantity))) =
      some ([.filled, .cancelled], [("P00000001", 100, 4), ("P00000002", 99, 1)]) := by
    decide +kernel
  obtain ⟨x, hexec, hx⟩ := Option.map_eq_some_iff.mp hrun
  obtain ⟨hstatuses, hfills⟩ := Prod.mk.inj hx
  exact ⟨x, hexec, hstatuses, hfills,
    (reflects_of_reachable (Machine.reachableUnder_of_execUnder hexec)).2⟩

end PaperExchange

end QuantumSentinel.Exchange
