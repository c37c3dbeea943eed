import QuantumSentinel.Exchange.DeskInvariants

/-!
# Paper exchange: the life of an order

An order is in flight, waits for its trigger, rests in one level, or has ended: its status names
the one place where it is.  A limit order of at most the tolerance is the exception: the engine
accepts it, finds nothing left to fill, and puts it nowhere.

Main results:

- Theorem `OrderBook.timesResting_of_rests`: a paper order rests once, in one level.
- Theorem `PaperExchange.order_lifecycle`: every order is in the place that its status
  names, and no order that has ended changes.
- Theorem `PaperExchange.lost_orders`: an order within the tolerance, and one whose id the
  feed reuses, work and are nowhere.
-/

namespace QuantumSentinel.Exchange

open Lib

variable {F : String → Prop}

/-! ## Orders in the levels of the book -/

namespace OrderBook

variable {b : OrderBook} {s : TradeSide} {t : ℤ} {r : Ref}

/-- How often an order rests on a side of the book. -/
def timesOnSide (b : OrderBook) (s : TradeSide) (r : Ref) : ℕ :=
  ((b.side s).levels.items.map fun p => p.2.orders.count r).sum

/-- How often an order rests in the levels of the book. -/
def timesResting (b : OrderBook) (r : Ref) : ℕ :=
  b.timesOnSide .buy r + b.timesOnSide .sell r

/-- An order that is in no queue of a side does not rest there. -/
theorem timesOnSide_eq_zero (h : ∀ t, r ∉ b.queue s t) : b.timesOnSide s r = 0 := by
  refine List.sum_eq_zero fun n hn => ?_
  obtain ⟨⟨t, level⟩, hlevel, rfl⟩ := List.mem_map.mp hn
  have hfound : b.level? s t = some level := Dict.get?_eq_some_iff.mpr hlevel
  exact List.count_eq_zero_of_not_mem (queue_of_level hfound ▸ h t)

/-- A paper order is in its queue once, and in no other one. -/
theorem timesOnSide_eq_one (hok : b.Ok) (hpaper : isPaper b.heap r = true)
    (hr : r ∈ b.queue s t) : b.timesOnSide s r = 1 := by
  obtain ⟨level, hlevel, hmem⟩ := level_of_mem_queue hr
  have hitem : (t, level) ∈ (b.side s).levels.items := Dict.get?_eq_some_iff.mp hlevel
  have hnodup : (b.side s).levels.items.Nodup := (b.side s).levels.nodup.of_map
  have hother : ∀ p, p ≠ (t, level) → p ∈ (b.side s).levels.items → p.2.orders.count r = 0 := by
    rintro ⟨t', level'⟩ hne hitem'
    refine List.count_eq_zero_of_not_mem fun hmem' => hne ?_
    have hlevel' : b.level? s t' = some level' := Dict.get?_eq_some_iff.mpr hitem'
    have hsame := (hok.queue_unique hr (queue_of_level hlevel' ▸ hmem')).2
    subst hsame
    rw [hlevel] at hlevel'
    rw [Option.some.inj hlevel']
  have honce : level.orders.count r = 1 := by
    have hqueue := hok.paper_nodup s t
    rw [queue_of_level hlevel] at hqueue
    rw [← List.count_filter hpaper]
    exact List.count_eq_one_of_mem hqueue (List.mem_filter.mpr ⟨hmem, hpaper⟩)
  have hsum := List.sum_map_eq_nsmul_single (f := fun p => p.2.orders.count r) (t, level) hother
  have hitems := @List.count_eq_one_of_mem _ instBEqOfDecidableEq _ _ _ hnodup hitem
  rw [hitems, one_nsmul] at hsum
  exact hsum.trans honce

/-- A paper order rests once, in one level. -/
theorem timesResting_of_rests (hok : b.Ok) (hpaper : isPaper b.heap r = true) (h : b.Rests r) :
    b.timesResting r = 1 := by
  obtain ⟨s, t, hr⟩ := h
  have hside : ∀ s', s' ≠ s → b.timesOnSide s' r = 0 := fun s' hne =>
    timesOnSide_eq_zero fun t' hr' => hne (hok.queue_unique hr hr').1
  rw [timesResting]
  cases s with
  | buy => rw [timesOnSide_eq_one hok hpaper hr, hside .sell (fun hf => by cases hf)]
  | sell => rw [timesOnSide_eq_one hok hpaper hr, hside .buy (fun hf => by cases hf)]

theorem timesResting_of_not_rests (h : ¬b.Rests r) : b.timesResting r = 0 := by
  have hside : ∀ s, b.timesOnSide s r = 0 := fun s =>
    timesOnSide_eq_zero fun t hr => h ⟨s, t, hr⟩
  rw [timesResting, hside, hside]

end OrderBook

/-! ## Entries that end -/

/-- An order at the engine has a positive size. -/
def Entry.Begun (e : Entry) : Prop :=
  e.place = .flying ∨ e.ticket.status.isTerminal = true ∨ 0 < e.ticket.quantity

/-- An order that executes as a limit order is larger than the tolerance. -/
def Entry.Sizable (e : Entry) : Prop :=
  e.ticket.orderType.executed = .limit → 0 < e.ticket.quantity → eps < e.ticket.quantity

theorem Entry.Begun.pos {e : Entry} (h : e.Begun) (hplaced : e.Placed) (hat : e.AtEngine) :
    0 < e.ticket.quantity := by
  have hplace : e.place ≠ .gone := by
    rcases hat with hp | hp <;> rw [hp] <;> exact fun hf => by cases hf
  have hworks := hplaced.working hplace
  rcases h with hfly | hended | hpos
  · exact absurd hfly hat.not_flying
  · rw [OrderStatus.isWorking_eq, hended] at hworks
    cases hworks
  · exact hpos

/-- An order that moves has a positive size from then on, or has ended. -/
theorem Desk.Moves.begun {config : ExchangeConfig} {e e' : Entry} {act : Act}
    {fills : List Execution} (h : Desk.Moves config e act e' fills) (hplaced : e.Placed)
    (he : e.Begun) : e'.Begun := by
  have hquantity := h.terms.quantity
  rw [Entry.Begun, hquantity]
  cases h with
  | close hplace hstatus =>
    refine Or.inr (Or.inl ?_)
    rcases hstatus with rfl | rfl | rfl <;> rfl
  | park hplace hpos => exact Or.inr (Or.inr hpos)
  | execute hstart =>
    rcases hstart with ⟨-, hpos, -⟩ | hplace
    · exact Or.inr (Or.inr hpos)
    · exact Or.inr (Or.inr (he.pos hplaced (Or.inl hplace)))
  | passive hplace => exact Or.inr (Or.inr (he.pos hplaced (Or.inr hplace)))

/-- A move leaves what an order executes as. -/
theorem Desk.Moves.executed {config : ExchangeConfig} {e e' : Entry} {act : Act}
    {fills : List Execution} (h : Desk.Moves config e act e' fills) :
    e'.ticket.orderType.executed = e.ticket.orderType.executed := by
  have hidem : ∀ orderType : OrderType, orderType.executed.executed = orderType.executed := by
    intro orderType
    cases orderType <;> rfl
  cases h with
  | close => rfl
  | park => rfl
  | @execute _ _ hits ending =>
    have hstarted : (e.ticket.started.fillAll hits).orderType.executed =
        e.ticket.orderType.executed := by
      rw [(sameTerms_fillAll _ _).orderType]
      exact hidem _
    cases ending with
    | done => exact hstarted
    | closed => exact hstarted
    | rests => exact hstarted
  | passive => rfl

theorem Desk.Moves.sizable {config : ExchangeConfig} {e e' : Entry} {act : Act}
    {fills : List Execution} (h : Desk.Moves config e act e' fills) (he : e.Sizable) :
    e'.Sizable := by
  rw [Entry.Sizable, h.executed, h.terms.quantity]
  exact he

/-- An order larger than the tolerance that is nowhere has ended. -/
theorem Entry.Begun.ended {e : Entry} (h : e.Begun) (hsize : e.Sizable) (hplaced : e.Placed)
    (hgone : e.place = .gone) : e.ticket.status.isTerminal = true := by
  rw [Entry.Placed, hgone] at hplaced
  rcases hplaced with hended | ⟨hstatus, -, htype, hsmall⟩
  · exact hended
  · have hexecuted : e.ticket.orderType.executed = .limit := by rw [htype]; rfl
    rcases h with hfly | hended | hpos
    · rw [hgone] at hfly
      cases hfly
    · exact hended
    · exact absurd (hsize hexecuted hpos) (not_lt.mpr hsmall)

namespace PaperExchange

variable {x y : PaperExchange} {d d' : Desk} {r : Ref} {e : Entry} {config : ExchangeConfig}

/-! ## The place of an order -/

/-- How often an order is in flight. -/
def timesFlying (x : PaperExchange) (r : Ref) : ℕ :=
  (x.inflight.map Flight.order).count r

/-- How often an order waits for its trigger. -/
def timesWaiting (x : PaperExchange) (r : Ref) : ℕ :=
  x.engine.pendingStops.count r

/-- The order is in the place that its status names, once, and in no other. -/
def InPlace (x : PaperExchange) (r : Ref) : Prop :=
  (x.timesFlying r, x.timesWaiting r, x.book.timesResting r) =
    match (x.order r).status with
    | .submitted => (1, 0, 0)
    | .accepted => (0, 1, 0)
    | .queued | .partiallyFilled => (0, 0, 1)
    | .filled | .cancelled | .rejected | .expired => (0, 0, 0)

instance (x : PaperExchange) (r : Ref) : Decidable (x.InPlace r) :=
  inferInstanceAs (Decidable (_ = _))

/-- A limit order is not smaller than the tolerance. -/
def NotDust (_ : PaperExchange) (request : OrderRequest) : Prop :=
  request.orderType.executed = .limit → 0 < request.quantity → eps < request.quantity

instance (x : PaperExchange) (request : OrderRequest) : Decidable (x.NotDust request) :=
  inferInstanceAs (Decidable (_ → _ → _))

/-- Whoever is at the engine has a positive size. -/
def AllBegun (d : Desk) : Prop :=
  ∀ r e, d.entries.get? r = some e → e.Begun

/-- Every limit order is larger than the tolerance. -/
def AllSizable (d : Desk) : Prop :=
  ∀ r e, d.entries.get? r = some e → e.Sizable

theorem begun_invariant (config : ExchangeConfig) (G : PaperExchange → OrderRequest → Prop) :
    DeskInvariant F config G AllBegun :=
  DeskInvariant.of_entries (fun hplaced hmoves he => hmoves.begun hplaced he)
    (fun _ _ => Or.inl rfl) fun _ => Or.inr (Or.inl rfl)

theorem sizable_invariant (config : ExchangeConfig) :
    DeskInvariant F config NotDust fun d => AllBegun d ∧ AllSizable d :=
  (begun_invariant config NotDust).and
    (DeskInvariant.of_entries (fun _ hmoves he => hmoves.sizable he) (fun _ hrequest => hrequest)
      fun hrequest => hrequest)

/-- A sizable entry is in the place that its status names. -/
theorem inPlace_of_sizable (h : Reflects F x d) (hd : AllBegun d ∧ AllSizable d)
    (hr : d.entries.get? r = some e) : x.InPlace r := by
  have hplaced := h.engine.placed r e hr
  have hfound : ∀ place, (∃ f, d.entries.get? r = some f ∧ f.place = place) ↔ e.place = place := by
    refine fun place => ⟨?_, fun hplace => ⟨e, hr, hplace⟩⟩
    rintro ⟨f, hf, hplace⟩
    rw [hr] at hf
    cases hf
    exact hplace
  have hflying : x.timesFlying r = if e.place = .flying then 1 else 0 := by
    have hmem : r ∈ x.inflight.map Flight.order ↔ e.place = .flying :=
      (h.flying r).trans (hfound .flying)
    rw [timesFlying, h.once.count]
    exact if_congr hmem rfl rfl
  have hwaiting : x.timesWaiting r = if e.place = .stop then 1 else 0 := by
    have hmem : r ∈ x.engine.pendingStops ↔ e.place = .stop :=
      (h.engine.stops r).trans (hfound .stop)
    rw [timesWaiting, h.engine.nodup.count]
    exact if_congr hmem rfl rfl
  have hresting : x.book.timesResting r = if e.place = .book then 1 else 0 := by
    have hpaper : isPaper x.book.heap r = true :=
      decide_eq_true (h.engine.book.sim.owner_paper hr)
    split
    · rename_i hplace
      exact OrderBook.timesResting_of_rests h.engine.book.ok hpaper
        ((h.engine.book.sim.rests r e hr).mp hplace).1
    · rename_i hplace
      exact OrderBook.timesResting_of_not_rests
        (h.engine.book.sim.not_rests h.engine.book.ok hr hplace)
  have hended := (hd.1 r e hr).ended (hd.2 r e hr) hplaced
  rw [InPlace, hflying, hwaiting, hresting, status_eq h hr]
  rw [Entry.Placed] at hplaced
  cases hplace : e.place with
  | flying =>
    rw [hplace] at hplaced
    rw [hplaced.1]
    rfl
  | stop =>
    rw [hplace] at hplaced
    rw [hplaced.1]
    rfl
  | book =>
    rw [hplace] at hplaced
    rcases hplaced.2.2 with hstatus | hstatus <;> rw [hstatus] <;> rfl
  | gone =>
    have hterminal := hended hplace
    cases hstatus : e.ticket.status <;> rw [hstatus] at hterminal <;> first | rfl | cases hterminal

/-! ## Orders that have ended -/

/-- An entry that is nowhere stays as it is. -/
theorem gone_invariant (config : ExchangeConfig) (G : PaperExchange → OrderRequest → Prop)
    (hgone : e.place = .gone) : DeskInvariant F config G fun d => d.entries.get? r = some e where
  move := fun {d act d'} _ hstep hd => by
    cases hstep with
    | @move e₁ e₂ fills hentry hmoves =>
      refine (congrFun (d.get?_put act.ref e₂) r).trans ?_
      rw [Function.update_of_ne, hd]
      rintro rfl
      rw [hentry] at hd
      cases hd
      exact hmoves.not_gone hgone
  sent := fun {x d request} hx _ _ hd => by
    rw [d.get?_put, Function.update_of_ne, hd]
    rintro rfl
    rw [get?_nextRef hx.reflects] at hd
    cases hd
  refused := fun {x d request} hx _ hd => by
    rw [d.get?_put, Function.update_of_ne, hd]
    rintro rfl
    rw [get?_nextRef hx.reflects] at hd
    cases hd

/-- An order that has ended is nowhere. -/
theorem gone_of_terminal (h : Reflects F x d) (hr : d.entries.get? r = some e)
    (hended : (x.order r).status.isTerminal = true) : e.place = .gone := by
  by_contra hplace
  have hworks := (h.engine.placed r e hr).working hplace
  rw [status_eq h hr] at hended
  rw [OrderStatus.isWorking_eq, hended] at hworks
  cases hworks

/-- In every run without orders within the tolerance and with a feed of its own ids, every order
is in the place that its status names, once, and no order that has ended changes. -/
theorem order_lifecycle :
    (∀ x, (machine config).ReachableUnder (Guarded F NotDust) x →
      ∀ r ∈ x.orderHistory, x.InPlace r) ∧
    ∀ x ops y, (machine config).ReachableUnder (Guarded F NotDust) x →
      (machine config).Run (Guarded F NotDust) x ops y → ∀ r ∈ x.orderHistory,
        (x.order r).status.isTerminal = true →
          (y.order r).status = (x.order r).status ∧
            (y.order r).filledQuantity = (x.order r).filledQuantity := by
  have hinvariant := sizable_invariant (F := F) config
  have hempty : AllBegun Desk.empty ∧ AllSizable Desk.empty :=
    ⟨fun r e hr => (by cases hr), fun r e hr => (by cases hr)⟩
  refine ⟨fun x hx r hr => ?_, fun x ops y hx hrun r hr hended => ?_⟩
  · obtain ⟨d, hrecords, hd⟩ := hinvariant.reachable hempty hx
    obtain ⟨e, he⟩ := (mem_orderHistory hrecords.reflects).mp hr
    exact inPlace_of_sizable hrecords.reflects hd he
  · obtain ⟨d, hrecords, -⟩ := hinvariant.reachable hempty hx
    obtain ⟨e, he⟩ := (mem_orderHistory hrecords.reflects).mp hr
    have hgone := gone_of_terminal hrecords.reflects he hended
    obtain ⟨d', hrecords', he'⟩ := (gone_invariant config NotDust hgone).run hrun
      ⟨d, hrecords, he⟩
    have hbefore := hrecords.reflects.engine.book.sim.ticket r e he
    have hafter := hrecords'.reflects.engine.book.sim.ticket r e he'
    exact ⟨(congrArg Ticket.status (hafter.symm.trans hbefore) :),
      (congrArg Ticket.filled (hafter.symm.trans hbefore) :)⟩

/-- A limit order, a stop order and a market order that arrive, and a limit order in flight. -/
def fourOrders : List Op :=
  [.onMarketEvent ⟨1, .add, .sell, 100, 10, some "m1"⟩ OrderBook.zeros,
    .submitOrder ⟨.buy, 1, .limit, some 99, none, .gtc, none⟩,
    .submitOrder ⟨.buy, 1, .stop, none, some 105, .gtc, none⟩,
    .submitOrder ⟨.buy, 1, .market, none, none, .gtc, none⟩,
    .advanceTo 3,
    .submitOrder ⟨.buy, 1, .limit, some 98, none, .gtc, none⟩]

theorem order_lifecycle_four :
    ∃ x, (machine oneSecond).execUnder (Guarded (· = "m1") NotDust) (empty oneSecond) fourOrders =
        some x ∧
      (x.orderHistory.map fun r => (x.order r).status) =
        [.queued, .accepted, .filled, .submitted] ∧
      (∀ r ∈ x.orderHistory, x.InPlace r) ∧
        ((x.advanceTo 5).order 3).status = .filled := by
  have hrun : ((machine oneSecond).execUnder (Guarded (· = "m1") NotDust) (empty oneSecond)
      fourOrders).map (fun x => (x.orderHistory, x.orderHistory.map fun r => (x.order r).status)) =
        some ([1, 2, 3, 4], [.queued, .accepted, .filled, .submitted]) := by
    decide +kernel
  obtain ⟨x, hexec, hx⟩ := Option.map_eq_some_iff.mp hrun
  obtain ⟨hhistory, hstatuses⟩ := Prod.mk.inj hx
  have hreachable : (machine oneSecond).ReachableUnder (Guarded (· = "m1") NotDust) x :=
    Machine.reachableUnder_of_execUnder hexec
  obtain ⟨hplaces, hstays⟩ := @order_lifecycle (· = "m1") oneSecond
  have hmem : 3 ∈ x.orderHistory := by
    rw [hhistory]
    decide
  have hfilled : (x.order 3).status = .filled := by
    rw [hhistory] at hstatuses
    simp only [List.map_cons, List.cons.injEq] at hstatuses
    exact hstatuses.2.2.1
  refine ⟨x, hexec, hstatuses, hplaces x hreachable, ?_⟩
  have hlater := hstays x [.advanceTo 5] (x.advanceTo 5) hreachable
    (Machine.Run.cons trivial rfl (Machine.Run.nil _)) 3 hmem (by rw [hfilled]; rfl)
  exact hlater.1.trans hfilled

/-- A limit order of the size of the tolerance. -/
def dustOrder : List Op :=
  [.submitOrder ⟨.buy, eps, .limit, some 99, none, .gtc, none⟩]

/-- A resting order whose id the feed uses for another order, which then grows. -/
def reusedInLevel : List Op :=
  [.submitOrder ⟨.buy, 5, .limit, some 99, none, .gtc, none⟩,
    .onMarketEvent ⟨1, .add, .buy, 99, 10, some "P00000001"⟩ OrderBook.zeros,
    .onMarketEvent ⟨2, .modify, .buy, 99, 20, some "P00000001"⟩ OrderBook.zeros]

/-- The first order is accepted, the second queued, and both are nowhere. -/
theorem lost_orders :
    (∃ x, (machine instant).exec (empty instant) dustOrder = some x ∧
      x.orderHistory = [0] ∧ (x.order 0).status = .accepted ∧ 0 < (x.order 0).quantity ∧
        ¬x.InPlace 0) ∧
    ∃ x, (machine instant).exec (empty instant) reusedInLevel = some x ∧
      x.orderHistory = [0] ∧ (x.order 0).status = .queued ∧ 0 < (x.order 0).quantity ∧
        ¬x.InPlace 0 := by
  have hdust : ((machine instant).exec (empty instant) dustOrder).map (fun x => (x.orderHistory,
      (x.order 0).status, decide (0 < (x.order 0).quantity), decide (x.InPlace 0))) =
        some ([0], .accepted, true, false) := by
    decide +kernel
  have hreused : ((machine instant).exec (empty instant) reusedInLevel).map (fun x =>
      (x.orderHistory, (x.order 0).status, decide (0 < (x.order 0).quantity),
        decide (x.InPlace 0))) = some ([0], .queued, true, false) := by
    decide +kernel
  obtain ⟨x, hexec, hx⟩ := Option.map_eq_some_iff.mp hdust
  obtain ⟨y, hexec', hy⟩ := Option.map_eq_some_iff.mp hreused
  simp only [Prod.mk.injEq, decide_eq_true_eq, decide_eq_false_iff_not] at hx hy
  exact ⟨⟨x, hexec, hx⟩, y, hexec', hy⟩

end PaperExchange

end QuantumSentinel.Exchange
