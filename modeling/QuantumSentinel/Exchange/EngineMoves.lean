import QuantumSentinel.Exchange.BookIdentity
import QuantumSentinel.Exchange.Executions

/-!
# Paper exchange: the engine moves the entries of the desk

Every operation of the matching engine is a sequence of moves of desk entries, and the fill
events it returns report the executions of these moves.  The stops the engine waits for are the
entries at that place.

Main results:

- Theorem `MatchingEngine.submitOrder_moves`: an order that arrives executes, rests, waits
  for its trigger or is rejected.
- Theorem `MatchingEngine.onMarketEvent_moves`: a feed event hits resting orders and
  executes the stops it triggers.
- Theorem `MatchingEngine.expireOrders_moves`: no order whose expiry has passed is left.
-/

namespace QuantumSentinel.Exchange

open Lib

variable {F : String → Prop}

namespace MatchingEngine

variable {config : ExchangeConfig} {m : MatchingEngine} {look look' : Look} {r : Ref} {e e' : Entry}
  {now : ℚ}

/-! ## Engines and entries -/

/-- The book of the engine is as it should be, and its stops are the entries that wait. -/
structure Follows (F : String → Prop) (config : ExchangeConfig) (m : MatchingEngine)
    (look : Look) : Prop where
  book : Tracked F config m.book look
  placed : AllPlaced look
  stops : ∀ r, r ∈ m.pendingStops ↔ ∃ e, look r = some e ∧ e.place = .stop
  nodup : m.pendingStops.Nodup

/-- An operation of the engine moves the entries. -/
structure Moved (F : String → Prop) (config : ExchangeConfig) (m : MatchingEngine) (look : Look)
    (now : ℚ) (result : MatchingEngine × List ExchangeEvent) (acts : List Act) (look' : Look) : Prop where
  evolves : Evolves config look acts (reported result.2) look'
  follows : Follows F config result.1 look'
  nextRef : m.book.nextRef ≤ result.1.book.nextRef
  times : ∀ event ∈ result.2, event.timestamp = now

theorem Follows.logged (h : Follows F config m look) (events : List ExchangeEvent) :
    Follows F config (m.logged events) look :=
  ⟨h.book, h.placed, h.stops, h.nodup⟩

/-- An entry that is not at the place of the stops moves elsewhere. -/
theorem atStop_update (hr : look r = some e) (hfrom : e.place ≠ .stop) (hto : e'.place ≠ .stop)
    (q : Ref) :
    (∃ f, Function.update look r (some e') q = some f ∧ f.place = .stop) ↔
      ∃ f, look q = some f ∧ f.place = .stop := by
  by_cases hq : q = r
  · rw [hq, Function.update_self, hr]
    refine iff_of_false ?_ ?_
    · rintro ⟨f, hf, hstop⟩
      cases hf
      exact hto hstop
    · rintro ⟨f, hf, hstop⟩
      cases hf
      exact hfrom hstop
  · rw [Function.update_of_ne hq]

/-- An order in flight moves to a place in the book, or is gone. -/
theorem Moved.of_carried {result : OrderBook × List ExchangeEvent} {act : Act}
    (h : Follows F config m look) (hr : look r = some e) (hfly : e.place = .flying)
    (hto : e'.place ≠ .stop)
    (hcarried : Carried F config m.book look now result [act] (Function.update look r (some e'))) :
    Moved F config m look now ({ m with book := result.1 }, result.2) [act]
      (Function.update look r (some e')) where
  evolves := hcarried.evolves
  follows :=
    { book := hcarried.tracked
      placed := hcarried.evolves.placed h.placed
      stops := fun q => (h.stops q).trans
        (atStop_update hr (by rw [hfly]; exact fun hf => by cases hf) hto q).symm
      nodup := h.nodup }
  nextRef := hcarried.nextRef
  times := hcarried.times

/-! ## Submission -/

/-- What the checks of `submit_order` leave to rely on. -/
theorem invalidReason_none {b : OrderBook} {o : Order} (h : b.invalidReason o = none) :
    0 < o.quantity ∧ (o.orderType = .limit ∨ o.orderType = .stopLimit →
      o.limitPrice.isSome = true) := by
  unfold OrderBook.invalidReason at h
  dsimp only at h
  split at h
  · cases h
  · rename_i hquantity
    split at h
    · cases h
    · rename_i hlimit
      refine ⟨not_le.mp hquantity, fun htype => ?_⟩
      rw [Option.isSome_iff_ne_none]
      exact fun hnone => hlimit ⟨htype, hnone⟩

/-- The branches of `submit_order` each move the order that arrives. -/
theorem process_moves (h : Follows F config m look) (hr : look r = some e)
    (hfly : e.place = .flying) (now : ℚ) :
    ∃ act e', act.ref = r ∧ e'.place ≠ .flying ∧
      Moved F config m look now (m.process r now) [act] (Function.update look r (some e')) := by
  have hplaced := h.placed r e hr
  have hticket : (m.book.heap r).ticket = e.ticket := (h.book.sim.ticket r e hr).symm
  have hquantity : (m.book.heap r).quantity = e.ticket.quantity :=
    congrArg Ticket.quantity hticket
  have htype : (m.book.heap r).orderType = e.ticket.orderType := congrArg Ticket.orderType hticket
  have hlimit : (m.book.heap r).limitPrice = e.ticket.limitPrice :=
    congrArg Ticket.limitPrice hticket
  unfold process
  dsimp only
  split
  · rename_i reason _
    have hgone : ({ e with ticket := e.ticket.withStatus .rejected, place := .gone } :
        Entry).place ≠ .flying := fun hf => by cases hf
    refine ⟨.close r .rejected, _, rfl, hgone,
      Moved.of_carried h hr hfly (fun hf => by cases hf) ⟨?_, ?_, le_rfl, ?_⟩⟩
    · exact Evolves.single config (.close r .rejected) hr
        (Desk.Moves.close (by rw [hfly]; exact fun hf => by cases hf) (Or.inr (Or.inr rfl)))
    · exact h.book.modify hr (Or.inl hfly) (fun _ => rfl) (fun _ => rfl)
        (congrArg (Ticket.withStatus · .rejected) hticket.symm) (fun hf => by cases hf)
    · intro event hevent
      rw [List.mem_singleton.mp hevent]
      rfl
  · rename_i hvalid
    obtain ⟨hpos, hpriced⟩ := invalidReason_none hvalid
    rw [hquantity] at hpos
    rw [htype, hlimit] at hpriced
    have hmodified : ∀ place, place ≠ Place.book →
        Tracked F config (m.book.modify r (withStatus .accepted)) (Function.update look r
          (some { e with ticket := e.ticket.withStatus .accepted, place := place })) :=
      fun place hnot => h.book.modify hr (Or.inl hfly) (fun _ => rfl) (fun _ => rfl)
        (congrArg (Ticket.withStatus · .accepted) hticket.symm) hnot
    have hstarted : e.ticket.orderType.executed = e.ticket.orderType →
        Tracked F config (m.book.modify r (withStatus .accepted))
          (Function.update look r (some e.start)) := by
      intro hsame
      have hstart : e.start = { e with ticket := e.ticket.withStatus .accepted, place := .flying } := by
        rw [Entry.start, Ticket.started, hsame, ← hfly]
        rfl
      rw [hstart]
      exact hmodified .flying fun hf => by cases hf
    split
    · rename_i hmarket
      rw [htype] at hmarket
      have hstart : Desk.Startable e := Or.inl ⟨hfly, hpos, Or.inl hmarket⟩
      obtain ⟨attempt, hits, ending, hcarried⟩ := OrderBook.executeMarketOrder_moves hr hplaced hstart
        (by rw [hmarket]; rfl) (hstarted (by rw [hmarket]; rfl)) now
      have hplaces := ended_place e (e.ticket.started.fillAll hits) ending
      exact ⟨_, _, rfl, hplaces.1, Moved.of_carried h hr hfly hplaces.2
        ((hcarried.cons .orderAccepted (m.book.heap r) .empty rfl).of_nextRef le_rfl)⟩
    · rename_i hlimited
      rw [htype] at hlimited
      have hstart : Desk.Startable e :=
        Or.inl ⟨hfly, hpos, Or.inr ⟨hlimited, hpriced (Or.inl hlimited)⟩⟩
      obtain ⟨attempt, hits, ending, hcarried⟩ := OrderBook.executeLimitOrder_moves hr hplaced hstart
        (by rw [hlimited]; rfl) (hstarted (by rw [hlimited]; rfl)) now
      have hplaces := ended_place e (e.ticket.started.fillAll hits) ending
      exact ⟨_, _, rfl, hplaces.1, Moved.of_carried h hr hfly hplaces.2
        ((hcarried.cons .orderAccepted (m.book.heap r) .empty rfl).of_nextRef le_rfl)⟩
    · rename_i hnotMarket hnotLimit
      have hstop : e.ticket.orderType = .stop ∨
          (e.ticket.orderType = .stopLimit ∧ e.ticket.limitPrice.isSome = true) := by
        rw [htype] at hnotMarket hnotLimit
        cases hkind : e.ticket.orderType with
        | market => exact absurd hkind hnotMarket
        | limit => exact absurd hkind hnotLimit
        | stop => exact Or.inl rfl
        | stopLimit => exact Or.inr ⟨rfl, hpriced (Or.inr hkind)⟩
      have hevolves := Evolves.single config (.park r) hr
        (Desk.Moves.park hfly hpos hstop)
      refine ⟨.park r, { e with ticket := e.ticket.withStatus .accepted, place := .stop }, rfl,
        fun hf => (by cases hf), hevolves,
        ⟨hmodified .stop fun hf => (by cases hf), ?_, ?_, ?_⟩, le_rfl, ?_⟩
      · exact hevolves.placed h.placed
      · intro q
        rw [List.mem_append, List.mem_singleton, h.stops q]
        by_cases hq : q = r
        · subst hq
          rw [Function.update_self]
          exact iff_of_true (Or.inr rfl) ⟨_, rfl, rfl⟩
        · rw [Function.update_of_ne hq]
          exact or_iff_left hq
      · refine List.nodup_append.mpr ⟨h.nodup, List.nodup_singleton r, ?_⟩
        rintro q hq p hp rfl
        obtain ⟨f, hf, hplace⟩ := (h.stops q).mp hq
        rw [List.mem_singleton.mp hp, hr] at hf
        cases hf
        rw [hfly] at hplace
        cases hplace
      · intro event hevent
        rw [List.mem_singleton.mp hevent]
        rfl

/-- An order that arrives executes, rests, waits for its trigger or is rejected. -/
theorem submitOrder_moves (h : Follows F config m look) (hr : look r = some e)
    (hfly : e.place = .flying) (now : ℚ) :
    ∃ act e', act.ref = r ∧ e'.place ≠ .flying ∧
      Moved F config m look now (m.submitOrder r now) [act] (Function.update look r (some e')) := by
  have hreceived : Tracked F config (m.book.modify r m.received) look := by
    have hsame : m.book.modify r m.received =
        m.book.modify r fun o => { m.received o with owner := o.owner } := by
      have howner : ∀ o : Order, o.owner = .paper →
          m.received o = { m.received o with owner := o.owner } := by
        intro o ho
        rw [received, ho]
      rw [OrderBook.modify, OrderBook.modify, ← howner _ (h.book.sim.owner_paper hr)]
    have hmodified := h.book.modify (g := e) (f := fun o => { m.received o with owner := o.owner })
      hr (Or.inl hfly) (fun _ => rfl) (fun _ => rfl) (h.book.sim.ticket r e hr)
      (by rw [hfly]; exact fun hf => by cases hf)
    rwa [← hsame, ← hr, Function.update_eq_self] at hmodified
  have htaken : Follows F config { m with book := m.book.modify r m.received } look :=
    ⟨hreceived, h.placed, h.stops, h.nodup⟩
  obtain ⟨act, e', href, hplace, hmoved⟩ := process_moves htaken hr hfly now
  refine ⟨act, e', href, hplace, ?_, hmoved.follows.logged _, hmoved.nextRef, ?_⟩
  · refine Eq.mp ?_ hmoved.evolves
    exact congrArg (Evolves config look [act] · _)
      (reported_cons_orderEvent _ _ _ _ _ rfl).symm
  · intro event hevent
    rcases List.mem_cons.mp hevent with rfl | hlater
    · rfl
    · exact hmoved.times event hlater

/-! ## Cancels -/

/-- The cancelled entry. -/
def cancelled (e : Entry) : Entry :=
  { e with ticket := e.ticket.withStatus .cancelled, place := .gone }

/-- An order in the book can be cancelled under its id. -/
theorem cancellable_of_book {b : OrderBook} (h : Tracked F config b look) (hr : look r = some e)
    (hbook : e.place = .book) : ∃ limit, b.cancellable e.ticket.orderId = some (r, limit) := by
  obtain ⟨⟨s, t, hmem⟩, hlive⟩ := (h.sim.rests r e hr).mp hbook
  have hactive : (b.heap r).isActive = true := by
    rw [Order.isLive, Bool.and_eq_true] at hlive
    exact hlive.2
  obtain ⟨limit, hlimit, -⟩ := Option.map_eq_some_iff.mp (h.ok.belongs hmem).2
  refine ⟨limit, ?_⟩
  rw [OrderBook.cancellable, h.sim.indexed r e hr hbook, Option.bind_some, if_pos hactive, hlimit]
  rfl

/-- A cancel through the book always returns the order it found. -/
theorem cancelOrder_snd {b : OrderBook} {id : String} {limit : ℚ}
    (hfound : b.cancellable id = some (r, limit)) : (b.cancelOrder id).2 = some r := by
  simp only [OrderBook.cancelOrder, hfound]
  split <;> rfl

/-- A cancel closes the order at the engine that has the id, if there is one. -/
theorem cancelOrder_moves (h : Follows F config m look) (id : String) (now : ℚ) :
    (∃ r e, look r = some e ∧ e.ticket.orderId = id ∧ Entry.AtEngine e ∧
      Moved F config m look now (m.cancelOrder id now) [.close r .cancelled]
        (Function.update look r (some (cancelled e)))) ∨
    ((∀ r e, look r = some e → e.ticket.orderId = id → ¬Entry.AtEngine e) ∧
      Moved F config m look now (m.cancelOrder id now) [] look) := by
  unfold cancelOrder
  split
  · rename_i r hfind
    have hname : (m.book.heap r).orderId = id := by
      have hfound := List.find?_some hfind
      exact of_decide_eq_true hfound
    have hmem := List.mem_of_find?_eq_some hfind
    obtain ⟨e, hr, hstop⟩ := (h.stops r).mp hmem
    have hid : e.ticket.orderId = id := (h.book.sim.orderId_eq hr).symm.trans hname
    have hnot : e.place ≠ .gone := by
      rw [hstop]
      exact fun hf => by cases hf
    have hevolves := Evolves.single config (.close r .cancelled) hr
      (Desk.Moves.close hnot (Or.inl rfl))
    refine Or.inl ⟨r, e, hr, hid, Or.inl hstop, hevolves, ⟨?_, ?_, ?_, ?_⟩, le_rfl, ?_⟩
    · refine h.book.modify hr (Or.inr hstop) (fun _ => rfl) (fun _ => rfl) ?_
        (fun hf => by cases hf)
      rw [cancelled, h.book.sim.ticket r e hr]
      rfl
    · exact hevolves.placed h.placed
    · intro q
      have hremove : removeId m.book.heap id m.pendingStops =
          m.pendingStops.filter fun q => q ≠ r := by
        rw [← hname]
        refine OrderBook.removeId_eq_filter _ h.nodup fun q hq hsame => ?_
        obtain ⟨f, hf, -⟩ := (h.stops q).mp hq
        exact h.book.sim.eq_of_id hr (h.book.sim.known q f hf) hsame
      show q ∈ removeId m.book.heap id m.pendingStops ↔ _
      rw [hremove, List.mem_filter, h.stops q]
      by_cases hq : q = r
      · subst hq
        rw [Function.update_self]
        refine iff_of_false (fun hf => of_decide_eq_true hf.2 rfl) ?_
        rintro ⟨f, hf, hplace⟩
        cases hf
        cases hplace
      · rw [Function.update_of_ne hq]
        exact and_iff_left (decide_eq_true hq)
    · exact h.nodup.sublist List.eraseP_sublist
    · intro event hevent
      rw [List.mem_singleton.mp hevent]
      rfl
  · rename_i hfind
    have hnostop : ∀ r e, look r = some e → e.ticket.orderId = id → e.place ≠ .stop := by
      intro r e hr hid hstop
      refine List.find?_eq_none.mp hfind r ((h.stops r).mpr ⟨e, hr, hstop⟩) ?_
      exact decide_eq_true ((h.book.sim.orderId_eq hr).trans hid)
    dsimp only
    have hkept : ∀ {look' : Look} {book : OrderBook} {events : List ExchangeEvent} {acts : List Act},
        Carried F config m.book look now (book, events) acts look' →
        (∀ q, q ∈ m.pendingStops ↔ ∃ e, look' q = some e ∧ e.place = .stop) →
        Moved F config m look now (({ m with book := book } : MatchingEngine).logged events, events)
          acts look' :=
      fun hcarried hstops => ⟨hcarried.evolves,
        ⟨hcarried.tracked, hcarried.evolves.placed h.placed, hstops, h.nodup⟩,
        hcarried.nextRef, hcarried.times⟩
    rcases hfound : m.book.cancellable id with _ | ⟨r, limit⟩
    · refine Or.inr ⟨fun r e hr hid hat => ?_, ?_⟩
      · rcases hat with hstop | hbook
        · exact hnostop r e hr hid hstop
        · obtain ⟨limit, hsome⟩ := cancellable_of_book h.book hr hbook
          rw [hid, hfound] at hsome
          cases hsome
      · have hsame : m.book.cancelOrder id = (m.book, none) := by
          simp only [OrderBook.cancelOrder, hfound]
        rw [hsame]
        exact hkept (Carried.refl h.book now) h.stops
    · rw [cancelOrder_snd hfound]
      have hok := OrderBook.cancelOrder_ok h.book.ok id
      have hgrid := (OrderBook.grid_cancelOrder (b := m.book) id).trans h.book.grid
      have hnext := (OrderBook.nextRef_cancelOrder (b := m.book) id).ge
      have htimes : ∀ event ∈ cancelEvents now (m.book.cancelOrder id).1 (some r),
          event.timestamp = now := by
        intro event hevent
        rw [List.mem_singleton.mp hevent]
        rfl
      rcases howner : (m.book.heap r).owner with _ | _
      · have hframe : PaperFrame F m.book (m.book.cancelOrder id).1 := by
          refine h.book.sim.cancelFrame h.book.ok fun q l hq => ?_
          rw [hfound] at hq
          cases hq
          exact howner
        refine Or.inr ⟨fun q e hq hid hat => ?_, hkept
          ⟨Evolves.nil look, h.book.frame hok (OrderBook.grid_cancelOrder id) hframe, hnext, htimes⟩
          h.stops⟩
        rcases hat with hstop | hbook
        · exact hnostop q e hq hid hstop
        · obtain ⟨l, hsome⟩ := cancellable_of_book h.book hq hbook
          rw [hid, hfound] at hsome
          cases hsome
          rw [h.book.sim.owner_paper hq] at howner
          cases howner
      · obtain ⟨e, hr⟩ := (h.book.sim.paper r).mpr howner
        obtain ⟨hget, hactive, -⟩ := OrderBook.cancellable_spec hfound
        have hbook := h.book.sim.placed_active hget hr hactive
        have hid : e.ticket.orderId = id :=
          (h.book.sim.orderId_eq hr).symm.trans (h.book.sim.index id r hget).1
        have hevolves := Evolves.single config (.close r .cancelled) hr
          (Desk.Moves.close (by rw [hbook]; exact fun hf => by cases hf) (Or.inl rfl))
        refine Or.inl ⟨r, e, hr, hid, Or.inr hbook, hkept
          ⟨hevolves, ⟨hok, (h.book.sim.cancelOrder h.book.ok hfound hr).2, hgrid⟩, hnext, htimes⟩ ?_⟩
        exact fun q => (h.stops q).trans
          (atStop_update hr (by rw [hbook]; exact fun hf => by cases hf) (fun hf => by cases hf) q).symm

/-! ## Maker fills -/

/-- Whoever is hit by a print rested in the book. -/
theorem book_of_hit {grid : TickGrid} {remaining last : ℚ} {hits : List (Ref × Hit)}
    (h : Prints grid remaining look hits last look') {hit : Hit} (hmem : (r, hit) ∈ hits) :
    ∃ e, look r = some e ∧ e.place = .book := by
  obtain ⟨e, hr, -⟩ := h.settled hmem
  refine ⟨e, hr, ?_⟩
  by_contra hnot
  exact (h.eq_of_not_book hr hnot).2 hit hmem

/-- The hits of a print are moves, and their executions can be read off the entries they leave. -/
theorem evolves_of_prints {remaining last : ℚ} {hits : List (Ref × Hit)}
    {ticket : Ref → Ticket} (h : Prints config.grid remaining look hits last look')
    (hticket : ∀ r e, look' r = some e → ticket r = e.ticket) :
    Evolves config look (hits.map fun p => .passive p.1 p.2)
      (hits.map fun p => (ticket p.1).execution p.2) look' := by
  induction h with
  | nil => exact Evolves.nil _
  | pass _ _ ih => exact ih hticket
  | @hit remaining last look look' hits r e hit t hr hbook hquantity hsize hprice hlimit hrest ih =>
    have hlast : ticket r = e.ticket.fill hit :=
      hticket r _ (Prints.eq_of_hit hquantity hrest).1
    have hfits : Fits e.ticket.remaining [hit] :=
      ⟨hsize, hquantity.le.trans (min_le_right _ _), trivial⟩
    have hwithin : Desk.WithinLimit config e.ticket hit := by
      intro limit hl
      rw [Option.mem_def] at hl
      rw [hl] at hlimit
      have htick : config.grid.toTicks limit = t := Option.some.inj hlimit
      rw [htick, hprice]
      cases e.ticket.side <;> exact le_rfl
    have hmove := Desk.Moves.passive (r := r) hbook hfits hwithin
    rw [List.map_cons, List.map_cons, hlast]
    exact Evolves.move hr hmove (ih hticket)

/-- The events of maker fills report the hits they come from. -/
theorem reported_makerEvents {b b' : OrderBook} {fills : List Fill} {hits : List (Ref × Hit)}
    (hkeys : fills.map Fill.key = hits.map (hitKey b.heap))
    (hfound : ∀ p ∈ hits, b'.orders.get? (b.heap p.1).orderId = some p.1) (now : ℚ) :
    reported (makerEvents now b' fills) =
      hits.map fun p => (b'.heap p.1).ticket.execution p.2 := by
  have hevents : makerEvents now b' fills = (fills.map Fill.key).filterMap fun key =>
      (b'.orders.get? key.1).map fun r => fillEvent (b'.heap r) key.2.1 key.2.2 now false := by
    rw [List.filterMap_map]
    rfl
  rw [hevents, hkeys, List.filterMap_map]
  clear hevents hkeys
  induction hits with
  | nil => rfl
  | cons p rest ih =>
    have hp := hfound p (List.mem_cons_self ..)
    have hrest := ih fun q hq => hfound q (List.mem_cons_of_mem p hq)
    rw [List.filterMap_cons_some (b := fillEvent (b'.heap p.1) p.2.price p.2.quantity now false)
      (by simp only [Function.comp_apply, hitKey, hp, Option.map_some]),
      reported_cons_fillEvent, hrest]
    rfl

/-- A feed event hits resting paper orders, and the maker events report these hits. -/
theorem applyMarketEvent_moves {b : OrderBook} (h : Tracked F config b look) {event : BookEvent}
    {uuid : HexId} (hevent : F (event.idOr uuid)) :
    ∃ (hits : List (Ref × Hit)) (look' : Look), Carried F config b look event.timestamp
        ((b.applyMarketEvent event uuid).1, makerEvents event.timestamp
          (b.applyMarketEvent event uuid).1 (b.applyMarketEvent event uuid).2)
        (hits.map fun p => .passive p.1 p.2) look' ∧
      ∀ p ∈ hits, ∃ e, look p.1 = some e ∧ e.place = .book := by
  have hclock : Tracked F config { b with lastEventTime := event.timestamp } look :=
    h.frame (h.ok.lastEvent event.timestamp) rfl
      (PaperFrame.congr (fun s => by cases s <;> rfl) rfl rfl rfl)
  have hok := OrderBook.applyMarketEvent_ok h.ok event uuid
  have hgrid := (OrderBook.grid_applyMarketEvent (b := b) event uuid).trans h.grid
  have htimes : ∀ book fills, ∀ ev ∈ makerEvents event.timestamp book fills,
      ev.timestamp = event.timestamp := by
    intro book fills ev hev
    obtain ⟨fill, -, hfill⟩ := List.mem_filterMap.mp hev
    obtain ⟨r, -, rfl⟩ := Option.map_eq_some_iff.mp hfill
    rfl
  have hfeed : ∀ b' : OrderBook, b.applyMarketEvent event uuid = (b', []) →
      PaperFrame F { b with lastEventTime := event.timestamp } b' →
      ∃ (hits : List (Ref × Hit)) (look' : Look), Carried F config b look event.timestamp
          ((b.applyMarketEvent event uuid).1, makerEvents event.timestamp
            (b.applyMarketEvent event uuid).1 (b.applyMarketEvent event uuid).2)
          (hits.map fun p => .passive p.1 p.2) look' ∧
        ∀ p ∈ hits, ∃ e, look p.1 = some e ∧ e.place = .book := by
    intro b' happly hframe
    rw [happly] at hok hgrid ⊢
    exact ⟨[], look, ⟨Evolves.nil look, ⟨hok, hclock.sim.frame hframe, hgrid⟩, hframe.nextRef,
      fun ev hev => (by cases hev)⟩, fun p hp => (by cases hp)⟩
  cases htype : event.eventType with
  | add =>
    refine hfeed (OrderBook.applyAdd { b with lastEventTime := event.timestamp } event uuid)
      ?_ (hclock.sim.applyAdd hevent)
    simp only [OrderBook.applyMarketEvent, htype]
  | cancel =>
    refine hfeed
      (OrderBook.applyChange { b with lastEventTime := event.timestamp } event uuid) ?_
      (hclock.sim.applyChange hclock.ok hevent)
    simp only [OrderBook.applyMarketEvent, htype]
  | modify =>
    refine hfeed
      (OrderBook.applyChange { b with lastEventTime := event.timestamp } event uuid) ?_
      (hclock.sim.applyChange hclock.ok hevent)
    simp only [OrderBook.applyMarketEvent, htype]
  | trade =>
    obtain ⟨hits, last, look', hprints, hsim, hkeys, hkept⟩ :=
      hclock.sim.applyTrade hclock.ok event
    have happly : b.applyMarketEvent event uuid =
        OrderBook.applyTrade { b with lastEventTime := event.timestamp } event := by
      simp only [OrderBook.applyMarketEvent, htype]
    have hnext := (OrderBook.applyTrade_fixed
      (b := { b with lastEventTime := event.timestamp }) event).2.ge
    rw [happly] at hok hgrid ⊢
    refine ⟨hits, look', ⟨?_, ⟨hok, hsim, hgrid⟩, hnext, htimes _ _⟩,
      fun p hp => book_of_hit hprints hp⟩
    rw [reported_makerEvents (b := { b with lastEventTime := event.timestamp }) hkeys ?_]
    · have hgridded : Prints config.grid event.size look hits last look' := by
        rw [← h.grid]
        exact hprints
      exact evolves_of_prints hgridded fun r e hr => (hsim.ticket r e hr).symm
    · intro p hp
      obtain ⟨e, hr, hbook⟩ := book_of_hit hprints hp
      rw [hclock.sim.orderId_eq hr, hkept _ (hclock.sim.ids p.1 e hr)]
      exact hclock.sim.indexed p.1 e hr hbook

/-! ## Stops -/

/-- A stop that is triggered executes. -/
theorem executeTriggered_moves {b : OrderBook} (h : Tracked F config b look)
    (hplaced : AllPlaced look) (hr : look r = some e) (hstop : e.place = .stop) (now : ℚ) :
    OrderBook.Executes F config b look now (executeTriggered b r now) r e := by
  have hplace := hplaced r e hr
  have hstart : Desk.Startable e := Or.inr hstop
  rw [Entry.Placed, hstop] at hplace
  obtain ⟨hstatus, -, hkind⟩ := hplace
  have hticket : (b.heap r).ticket = e.ticket := (h.sim.ticket r e hr).symm
  have htype : (b.heap r).orderType = e.ticket.orderType := congrArg Ticket.orderType hticket
  have hexecuted : (b.heap r).orderType.triggered = e.ticket.orderType.executed := by
    rw [htype]
    rcases hkind with hk | ⟨hk, -⟩ <;> rw [hk] <;> rfl
  have hretyped : Tracked F config (b.modify r (withType (b.heap r).orderType.triggered))
      (Function.update look r (some e.start)) := by
    refine h.modify hr (Or.inr hstop) (fun _ => rfl) (fun _ => rfl) ?_ ?_
    · have hstarted : e.ticket.started =
          { e.ticket with orderType := e.ticket.orderType.executed } := by
        rw [Ticket.started, ← hstatus]
      rw [Entry.start, hstarted, ← hexecuted, ← hticket]
      rfl
    · show e.place ≠ .book
      rw [hstop]
      exact fun hf => by cases hf
  have hnext : ∀ {result : OrderBook × List ExchangeEvent},
      OrderBook.Executes F config (b.modify r (withType (b.heap r).orderType.triggered)) look now
        result r e → OrderBook.Executes F config b look now result r e := by
    rintro result ⟨attempt, hits, ending, hcarried⟩
    exact ⟨attempt, hits, ending, hcarried.of_nextRef le_rfl⟩
  unfold executeTriggered
  dsimp only
  rcases hkind with hk | ⟨hk, -⟩
  · rw [htype, hk] at hretyped hnext ⊢
    exact hnext (OrderBook.executeMarketOrder_moves hr (hplaced r e hr) hstart (by rw [hk]; rfl)
      hretyped now)
  · rw [htype, hk] at hretyped hnext ⊢
    exact hnext (OrderBook.executeLimitOrder_moves hr (hplaced r e hr) hstart (by rw [hk]; rfl)
      hretyped now)

/-- The loop over the stops executes those a print triggers. -/
theorem checkStopTriggers_moves (tradePrice now : ℚ) {stops : List Ref} (hnodup : stops.Nodup)
    {b : OrderBook} (h : Tracked F config b look) (hplaced : AllPlaced look)
    (hstops : ∀ r ∈ stops, ∃ e, look r = some e ∧ e.place = .stop) :
    ∃ acts look', Carried F config b look now ((checkStopTriggers tradePrice now stops b).book,
        (checkStopTriggers tradePrice now stops b).events) acts look' ∧
      (∀ act ∈ acts, act.ref ∈ stops) ∧
      (checkStopTriggers tradePrice now stops b).stillPending.Sublist stops ∧
      ∀ r ∈ stops, r ∈ (checkStopTriggers tradePrice now stops b).stillPending ↔
        ∃ e, look' r = some e ∧ e.place = .stop := by
  induction stops generalizing b look with
  | nil =>
    exact ⟨[], look, Carried.refl h now, fun act hact => (by cases hact), List.Sublist.refl _,
      fun r hr => (by cases hr)⟩
  | cons r rest ih =>
    obtain ⟨hr, hrest⟩ := List.nodup_cons.mp hnodup
    obtain ⟨e, hlook, hstop⟩ := hstops r (List.mem_cons_self ..)
    simp only [checkStopTriggers]
    split
    · obtain ⟨attempt, hits, ending, hcarried⟩ :=
        executeTriggered_moves h hplaced hlook hstop now
      have hplaces := ended_place e (e.ticket.started.fillAll hits) ending
      have hlater : ∀ q ∈ rest, ∃ f, Function.update look r
          (some (e.ended (e.ticket.started.fillAll hits) ending)) q = some f ∧
            f.place = .stop := by
        intro q hq
        have hne : q ≠ r := fun heq => hr (heq ▸ hq)
        rw [Function.update_of_ne hne]
        exact hstops q (List.mem_cons_of_mem r hq)
      obtain ⟨acts, look', hrun, hrefs, hsub, hleft⟩ := ih hrest hcarried.tracked
        (hcarried.evolves.placed hplaced) hlater
      have hlast : look' r = some (e.ended (e.ticket.started.fillAll hits) ending) := by
        rw [hrun.evolves.untouched (r := r) fun act hact heq => hr (heq ▸ hrefs act hact),
          Function.update_self]
      refine ⟨_, look', (hcarried.append hrun).cons .orderTriggered (b.heap r)
        (.triggerPrice tradePrice) rfl, ?_, hsub.trans (List.sublist_cons_self ..), ?_⟩
      · intro act hact
        rcases List.mem_cons.mp hact with rfl | hact
        · exact List.mem_cons_self ..
        · exact List.mem_cons_of_mem r (hrefs act hact)
      · intro q hq
        rcases List.mem_cons.mp hq with rfl | hq
        · refine iff_of_false (fun hmem => hr (hsub.subset hmem)) ?_
          rintro ⟨f, hf, hplace⟩
          rw [hlast] at hf
          cases hf
          exact hplaces.2 hplace
        · exact hleft q hq
    · obtain ⟨acts, look', hrun, hrefs, hsub, hleft⟩ := ih hrest h hplaced fun q hq =>
        hstops q (List.mem_cons_of_mem r hq)
      have hlast : look' r = some e := by
        rw [hrun.evolves.untouched (r := r) fun act hact heq => hr (heq ▸ hrefs act hact), hlook]
      refine ⟨acts, look', hrun, fun act hact => List.mem_cons_of_mem r (hrefs act hact),
        hsub.cons_cons r, ?_⟩
      intro q hq
      rcases List.mem_cons.mp hq with rfl | hq
      · exact iff_of_true (List.mem_cons_self ..) ⟨e, hlast, hstop⟩
      · have hne : q ≠ r := fun heq => hr (heq ▸ hq)
        rw [List.mem_cons, or_iff_right hne]
        exact hleft q hq

/-- A print hits none of the stops. -/
theorem stops_passive {hits : List (Ref × Hit)} {fills : List Execution}
    (h : Evolves config look (hits.map fun p => .passive p.1 p.2) fills look') (r : Ref) :
    (∃ e, look' r = some e ∧ e.place = .stop) ↔ ∃ e, look r = some e ∧ e.place = .stop := by
  generalize hacts : (hits.map fun p => Act.passive p.1 p.2) = acts at h
  induction h generalizing hits with
  | nil => exact Iff.rfl
  | @move look look' act acts e e' fills later hentry hmoves hrest ih =>
    cases hits with
    | nil => cases hacts
    | cons p rest =>
      obtain ⟨rfl, hrests⟩ := List.cons.inj hacts
      have hp : look p.1 = some e := hentry
      refine (ih hrests).trans ?_
      cases hmoves with
      | passive hplace =>
        refine atStop_update hp (by rw [hplace]; exact fun hf => by cases hf) ?_ r
        unfold Entry.hit
        dsimp only
        split <;> exact fun hf => by cases hf

/-- A feed event hits orders that rest and executes stops that it triggers. -/
theorem onMarketEvent_moves (h : Follows F config m look) {event : BookEvent} {uuid : HexId}
    (hevent : F (event.idOr uuid)) :
    ∃ acts look', Moved F config m look event.timestamp (m.onMarketEvent event uuid) acts look' ∧
      ∀ act ∈ acts, ∃ e, look act.ref = some e ∧ Entry.AtEngine e := by
  obtain ⟨hits, mid, hmaker, hbook⟩ := applyMarketEvent_moves h.book hevent
  have hmid := hmaker.evolves.placed h.placed
  have hstops : ∀ r, r ∈ m.pendingStops ↔ ∃ e, mid r = some e ∧ e.place = .stop := fun r =>
    (h.stops r).trans (stops_passive hmaker.evolves r).symm
  have hpassive : ∀ act ∈ hits.map fun p => Act.passive p.1 p.2,
      ∃ e, look act.ref = some e ∧ Entry.AtEngine e := by
    intro act hact
    obtain ⟨p, hp, rfl⟩ := List.mem_map.mp hact
    obtain ⟨e, hr, hplace⟩ := hbook p hp
    exact ⟨e, hr, Or.inr hplace⟩
  unfold onMarketEvent
  dsimp only
  split
  · obtain ⟨acts, look', hrun, hrefs, hsub, hleft⟩ := checkStopTriggers_moves event.price
      event.timestamp h.nodup hmaker.tracked hmid fun r hr => (hstops r).mp hr
    have hboth := hmaker.append hrun
    refine ⟨_, look', ⟨hboth.evolves, ⟨hboth.tracked, hboth.evolves.placed h.placed, ?_,
      h.nodup.sublist hsub⟩, hboth.nextRef, hboth.times⟩, ?_⟩
    · intro r
      by_cases hr : r ∈ m.pendingStops
      · exact hleft r hr
      · refine iff_of_false (fun hmem => hr (hsub.subset hmem)) ?_
        rw [hrun.evolves.untouched (r := r) fun act hact heq => hr (heq ▸ hrefs act hact)]
        exact fun hplace => hr ((hstops r).mpr hplace)
    · intro act hact
      rcases List.mem_append.mp hact with hact | hact
      · exact hpassive act hact
      · obtain ⟨e, hr, hplace⟩ := (h.stops act.ref).mp (hrefs act hact)
        exact ⟨e, hr, Or.inl hplace⟩
  · exact ⟨_, mid, ⟨hmaker.evolves, ⟨hmaker.tracked, hmid, hstops, h.nodup⟩, hmaker.nextRef,
      hmaker.times⟩, hpassive⟩

/-! ## Expiry -/

/-- The expired entry. -/
def expired (e : Entry) : Entry :=
  { e with ticket := e.ticket.withStatus .expired, place := .gone }

/-- The loop over the index takes the orders out of the book whose expiry has passed. -/
theorem expireResting_moves (now : ℚ) (items : List (String × Ref)) {b : OrderBook}
    (h : Tracked F config b look)
    (hitems : ∀ p ∈ items, ∀ e, look p.2 = some e → b.orders.get? p.1 = some p.2) :
    ∃ acts look', Carried F config b look now (expireResting now items b) acts look' ∧
      (∀ act ∈ acts, ∃ r e, act = .close r .expired ∧ look r = some e ∧ e.place = .book) ∧
      (∀ r, (∃ e, look' r = some e ∧ e.place = .stop) ↔ ∃ e, look r = some e ∧ e.place = .stop) ∧
      ∀ p ∈ items, ∀ e, look' p.2 = some e → e.place = .book → e.ticket.isExpired now = false := by
  induction items generalizing b look with
  | nil =>
    exact ⟨[], look, Carried.refl h now, fun act hact => (by cases hact), fun _ => Iff.rfl,
      fun p hp => (by cases hp)⟩
  | cons p rest ih =>
    obtain ⟨id, r⟩ := p
    simp only [expireResting]
    split
    · rename_i hdue
      simp only [Bool.and_eq_true, decide_eq_true_eq] at hdue
      obtain ⟨⟨howner, hactive⟩, -⟩ := hdue
      obtain ⟨e, hr⟩ := (h.sim.paper r).mpr howner
      have hget := hitems (id, r) (List.mem_cons_self ..) e hr
      have hbook := h.sim.placed_active hget hr hactive
      obtain ⟨limit, hfound⟩ := cancellable_of_book h hr hbook
      have hid : e.ticket.orderId = id :=
        (h.sim.orderId_eq hr).symm.trans (h.sim.index id r hget).1
      rw [hid] at hfound
      obtain ⟨hkept, hsim⟩ := h.sim.cancelOrder h.ok hfound hr
      have hcancelled : Tracked F config (b.cancelOrder id).1
          (Function.update look r (some (cancelled e))) :=
        ⟨OrderBook.cancelOrder_ok h.ok id, hsim, (OrderBook.grid_cancelOrder id).trans h.grid⟩
      have hexpired : Tracked F config ((b.cancelOrder id).1.modify r (withStatus .expired))
          (Function.update look r (some (expired e))) := by
        have hself : Function.update look r (some (cancelled e)) r = some (cancelled e) :=
          Function.update_self ..
        have hretired := hcancelled.retire (f := withStatus .expired) (g := expired e) hself
          (fun hf => by cases hf) (fun _ => rfl) (fun _ => rfl) rfl
          (congrArg (Ticket.withStatus · .expired) (hcancelled.sim.ticket r _ hself)) rfl
        rwa [Function.update_idem] at hretired
      have hmove := Evolves.single config (.close r .expired) hr
        (Desk.Moves.close (by rw [hbook]; exact fun hf => by cases hf) (Or.inr (Or.inl rfl)))
      have hlater : ∀ p ∈ rest, ∀ f, Function.update look r (some (expired e)) p.2 = some f →
          ((b.cancelOrder id).1.modify r (withStatus .expired)).orders.get? p.1 = some p.2 := by
        intro p hp f hf
        have hsome : ∃ g, look p.2 = some g := by
          rcases look_update hf with ⟨hpr, -⟩ | ⟨-, hold⟩
          · exact ⟨e, hpr ▸ hr⟩
          · exact ⟨f, hold⟩
        obtain ⟨g, hg⟩ := hsome
        have hold := hitems p (List.mem_cons_of_mem _ hp) g hg
        have hname : p.1 = g.ticket.orderId :=
          (h.sim.index p.1 p.2 hold).1.symm.trans (h.sim.orderId_eq hg)
        rw [hname] at hold ⊢
        exact (hkept _ (h.sim.ids p.2 g hg)).trans hold
      obtain ⟨acts, look', hrun, hcloses, hstops, hleft⟩ := ih hexpired hlater
      have hpair : b.cancelOrder id = ((b.cancelOrder id).1, some r) :=
        Prod.ext rfl (cancelOrder_snd hfound)
      rw [hpair]
      dsimp only
      have hfirst : Carried F config b look now
          ((b.cancelOrder id).1.modify r (withStatus .expired), [])
          [.close r .expired] (Function.update look r (some (expired e))) :=
        ⟨hmove, hexpired, (OrderBook.nextRef_cancelOrder id).ge, fun event hevent => (by cases hevent)⟩
      refine ⟨_, look', (hfirst.append hrun).cons .orderExpired _ .empty rfl, ?_, ?_, ?_⟩
      · intro act hact
        rcases List.mem_cons.mp hact with rfl | hact
        · exact ⟨r, e, rfl, hr, hbook⟩
        · obtain ⟨q, g, hclose, hg, hplace⟩ := hcloses act hact
          rcases look_update hg with ⟨-, rfl⟩ | ⟨-, hold⟩
          · cases hplace
          · exact ⟨q, g, hclose, hold, hplace⟩
      · intro q
        rw [hstops q]
        exact atStop_update hr (by rw [hbook]; exact fun hf => by cases hf)
          (fun hf => by cases hf) q
      · intro q hq f hf hplace
        rcases List.mem_cons.mp hq with rfl | hq
        · have hbefore := hrun.evolves.closes_kept
            (fun act hact => (hcloses act hact).imp fun _ ⟨_, h⟩ => ⟨_, h.1⟩) hf
            (by rw [hplace]; exact fun hf => by cases hf)
          rw [Function.update_self] at hbefore
          cases hbefore
          cases hplace
        · exact hleft q hq f hf hplace
    · rename_i hdue
      obtain ⟨acts, look', hrun, hcloses, hstops, hleft⟩ := ih h fun p hp =>
        hitems p (List.mem_cons_of_mem _ hp)
      refine ⟨acts, look', hrun, hcloses, hstops, fun q hq f hf hplace => ?_⟩
      rcases List.mem_cons.mp hq with rfl | hq
      · have hr := hrun.evolves.closes_kept
          (fun act hact => (hcloses act hact).imp fun _ ⟨_, h⟩ => ⟨_, h.1⟩) hf
          (by rw [hplace]; exact fun hf => by cases hf)
        have hlive := ((h.sim.rests r f hr).mp hplace).2
        rw [Order.isLive, Bool.and_eq_true] at hlive
        have hsame : isExpired now (b.heap r) = f.ticket.isExpired now := by
          rw [h.sim.ticket r f hr]
          rfl
        simp only [h.sim.owner_paper hr, hlive.2, decide_true, Bool.true_and,
          Bool.not_eq_true] at hdue
        rw [← hsame]
        exact hdue
      · exact hleft q hq f hf hplace

/-- The loop over the stops drops those whose expiry has passed. -/
theorem expireStops_moves (now : ℚ) {stops : List Ref} (hnodup : stops.Nodup) {b : OrderBook}
    (h : Tracked F config b look)
    (hstops : ∀ r ∈ stops, ∃ e, look r = some e ∧ e.place = .stop) :
    ∃ acts look', Carried F config b look now ((expireStops now stops b).book,
        (expireStops now stops b).events) acts look' ∧
      (∀ act ∈ acts, ∃ r ∈ stops, act = .close r .expired) ∧
      (expireStops now stops b).stillPending.Sublist stops ∧
      ∀ r ∈ stops, (r ∈ (expireStops now stops b).stillPending ↔
          ∃ e, look' r = some e ∧ e.place = .stop) ∧
        ∀ e, look' r = some e → e.place = .stop → e.ticket.isExpired now = false := by
  induction stops generalizing b look with
  | nil =>
    exact ⟨[], look, Carried.refl h now, fun act hact => (by cases hact), List.Sublist.refl _,
      fun r hr => (by cases hr)⟩
  | cons r rest ih =>
    obtain ⟨hr, hrest⟩ := List.nodup_cons.mp hnodup
    obtain ⟨e, hlook, hstop⟩ := hstops r (List.mem_cons_self ..)
    have hsame : isExpired now (b.heap r) = e.ticket.isExpired now := by
      rw [h.sim.ticket r e hlook]
      rfl
    simp only [expireStops]
    split
    · have hexpired : Tracked F config (b.modify r (withStatus .expired))
          (Function.update look r (some (expired e))) :=
        h.retire hlook (by rw [hstop]; exact fun hf => by cases hf) (fun _ => rfl) (fun _ => rfl)
          rfl (congrArg (Ticket.withStatus · .expired) (h.sim.ticket r e hlook)) rfl
      have hmove := Evolves.single config (.close r .expired) hlook
        (Desk.Moves.close (by rw [hstop]; exact fun hf => by cases hf) (Or.inr (Or.inl rfl)))
      have hlater : ∀ q ∈ rest, ∃ f, Function.update look r (some (expired e)) q = some f ∧
          f.place = .stop := by
        intro q hq
        have hne : q ≠ r := fun heq => hr (heq ▸ hq)
        rw [Function.update_of_ne hne]
        exact hstops q (List.mem_cons_of_mem r hq)
      obtain ⟨acts, look', hrun, hrefs, hsub, hleft⟩ := ih hrest hexpired hlater
      have hlast : look' r = some (expired e) := by
        rw [hrun.evolves.untouched (r := r), Function.update_self]
        intro act hact heq
        obtain ⟨q, hq, rfl⟩ := hrefs act hact
        exact hr (heq ▸ hq)
      have hfirst : Carried F config b look now (b.modify r (withStatus .expired), [])
          [.close r .expired] (Function.update look r (some (expired e))) :=
        ⟨hmove, hexpired, le_rfl, fun event hevent => (by cases hevent)⟩
      refine ⟨_, look', (hfirst.append hrun).cons .orderExpired _ .empty rfl, ?_,
        hsub.trans (List.sublist_cons_self ..), ?_⟩
      · intro act hact
        rcases List.mem_cons.mp hact with rfl | hact
        · exact ⟨r, List.mem_cons_self .., rfl⟩
        · obtain ⟨q, hq, hact⟩ := hrefs act hact
          exact ⟨q, List.mem_cons_of_mem r hq, hact⟩
      · intro q hq
        rcases List.mem_cons.mp hq with rfl | hq
        · refine ⟨iff_of_false (fun hmem => hr (hsub.subset hmem)) ?_, ?_⟩
          · rintro ⟨f, hf, hplace⟩
            rw [hlast] at hf
            cases hf
            cases hplace
          · intro f hf hplace
            rw [hlast] at hf
            cases hf
            cases hplace
        · exact hleft q hq
    · rename_i hdue
      rw [hsame, Bool.not_eq_true] at hdue
      obtain ⟨acts, look', hrun, hrefs, hsub, hleft⟩ := ih hrest h fun q hq =>
        hstops q (List.mem_cons_of_mem r hq)
      have hlast : look' r = some e := by
        rw [hrun.evolves.untouched (r := r), hlook]
        intro act hact heq
        obtain ⟨q, hq, rfl⟩ := hrefs act hact
        exact hr (heq ▸ hq)
      refine ⟨acts, look', hrun, ?_, hsub.cons_cons r, ?_⟩
      · intro act hact
        obtain ⟨q, hq, hact⟩ := hrefs act hact
        exact ⟨q, List.mem_cons_of_mem r hq, hact⟩
      · intro q hq
        rcases List.mem_cons.mp hq with rfl | hq
        · refine ⟨iff_of_true (List.mem_cons_self ..) ⟨e, hlast, hstop⟩, fun f hf _ => ?_⟩
          rw [hlast] at hf
          cases hf
          exact hdue
        · have hne : q ≠ r := fun heq => hr (heq ▸ hq)
          rw [List.mem_cons, or_iff_right hne]
          exact hleft q hq

/-- No order at the engine is left whose expiry has passed. -/
theorem expireOrders_moves (h : Follows F config m look) (now : ℚ) :
    ∃ acts look', Moved F config m look now (m.expireOrders now) acts look' ∧
      (∀ act ∈ acts, ∃ r e, act = .close r .expired ∧ look r = some e ∧ e.AtEngine) ∧
      ∀ r e, look' r = some e → Entry.AtEngine e → e.ticket.isExpired now = false := by
  obtain ⟨acts, mid, hresting, hcloses, hstops, hlive⟩ :=
    expireResting_moves now m.book.orders.items h.book fun p hp e he =>
      Dict.get?_eq_some_iff.mpr hp
  obtain ⟨acts', look', hstopped, hcloses', hsub, hleft⟩ :=
    expireStops_moves now h.nodup hresting.tracked fun r hr => (hstops r).mpr ((h.stops r).mp hr)
  have hboth := hresting.append hstopped
  have hall : ∀ act ∈ acts ++ acts', ∃ r e, act = .close r .expired ∧ look r = some e ∧
      e.AtEngine := by
    intro act hact
    rcases List.mem_append.mp hact with hact | hact
    · obtain ⟨r, e, hclose, hr, hbook⟩ := hcloses act hact
      exact ⟨r, e, hclose, hr, Or.inr hbook⟩
    · obtain ⟨q, hq, hclose⟩ := hcloses' act hact
      obtain ⟨e, hr, hstop⟩ := (h.stops q).mp hq
      exact ⟨q, e, hclose, hr, Or.inl hstop⟩
  refine ⟨_, look', ⟨hboth.evolves, ⟨hboth.tracked, hboth.evolves.placed h.placed, ?_,
    h.nodup.sublist hsub⟩, hboth.nextRef, hboth.times⟩, hall, ?_⟩
  · intro r
    by_cases hr : r ∈ m.pendingStops
    · exact (hleft r hr).1
    · refine iff_of_false (fun hmem => hr (hsub.subset hmem)) ?_
      rw [hstopped.evolves.untouched (r := r), hstops r, ← h.stops r]
      · exact hr
      · intro act hact heq
        obtain ⟨q, hq, rfl⟩ := hcloses' act hact
        exact hr (heq ▸ hq)
  · intro r e hr hat
    have hopen : e.place ≠ .gone := by
      rcases hat with hp | hp <;> rw [hp] <;> exact fun hf => by cases hf
    have hbefore := hboth.evolves.closes_kept
      (fun act hact => (hall act hact).imp fun _ ⟨_, h⟩ => ⟨_, h.1⟩) hr hopen
    have hmid := hstopped.evolves.closes_kept
      (fun act hact => (hcloses' act hact).imp fun _ h => ⟨_, h.2⟩) hr hopen
    rcases hat with hstop | hbook
    · exact (hleft r ((h.stops r).mpr ⟨e, hbefore, hstop⟩)).2 e hr hstop
    · have hindexed := h.book.sim.indexed r e hbefore hbook
      exact hlive _ (Dict.get?_eq_some_iff.mp hindexed) e hmid hbook

end MatchingEngine

end QuantumSentinel.Exchange
