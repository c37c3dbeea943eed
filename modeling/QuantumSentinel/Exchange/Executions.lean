import QuantumSentinel.Exchange.Engine
import QuantumSentinel.Exchange.Sweeps

/-!
# Paper exchange: executions move the entries of the desk

What the engine does to one order at a time is a move of its entry, and the fill events report
the executions of the move, one for one.

Main results:

- Theorem `Desk.Moves.placed`: a move leaves the status of an entry right for its place.
- Theorem `OrderBook.executeMarketOrder_moves` and
  `OrderBook.executeLimitOrder_moves`: an order that executes is one move.
-/

namespace QuantumSentinel.Exchange

open Lib

variable {F : String → Prop}

/-! ## Reports -/

/-- The execution that a fill event reports. -/
def ExchangeEvent.execution? (event : ExchangeEvent) : Option Execution :=
  match event.eventType.isFill, event.details with
  | true, .fill details =>
    some
      { orderId := event.orderId.getD ""
        side := details.side
        price := details.fillPrice
        quantity := details.fillQuantity
        completes := event.eventType = .orderFilled }
  | _, _ => none

/-- The executions that events report. -/
def reported (events : List ExchangeEvent) : List Execution :=
  events.filterMap ExchangeEvent.execution?

@[simp]
theorem reported_nil : reported [] = [] :=
  rfl

@[simp]
theorem reported_append (events events' : List ExchangeEvent) :
    reported (events ++ events') = reported events ++ reported events' :=
  List.filterMap_append ..

theorem reported_concat (events : List ExchangeEvent) (event : ExchangeEvent) :
    reported (events ++ [event]) = reported events ++ event.execution?.toList := by
  rw [reported_append, reported, reported, List.filterMap_cons]
  cases event.execution? <;> rfl

/-- An event of an order that is no fill reports nothing. -/
@[simp]
theorem reported_cons_orderEvent (now : ℚ) (eventType : ExchangeEventType) (o : Order)
    (details : EventDetails) (events : List ExchangeEvent) (h : eventType.isFill = false) :
    reported (orderEvent now eventType o details :: events) = reported events := by
  have hnone : (orderEvent now eventType o details).execution? = none := by
    simp only [ExchangeEvent.execution?, orderEvent, h]
  exact List.filterMap_cons_none hnone

/-- A fill event reports the execution that led to the order it is made of. -/
@[simp]
theorem reported_cons_fillEvent (o : Order) (price quantity now : ℚ) (aggressor : Bool)
    (events : List ExchangeEvent) :
    reported (fillEvent o price quantity now aggressor :: events) =
      o.ticket.execution ⟨price, quantity⟩ :: reported events := by
  have hsome : (fillEvent o price quantity now aggressor).execution? =
      some (o.ticket.execution ⟨price, quantity⟩) := by
    by_cases hfilled : o.status = .filled
    · simp [ExchangeEvent.execution?, fillEvent, orderEvent, hfilled, ExchangeEventType.isFill,
        Ticket.execution, Order.ticket]
    · simp [ExchangeEvent.execution?, fillEvent, orderEvent, hfilled, ExchangeEventType.isFill,
        Ticket.execution, Order.ticket]
  exact List.filterMap_cons_some hsome

/-! ## Moves -/

/-- The place where an execution ends is not in the air, nor among the stops. -/
theorem ended_place (e : Entry) (t : Ticket) (ending : Ending) :
    (e.ended t ending).place ≠ .flying ∧ (e.ended t ending).place ≠ .stop := by
  cases ending with
  | done => exact ⟨fun h => (by cases h), fun h => (by cases h)⟩
  | closed => exact ⟨fun h => (by cases h), fun h => (by cases h)⟩
  | rests => exact ⟨fun h => (by cases h), fun h => (by cases h)⟩

/-- No move puts an order in flight. -/
theorem Desk.Moves.not_flying {config : ExchangeConfig} {e e' : Entry} {act : Act}
    {fills : List Execution} (h : Desk.Moves config e act e' fills) : e'.place ≠ .flying := by
  cases h with
  | close => exact fun hf => by cases hf
  | park => exact fun hf => by cases hf
  | execute => exact (ended_place e _ _).1
  | passive =>
    unfold Entry.hit
    dsimp only
    split <;> exact fun hf => by cases hf

/-- An order that is nowhere does not move. -/
theorem Desk.Moves.not_gone {config : ExchangeConfig} {e e' : Entry} {act : Act}
    {fills : List Execution} (h : Desk.Moves config e act e' fills) : e.place ≠ .gone := by
  intro hgone
  cases h with
  | close hplace => exact hplace hgone
  | park hplace =>
    rw [hgone] at hplace
    cases hplace
  | execute hstart =>
    rcases hstart with ⟨hplace, -⟩ | hplace <;> rw [hgone] at hplace <;> cases hplace
  | passive hplace =>
    rw [hgone] at hplace
    cases hplace

/-- Two tickets of one order: its type may change, its other terms do not. -/
structure SameOrder (t t' : Ticket) : Prop where
  orderId : t'.orderId = t.orderId
  side : t'.side = t.side
  quantity : t'.quantity = t.quantity
  limitPrice : t'.limitPrice = t.limitPrice
  stopPrice : t'.stopPrice = t.stopPrice
  expiresAt : t'.expiresAt = t.expiresAt
  activeAt : t'.activeAt = t.activeAt

theorem SameOrder.refl (t : Ticket) : SameOrder t t :=
  ⟨rfl, rfl, rfl, rfl, rfl, rfl, rfl⟩

theorem SameOrder.trans {t t' t'' : Ticket} (h : SameOrder t t') (h' : SameOrder t' t'') :
    SameOrder t t'' :=
  ⟨h'.orderId.trans h.orderId, h'.side.trans h.side, h'.quantity.trans h.quantity,
    h'.limitPrice.trans h.limitPrice, h'.stopPrice.trans h.stopPrice,
    h'.expiresAt.trans h.expiresAt, h'.activeAt.trans h.activeAt⟩

/-- A move keeps the terms of the order. -/
theorem Desk.Moves.terms {config : ExchangeConfig} {e e' : Entry} {act : Act}
    {fills : List Execution} (h : Desk.Moves config e act e' fills) :
    SameOrder e.ticket e'.ticket := by
  cases h with
  | close => exact ⟨rfl, rfl, rfl, rfl, rfl, rfl, rfl⟩
  | park => exact ⟨rfl, rfl, rfl, rfl, rfl, rfl, rfl⟩
  | @execute _ _ hits ending =>
    have hfilled := sameTerms_fillAll e.ticket.started hits
    have hsame : SameOrder e.ticket (e.ticket.started.fillAll hits) :=
      ⟨hfilled.orderId, hfilled.side, hfilled.quantity, hfilled.limitPrice, hfilled.stopPrice,
        hfilled.expiresAt, hfilled.activeAt⟩
    cases ending with
    | done => exact hsame
    | closed => exact hsame.trans ⟨rfl, rfl, rfl, rfl, rfl, rfl, rfl⟩
    | rests => exact hsame.trans ⟨rfl, rfl, rfl, rfl, rfl, rfl, rfl⟩
  | passive => exact ⟨rfl, rfl, rfl, rfl, rfl, rfl, rfl⟩

/-- Moves of entries, one after another, and the executions they bring. -/
inductive Evolves (config : ExchangeConfig) : Look → List Act → List Execution → Look → Prop
  | nil (look : Look) : Evolves config look [] [] look
  | move {look look' : Look} {act : Act} {acts : List Act} {e e' : Entry}
      {fills later : List Execution} (hentry : look act.ref = some e)
      (hmoves : Desk.Moves config e act e' fills)
      (rest : Evolves config (Function.update look act.ref (some e')) acts later look') :
      Evolves config look (act :: acts) (fills ++ later) look'

namespace Evolves

variable {config : ExchangeConfig} {look look' look'' : Look} {acts acts' : List Act}
  {fills fills' : List Execution}

theorem append (h : Evolves config look acts fills look')
    (h' : Evolves config look' acts' fills' look'') :
    Evolves config look (acts ++ acts') (fills ++ fills') look'' := by
  induction h with
  | nil => exact h'
  | move hentry hmoves _ ih =>
    rw [List.append_assoc]
    exact move hentry hmoves (ih h')

/-- One move. -/
theorem single (config : ExchangeConfig) (act : Act) {e e' : Entry} (hentry : look act.ref = some e)
    (hmoves : Desk.Moves config e act e' fills) :
    Evolves config look [act] fills (Function.update look act.ref (some e')) := by
  have h := move hentry hmoves (nil _)
  rwa [List.append_nil] at h

/-- Closing orders brings no executions. -/
theorem closes (h : Evolves config look acts fills look')
    (hacts : ∀ act ∈ acts, ∃ r status, act = .close r status) : fills = [] := by
  induction h with
  | nil => rfl
  | move _ hmoves _ ih =>
    obtain ⟨r, status, rfl⟩ := hacts _ (List.mem_cons_self ..)
    rw [ih fun act hact => hacts act (List.mem_cons_of_mem _ hact)]
    cases hmoves with
    | close => rfl

/-- Whoever is somewhere after orders were closed was not one of them. -/
theorem closes_kept (h : Evolves config look acts fills look')
    (hacts : ∀ act ∈ acts, ∃ r status, act = .close r status) {r : Ref} {e : Entry}
    (hr : look' r = some e) (hplace : e.place ≠ .gone) : look r = some e := by
  induction h with
  | nil => exact hr
  | move _ hmoves _ ih =>
    obtain ⟨q, status, rfl⟩ := hacts _ (List.mem_cons_self ..)
    have hmid := ih (fun act hact => hacts act (List.mem_cons_of_mem _ hact)) hr
    cases hmoves with
    | close =>
      rcases look_update hmid with ⟨-, rfl⟩ | ⟨-, hold⟩
      · exact absurd rfl hplace
      · exact hold

/-- An entry no action is about stays as it is. -/
theorem untouched (h : Evolves config look acts fills look') {r : Ref}
    (hr : ∀ act ∈ acts, act.ref ≠ r) : look' r = look r := by
  induction h with
  | nil => rfl
  | move _ _ _ ih =>
    rw [ih fun act hact => hr act (List.mem_cons_of_mem _ hact)]
    exact Function.update_of_ne (hr _ (List.mem_cons_self ..)).symm ..

/-- The terms of an order are those it had. -/
theorem terms (h : Evolves config look acts fills look') {r : Ref} {e' : Entry}
    (hr : look' r = some e') : ∃ e, look r = some e ∧ SameOrder e.ticket e'.ticket := by
  induction h with
  | nil => exact ⟨e', hr, SameOrder.refl _⟩
  | @move _ _ act _ e₁ _ _ _ hentry hmoves _ ih =>
    obtain ⟨e, he, hsame⟩ := ih hr
    rcases look_update he with ⟨rfl, rfl⟩ | ⟨-, hold⟩
    · exact ⟨e₁, hentry, hmoves.terms.trans hsame⟩
    · exact ⟨e, hold, hsame⟩

/-- Moves put no order in flight. -/
theorem flying_kept (h : Evolves config look acts fills look') {r : Ref} {e : Entry}
    (hr : look' r = some e) (hplace : e.place = .flying) : look r = some e := by
  induction h with
  | nil => exact hr
  | move _ hmoves _ ih =>
    rcases look_update (ih hr) with ⟨-, rfl⟩ | ⟨-, hold⟩
    · exact absurd hplace hmoves.not_flying
    · exact hold

end Evolves

/-! ## Places and statuses -/

/-- The status of an entry suits its place. -/
def Entry.Placed (e : Entry) : Prop :=
  match e.place with
  | .flying => e.ticket.status = .submitted ∧ e.ticket.filled = 0
  | .stop => e.ticket.status = .accepted ∧ e.ticket.filled = 0 ∧
      (e.ticket.orderType = .stop ∨
        (e.ticket.orderType = .stopLimit ∧ e.ticket.limitPrice.isSome = true))
  | .book => e.ticket.orderType = .limit ∧ eps < e.ticket.remaining ∧
      (e.ticket.status = .queued ∨ e.ticket.status = .partiallyFilled)
  | .gone => e.ticket.status.isTerminal = true ∨
      (e.ticket.status = .accepted ∧ e.ticket.filled = 0 ∧ e.ticket.orderType = .limit ∧
        e.ticket.quantity ≤ eps)

/-- The order waits for a trigger or rests. -/
def Entry.AtEngine (e : Entry) : Prop :=
  e.place = .stop ∨ e.place = .book

theorem Entry.AtEngine.not_flying {e : Entry} (h : e.AtEngine) : e.place ≠ .flying := by
  rcases h with hp | hp <;> rw [hp] <;> exact fun hf => by cases hf

/-- All entries are placed. -/
def AllPlaced (look : Look) : Prop :=
  ∀ r e, look r = some e → e.Placed

namespace Desk

variable {config : ExchangeConfig} {e e' : Entry} {act : Act} {fills : List Execution}

/-- An entry that can start has not filled. -/
theorem Startable.unfilled (hstart : Startable e) (he : e.Placed) : e.ticket.filled = 0 := by
  rcases hstart with ⟨hplace, -⟩ | hplace
  · rw [Entry.Placed, hplace] at he
    exact he.2
  · rw [Entry.Placed, hplace] at he
    exact he.2.1

/-- Every move leaves the entry placed. -/
theorem Moves.placed (h : Moves config e act e' fills) (he : e.Placed) : e'.Placed := by
  cases h with
  | close hplace hstatus =>
    refine Or.inl ?_
    rcases hstatus with rfl | rfl | rfl <;> rfl
  | park hplace hquantity htype =>
    rw [Entry.Placed, hplace] at he
    exact ⟨rfl, he.2, htype⟩
  | @execute r attempt hits ending hstart hticket hcommitted hfits hlimit hend =>
    have hfilled := hstart.unfilled he
    cases ending with
    | done =>
      rcases List.eq_nil_or_concat hits with rfl | ⟨front, last, hhits⟩
      · have hsmall : e.ticket.quantity - e.ticket.filled ≤ eps := hend.1
        rw [hfilled, sub_zero] at hsmall
        exact Or.inr ⟨rfl, hfilled, hend.2 rfl, hsmall⟩
      · have hne : hits ≠ [] := by rw [hhits]; simp
        have hstatus : (e.ticket.started.fillAll hits).status = .filled := by
          have hsmall := hend.1
          rw [Ticket.remaining, (sameTerms_fillAll _ _).quantity] at hsmall
          rw [status_fillAll hne, Order.statusAfterFill, if_pos hsmall]
        refine Or.inl ?_
        show (e.ticket.started.fillAll hits).status.isTerminal = true
        rw [hstatus]
        rfl
    | closed status =>
      refine Or.inl ?_
      rcases hend.1 with rfl | ⟨rfl, -⟩ <;> rfl
    | rests =>
      refine ⟨hend.2.1, hend.1, ?_⟩
      by_cases hnone : (e.ticket.started.fillAll hits).filled ≤ 0
      · exact Or.inl (if_pos hnone)
      · refine Or.inr ?_
        have hne : hits ≠ [] := by
          rintro rfl
          exact hnone (le_of_eq hfilled)
        have hrested : (e.ticket.started.fillAll hits).rested.status =
            (e.ticket.started.fillAll hits).status := if_neg hnone
        have hleft := hend.1
        rw [Ticket.remaining, (sameTerms_fillAll _ _).quantity] at hleft
        show (e.ticket.started.fillAll hits).rested.status = .partiallyFilled
        rw [hrested, status_fillAll hne, Order.statusAfterFill, if_neg (not_le.mpr hleft)]
  | @passive r hit hplace hfits hlimit =>
    by_cases hdone : (e.ticket.fill hit).remaining ≤ eps
    · have hgone : (e.hit hit).place = .gone := if_pos hdone
      rw [Entry.Placed, hgone]
      have hstatus : (e.hit hit).ticket.status = .filled := if_pos hdone
      rw [hstatus]
      exact Or.inl rfl
    · have hstays : (e.hit hit).place = .book := if_neg hdone
      rw [Entry.Placed, hplace] at he
      rw [Entry.Placed, hstays]
      exact ⟨he.1, not_le.mp hdone, Or.inr (if_neg hdone)⟩

end Desk

/-- Moves leave all entries placed. -/
theorem Evolves.placed {config : ExchangeConfig} {look look' : Look} {acts : List Act}
    {fills : List Execution} (h : Evolves config look acts fills look') (hplaced : AllPlaced look) :
    AllPlaced look' := by
  induction h with
  | nil => exact hplaced
  | move hentry hmoves _ ih =>
    refine ih fun r e hlook => ?_
    rcases look_update hlook with ⟨-, rfl⟩ | ⟨-, hold⟩
    · exact hmoves.placed (hplaced _ _ hentry)
    · exact hplaced r e hold

/-! ## Books and entries -/

/-- A book as it should be, and the entries of its paper orders. -/
structure Tracked (F : String → Prop) (config : ExchangeConfig) (b : OrderBook) (look : Look) :
    Prop where
  ok : b.Ok
  sim : PaperSim F b look
  grid : b.grid = config.grid

/-- An operation that returns a book and events moves the entries. -/
structure Carried (F : String → Prop) (config : ExchangeConfig) (b : OrderBook) (look : Look)
    (now : ℚ) (result : OrderBook × List ExchangeEvent) (acts : List Act) (look' : Look) : Prop where
  evolves : Evolves config look acts (reported result.2) look'
  tracked : Tracked F config result.1 look'
  nextRef : b.nextRef ≤ result.1.nextRef
  times : ∀ event ∈ result.2, event.timestamp = now

/-- An entry that starts to execute. -/
def Entry.start (e : Entry) : Entry :=
  { e with ticket := e.ticket.started }

namespace Tracked

variable {config : ExchangeConfig} {b b' : OrderBook} {look : Look} {r : Ref} {e g : Entry}
  {f : Order → Order}

/-- Changes of feed orders change no entry. -/
theorem frame (h : Tracked F config b look) (hok : b'.Ok) (hgrid : b'.grid = b.grid)
    (hframe : PaperFrame F b b') : Tracked F config b' look :=
  ⟨hok, h.sim.frame hframe, hgrid.trans h.grid⟩

theorem unlisted (h : Tracked F config b look) (hr : look r = some e) (hplace : e.place ≠ .book) :
    b.Unlisted r := by
  intro s t level hlevel hmem
  refine h.sim.not_rests h.ok hr hplace ⟨s, t, ?_⟩
  rwa [OrderBook.queue_of_level hlevel]

/-- An order that never rested changes and stays out of the book. -/
theorem modify (h : Tracked F config b look) (hr : look r = some e)
    (hplace : e.place = .flying ∨ e.place = .stop) (howner : ∀ o, (f o).owner = o.owner)
    (hid : ∀ o, (f o).orderId = o.orderId) (hticket : g.ticket = (f (b.heap r)).ticket)
    (hplace' : g.place ≠ .book) :
    Tracked F config (b.modify r f) (Function.update look r (some g)) where
  ok := by
    have hnot : e.place ≠ .book := by
      rcases hplace with hp | hp <;> rw [hp] <;> exact fun hf => by cases hf
    refine h.ok.congr (fun s => by cases s <;> rfl) rfl le_rfl fun s t level hlevel q hq => ?_
    refine OrderBook.heap_modify_ne f ?_
    rintro rfl
    exact h.unlisted hr hnot s t level hlevel hq
  sim := h.sim.modify h.ok hr hplace howner hid hticket hplace'
  grid := h.grid

/-- An order outside the book becomes inactive. -/
theorem retire (h : Tracked F config b look) (hr : look r = some e) (hplace : e.place ≠ .book)
    (howner : ∀ o, (f o).owner = o.owner) (hid : ∀ o, (f o).orderId = o.orderId)
    (hinactive : (f (b.heap r)).isActive = false) (hticket : g.ticket = (f (b.heap r)).ticket)
    (hgone : g.place = .gone) :
    Tracked F config (b.modify r f) (Function.update look r (some g)) where
  ok := by
    refine h.ok.congr (fun s => by cases s <;> rfl) rfl le_rfl fun s t level hlevel q hq => ?_
    refine OrderBook.heap_modify_ne f ?_
    rintro rfl
    exact h.unlisted hr hplace s t level hlevel hq
  sim := h.sim.retire hr howner hid hinactive hticket hgone
  grid := h.grid

/-- Only the place of an order that never rested changes. -/
theorem relabel (h : Tracked F config b look) (hr : look r = some e)
    (hplace : e.place = .flying ∨ e.place = .stop) (hticket : g.ticket = e.ticket)
    (hplace' : g.place ≠ .book) : Tracked F config b (Function.update look r (some g)) :=
  ⟨h.ok, h.sim.relabel h.ok hr hplace hticket hplace', h.grid⟩

end Tracked

namespace Carried

variable {config : ExchangeConfig} {b b' : OrderBook} {look look' look'' : Look} {now : ℚ}
  {events events' : List ExchangeEvent} {acts acts' : List Act}
  {result : OrderBook × List ExchangeEvent}

/-- Nothing moves. -/
theorem refl (h : Tracked F config b look) (now : ℚ) :
    Carried F config b look now (b, []) [] look :=
  ⟨Evolves.nil look, h, le_rfl, fun event hevent => by cases hevent⟩

theorem append (h : Carried F config b look now (b', events) acts look')
    (h' : Carried F config b' look' now result acts' look'') :
    Carried F config b look now (result.1, events ++ result.2) (acts ++ acts') look'' where
  evolves := by
    rw [reported_append]
    exact h.evolves.append h'.evolves
  tracked := h'.tracked
  nextRef := h.nextRef.trans h'.nextRef
  times event hevent := (List.mem_append.mp hevent).elim (h.times event) (h'.times event)

/-- An event that is no fill comes first. -/
theorem cons (h : Carried F config b look now result acts look') (eventType : ExchangeEventType)
    (o : Order) (details : EventDetails) (hfill : eventType.isFill = false) :
    Carried F config b look now (result.1, orderEvent now eventType o details :: result.2) acts
      look' where
  evolves := by
    rw [reported_cons_orderEvent _ _ _ _ _ hfill]
    exact h.evolves
  tracked := h.tracked
  nextRef := h.nextRef
  times event hevent := by
    rcases List.mem_cons.mp hevent with rfl | hlater
    · rfl
    · exact h.times event hlater

/-- The operation starts on another book. -/
theorem of_nextRef (h : Carried F config b look now result acts look')
    (hnext : b'.nextRef ≤ b.nextRef) : Carried F config b' look now result acts look' :=
  ⟨h.evolves, h.tracked, hnext.trans h.nextRef, h.times⟩

end Carried

/-! ## Executions -/

namespace OrderBook

variable {config : ExchangeConfig} {b : OrderBook} {look : Look} {r : Ref} {e : Entry}

/-- The loop over the fills of an aggressor fills its ticket. -/
theorem recordFills_tracked (h : Tracked F config b look) (hr : look r = some e)
    (hplace : e.place = .flying ∨ e.place = .stop) (now : ℚ) (fills : List Fill) :
    Tracked F config (recordFills r now fills b).1 (Function.update look r
        (some { e with ticket := e.ticket.fillAll (fills.map Fill.hit) })) ∧
      (recordFills r now fills b).1.nextRef = b.nextRef ∧
      reported (recordFills r now fills b).2 = e.ticket.executions (fills.map Fill.hit) ∧
      ∀ event ∈ (recordFills r now fills b).2, event.timestamp = now := by
  induction fills generalizing b look e with
  | nil =>
    refine ⟨?_, rfl, rfl, fun event hevent => by cases hevent⟩
    exact h.relabel hr hplace rfl fun hbook => by
      rcases hplace with hp | hp <;> rw [hp] at hbook <;> cases hbook
  | cons fill rest ih =>
    have hticket : (e.ticket.fill fill.hit) =
        ((b.heap r).recordFill fill.fillPrice fill.fillQuantity now).ticket := by
      rw [h.sim.ticket r e hr]
      rfl
    have hfilled := h.modify (f := Order.recordFill fill.fillPrice fill.fillQuantity now)
      (g := { e with ticket := e.ticket.fill fill.hit }) hr hplace (fun _ => rfl)
      (fun _ => rfl) hticket fun hbook => by
        rcases hplace with hp | hp <;> rw [hp] at hbook <;> cases hbook
    rcases ih hfilled (Function.update_self ..) hplace with ⟨hsim, hnext, hreports, htimes⟩
    rw [Function.update_idem] at hsim
    refine ⟨hsim, hnext, ?_, ?_⟩
    · simp only [recordFills, reported_cons_fillEvent]
      rw [hreports, heap_modify_self, ← hticket]
      rfl
    · intro event hevent
      rcases List.mem_cons.mp hevent with rfl | hlater
      · rfl
      · exact htimes event hlater

/-- A sweep of an aggressor fills its ticket, within its limit. -/
theorem take_tracked (h : Tracked F config b look) (hr : look r = some e)
    (hplace : e.place = .flying ∨ e.place = .stop) (now : ℚ) (limitPrice : Option ℚ) :
    ∃ hits, Fits e.ticket.remaining hits ∧
      (∀ hit ∈ hits, ∃ t, hit.price = config.grid.fromTicks t ∧
        b.beyondLimit e.ticket.side limitPrice t = false) ∧
      Tracked F config (b.take r now limitPrice).1
        (Function.update look r (some { e with ticket := e.ticket.fillAll hits })) ∧
      (b.take r now limitPrice).1.nextRef = b.nextRef ∧
      reported (b.take r now limitPrice).2 = e.ticket.executions hits ∧
      ∀ event ∈ (b.take r now limitPrice).2, event.timestamp = now := by
  have hticket := h.sim.ticket r e hr
  have hside : (b.heap r).side = e.ticket.side := (congrArg Ticket.side hticket).symm
  have hsize : (b.heap r).remainingQuantity = e.ticket.remaining := by
    rw [hticket]
    rfl
  have htake : b.take r now limitPrice = recordFills r now
      (b.consumeLiquidity e.ticket.side e.ticket.remaining now limitPrice true).2
      (b.consumeLiquidity e.ticket.side e.ticket.remaining now limitPrice true).1 := by
    rw [← hside, ← hsize]
    rfl
  have hfixed := consumeLiquidity_fixed (b := b) e.ticket.side e.ticket.remaining now limitPrice
    true
  have htaken := h.frame (consumeLiquidity_ok h.ok e.ticket.side e.ticket.remaining now limitPrice
    true) hfixed.1 (h.sim.consumeLiquidity h.ok e.ticket.side e.ticket.remaining now limitPrice)
  have hrecorded := recordFills_tracked htaken hr hplace now
    (b.consumeLiquidity e.ticket.side e.ticket.remaining now limitPrice true).2
  have hfits := consumeLiquidity_take h.ok e.ticket.side e.ticket.remaining now limitPrice
  rw [htake]
  refine ⟨_, hfits.1, ?_, hrecorded.1, hrecorded.2.1.trans hfixed.2, hrecorded.2.2⟩
  intro hit hhit
  obtain ⟨f, hf, rfl⟩ := List.mem_map.mp hhit
  obtain ⟨t, hprice, hbeyond⟩ := hfits.2 f hf
  exact ⟨t, h.grid ▸ hprice, hbeyond⟩

/-- An operation of the engine is one execution of an order as aggressor. -/
def Executes (F : String → Prop) (config : ExchangeConfig) (b : OrderBook) (look : Look) (now : ℚ)
    (result : OrderBook × List ExchangeEvent) (r : Ref) (e : Entry) : Prop :=
  ∃ attempt hits ending, Carried F config b look now result [.execute r attempt hits ending]
    (Function.update look r (some (e.ended (e.ticket.started.fillAll hits) ending)))

theorem executes_of {now : ℚ} {result : OrderBook × List ExchangeEvent} {hits : List Hit}
    (ending : Ending) (hr : look r = some e) (hstart : Desk.Startable e)
    (hfits : Fits e.ticket.remaining hits)
    (hlimit : e.ticket.orderType.executed = .limit →
      ∀ hit ∈ hits, Desk.WithinLimit config e.ticket hit)
    (hend : (e.ticket.started.fillAll hits).mayEnd hits ending)
    (htracked : Tracked F config result.1
      (Function.update look r (some (e.ended (e.ticket.started.fillAll hits) ending))))
    (hnext : result.1.nextRef = b.nextRef)
    (hreports : reported result.2 = e.ticket.started.executions hits)
    (htimes : ∀ event ∈ result.2, event.timestamp = now) :
    Executes F config b look now result r e := by
  refine ⟨⟨e.ticket, b.estimateMarketBuyCost e.ticket.remaining, e.commitment⟩, hits, ending, ?_⟩
  refine ⟨?_, htracked, hnext.ge, htimes⟩
  rw [hreports]
  exact Evolves.single config _ hr (Desk.Moves.execute hstart rfl rfl hfits hlimit hend)

theorem startable_place (hstart : Desk.Startable e) : e.place = .flying ∨ e.place = .stop :=
  hstart.imp_left fun h => h.1

/-- What a started ticket has filled after a sweep. -/
theorem filled_started (hstart : Desk.Startable e) (hplaced : e.Placed) (hits : List Hit) :
    (e.ticket.started.fillAll hits).filled = hitSize hits := by
  have hzero : e.ticket.started.filled = 0 := hstart.unfilled hplaced
  rw [filled_fillAll, hzero, zero_add]

/-- A market order executes as far as it can. -/
theorem executeMarketOrder_moves (hr : look r = some e) (hplaced : e.Placed)
    (hstart : Desk.Startable e) (htype : e.ticket.orderType.executed = .market)
    (h : Tracked F config b (Function.update look r (some e.start))) (now : ℚ) :
    Executes F config b look now (b.executeMarketOrder r now) r e := by
  have hplace : e.place = .flying ∨ e.place = .stop := startable_place hstart
  have hself : Function.update look r (some e.start) r = some e.start := Function.update_self ..
  obtain ⟨hits, hfits, -, htaken, hnext, hreports, htimes⟩ :=
    take_tracked h hself hplace now none
  rw [Function.update_idem] at htaken
  have hticket : ((b.take r now none).1.heap r).ticket = e.ticket.started.fillAll hits :=
    (htaken.sim.ticket r _ (Function.update_self ..)).symm
  have hfilled : ((b.take r now none).1.heap r).filledQuantity = hitSize hits :=
    (congrArg Ticket.filled hticket).trans (filled_started hstart hplaced hits)
  have hremaining : ((b.take r now none).1.heap r).remainingQuantity =
      (e.ticket.started.fillAll hits).remaining := congrArg Ticket.remaining hticket
  have hclosed : ∀ status, Tracked F config ((b.take r now none).1.modify r (withStatus status))
      (Function.update look r (some (e.ended (e.ticket.started.fillAll hits) (.closed status)))) := by
    intro status
    have hmodified := htaken.modify (f := withStatus status)
      (g := e.ended (e.ticket.started.fillAll hits) (.closed status))
      (Function.update_self ..) hplace (fun _ => rfl) (fun _ => rfl)
      (by rw [← hticket]; rfl) (fun hbook => by cases hbook)
    rwa [Function.update_idem] at hmodified
  have hmarket : ¬e.ticket.orderType.executed = .limit := by
    rw [htype]
    exact fun hf => by cases hf
  unfold executeMarketOrder
  dsimp only
  split
  · -- nothing was taken
    rename_i hnone
    have hempty : hits = [] := by
      by_contra hne
      rw [hfilled] at hnone
      exact absurd (hfits.eps_lt_size hne) (not_lt.mpr hnone)
    refine executes_of (.closed .rejected) hr hstart hfits
      (fun hf => absurd hf hmarket) ⟨Or.inr ⟨rfl, hempty⟩, Or.inr ⟨hempty, rfl⟩⟩
      (hclosed .rejected) hnext ?_ ?_
    · rw [reported_append, hreports]
      exact List.append_nil _
    · intro event hevent
      rcases List.mem_append.mp hevent with htaker | hlast
      · exact htimes event htaker
      · rw [List.mem_singleton.mp hlast]
        rfl
  · rename_i hsome
    have hne : hits ≠ [] := by
      rintro rfl
      rw [hfilled] at hsome
      exact hsome eps_pos.le
    split
    · rename_i hleft
      refine executes_of (.closed .cancelled) hr hstart hfits
        (fun hf => absurd hf hmarket) ⟨Or.inl rfl, Or.inl (hremaining ▸ hleft)⟩
        (hclosed .cancelled) hnext ?_ ?_
      · rw [reported_append, hreports]
        exact List.append_nil _
      · intro event hevent
        rcases List.mem_append.mp hevent with htaker | hlast
        · exact htimes event htaker
        · rw [List.mem_singleton.mp hlast]
          rfl
    · rename_i hdone
      rw [hremaining, not_lt] at hdone
      refine executes_of .done hr hstart hfits (fun hf => absurd hf hmarket)
        ⟨hdone, fun hf => absurd hf hne⟩ ?_ hnext hreports htimes
      have hrelabelled := htaken.relabel
        (g := e.ended (e.ticket.started.fillAll hits) .done)
        (Function.update_self ..) hplace rfl (fun hbook => by cases hbook)
      rwa [Function.update_idem] at hrelabelled

/-- A level that is not beyond the limit has a price within the tick of the limit. -/
theorem withinLimit_of_beyond (hgrid : b.grid = config.grid) {ticket : Ticket} {hit : Hit} {t : ℤ}
    (hprice : hit.price = config.grid.fromTicks t)
    (hbeyond : b.beyondLimit ticket.side ticket.limitPrice t = false) :
    Desk.WithinLimit config ticket hit := by
  intro limit hlimit
  rw [Option.mem_def] at hlimit
  simp only [beyondLimit, hlimit, hgrid] at hbeyond
  cases hside : ticket.side with
  | buy =>
    simp only [hside, worseThan, decide_eq_false_iff_not, not_lt] at hbeyond
    simp only [hprice]
    exact config.grid.fromTicks_le_iff.mpr hbeyond
  | sell =>
    simp only [hside, worseThan, decide_eq_false_iff_not, not_lt] at hbeyond
    simp only [hprice]
    exact config.grid.fromTicks_le_iff.mpr hbeyond

/-- An order that starts as a limit order has a limit. -/
theorem limit_of_startable (hplaced : e.Placed) (hstart : Desk.Startable e)
    (htype : e.ticket.orderType.executed = .limit) : e.ticket.limitPrice.isSome = true := by
  rcases hstart with ⟨-, -, hmarket | hlimit⟩ | hplace
  · rw [hmarket] at htype
    cases htype
  · exact hlimit.2
  · rw [Entry.Placed, hplace] at hplaced
    rcases hplaced.2.2 with hstop | hlimit
    · rw [hstop] at htype
      cases htype
    · exact hlimit.2

/-- What a started order has left over may rest. -/
theorem restable_of_started {hits : List Hit} (hfits : Fits e.ticket.remaining hits)
    (hzero : e.ticket.filled = 0) {o : Order} (hticket : o.ticket = e.ticket.started.fillAll hits)
    (hleft : eps < o.remainingQuantity) : Restable o := by
  have hfilled : o.filledQuantity = hitSize hits := by
    have hsum := congrArg Ticket.filled hticket
    rw [filled_fillAll] at hsum
    refine hsum.trans ?_
    rw [Ticket.started, hzero, zero_add]
  refine ⟨hleft, hfilled ▸ hfits.size_nonneg, fun hpos => ?_⟩
  have hne : hits ≠ [] := by
    rintro rfl
    rw [hfilled] at hpos
    exact lt_irrefl _ hpos
  have hstatus : o.status = .partiallyFilled := by
    have hsame : o.status = (e.ticket.started.fillAll hits).status :=
      congrArg Ticket.status hticket
    have hleft' : eps < (e.ticket.started.fillAll hits).remaining := hticket ▸ hleft
    rw [Ticket.remaining, (sameTerms_fillAll _ _).quantity] at hleft'
    rw [hsame, status_fillAll hne, Order.statusAfterFill, if_neg (not_le.mpr hleft')]
  rw [Order.isActive, hstatus]

/-- A limit order that has taken what it could ends, is cancelled, or rests. -/
theorem restRemainder_moves {now : ℚ} {taken : OrderBook} {events : List ExchangeEvent}
    {hits : List Hit} (hr : look r = some e) (hplaced : e.Placed) (hstart : Desk.Startable e)
    (htype : e.ticket.orderType.executed = .limit) (hfits : Fits e.ticket.remaining hits)
    (hlimit : ∀ hit ∈ hits, Desk.WithinLimit config e.ticket hit)
    (h : Tracked F config taken
      (Function.update look r (some { e with ticket := e.ticket.started.fillAll hits })))
    (hnext : taken.nextRef = b.nextRef)
    (hreports : reported events = e.ticket.started.executions hits)
    (htimes : ∀ event ∈ events, event.timestamp = now) :
    Executes F config b look now
      ((taken.restRemainder r now).1, events ++ (taken.restRemainder r now).2) r e := by
  have hplace : e.place = .flying ∨ e.place = .stop := startable_place hstart
  have hself : Function.update look r
      (some { e with ticket := e.ticket.started.fillAll hits }) r =
        some { e with ticket := e.ticket.started.fillAll hits } := Function.update_self ..
  have hticket : (taken.heap r).ticket = e.ticket.started.fillAll hits :=
    (h.sim.ticket r _ hself).symm
  have hremaining : (taken.heap r).remainingQuantity =
      (e.ticket.started.fillAll hits).remaining := congrArg Ticket.remaining hticket
  unfold restRemainder
  dsimp only
  split
  · rename_i hdone
    refine executes_of .done hr hstart hfits (fun _ => hlimit)
      ⟨hremaining ▸ hdone, fun _ => (sameTerms_fillAll _ _).orderType.trans htype⟩ ?_ hnext ?_ ?_
    · have hrelabelled := h.relabel (g := e.ended (e.ticket.started.fillAll hits) .done)
        hself hplace rfl (fun hbook => by cases hbook)
      rwa [Function.update_idem] at hrelabelled
    · rwa [List.append_nil]
    · rwa [List.append_nil]
  · rename_i hleft
    rw [not_le] at hleft
    split
    · refine executes_of (.closed .cancelled) hr hstart hfits (fun _ => hlimit)
        ⟨Or.inl rfl, Or.inl (hremaining ▸ hleft)⟩ ?_ hnext ?_ ?_
      · have hmodified := h.modify (f := withStatus .cancelled)
          (g := e.ended (e.ticket.started.fillAll hits) (.closed .cancelled)) hself hplace
          (fun _ => rfl) (fun _ => rfl) (by rw [← hticket]; rfl) (fun hbook => by cases hbook)
        rwa [Function.update_idem] at hmodified
      · rw [reported_append, hreports]
        exact List.append_nil _
      · intro event hevent
        rcases List.mem_append.mp hevent with htaker | hlast
        · exact htimes event htaker
        · rw [List.mem_singleton.mp hlast]
          rfl
    · have hsome := limit_of_startable hplaced hstart htype
      have hprice : (e.ticket.started.fillAll hits).limitPrice = e.ticket.limitPrice :=
        (sameTerms_fillAll _ _).limitPrice
      obtain ⟨limit, hl⟩ := Option.isSome_iff_exists.mp hsome
      have hheap : (taken.heap r).limitPrice = some limit :=
        (congrArg Ticket.limitPrice hticket).trans (hprice.trans hl)
      have hnot : e.place ≠ .book := by
        rcases hplace with hp | hp <;> rw [hp] <;> exact fun hf => by cases hf
      have hrestable := restable_of_started hfits (hstart.unfilled hplaced) hticket hleft
      refine executes_of .rests hr hstart hfits (fun _ => hlimit)
        ⟨hremaining ▸ hleft, (sameTerms_fillAll _ _).orderType.trans htype, by rw [hprice]; exact hsome⟩
        ⟨?_, ?_, ?_⟩ ?_ ?_ ?_
      · exact addOrder_ok h.ok (h.sim.known r _ hself) (h.unlisted hself hnot) hrestable now
      · have hrests := h.sim.rest (g := e.ended (e.ticket.started.fillAll hits) .rests) hself
          hheap hrestable now rfl rfl
        rwa [Function.update_idem] at hrests
      · exact (grid_addOrder r now).trans h.grid
      · exact (nextRef_addOrder r now).trans hnext
      · rw [reported_append, hreports]
        exact List.append_nil _
      · intro event hevent
        rcases List.mem_append.mp hevent with htaker | hlast
        · exact htimes event htaker
        · rw [List.mem_singleton.mp hlast]
          rfl

/-- A limit order takes what is within its limit, and its remainder rests or is cancelled. -/
theorem executeLimitOrder_moves (hr : look r = some e) (hplaced : e.Placed)
    (hstart : Desk.Startable e) (htype : e.ticket.orderType.executed = .limit)
    (h : Tracked F config b (Function.update look r (some e.start))) (now : ℚ) :
    Executes F config b look now (b.executeLimitOrder r now) r e := by
  have hplace : e.place = .flying ∨ e.place = .stop := startable_place hstart
  have hself : Function.update look r (some e.start) r = some e.start := Function.update_self ..
  have hticket : (b.heap r).ticket = e.ticket.started := (h.sim.ticket r _ hself).symm
  have hprice : (b.heap r).limitPrice = e.ticket.limitPrice := congrArg Ticket.limitPrice hticket
  unfold executeLimitOrder
  dsimp only
  split
  · have hnone : Fits e.ticket.remaining [] := trivial
    refine executes_of (.closed .rejected) hr hstart hnone
      (fun _ hit hhit => by cases hhit) ⟨Or.inr ⟨rfl, rfl⟩, Or.inr ⟨rfl, rfl⟩⟩ ?_ rfl rfl ?_
    · have hmodified := h.modify (f := withStatus .rejected)
        (g := e.ended (e.ticket.started.fillAll []) (.closed .rejected)) hself hplace
        (fun _ => rfl) (fun _ => rfl) (congrArg (Ticket.withStatus · .rejected) hticket.symm)
        (fun hbook => by cases hbook)
      rwa [Function.update_idem] at hmodified
    · intro event hevent
      rw [List.mem_singleton.mp hevent]
      rfl
  · split
    · obtain ⟨hits, hfits, hbeyond, htaken, hnext, hreports, htimes⟩ :=
        take_tracked h hself hplace now (b.heap r).limitPrice
      rw [Function.update_idem] at htaken
      refine restRemainder_moves hr hplaced hstart htype hfits ?_ htaken hnext hreports htimes
      intro hit hhit
      obtain ⟨t, hat, hwithin⟩ := hbeyond hit hhit
      rw [hprice] at hwithin
      exact withinLimit_of_beyond h.grid hat hwithin
    · have hnone : Fits e.ticket.remaining [] := trivial
      exact restRemainder_moves hr hplaced hstart htype hnone
        (fun hit hhit => by cases hhit) h rfl rfl (fun event hevent => by cases hevent)

end OrderBook

end QuantumSentinel.Exchange
