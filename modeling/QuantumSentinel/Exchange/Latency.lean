import Mathlib.Data.List.TakeWhile
import QuantumSentinel.Exchange.Expiry
import QuantumSentinel.Exchange.Confinement

/-!
# Paper exchange: latency

An order that is submitted reaches the engine when the clock reaches its arrival time, and not
before: until then it is not filled, rests nowhere and waits for no trigger.  Orders arrive in
the order in which they were submitted.  All this holds of every feed.

Main results:

- Theorem `PaperExchange.activate_causal`: the first order in flight is activated.
- Theorem `PaperExchange.advanceTo_causal`: the clock activates the orders whose time has
  come, and no others.
- Theorem `PaperExchange.latency_causality`: what holds in every run.
-/

namespace QuantumSentinel.Exchange

open Lib

/-- The activation that an event of the engine reports: its time and the id of the order. -/
def ExchangeEvent.activation? (event : ExchangeEvent) : Option (ℚ × String) :=
  if event.eventType = .orderSubmitted then some (event.timestamp, event.orderId.getD "") else none

namespace PaperExchange

variable {x y : PaperExchange} {flights flights' : List Flight} {released released' : List Ref}
  {r : Ref} {S : Ref → Prop}

/-- The orders that have reached the engine, in that order, with the times at which they did. -/
def activations (x : PaperExchange) : List (ℚ × String) :=
  x.engine.eventLog.filterMap ExchangeEvent.activation?

/-- The order has reached the engine. -/
def Activated (x : PaperExchange) (r : Ref) : Prop :=
  (x.order r).orderId ∈ x.activations.map Prod.snd

/-- The time of submission and the latency. -/
def dueAt (x : PaperExchange) (r : Ref) : ℚ :=
  (x.order r).submittedAt + x.config.latencyMs / 1000

/-! ## The invariant -/

/-- An order that has not reached the engine: it is in flight, was refused, or was cancelled in
flight. -/
structure Waiting (x : PaperExchange) (flights : List Flight) (r : Ref) : Prop where
  absent : ¬x.book.Present r
  unfilled : (x.order r).filledQuantity = 0
  flying : r ∈ flights.map Flight.order → (x.order r).status = .submitted
  settled : r ∉ flights.map Flight.order →
    (x.order r).status = .rejected ∨ (x.order r).status = .cancelled

/-- The orders in flight, those that were released, and all others. -/
structure Causal (x : PaperExchange) (flights : List Flight) (released : List Ref) : Prop where
  tidy : x.engine.Tidy
  ids : ∀ k r, x.orderHistory[k]? = some r → (x.order r).orderId = paperId (k + 1)
  counted : x.orderSeq = x.orderHistory.length
  ascending : x.orderHistory.Pairwise (· < ·)
  paper : ∀ r, (x.order r).owner = .paper ↔ r ∈ x.orderHistory
  /-- orders are released in the order of their submission -/
  fifo : (released ++ flights.map Flight.order).Sublist x.orderHistory
  sorted : ((released ++ flights.map Flight.order).map x.dueAt).Pairwise (· ≤ ·)
  arrivals : ∀ f ∈ flights, f.arrival = x.dueAt f.order ∧
    (x.order f.order).activeAt = some f.arrival
  ahead : ∀ f ∈ flights, f.arrival ≤ x.arrivalTime
  numbered : x.config.latencyMs ≠ 0 → ∀ f ∈ flights, f.seq < x.seq
  past : ∀ r ∈ released, x.dueAt r ≤ x.currentTime
  log : x.activations = released.map fun r => (x.dueAt r, (x.order r).orderId)
  stops : ∀ r ∈ x.engine.pendingStops, r ∈ released
  waiting : ∀ r ∈ x.orderHistory, r ∉ released → x.Waiting flights r
  fills : ∀ f ∈ x.fillHistory, ∃ r ∈ released, f.orderId = (x.order r).orderId

/-- What an operation on known orders leaves of all of them. -/
structure SameOrders (x y : PaperExchange) : Prop where
  config : y.config = x.config
  orderHistory : y.orderHistory = x.orderHistory
  stamp : ∀ r ∈ x.orderHistory, (y.order r).stamp = (x.order r).stamp

theorem SameOrders.refl (x : PaperExchange) : SameOrders x x :=
  ⟨rfl, rfl, fun _ _ => rfl⟩

theorem SameOrders.trans {z : PaperExchange} (h : SameOrders x y) (h' : SameOrders y z) :
    SameOrders x z :=
  ⟨h'.config.trans h.config, h'.orderHistory.trans h.orderHistory,
    fun r hr => (h'.stamp r (h.orderHistory ▸ hr)).trans (h.stamp r hr)⟩

theorem SameOrders.orderId (h : SameOrders x y) (hr : r ∈ x.orderHistory) :
    (y.order r).orderId = (x.order r).orderId :=
  congrArg Prod.fst (h.stamp r hr)

theorem SameOrders.activeAt (h : SameOrders x y) (hr : r ∈ x.orderHistory) :
    (y.order r).activeAt = (x.order r).activeAt :=
  congrArg (fun p => p.2.2.2) (h.stamp r hr)

theorem SameOrders.dueAt (h : SameOrders x y) (hr : r ∈ x.orderHistory) :
    y.dueAt r = x.dueAt r := by
  have hsubmitted : (y.order r).submittedAt = (x.order r).submittedAt :=
    congrArg (fun p => p.2.2.1) (h.stamp r hr)
  rw [PaperExchange.dueAt, PaperExchange.dueAt, h.config, hsubmitted]

namespace Causal

/-- An order of the history is known to the book. -/
theorem known (h : Causal x flights released) (hr : r ∈ x.orderHistory) : r < x.book.nextRef := by
  by_contra hnot
  have howner := (h.paper r).mpr hr
  rw [h.tidy.names.unused r (not_lt.mp hnot)] at howner
  cases howner

theorem flying_mem (h : Causal x flights released) {f : Flight} (hf : f ∈ flights) :
    f.order ∈ x.orderHistory :=
  h.fifo.subset (List.mem_append_right _ (List.mem_map_of_mem hf))

theorem released_mem (h : Causal x flights released) (hr : r ∈ released) : r ∈ x.orderHistory :=
  h.fifo.subset (List.mem_append_left _ hr)

theorem nodup (h : Causal x flights released) :
    (released ++ flights.map Flight.order).Nodup :=
  h.fifo.nodup (h.ascending.imp fun hlt => hlt.ne)

/-- Different orders have different ids. -/
theorem eq_of_orderId (h : Causal x flights released) {q : Ref} (hr : r ∈ x.orderHistory)
    (hq : q ∈ x.orderHistory) (hid : (x.order q).orderId = (x.order r).orderId) : q = r := by
  obtain ⟨k, hk⟩ := List.mem_iff_getElem?.mp hr
  obtain ⟨l, hl⟩ := List.mem_iff_getElem?.mp hq
  rw [h.ids k r hk, h.ids l q hl] at hid
  have hsame : l = k := Nat.succ.inj (paperId_injective hid)
  rw [hsame, hk] at hl
  exact (Option.some.inj hl).symm

/-- A paper order in the book has been released. -/
theorem released_of_present (h : Causal x flights released) (hpaper : (x.order r).owner = .paper)
    (hpresent : x.book.Present r) : r ∈ released := by
  by_contra hnot
  exact (h.waiting r ((h.paper r).mp hpaper) hnot).absent hpresent

/-- Only released orders are touched. -/
theorem waiting_next (h : Causal x flights released)
    (hconfined : OrderBook.Confined S x.book y.book) (hS : ∀ q, S q → q ∈ released')
    (hsub : ∀ q ∈ released, q ∈ released')
    (hleft : ∀ q, q ∈ flights.map Flight.order ↔
      q ∈ flights'.map Flight.order ∨ (q ∈ released' ∧ q ∈ flights.map Flight.order))
    (hr : r ∈ x.orderHistory) (hnot : r ∉ released') : y.Waiting flights' r := by
  have hwaiting := h.waiting r hr fun hmem => hnot (hsub r hmem)
  have hlt := h.known hr
  have hsame : y.order r = x.order r :=
    hconfined.same r hlt (fun hS' => hnot (hS r hS')) hwaiting.absent
  refine ⟨fun hp => ?_, ?_, fun hfly => ?_, fun hfly => ?_⟩
  · exact (hconfined.present r hlt hp).elim (fun hS' => hnot (hS r hS')) hwaiting.absent
  · rw [hsame]
    exact hwaiting.unfilled
  · rw [hsame]
    exact hwaiting.flying ((hleft r).mpr (Or.inl hfly))
  · rw [hsame]
    refine hwaiting.settled fun hmem => ?_
    rcases (hleft r).mp hmem with hstays | ⟨hreleased, -⟩
    · exact hfly hstays
    · exact hnot hreleased

/-- An operation of the engine that touches released orders only. -/
theorem next (h : Causal x flights released) (hsame : SameOrders x y) (htidy : y.engine.Tidy)
    (hpaper : ∀ r, (y.order r).owner = .paper ↔ r ∈ x.orderHistory)
    (hseq : y.orderSeq = x.orderSeq) (hnumber : y.seq = x.seq)
    (hclock : x.currentTime ≤ y.currentTime)
    (hfifo : (released' ++ flights'.map Flight.order).Sublist
      (released ++ flights.map Flight.order))
    (hflights : ∀ f ∈ flights', f ∈ flights)
    (hpast : ∀ r ∈ released', x.dueAt r ≤ y.currentTime)
    (hlog : y.activations = released'.map fun r => (x.dueAt r, (x.order r).orderId))
    (hstops : ∀ r ∈ y.engine.pendingStops, r ∈ released')
    (hwaiting : ∀ r ∈ x.orderHistory, r ∉ released' → y.Waiting flights' r)
    (hfills : ∀ f ∈ y.fillHistory, ∃ r ∈ released', f.orderId = (x.order r).orderId) :
    Causal y flights' released' := by
  have hmem : ∀ r ∈ released' ++ flights'.map Flight.order, r ∈ x.orderHistory := fun r hr =>
    h.fifo.subset (hfifo.subset hr)
  have hreleased : ∀ r ∈ released', r ∈ x.orderHistory := fun r hr =>
    hmem r (List.mem_append_left _ hr)
  refine
    { tidy := htidy
      ids := fun k r hk => ?_
      counted := ?_
      ascending := hsame.orderHistory ▸ h.ascending
      paper := fun r => hsame.orderHistory ▸ hpaper r
      fifo := hsame.orderHistory ▸ hfifo.trans h.fifo
      sorted := ?_
      arrivals := fun f hf => ?_
      ahead := fun f hf => ?_
      numbered := fun hlatency f hf => ?_
      past := fun r hr => ?_
      log := ?_
      stops := hstops
      waiting := fun r hr => hwaiting r (hsame.orderHistory ▸ hr)
      fills := fun f hf => ?_ }
  · rw [hsame.orderHistory] at hk
    rw [hsame.orderId (List.mem_of_getElem? hk)]
    exact h.ids k r hk
  · rw [hseq, hsame.orderHistory]
    exact h.counted
  · rw [List.map_congr_left fun r hr => hsame.dueAt (hmem r hr)]
    exact h.sorted.sublist (hfifo.map x.dueAt)
  · have hknown := h.flying_mem (hflights f hf)
    rw [hsame.dueAt hknown, hsame.activeAt hknown]
    exact h.arrivals f (hflights f hf)
  · have hlate := h.ahead f (hflights f hf)
    rw [arrivalTime] at hlate ⊢
    rw [hsame.config]
    linarith
  · rw [hnumber]
    exact h.numbered (hsame.config ▸ hlatency) f (hflights f hf)
  · rw [hsame.dueAt (hreleased r hr)]
    exact hpast r hr
  · rw [hlog]
    refine List.map_congr_left fun r hr => ?_
    rw [hsame.dueAt (hreleased r hr), hsame.orderId (hreleased r hr)]
  · obtain ⟨r, hr, hid⟩ := hfills f hf
    exact ⟨r, hr, hid.trans (hsame.orderId (hreleased r hr)).symm⟩

end Causal

/-! ## Settlement -/

/-- Every fill that is settled is one that a fill event names. -/
theorem fill_of_settle {events : List ExchangeEvent} {f : Fill}
    (hf : f ∈ (x.settle events).fillHistory) : f ∈ x.fillHistory ∨
      ∃ event ∈ events, event.eventType.isFill = true ∧ f.orderId = event.orderId.getD "" := by
  induction events generalizing x with
  | nil => exact Or.inl hf
  | cons event rest ih =>
    rcases ih (x := x.settleEvent event) hf with hold | ⟨later, hlater, hfill⟩
    · unfold settleEvent at hold
      dsimp only at hold
      split at hold
      · rename_i hisfill _
        rcases List.mem_append.mp hold with hbefore | hnow
        · exact Or.inl hbefore
        · rw [List.mem_singleton.mp hnow]
          exact Or.inr ⟨event, List.mem_cons_self .., hisfill, rfl⟩
      · exact Or.inl hold
    · exact Or.inr ⟨later, List.mem_cons_of_mem event hlater, hfill⟩

/-- Events of the engine that are no submissions report no activation. -/
theorem activations_none {events : List ExchangeEvent}
    (h : ∀ event ∈ events, event.eventType ≠ .orderSubmitted) :
    events.filterMap ExchangeEvent.activation? = [] := by
  rw [List.filterMap_eq_nil_iff]
  intro event hevent
  rw [ExchangeEvent.activation?, if_neg (h event hevent)]

namespace Causal

/-- The engine is tidy after an operation on released orders. -/
theorem tidy_next (h : Causal x flights released) {m : MatchingEngine}
    (hconfined : OrderBook.Confined S x.book m.book)
    (hstops : ∀ r ∈ m.pendingStops, r ∈ x.orderHistory) : m.Tidy := by
  refine ⟨fun r hr => (h.known (hstops r hr)).trans_le hconfined.nextRef, fun r hr => ?_,
    hconfined.names h.tidy.names⟩
  have howner := congrArg (fun p => p.2.1) (hconfined.stamp r (h.known (hstops r hr)))
  exact howner.trans ((h.paper r).mpr (hstops r hr))

/-- The owners stay. -/
theorem paper_next (h : Causal x flights released) {b : OrderBook}
    (hconfined : OrderBook.Confined S x.book b) (r : Ref) :
    (b.heap r).owner = .paper ↔ r ∈ x.orderHistory := by
  by_cases hlt : r < x.book.nextRef
  · have howner : (b.heap r).owner = (x.order r).owner :=
      congrArg (fun p => p.2.1) (hconfined.stamp r hlt)
    rw [howner]
    exact h.paper r
  · refine iff_of_false (fun hpaper => ?_) fun hr => hlt (h.known hr)
    by_cases hnew : r < b.nextRef
    · rw [hconfined.fresh r (not_lt.mp hlt) hnew] at hpaper
      cases hpaper
    · rw [(hconfined.names h.tidy.names).unused r (not_lt.mp hnew)] at hpaper
      cases hpaper

/-- What the engine does to the stops and the book is settled. -/
theorem handled (h : Causal x flights released) {result : MatchingEngine × List ExchangeEvent}
    (hresult : MatchingEngine.Handled (· ∈ x.engine.pendingStops) x.engine result)
    (hengine : y.engine = result.1) (hkept : Kept x y)
    (hfills : ∀ f ∈ y.fillHistory, f ∈ x.fillHistory ∨ ∃ event ∈ result.2,
      event.eventType.isFill = true ∧ f.orderId = event.orderId.getD "") :
    SameOrders x y ∧ Causal y flights released ∧ y.activations = x.activations := by
  have hconfined : OrderBook.Confined (· ∈ x.engine.pendingStops) x.book y.book := by
    rw [show y.book = result.1.book from congrArg MatchingEngine.book hengine]
    exact hresult.confined
  have hsame : SameOrders x y := ⟨hkept.config, hkept.orderHistory, fun r hr =>
    hconfined.stamp r (h.known hr)⟩
  have hlog : y.activations = x.activations := by
    rw [activations, activations, hengine, hresult.log, List.filterMap_append,
      activations_none fun event hevent => (hresult.events event hevent).1, List.append_nil]
  have hstops : ∀ r ∈ y.engine.pendingStops, r ∈ released := fun r hr => by
    rw [hengine] at hr
    exact (hresult.stops r hr).elim (h.stops r) (h.stops r)
  refine ⟨hsame, ?_, hlog⟩
  refine h.next hsame (h.tidy_next hconfined fun r hr => h.released_mem (hstops r hr))
    (h.paper_next hconfined) hkept.orderSeq hkept.seq hkept.currentTime.ge (List.Sublist.refl _)
    (fun f hf => hf) (fun r hr => hkept.currentTime ▸ h.past r hr) (hlog.trans h.log) hstops
    (fun r hr hnot => h.waiting_next hconfined h.stops (fun q hq => hq)
      (fun q => ⟨Or.inl, fun hq => hq.elim id And.right⟩) hr hnot) fun f hf => ?_
  rcases hfills f hf with hold | ⟨event, hevent, hfill, hid⟩
  · exact h.fills f hold
  · obtain ⟨q, hq, hpaper, hname⟩ := (hresult.events event hevent).2 hfill
    refine ⟨q, hq.elim (h.stops q) (h.released_of_present hpaper), ?_⟩
    rw [hid, hname]
    rfl

end Causal

/-! ## Activation -/

/-- The first order in flight is activated, at the time it was due. -/
theorem activate_causal {f : Flight} {rest : List Flight} (h : Causal x (f :: rest) released)
    (hdue : f.arrival ≤ x.currentTime) :
    SameOrders x (x.activate f.order) ∧
      Causal (x.activate f.order) rest (released ++ [f.order]) := by
  have hmem : f.order ∈ x.orderHistory := h.flying_mem (List.mem_cons_self ..)
  obtain ⟨harrival, hactive⟩ := h.arrivals f (List.mem_cons_self ..)
  have hexec : OrderBook.Executable (fun q => q = f.order) x.engine.book f.order :=
    ⟨rfl, fun q hq => hq ▸ h.known hmem, (h.paper _).mpr hmem, h.tidy.names⟩
  obtain ⟨submitted, rest', hevents, htype, htime, hname, hconfined, hrest, hstops, hlog⟩ :=
    MatchingEngine.submitOrder_confined hexec ((x.order f.order).activeAt.getD x.currentTime)
  have hnow : (x.order f.order).activeAt.getD x.currentTime = x.dueAt f.order := by
    rw [hactive, ← harrival]
    rfl
  have hkept := activate_kept x f.order
  have hengine : (x.activate f.order).engine =
      (x.engine.submitOrder f.order ((x.order f.order).activeAt.getD x.currentTime)).1 :=
    settle_engine _ _
  have hbook : OrderBook.Confined (fun q => q = f.order) x.book (x.activate f.order).book := by
    rw [show (x.activate f.order).book = _ from congrArg MatchingEngine.book hengine]
    exact hconfined
  have hsame : SameOrders x (x.activate f.order) :=
    ⟨hkept.config, hkept.orderHistory, fun r hr => hbook.stamp r (h.known hr)⟩
  have hlast : f.order ∈ released ++ [f.order] :=
    List.mem_append_right _ (List.mem_singleton_self _)
  have hsub : ∀ q ∈ released, q ∈ released ++ [f.order] := fun q hq => List.mem_append_left _ hq
  have hstops' : ∀ r ∈ (x.activate f.order).engine.pendingStops, r ∈ released ++ [f.order] := by
    intro r hr
    rw [hengine] at hr
    rcases hstops r hr with rfl | hold
    · exact hlast
    · exact hsub r (h.stops r hold)
  have hall : ∀ r ∈ released ++ [f.order], r ∈ x.orderHistory := by
    intro r hr
    rcases List.mem_append.mp hr with hold | hnew
    · exact h.released_mem hold
    · rw [List.mem_singleton.mp hnew]
      exact hmem
  refine ⟨hsame, h.next hsame (h.tidy_next hbook fun r hr => hall r (hstops' r hr))
    (h.paper_next hbook) hkept.orderSeq hkept.seq hkept.currentTime.ge ?_
    (fun g hg => List.mem_cons_of_mem f hg) ?_ ?_ hstops' ?_ ?_⟩
  · rw [List.append_assoc]
    exact List.Sublist.refl _
  · intro r hr
    rw [hkept.currentTime]
    rcases List.mem_append.mp hr with hold | hnew
    · exact h.past r hold
    · rw [List.mem_singleton.mp hnew, ← harrival]
      exact hdue
  · have hsubmission : ExchangeEvent.activation? submitted =
        some (x.dueAt f.order, (x.order f.order).orderId) := by
      rw [ExchangeEvent.activation?, if_pos htype, htime, hname, hnow]
      rfl
    rw [activations, hengine, hlog, List.filterMap_append, List.filterMap_cons_some hsubmission,
      activations_none fun event hevent => (hrest event hevent).1, List.map_append]
    exact congrArg (· ++ _) h.log
  · refine fun r hr hnot => h.waiting_next hbook (fun q hq => hq ▸ hlast) hsub (fun q => ?_) hr hnot
    rw [List.map_cons, List.mem_cons]
    constructor
    · rintro (rfl | hq)
      · exact Or.inr ⟨hlast, Or.inl rfl⟩
      · exact Or.inl hq
    · rintro (hq | ⟨-, hq⟩)
      · exact Or.inr hq
      · exact hq
  · intro g hg
    have hg' : g ∈ (PaperExchange.settle { x with
        arrivalMid := x.arrivalMid.set (x.order f.order).orderId x.book.midPrice
        engine := (x.engine.submitOrder f.order
          ((x.order f.order).activeAt.getD x.currentTime)).1 } (x.engine.submitOrder f.order
            ((x.order f.order).activeAt.getD x.currentTime)).2).fillHistory := hg
    rw [hevents] at hg'
    rcases fill_of_settle hg' with hold | ⟨event, hevent, hisfill, hid⟩
    · obtain ⟨q, hq, hqid⟩ := h.fills g hold
      exact ⟨q, hsub q hq, hqid⟩
    · rcases List.mem_cons.mp hevent with rfl | hlater
      · rw [htype] at hisfill
        cases hisfill
      · obtain ⟨q, hq, hpaper, hqname⟩ := (hrest event hlater).2 hisfill
        refine ⟨q, ?_, ?_⟩
        · exact hq.elim (fun heq => heq ▸ hlast) fun hp => hsub q (h.released_of_present hpaper hp)
        · rw [hid, hqname]
          rfl

/-! ## The clock and the feed -/

/-- The clock moves on. -/
theorem Causal.later (h : Causal x flights released) (inflight : List Flight) {t : ℚ}
    (ht : x.currentTime ≤ t) :
    Causal { x with inflight := inflight, currentTime := t } flights released :=
  h.next (y := { x with inflight := inflight, currentTime := t }) ⟨rfl, rfl, fun _ _ => rfl⟩ h.tidy
    h.paper rfl rfl ht (List.Sublist.refl _) (fun _ hf => hf) (fun r hr => (h.past r hr).trans ht)
    h.log h.stops (fun r hr hnot => ⟨(h.waiting r hr hnot).absent, (h.waiting r hr hnot).unfilled,
      (h.waiting r hr hnot).flying, (h.waiting r hr hnot).settled⟩) h.fills

/-- What the clock takes out was released. -/
theorem expirePassed_causal (h : Causal x flights released) :
    SameOrders x x.expirePassed ∧ Causal x.expirePassed flights released := by
  unfold expirePassed
  split
  · have hkept := settle_kept { x with engine := (x.engine.expireOrders x.currentTime).1 }
      (x.engine.expireOrders x.currentTime).2
    obtain ⟨hsame, hcausal, -⟩ := h.handled
      (MatchingEngine.expireOrders_handled h.tidy x.currentTime) (settle_engine _ _)
      ⟨hkept.config, hkept.orderHistory, hkept.orderSeq, hkept.inflight, hkept.seq,
        hkept.currentTime, hkept.hasExpiring, hkept.byId⟩ fun f hf => by
          have hfill := fill_of_settle hf
          exact hfill
    exact ⟨hsame, hcausal⟩
  · exact ⟨SameOrders.refl x, h⟩

/-- The clock activates the orders in flight whose time has come, first to last, and leaves the
others in flight. -/
theorem advanceTo_causal (h : Causal x x.inflight released) (timestamp : ℚ) :
    ∃ more, Causal (x.advanceTo timestamp) (x.advanceTo timestamp).inflight (released ++ more) ∧
      SameOrders x (x.advanceTo timestamp) ∧
      x.inflight.map Flight.order = more ++ (x.advanceTo timestamp).inflight.map Flight.order ∧
      (∀ r ∈ more, x.dueAt r ≤ timestamp + eps) ∧
      ∀ f ∈ (x.advanceTo timestamp).inflight, timestamp + eps < x.dueAt f.order := by
  have hstep : ∀ (z : PaperExchange) (f : Flight) (rest : List Flight),
      (∃ more, Causal z (f :: rest) (released ++ more) ∧ SameOrders x z ∧
        x.inflight.map Flight.order = more ++ (f :: rest).map Flight.order ∧
        ∀ r ∈ more, x.dueAt r ≤ timestamp + eps) → f.arrival ≤ timestamp + eps →
      ∃ more, Causal ({ z with
          inflight := rest, currentTime := max z.currentTime f.arrival }.activate f.order) rest
            (released ++ more) ∧
        SameOrders x ({ z with
          inflight := rest, currentTime := max z.currentTime f.arrival }.activate f.order) ∧
        x.inflight.map Flight.order = more ++ rest.map Flight.order ∧
        ∀ r ∈ more, x.dueAt r ≤ timestamp + eps := by
    rintro z f rest ⟨more, hz, hsame, hsplit, hdue⟩ hle
    obtain ⟨hactivated, hnext⟩ := activate_causal (hz.later rest (le_max_left z.currentTime f.arrival))
      (le_max_right _ _)
    have hmem : f.order ∈ x.orderHistory :=
      hsame.orderHistory ▸ hz.flying_mem (List.mem_cons_self ..)
    rw [List.append_assoc] at hnext
    refine ⟨more ++ [f.order], hnext, hsame.trans ⟨hactivated.config, hactivated.orderHistory,
      hactivated.stamp⟩, ?_, fun r hr => ?_⟩
    · rw [hsplit, List.append_assoc]
      rfl
    · rcases List.mem_append.mp hr with hold | hnew
      · exact hdue r hold
      · rw [List.mem_singleton.mp hnew, ← hsame.dueAt hmem,
          ← (hz.arrivals f (List.mem_cons_self ..)).1]
        exact hle
  obtain ⟨y, left, hreleased, ⟨more, hcausal, hsame, hsplit, hdue⟩, hhead⟩ := releaseFrom_rule
    (I := fun z flights => ∃ more, Causal z flights (released ++ more) ∧ SameOrders x z ∧
      x.inflight.map Flight.order = more ++ flights.map Flight.order ∧
      ∀ r ∈ more, x.dueAt r ≤ timestamp + eps) hstep x.inflight
    ⟨[], by rwa [List.append_nil], SameOrders.refl x, rfl, fun r hr => (by cases hr)⟩
  have hlate : ∀ f ∈ left, timestamp + eps < x.dueAt f.order := by
    intro f hf
    rw [← hsame.dueAt (hsame.orderHistory ▸ hcausal.flying_mem hf)]
    cases left with
    | nil => cases hf
    | cons g rest =>
      have hfirst := hhead g rfl
      rw [(hcausal.arrivals g (List.mem_cons_self ..)).1] at hfirst
      rcases List.mem_cons.mp hf with rfl | hrest
      · exact hfirst
      · have hsorted := hcausal.sorted
        rw [List.map_append, List.map_cons, List.map_cons, List.pairwise_append] at hsorted
        have hle := (List.pairwise_cons.mp hsorted.2.1).1 (y.dueAt f.order)
          (List.mem_map_of_mem (List.mem_map_of_mem hrest))
        exact hfirst.trans_le hle
  rw [advanceTo_eq, hreleased]
  have hmoved := hcausal.later left (le_max_left y.currentTime timestamp)
  obtain ⟨hpassed, hfinal⟩ := expirePassed_causal hmoved
  have hinflight := (expirePassed_kept
    { y with inflight := left, currentTime := max y.currentTime timestamp }).inflight
  refine ⟨more, ?_, hsame.trans ⟨hpassed.config, hpassed.orderHistory, hpassed.stamp⟩, ?_, hdue, ?_⟩
  · rw [hinflight]
    exact hfinal
  · rw [hinflight]
    exact hsplit
  · rw [hinflight]
    exact hlate

/-- A feed event is applied to the book and the stops, and activates nothing. -/
theorem applyEvent_causal (h : Causal x flights released) (event : BookEvent) (uuid : HexId) :
    SameOrders x (x.applyEvent event uuid) ∧ Causal (x.applyEvent event uuid) flights released ∧
      (x.applyEvent event uuid).activations = x.activations := by
  have hnoted : ∀ z : PaperExchange, (z.noteMid event.timestamp).engine = z.engine ∧
      (z.noteMid event.timestamp).fillHistory = z.fillHistory := by
    intro z
    unfold noteMid
    split
    · exact ⟨rfl, rfl⟩
    · split <;> exact ⟨rfl, rfl⟩
  refine h.handled (MatchingEngine.onMarketEvent_handled h.tidy event uuid) ?_
    (applyEvent_kept x event uuid) fun f hf => ?_
  · exact (hnoted _).1.trans (settle_engine _ _)
  · have hsettled := (hnoted _).2 ▸ hf
    have hfill := fill_of_settle hsettled
    exact hfill

/-! ## Cancels -/

/-- A cancel takes an order out of the flight, or acts on the stops and the book. -/
theorem cancelOrder_causal (h : Causal x x.inflight released) (id : String) :
    Causal (x.cancelOrder id) (x.cancelOrder id).inflight released ∧
      (x.cancelOrder id).activations = x.activations := by
  unfold cancelOrder
  split
  · rename_i f hfind
    have hf := List.mem_of_find?_eq_some hfind
    have hmem : f.order ∈ x.orderHistory := h.flying_mem hf
    have hout : f.order ∉ released := fun hr =>
      (List.disjoint_of_nodup_append h.nodup) hr (List.mem_map_of_mem hf)
    have hwaiting := h.waiting f.order hmem hout
    have hconfined : OrderBook.Confined (fun q => q = f.order) x.book
        (x.book.modify f.order (withStatus .cancelled)) := OrderBook.Confined.modify (Or.inl rfl) rfl
    have hname : (x.order f.order).orderId = id := by
      have hfound := List.find?_some hfind
      exact of_decide_eq_true hfound
    have hleft : ∀ q, q ∈ (x.inflight.eraseP fun g => (x.order g.order).orderId = id).map
        Flight.order ↔ q ∈ x.inflight.map Flight.order ∧ q ≠ f.order := by
      intro q
      have hfilter := OrderBook.removeId_eq_filter x.book.heap (r := f.order)
        (List.nodup_append.mp h.nodup).2.1 fun p hp hsame => by
          obtain ⟨g, hg, rfl⟩ := List.mem_map.mp hp
          exact h.eq_of_orderId hmem (h.flying_mem hg) hsame
      have hremove : (x.inflight.eraseP fun g => (x.order g.order).orderId = id).map Flight.order =
          (x.inflight.map Flight.order).filter fun q => q ≠ f.order := by
        rw [← hfilter, removeId, List.eraseP_map, ← hname]
        rfl
      rw [hremove, List.mem_filter, decide_eq_true_eq]
    refine ⟨h.next ⟨rfl, rfl, fun r hr => hconfined.stamp r (h.known hr)⟩
      (h.tidy_next hconfined fun r hr => h.released_mem (h.stops r hr)) (h.paper_next hconfined) rfl
      rfl le_rfl ?_ (fun g hg => List.mem_of_mem_eraseP hg) h.past h.log h.stops ?_ h.fills, rfl⟩
    · exact ((List.eraseP_sublist).map Flight.order).append_left released
    · intro r hr hnot
      have hold := h.waiting r hr hnot
      by_cases heq : r = f.order
      · subst heq
        have hself : (x.book.modify f.order (withStatus .cancelled)).heap f.order =
            withStatus .cancelled (x.order f.order) := Function.update_self ..
        refine ⟨fun hp => hold.absent (hp.imp_left (OrderBook.rests_modify _ _ _).mp), ?_,
          fun hfly => absurd rfl ((hleft _).mp hfly).2, fun _ => Or.inr ?_⟩
        · exact (congrArg Order.filledQuantity hself).trans hold.unfilled
        · exact congrArg Order.status hself
      · have hother : (x.book.modify f.order (withStatus .cancelled)).heap r = x.order r :=
          OrderBook.heap_modify_ne _ heq
        refine ⟨fun hp => hold.absent (hp.imp_left (OrderBook.rests_modify _ _ _).mp), ?_,
          fun hfly => ?_, fun hfly => ?_⟩
        · exact (congrArg Order.filledQuantity hother).trans hold.unfilled
        · exact (congrArg Order.status hother).trans (hold.flying ((hleft r).mp hfly).1)
        · have hnone : r ∉ x.inflight.map Flight.order := fun hin => hfly ((hleft r).mpr ⟨hin, heq⟩)
          have hstatus : ((x.book.modify f.order (withStatus .cancelled)).heap r).status =
              (x.order r).status := congrArg Order.status hother
          show ((x.book.modify f.order (withStatus .cancelled)).heap r).status = .rejected ∨
            ((x.book.modify f.order (withStatus .cancelled)).heap r).status = .cancelled
          rw [hstatus]
          exact hold.settled hnone
  · obtain ⟨-, hcausal, hlog⟩ := h.handled
      (y := { x with
        engine := (x.engine.cancelOrder id x.currentTime).1
        eventLog := x.eventLog ++ (x.engine.cancelOrder id x.currentTime).2 })
      (MatchingEngine.cancelOrder_handled x.engine id x.currentTime) rfl
      ⟨rfl, rfl, rfl, rfl, rfl, rfl, rfl, rfl⟩ fun f hf => Or.inl hf
    exact ⟨hcausal, hlog⟩

/-! ## Submissions -/

/-- What a submission does before the engine sees the order: `o` is new in the book and in the
history, and `new` is its flight, if it was not refused. -/
structure Lodged (x y : PaperExchange) (o : Order) (new : List Flight) : Prop where
  owner : o.owner = .paper
  orderId : o.orderId = paperId (x.orderSeq + 1)
  submittedAt : o.submittedAt = x.currentTime
  unfilled : o.filledQuantity = 0
  flight : (new = [] ∧ o.status = .rejected) ∨ ∃ f, new = [f] ∧ f.order = x.book.nextRef ∧
    f.arrival = x.arrivalTime ∧ o.activeAt = some x.arrivalTime ∧ o.status = .submitted
  config : y.config = x.config
  engine : y.engine = { x.engine with book := x.book.alloc o }
  history : y.orderHistory = x.orderHistory ++ [x.book.nextRef]
  orderSeq : y.orderSeq = x.orderSeq + 1
  clock : y.currentTime = x.currentTime
  fills : y.fillHistory = x.fillHistory

section Lodged

variable {o : Order} {new : List Flight}

namespace Lodged

theorem book (e : Lodged x y o new) : y.book = x.book.alloc o :=
  congrArg MatchingEngine.book e.engine

theorem order_new (e : Lodged x y o new) : y.order x.book.nextRef = o := by
  rw [show y.order x.book.nextRef = y.book.heap x.book.nextRef from rfl, e.book]
  exact Function.update_self ..

theorem order_ne (e : Lodged x y o new) (hr : r ≠ x.book.nextRef) : y.order r = x.order r := by
  rw [show y.order r = y.book.heap r from rfl, e.book]
  exact Function.update_of_ne hr ..

theorem dueAt_new (e : Lodged x y o new) : y.dueAt x.book.nextRef = x.arrivalTime := by
  rw [dueAt, e.order_new, e.submittedAt, e.config]
  rfl

theorem orders (e : Lodged x y o new) : (new.map Flight.order).Sublist [x.book.nextRef] := by
  rcases e.flight with ⟨rfl, -⟩ | ⟨f, rfl, horder, -⟩
  · exact List.nil_sublist _
  · rw [List.map_singleton, horder]

theorem present_iff (e : Lodged x y o new) : y.book.Present r ↔ x.book.Present r := by
  rw [e.book]
  simp only [OrderBook.Present, OrderBook.Rests, OrderBook.queue_alloc, OrderBook.orders_alloc]

end Lodged

namespace Causal

theorem order_old (h : Causal x flights released) (e : Lodged x y o new)
    (hr : r ∈ x.orderHistory) : y.order r = x.order r :=
  e.order_ne (h.known hr).ne

theorem dueAt_old (h : Causal x flights released) (e : Lodged x y o new)
    (hr : r ∈ x.orderHistory) : y.dueAt r = x.dueAt r := by
  rw [dueAt, dueAt, h.order_old e hr, e.config]

/-- The engine does not see the new order. -/
theorem enter_tidy (h : Causal x flights released) (e : Lodged x y o new) : y.engine.Tidy := by
  have hstops : y.engine.pendingStops = x.engine.pendingStops := by rw [e.engine]
  refine ⟨fun r hr => ?_, fun r hr => ?_, ?_⟩
  · rw [hstops] at hr
    show r < y.book.nextRef
    rw [e.book]
    exact (h.tidy.known r hr).trans (Nat.lt_succ_self _)
  · rw [hstops] at hr
    show (y.order r).owner = .paper
    rw [e.order_ne (h.tidy.known r hr).ne]
    exact h.tidy.paper r hr
  · show y.book.Registered
    rw [e.book]
    exact h.tidy.names.alloc

/-- The id of the new order is the next one. -/
theorem enter_ids (h : Causal x flights released) (e : Lodged x y o new) {k : ℕ}
    (hk : y.orderHistory[k]? = some r) : (y.order r).orderId = paperId (k + 1) := by
  rw [e.history, List.getElem?_append] at hk
  split at hk
  · rw [h.order_old e (List.mem_of_getElem? hk)]
    exact h.ids k r hk
  · rename_i hlast
    obtain ⟨hlt, hr⟩ := List.getElem?_eq_some_iff.mp hk
    have hzero : k - x.orderHistory.length = 0 := Nat.lt_one_iff.mp hlt
    have hk' : k = x.orderHistory.length := by omega
    rw [List.getElem_singleton] at hr
    rw [← hr, e.order_new, e.orderId, h.counted, hk']

/-- The new order is due last. -/
theorem enter_sorted (h : Causal x flights released) (e : Lodged x y o new) :
    ((released ++ (flights ++ new).map Flight.order).map y.dueAt).Pairwise (· ≤ ·) := by
  have hnonneg : x.currentTime ≤ x.arrivalTime := by
    have hlatency : 0 ≤ x.config.latencyMs / 1000 := div_nonneg x.config.latency_nonneg (by norm_num)
    rw [arrivalTime]
    linarith
  have hsplit : released ++ (flights ++ new).map Flight.order =
      (released ++ flights.map Flight.order) ++ new.map Flight.order := by
    rw [List.map_append, List.append_assoc]
  rw [hsplit, List.map_append, List.pairwise_append]
  refine ⟨?_, (List.pairwise_singleton ..).sublist (e.orders.map y.dueAt), fun t ht t' ht' => ?_⟩
  · rw [List.map_congr_left fun r hr => h.dueAt_old e (h.fifo.subset hr)]
    exact h.sorted
  · obtain ⟨r, hr, rfl⟩ := List.mem_map.mp ht
    obtain ⟨q, hq, rfl⟩ := List.mem_map.mp ht'
    rw [List.mem_singleton.mp (e.orders.subset hq), e.dueAt_new, h.dueAt_old e (h.fifo.subset hr)]
    rcases List.mem_append.mp hr with hreleased | hflying
    · exact (h.past r hreleased).trans hnonneg
    · obtain ⟨f, hf, rfl⟩ := List.mem_map.mp hflying
      rw [← (h.arrivals f hf).1]
      exact h.ahead f hf

/-- The flight of the new order carries its time. -/
theorem enter_arrivals (h : Causal x flights released) (e : Lodged x y o new) {f : Flight}
    (hf : f ∈ flights ++ new) :
    (f.arrival = y.dueAt f.order ∧ (y.order f.order).activeAt = some f.arrival) ∧
      f.arrival ≤ y.arrivalTime := by
  have harrival : y.arrivalTime = x.arrivalTime := by
    rw [arrivalTime, arrivalTime, e.clock, e.config]
  rw [harrival]
  rcases List.mem_append.mp hf with hbefore | hadded
  · have hmem := h.flying_mem hbefore
    rw [h.dueAt_old e hmem, h.order_old e hmem]
    exact ⟨h.arrivals f hbefore, h.ahead f hbefore⟩
  · rcases e.flight with ⟨rfl, -⟩ | ⟨g, rfl, horder, hat, hactive, -⟩
    · cases hadded
    · rw [List.mem_singleton.mp hadded, horder, e.dueAt_new, e.order_new, hat]
      exact ⟨⟨rfl, hactive⟩, le_rfl⟩

/-- The other orders wait as before. -/
theorem enter_waiting_old (h : Causal x flights released) (e : Lodged x y o new)
    (hr : r ∈ x.orderHistory) (hnot : r ∉ released) : y.Waiting (flights ++ new) r := by
  have hwaiting := h.waiting r hr hnot
  have hsame : r ∈ (flights ++ new).map Flight.order ↔ r ∈ flights.map Flight.order := by
    rw [List.map_append, List.mem_append]
    refine or_iff_left fun hmem => (h.known hr).ne ?_
    exact List.mem_singleton.mp (e.orders.subset hmem)
  refine ⟨fun hp => hwaiting.absent (e.present_iff.mp hp), ?_, fun hfly => ?_, fun hfly => ?_⟩
  · rw [h.order_old e hr]
    exact hwaiting.unfilled
  · rw [h.order_old e hr]
    exact hwaiting.flying (hsame.mp hfly)
  · rw [h.order_old e hr]
    exact hwaiting.settled fun hmem => hfly (hsame.mpr hmem)

/-- The new order waits. -/
theorem enter_waiting_new (h : Causal x flights released) (e : Lodged x y o new) :
    y.Waiting (flights ++ new) x.book.nextRef := by
  refine ⟨fun hp => lt_irrefl _ (h.tidy.names.present_lt (e.present_iff.mp hp)),
    e.order_new ▸ e.unfilled, fun hfly => ?_, fun hfly => ?_⟩
  · rw [e.order_new]
    rcases e.flight with ⟨rfl, -⟩ | ⟨f, rfl, -, -, -, hstatus⟩
    · obtain ⟨f, hf, horder⟩ := List.mem_map.mp hfly
      rw [List.append_nil] at hf
      exact absurd horder (h.known (h.flying_mem hf)).ne
    · exact hstatus
  · rw [e.order_new]
    rcases e.flight with ⟨rfl, hstatus⟩ | ⟨f, rfl, horder, -⟩
    · exact Or.inl hstatus
    · refine absurd ?_ hfly
      rw [List.map_append, List.map_singleton, horder]
      exact List.mem_append_right _ (List.mem_singleton_self _)

/-- A new order: refused, or in flight behind all others. -/
theorem enter (h : Causal x flights released) (e : Lodged x y o new)
    (hnumbered : y.config.latencyMs ≠ 0 → ∀ f ∈ flights ++ new, f.seq < y.seq) :
    Causal y (flights ++ new) released where
  tidy := h.enter_tidy e
  ids := fun k r hk => h.enter_ids e hk
  counted := by
    rw [e.orderSeq, e.history, h.counted, List.length_append]
    rfl
  ascending := by
    rw [e.history, List.pairwise_append]
    refine ⟨h.ascending, List.pairwise_singleton .., fun r hr q hq => ?_⟩
    rw [List.mem_singleton.mp hq]
    exact h.known hr
  paper := fun r => by
    rw [e.history, List.mem_append, List.mem_singleton]
    by_cases hr : r = x.book.nextRef
    · rw [hr, e.order_new]
      exact iff_of_true e.owner (Or.inr rfl)
    · rw [e.order_ne hr, h.paper r, or_iff_left hr]
  fifo := by
    rw [e.history, List.map_append, ← List.append_assoc]
    exact h.fifo.append e.orders
  sorted := h.enter_sorted e
  arrivals := fun f hf => (h.enter_arrivals e hf).1
  ahead := fun f hf => (h.enter_arrivals e hf).2
  numbered := hnumbered
  past := fun r hr => by
    rw [h.dueAt_old e (h.released_mem hr), e.clock]
    exact h.past r hr
  log := by
    have hlog : y.activations = x.activations := by rw [activations, activations, e.engine]
    rw [hlog, h.log]
    refine List.map_congr_left fun r hr => ?_
    rw [h.dueAt_old e (h.released_mem hr), h.order_old e (h.released_mem hr)]
  stops := fun r hr => h.stops r (by rwa [e.engine] at hr)
  waiting := fun r hr hnot => by
    rw [e.history] at hr
    rcases List.mem_append.mp hr with hbefore | hadded
    · exact h.enter_waiting_old e hbefore hnot
    · rw [List.mem_singleton.mp hadded]
      exact h.enter_waiting_new e
  fills := fun f hf => by
    rw [e.fills] at hf
    obtain ⟨r, hr, hname⟩ := h.fills f hf
    rw [← h.order_old e (h.released_mem hr)] at hname
    exact ⟨r, hr, hname⟩

end Causal

end Lodged

/-- An accepted order, with its flight. -/
theorem lodged_sent (x : PaperExchange) (request : OrderRequest) :
    Lodged x (x.entered request) (x.sentOrder request)
      [⟨x.arrivalTime, x.seq, x.book.nextRef⟩] :=
  ⟨rfl, rfl, rfl, rfl, Or.inr ⟨_, rfl, rfl, rfl, rfl, rfl⟩, rfl, rfl, rfl, rfl, rfl, rfl⟩

/-- The heap queue takes the latest order to its end. -/
theorem pushFlight_eq {f : Flight} (hbefore : ∀ g ∈ flights, g.before f = true) :
    pushFlight f flights = flights ++ [f] := by
  rw [pushFlight, List.takeWhile_eq_self_iff.mpr hbefore, List.dropWhile_eq_nil_iff.mpr hbefore]

/-- A submission refuses the order, puts it in flight behind all others, or activates it. -/
theorem submitOrder_causal (h : Causal x x.inflight released)
    (hinstant : x.config.latencyMs = 0 → x.inflight = []) (request : OrderRequest) :
    ∃ more, Causal (x.submitOrder request) (x.submitOrder request).inflight (released ++ more) ∧
      (x.config.latencyMs = 0 → (x.submitOrder request).inflight = []) ∧
      (0 < x.config.latencyMs → (x.submitOrder request).activations = x.activations) := by
  cases hreason : x.pretradeRejectReason (x.requestedOrder request) with
  | some reason =>
    refine ⟨[], ?_, ?_, ?_⟩
    · have hentered : Lodged x (x.submitOrder request)
          (withStatus .rejected (x.requestedOrder request)) [] := by
        rw [submitOrder_refused hreason]
        exact ⟨rfl, rfl, rfl, rfl, Or.inl ⟨rfl, rfl⟩, rfl, rfl, rfl, rfl, rfl, rfl⟩
      have hnext := h.enter hentered
      rw [List.append_nil, submitOrder_refused hreason] at hnext ⊢
      exact hnext h.numbered
    · rw [submitOrder_refused hreason]
      exact hinstant
    · rw [submitOrder_refused hreason]
      exact fun _ => rfl
  | none =>
    rw [submitOrder_accepted hreason]
    split
    · rename_i hlatency
      have hpush : (x.launched request).inflight =
          x.inflight ++ [⟨x.arrivalTime, x.seq, x.book.nextRef⟩] := by
        refine pushFlight_eq fun g hg => ?_
        rw [Flight.before, Bool.or_eq_true, Bool.and_eq_true, decide_eq_true_eq,
          decide_eq_true_eq, decide_eq_true_eq]
        rcases (h.ahead g hg).lt_or_eq with hlt | heq
        · exact Or.inl hlt
        · exact Or.inr ⟨heq, h.numbered hlatency.ne' g hg⟩
      refine ⟨[], ?_, fun hzero => absurd hzero hlatency.ne', fun _ => rfl⟩
      rw [List.append_nil, hpush]
      refine h.enter ⟨rfl, rfl, rfl, rfl, Or.inr ⟨_, rfl, rfl, rfl, rfl, rfl⟩, rfl, rfl, rfl, rfl,
        rfl, rfl⟩ fun hne f hf => ?_
      rcases List.mem_append.mp hf with hold | hlast
      · exact (h.numbered hne f hold).trans (Nat.lt_succ_self _)
      · rw [List.mem_singleton.mp hlast]
        exact Nat.lt_succ_self _
    · rename_i hlatency
      have hzero : x.config.latencyMs = 0 :=
        le_antisymm (not_lt.mp hlatency) x.config.latency_nonneg
      have hnow : x.arrivalTime = x.currentTime := by
        rw [arrivalTime, hzero, zero_div, add_zero]
      have hentered := h.enter (lodged_sent x request) fun hne => absurd hzero hne
      rw [hinstant hzero, List.nil_append] at hentered
      have hactivated := (activate_causal hentered hnow.le).2
      have hinflight : ((x.entered request).activate x.book.nextRef).inflight = [] :=
        (activate_kept _ _).inflight.trans (hinstant hzero)
      refine ⟨[x.book.nextRef], ?_, fun _ => hinflight, fun hpos => absurd hpos hlatency⟩
      rw [hinflight]
      exact hactivated

/-! ## Runs -/

/-- What the latency promises in one state of the exchange. -/
structure LatencyCausality (x : PaperExchange) : Prop where
  /-- an order carries the clock reading of its submission -/
  submitted : ∀ request, (x.submitOrder request).orderHistory =
      x.orderHistory ++ [x.book.nextRef] ∧
    ((x.submitOrder request).order x.book.nextRef).submittedAt = x.currentTime
  /-- before it reaches the engine an order has no fill and is nowhere -/
  before : ∀ r ∈ x.orderHistory, ¬x.Activated r →
    (∀ f ∈ x.fillHistory, f.orderId ≠ (x.order r).orderId) ∧
      (x.order r).filledQuantity = 0 ∧ ¬x.book.Rests r ∧ r ∉ x.engine.pendingStops
  /-- the clock activates an order in flight when it reaches the arrival time, and not before -/
  due : ∀ timestamp, ∀ f ∈ x.inflight, ¬x.Activated f.order ∧
    ((x.advanceTo timestamp).Activated f.order ↔ x.dueAt f.order ≤ timestamp + eps)
  /-- an event is applied when the clock has been moved to its time, and activates nothing -/
  event : ∀ event uuid,
    x.onMarketEvent event uuid = (x.advanceTo event.timestamp).applyEvent event uuid ∧
      (x.onMarketEvent event uuid).activations = (x.advanceTo event.timestamp).activations
  /-- submissions and cancels activate nothing -/
  quiet : (0 < x.config.latencyMs → ∀ request,
      (x.submitOrder request).activations = x.activations) ∧
    ∀ id, (x.cancelOrder id).activations = x.activations
  /-- orders are activated in the order of their arrival times, which is that of submission -/
  ordered : ∃ refs : List Ref, refs.Sublist x.orderHistory ∧ refs.Nodup ∧
    x.activations = refs.map (fun r => (x.dueAt r, (x.order r).orderId)) ∧
      (refs.map x.dueAt).Pairwise (· ≤ ·) ∧ ∀ r ∈ refs, x.dueAt r ≤ x.currentTime
  /-- every order was activated, is in flight once, or was refused or cancelled in flight -/
  accounted : ∀ r ∈ x.orderHistory,
    (x.Activated r ∧ r ∉ x.inflight.map Flight.order) ∨
    (¬x.Activated r ∧ (x.inflight.map Flight.order).count r = 1 ∧
      (x.order r).status = .submitted) ∨
    (¬x.Activated r ∧ r ∉ x.inflight.map Flight.order ∧
      ((x.order r).status = .rejected ∨ (x.order r).status = .cancelled))

namespace Causal

/-- The activated orders are those that were released. -/
theorem activated_iff (h : Causal x flights released) (hr : r ∈ x.orderHistory) :
    x.Activated r ↔ r ∈ released := by
  have hids : x.activations.map Prod.snd = released.map fun q => (x.order q).orderId := by
    rw [h.log, List.map_map]
    rfl
  rw [Activated, hids]
  constructor
  · intro hmem
    obtain ⟨q, hq, hid⟩ := List.mem_map.mp hmem
    exact h.eq_of_orderId hr (h.released_mem hq) hid ▸ hq
  · exact fun hmem => List.mem_map_of_mem hmem

/-- A new order carries the clock reading of its submission. -/
theorem submitted_at (h : Causal x x.inflight released)
    (hinstant : x.config.latencyMs = 0 → x.inflight = []) (request : OrderRequest) :
    (x.submitOrder request).orderHistory = x.orderHistory ++ [x.book.nextRef] ∧
      ((x.submitOrder request).order x.book.nextRef).submittedAt = x.currentTime := by
  cases hreason : x.pretradeRejectReason (x.requestedOrder request) with
  | some reason =>
    have hself : (x.book.alloc (withStatus .rejected (x.requestedOrder request))).heap
        x.book.nextRef = withStatus .rejected (x.requestedOrder request) :=
      Function.update_self ..
    rw [submitOrder_refused hreason]
    exact ⟨rfl, congrArg Order.submittedAt hself⟩
  | none =>
    have hnew : (x.book.alloc (x.sentOrder request)).heap x.book.nextRef =
        x.sentOrder request := Function.update_self ..
    have hself : ((x.entered request).order x.book.nextRef).submittedAt = x.currentTime :=
      congrArg Order.submittedAt hnew
    rw [submitOrder_accepted hreason]
    split
    · exact ⟨rfl, hself⟩
    · rename_i hlatency
      have hzero : x.config.latencyMs = 0 :=
        le_antisymm (not_lt.mp hlatency) x.config.latency_nonneg
      have hnow : x.arrivalTime = x.currentTime := by
        rw [arrivalTime, hzero, zero_div, add_zero]
      have hentered := h.enter (lodged_sent x request) fun hne => absurd hzero hne
      rw [hinstant hzero, List.nil_append] at hentered
      have hsame := (activate_causal hentered hnow.le).1
      have hmem : x.book.nextRef ∈ (x.entered request).orderHistory :=
        List.mem_append_right _ (List.mem_singleton_self _)
      refine ⟨hsame.orderHistory, ?_⟩
      have hstamp : (((x.entered request).activate x.book.nextRef).order
          x.book.nextRef).submittedAt = ((x.entered request).order x.book.nextRef).submittedAt :=
        congrArg (fun p => p.2.2.1) (hsame.stamp _ hmem)
      exact hstamp.trans hself

/-- The invariant has what the latency promises. -/
theorem latencyCausality (h : Causal x x.inflight released)
    (hinstant : x.config.latencyMs = 0 → x.inflight = []) : x.LatencyCausality where
  submitted := h.submitted_at hinstant
  before := fun r hr hnot => by
    rw [h.activated_iff hr] at hnot
    have hwaiting := h.waiting r hr hnot
    refine ⟨fun f hf hid => ?_, hwaiting.unfilled, fun hrests => hwaiting.absent (Or.inl hrests),
      fun hstop => hnot (h.stops r hstop)⟩
    obtain ⟨q, hq, hname⟩ := h.fills f hf
    exact hnot (h.eq_of_orderId hr (h.released_mem hq) (hname.symm.trans hid) ▸ hq)
  due := fun timestamp f hf => by
    have hmem := h.flying_mem hf
    have hout : f.order ∉ released := fun hr =>
      List.disjoint_of_nodup_append h.nodup hr (List.mem_map_of_mem hf)
    refine ⟨fun hactivated => hout ((h.activated_iff hmem).mp hactivated), ?_⟩
    obtain ⟨more, hcausal, hsame, hsplit, hdue, hlate⟩ := advanceTo_causal h timestamp
    rw [hcausal.activated_iff (hsame.orderHistory ▸ hmem), List.mem_append, or_iff_right hout]
    refine ⟨hdue f.order, fun hle => ?_⟩
    have hflying : f.order ∈ more ++ (x.advanceTo timestamp).inflight.map Flight.order :=
      hsplit ▸ List.mem_map_of_mem hf
    rcases List.mem_append.mp hflying with hreleased | hleft
    · exact hreleased
    · obtain ⟨g, hg, horder⟩ := List.mem_map.mp hleft
      have hlater := hlate g hg
      rw [horder] at hlater
      exact absurd hle (not_le.mpr hlater)
  event := fun event uuid => by
    obtain ⟨more, hadvanced, -⟩ := advanceTo_causal h event.timestamp
    exact ⟨onMarketEvent_eq x event uuid, (applyEvent_causal hadvanced event uuid).2.2⟩
  quiet := ⟨fun hlatency request => by
      obtain ⟨more, -, -, hquiet⟩ := submitOrder_causal h hinstant request
      exact hquiet hlatency,
    fun id => (cancelOrder_causal h id).2⟩
  ordered := by
    refine ⟨released, (List.sublist_append_left ..).trans h.fifo, (List.nodup_append.mp h.nodup).1,
      h.log, ?_, h.past⟩
    exact h.sorted.sublist ((List.sublist_append_left ..).map x.dueAt)
  accounted := fun r hr => by
    rw [h.activated_iff hr]
    by_cases hreleased : r ∈ released
    · exact Or.inl ⟨hreleased, List.disjoint_of_nodup_append h.nodup hreleased⟩
    · have hwaiting := h.waiting r hr hreleased
      by_cases hflying : r ∈ x.inflight.map Flight.order
      · exact Or.inr (Or.inl ⟨hreleased,
          List.count_eq_one_of_mem (List.nodup_append.mp h.nodup).2.1 hflying,
          hwaiting.flying hflying⟩)
      · exact Or.inr (Or.inr ⟨hreleased, hflying, hwaiting.settled hflying⟩)

end Causal

/-- An exchange without orders. -/
theorem causal_empty (config : ExchangeConfig) : Causal (empty config) [] [] where
  tidy := ⟨fun r hr => (by cases hr), fun r hr => (by cases hr), fun id q hget => (by cases hget),
    fun q ⟨s, t, hmem⟩ => (by cases s <;> cases hmem), fun q _ => rfl⟩
  ids := fun k r hk => by cases hk
  counted := rfl
  ascending := List.Pairwise.nil
  paper := fun r => iff_of_false (fun hpaper => by cases hpaper) List.not_mem_nil
  fifo := List.Sublist.refl _
  sorted := List.Pairwise.nil
  arrivals := fun f hf => by cases hf
  ahead := fun f hf => by cases hf
  numbered := fun _ f hf => by cases hf
  past := fun r hr => by cases hr
  log := rfl
  stops := fun r hr => by cases hr
  waiting := fun r hr => by cases hr
  fills := fun f hf => by cases hf

/-- Every operation keeps the invariant. -/
theorem apply_causal (h : Causal x x.inflight released)
    (hinstant : x.config.latencyMs = 0 → x.inflight = []) (op : Op) :
    ∃ more, Causal (x.apply op) (x.apply op).inflight (released ++ more) ∧
      ((x.apply op).config.latencyMs = 0 → (x.apply op).inflight = []) := by
  have hadvance : ∀ timestamp, ∃ more, Causal (x.advanceTo timestamp)
      (x.advanceTo timestamp).inflight (released ++ more) ∧
        ((x.advanceTo timestamp).config.latencyMs = 0 → (x.advanceTo timestamp).inflight = []) := by
    intro timestamp
    obtain ⟨more, hcausal, hsame, hsplit, -⟩ := advanceTo_causal h timestamp
    refine ⟨more, hcausal, fun hzero => ?_⟩
    rw [hsame.config] at hzero
    rw [hinstant hzero] at hsplit
    exact List.map_eq_nil_iff.mp (List.append_eq_nil_iff.mp hsplit.symm).2
  cases op with
  | submitOrder request =>
    obtain ⟨more, hcausal, hnone, -⟩ := submitOrder_causal h hinstant request
    refine ⟨more, hcausal, fun hzero => hnone ?_⟩
    have hconfig : (x.submitOrder request).config = x.config := by
      cases hreason : x.pretradeRejectReason (x.requestedOrder request) with
      | some reason =>
        rw [submitOrder_refused hreason]
        rfl
      | none =>
        rw [submitOrder_accepted hreason]
        split
        · rfl
        · exact (activate_kept _ _).config
    exact hconfig ▸ hzero
  | cancelOrder id =>
    refine ⟨[], by rw [List.append_nil]; exact (cancelOrder_causal h id).1, fun hzero => ?_⟩
    have hkept : (x.cancelOrder id).config = x.config ∧
        (x.cancelOrder id).inflight.Sublist x.inflight := by
      unfold cancelOrder
      split
      · exact ⟨rfl, List.eraseP_sublist⟩
      · exact ⟨rfl, List.Sublist.refl _⟩
    rw [show (x.apply (.cancelOrder id)).config = x.config from hkept.1] at hzero
    exact List.sublist_nil.mp (hinstant hzero ▸ hkept.2)
  | advanceTo timestamp => exact hadvance timestamp
  | onMarketEvent event uuid =>
    obtain ⟨more, hadvanced, hnone⟩ := hadvance event.timestamp
    have hkept := applyEvent_kept (x.advanceTo event.timestamp) event uuid
    refine ⟨more, ?_, fun hzero => ?_⟩
    · show Causal (x.onMarketEvent event uuid) (x.onMarketEvent event uuid).inflight _
      rw [onMarketEvent_eq, hkept.inflight]
      exact (applyEvent_causal hadvanced event uuid).2.1
    · exact hkept.inflight.trans (hnone (hkept.config ▸ hzero))

/-- In every run, orders reach the engine when their time has come, in the order of their
submission, and do nothing before. -/
theorem latency_causality {config : ExchangeConfig} (h : (machine config).Reachable x) :
    x.LatencyCausality := by
  obtain ⟨released, hcausal, hinstant⟩ : ∃ released, Causal x x.inflight released ∧
      (x.config.latencyMs = 0 → x.inflight = []) := by
    refine Machine.Reachable.invariant (I := fun x => ∃ released, Causal x x.inflight released ∧
      (x.config.latencyMs = 0 → x.inflight = [])) ⟨[], causal_empty config, fun _ => rfl⟩ ?_ h
    rintro x op y hstep ⟨released, hcausal, hinstant⟩
    cases hstep
    obtain ⟨more, hnext⟩ := apply_causal hcausal hinstant op
    exact ⟨_, hnext⟩
  exact hcausal.latencyCausality hinstant

/-- Three orders in flight, of which one is cancelled, when the feed jumps over their arrivals. -/
def burst : List Op :=
  [.submitOrder ⟨.buy, 1, .limit, some 99, none, .gtc, none⟩,
    .submitOrder ⟨.buy, 1, .market, none, none, .gtc, none⟩,
    .advanceTo (1 / 2),
    .submitOrder ⟨.buy, 2, .limit, some 98, none, .gtc, none⟩,
    .cancelOrder (paperId 2),
    .onMarketEvent ⟨5, .add, .sell, 100, 10, some "m1"⟩ OrderBook.zeros]

theorem latency_causality_burst :
    ∃ x, (machine oneSecond).exec (empty oneSecond) burst = some x ∧
      x.activations = [(1, paperId 1), (3 / 2, paperId 3)] ∧ x.LatencyCausality := by
  have hrun : ((machine oneSecond).exec (empty oneSecond) burst).map activations =
      some [(1, paperId 1), (3 / 2, paperId 3)] := by
    decide +kernel
  obtain ⟨x, hexec, hlog⟩ := Option.map_eq_some_iff.mp hrun
  exact ⟨x, hexec, hlog, latency_causality ⟨_, Machine.run_of_exec hexec⟩⟩

end PaperExchange

end QuantumSentinel.Exchange
