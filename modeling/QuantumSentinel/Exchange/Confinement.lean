import QuantumSentinel.Exchange.Engine
import QuantumSentinel.Exchange.BookEffects

/-!
# Paper exchange: what an operation can touch

An operation of the book or the engine changes the orders it is about and the orders that are
in the book, and brings no other order into the book.  This holds of every feed, also of one
whose ids collide with each other or with those of paper orders.

Main results:

- Definition `OrderBook.Confined`: the frame of an operation on given orders.
- Theorem `OrderBook.applyMarketEvent_confined`: a feed event is about the book alone.
- Theorem `MatchingEngine.submitOrder_confined` and the ones after it: the operations of
  the engine, with the orders their fill events name.
-/

namespace QuantumSentinel.Exchange

open Lib

/-- What never changes about an order object. -/
def Order.stamp (o : Order) : String × Owner × ℚ × Option ℚ :=
  (o.orderId, o.owner, o.submittedAt, o.activeAt)

namespace OrderBook

variable {b b' b'' : OrderBook} {S S' : Ref → Prop} {r q : Ref} {s : TradeSide} {t : ℤ}

/-- The order is in a queue, or in the index. -/
def Present (b : OrderBook) (q : Ref) : Prop :=
  b.Rests q ∨ ∃ id, b.orders.get? id = some q

/-- The index maps an id to an order with the id, and paper orders are known. -/
structure Registered (b : OrderBook) : Prop where
  index : ∀ id q, b.orders.get? id = some q → q < b.nextRef ∧ (b.heap q).orderId = id
  rests : ∀ q, b.Rests q → q < b.nextRef
  unused : ∀ q, b.nextRef ≤ q → (b.heap q).owner = .market

theorem Registered.present_lt (h : b.Registered) (hq : b.Present q) : q < b.nextRef :=
  hq.elim (h.rests q) fun ⟨id, hget⟩ => (h.index id q hget).1

/-- Of the orders that exist, an operation changes only those of a set and those in the book. -/
structure Confined (S : Ref → Prop) (b b' : OrderBook) : Prop where
  nextRef : b.nextRef ≤ b'.nextRef
  stamp : ∀ q, q < b.nextRef → (b'.heap q).stamp = (b.heap q).stamp
  same : ∀ q, q < b.nextRef → ¬S q → ¬b.Present q → b'.heap q = b.heap q
  present : ∀ q, q < b.nextRef → b'.Present q → S q ∨ b.Present q
  names : b.Registered → b'.Registered
  /-- new orders are feed orders -/
  fresh : ∀ q, b.nextRef ≤ q → q < b'.nextRef → (b'.heap q).owner = .market

namespace Confined

theorem refl (S : Ref → Prop) (b : OrderBook) : Confined S b b where
  nextRef := le_rfl
  stamp := fun _ _ => rfl
  same := fun _ _ _ _ => rfl
  present := fun _ _ h => Or.inr h
  names := id
  fresh := fun _ hle hlt => absurd hlt (not_lt.mpr hle)

theorem trans (h : Confined S b b') (h' : Confined S b' b'') : Confined S b b'' where
  nextRef := h.nextRef.trans h'.nextRef
  stamp := fun q hq => (h'.stamp q (hq.trans_le h.nextRef)).trans (h.stamp q hq)
  same := fun q hq hS hnot => by
    have hnot' : ¬b'.Present q := fun hp => (h.present q hq hp).elim hS hnot
    exact (h'.same q (hq.trans_le h.nextRef) hS hnot').trans (h.same q hq hS hnot)
  present := fun q hq hp =>
    (h'.present q (hq.trans_le h.nextRef) hp).elim Or.inl (h.present q hq)
  names := fun hn => h'.names (h.names hn)
  fresh := fun q hle hlt => by
    by_cases hmid : q < b'.nextRef
    · have howner := congrArg (fun p => p.2.1) (h'.stamp q hmid)
      exact howner.trans (h.fresh q hle hmid)
    · exact h'.fresh q (not_lt.mp hmid) hlt

/-- Orders of the book need not be in the set. -/
theorem absorb (h : Confined S' b b') (hS : ∀ q, S' q → S q ∨ b.Present q) : Confined S b b' where
  nextRef := h.nextRef
  stamp := h.stamp
  same := fun q hq hnot hout => h.same q hq (fun hin => (hS q hin).elim hnot hout) hout
  present := fun q hq hp => (h.present q hq hp).elim (hS q) Or.inr
  names := h.names
  fresh := h.fresh

/-- Orders change that are in the set or in the book. -/
theorem heap {heap : Heap} (hstamp : ∀ q, (heap q).stamp = (b.heap q).stamp)
    (hsame : ∀ q, ¬S q → ¬b.Present q → heap q = b.heap q) : Confined S b (b.withHeap heap) where
  nextRef := le_rfl
  stamp := fun q _ => hstamp q
  same := fun q _ => hsame q
  present := fun q _ hp => Or.inr <| hp.imp (fun ⟨s, t, hmem⟩ => ⟨s, t, by
    rwa [queue_withHeap] at hmem⟩) id
  names := fun hn =>
    ⟨fun id q hget => ⟨(hn.index id q hget).1,
        (congrArg Prod.fst (hstamp q)).trans (hn.index id q hget).2⟩,
      fun q ⟨s, t, hmem⟩ => hn.rests q ⟨s, t, by rwa [queue_withHeap] at hmem⟩,
      fun q hq => (congrArg (fun p => p.2.1) (hstamp q)).trans (hn.unused q hq)⟩
  fresh := fun _ hle hlt => absurd hlt (not_lt.mpr hle)

/-- One order changes. -/
theorem modify {f : Order → Order} (hr : S r ∨ b.Present r)
    (hstamp : (f (b.heap r)).stamp = (b.heap r).stamp) : Confined S b (b.modify r f) := by
  refine heap (fun q => ?_) fun q hS hnot => ?_
  · by_cases hq : q = r
    · rw [hq, Function.update_self, hstamp]
    · rw [Function.update_of_ne hq]
  · refine Function.update_of_ne ?_ ..
    rintro rfl
    exact hr.elim hS hnot

/-- A level is replaced by one with orders of the book. -/
theorem setLevel {level : LevelQueue} (h : ∀ q ∈ level.orders, b.Present q) :
    Confined S b (b.setLevel s t level) where
  nextRef := by rw [nextRef_setLevel]
  stamp := fun q _ => by rw [heap_setLevel]
  same := fun q _ _ _ => by rw [heap_setLevel]
  present := fun q _ hp => by
    rcases hp with ⟨s', t', hmem⟩ | ⟨id, hget⟩
    · rw [queue_setLevel] at hmem
      split at hmem
      · exact Or.inr (h q hmem)
      · exact Or.inr (Or.inl ⟨s', t', hmem⟩)
    · rw [orders_setLevel] at hget
      exact Or.inr (Or.inr ⟨id, hget⟩)
  names := fun hn =>
    ⟨fun id q hget => by
        rw [orders_setLevel] at hget
        rw [nextRef_setLevel, heap_setLevel]
        exact hn.index id q hget,
      fun q ⟨s', t', hmem⟩ => by
        rw [queue_setLevel] at hmem
        rw [nextRef_setLevel]
        split at hmem
        · exact hn.present_lt (h q hmem)
        · exact hn.rests q ⟨s', t', hmem⟩,
      fun q hq => by
        rw [nextRef_setLevel] at hq
        rw [heap_setLevel]
        exact hn.unused q hq⟩
  fresh := fun q hle hlt => absurd hlt (not_lt.mpr (by rwa [nextRef_setLevel]))

/-- The books differ in neither orders nor queues. -/
theorem congr (hqueue : ∀ s t, b'.queue s t = b.queue s t) (hheap : b'.heap = b.heap)
    (hnext : b'.nextRef = b.nextRef) (horders : b'.orders = b.orders) : Confined S b b' where
  nextRef := hnext.ge
  stamp := fun q _ => by rw [hheap]
  same := fun q _ _ _ => by rw [hheap]
  present := fun q _ hp => Or.inr <| hp.imp (fun ⟨s, t, hmem⟩ => ⟨s, t, hqueue s t ▸ hmem⟩)
    fun ⟨id, hget⟩ => ⟨id, horders ▸ hget⟩
  names := fun hn =>
    ⟨fun id q hget => by
        rw [hnext, hheap]
        exact hn.index id q (horders ▸ hget),
      fun q ⟨s, t, hmem⟩ => by
        rw [hnext]
        exact hn.rests q ⟨s, t, hqueue s t ▸ hmem⟩,
      fun q hq => by
        rw [hnext] at hq
        rw [hheap]
        exact hn.unused q hq⟩
  fresh := fun _ hle hlt => absurd (hnext ▸ hlt) (not_lt.mpr hle)

end Confined

/-- A level that is pruned loses orders, and its paper orders move up. -/
theorem prune_confined (S : Ref → Prop) (b : OrderBook) (s : TradeSide) (t : ℤ) :
    Confined S b (b.prune s t) where
  nextRef := by rw [nextRef_prune]
  stamp := fun q _ => by
    have hsans := heap_prune_sansQueue (b := b) (s := s) (t := t) q
    have hstamp : ((b.prune s t).heap q).sansQueue.stamp = (b.heap q).sansQueue.stamp :=
      congrArg Order.stamp hsans
    exact hstamp
  same := fun q _ _ hnot => by
    unfold prune
    cases hl : b.level? s t with
    | none => rfl
    | some level =>
      have hmem : q ∉ level.orders.filter fun r => (b.heap r).isLive := fun hmem =>
        hnot (Or.inl ⟨s, t, queue_of_level hl ▸ List.mem_of_mem_filter hmem⟩)
      have hkept := refreshFrom_of_notMem 0 b.heap hmem
      simp only
      split
      · rw [heap_setSide]
        exact hkept
      · rw [heap_setLevel]
        exact hkept
  present := fun q _ hp => by
    refine Or.inr ?_
    rcases hp with ⟨s', t', hmem⟩ | ⟨id, hget⟩
    · rw [queue_prune] at hmem
      split at hmem
      · exact Or.inl ⟨s, t, List.mem_of_mem_filter hmem⟩
      · exact Or.inl ⟨s', t', hmem⟩
    · rw [orders_prune, forgetDead_get?] at hget
      split at hget
      · cases hget
      · exact Or.inr ⟨id, hget⟩
  names := fun hn => by
    have hsans := fun q => heap_prune_sansQueue (b := b) (s := s) (t := t) q
    refine ⟨fun id q hget => ?_, fun q hrests => ?_, fun q hq => ?_⟩
    · rw [orders_prune, forgetDead_get?] at hget
      split at hget
      · cases hget
      · rw [nextRef_prune]
        exact ⟨(hn.index id q hget).1,
          (congrArg Order.orderId (hsans q)).trans (hn.index id q hget).2⟩
    · obtain ⟨s', t', hmem⟩ := hrests
      rw [queue_prune] at hmem
      rw [nextRef_prune]
      split at hmem
      · exact hn.rests q ⟨s, t, List.mem_of_mem_filter hmem⟩
      · exact hn.rests q ⟨s', t', hmem⟩
    · rw [nextRef_prune] at hq
      exact (congrArg Order.owner (hsans q)).trans (hn.unused q hq)
  fresh := fun q hle hlt => absurd hlt (not_lt.mpr (by rwa [nextRef_prune]))

/-- An order that comes to rest enters a queue and the index. -/
theorem addOrder_confined (hr : S r) (hknown : r < b.nextRef) (now : ℚ) :
    Confined S b (b.addOrder r now) := by
  cases hlimit : (b.heap r).limitPrice with
  | none =>
    have hsame : b.addOrder r now = b := by simp only [addOrder, hlimit]
    rw [hsame]
    exact Confined.refl S b
  | some limit =>
    have hheap := heap_addOrder now hlimit
    have hstamp : ∀ q, ((b.addOrder r now).heap q).stamp = (b.heap q).stamp := fun q => by
      rw [hheap]
      by_cases hq : q = r
      · rw [hq, Function.update_self]
        rfl
      · rw [Function.update_of_ne hq]
    have hnext := nextRef_addOrder (b := b) r now
    refine ⟨hnext.ge, fun q _ => hstamp q, ?_, ?_, ?_, ?_⟩
    · intro q _ hS _
      rw [hheap]
      refine Function.update_of_ne ?_ ..
      rintro rfl
      exact hS hr
    · rintro q - (⟨s, t, hmem⟩ | ⟨id, hget⟩)
      · rw [queue_addOrder now hlimit] at hmem
        split at hmem
        · rcases List.mem_append.mp hmem with hold | hnew
          · exact Or.inr (Or.inl ⟨_, _, hold⟩)
          · rw [List.mem_singleton.mp hnew]
            exact Or.inl hr
        · exact Or.inr (Or.inl ⟨s, t, hmem⟩)
      · rw [orders_addOrder now hlimit, Dict.get?_set] at hget
        split at hget
        · cases hget
          exact Or.inl hr
        · exact Or.inr (Or.inr ⟨id, hget⟩)
    · intro hn
      refine ⟨fun id q hget => ?_, fun q hrests => ?_, fun q hq => ?_⟩
      · rw [orders_addOrder now hlimit, Dict.get?_set] at hget
        rw [hnext, show ((b.addOrder r now).heap q).orderId = (b.heap q).orderId from
          congrArg Prod.fst (hstamp q)]
        split at hget
        · rename_i hid
          cases hget
          exact ⟨hknown, hid.symm⟩
        · exact hn.index id q hget
      · obtain ⟨s, t, hmem⟩ := hrests
        rw [queue_addOrder now hlimit] at hmem
        rw [hnext]
        split at hmem
        · rcases List.mem_append.mp hmem with hold | hnew
          · exact hn.rests q ⟨_, _, hold⟩
          · rw [List.mem_singleton.mp hnew]
            exact hknown
        · exact hn.rests q ⟨s, t, hmem⟩
      · rw [hnext] at hq
        exact (congrArg (fun p => p.2.1) (hstamp q)).trans (hn.unused q hq)
    · exact fun q hle hlt => absurd (hnext ▸ hlt) (not_lt.mpr hle)

/-! ## Sweeps -/

/-- The hits of a sweep leave what never changes about an order. -/
def Sweeper.Stamps (k : Sweeper) : Prop :=
  ∀ price quantity o, (k.hit price quantity o).stamp = o.stamp

theorem aggressorSweep_stamps (skipPaper : Bool) (timestamp : ℚ) :
    (aggressorSweep skipPaper timestamp).Stamps := fun _ _ _ => rfl

theorem printSweep_stamps (timestamp : ℚ) : (printSweep timestamp).Stamps := fun _ _ o => by
  cases howner : o.owner with
  | paper => simp only [printSweep, howner]; rfl
  | market => simp only [printSweep, howner, Order.stamp]

/-- A sweep over one level changes orders of the level; what it reports is a fill of one. -/
theorem walkLevel_spec {k : Sweeper} (hk : k.Stamps) (price : ℚ) (orders : List Ref) (heap : Heap)
    (remaining : ℚ) :
    (∀ q, ((walkLevel k price orders heap remaining).heap q).stamp = (heap q).stamp) ∧
    (∀ q, q ∉ orders → (walkLevel k price orders heap remaining).heap q = heap q) ∧
    ∀ f ∈ (walkLevel k price orders heap remaining).fills, ∃ q ∈ orders, ∃ o : Order,
      o.stamp = (heap q).stamp ∧ k.reports o = true ∧ f.orderId = o.orderId := by
  induction orders generalizing heap remaining with
  | nil => exact ⟨fun _ => rfl, fun _ _ => rfl, fun f hf => (by cases hf)⟩
  | cons r rest ih =>
    have hskip : ∀ {run : LevelRun} {h : Heap},
        ((∀ q, (run.heap q).stamp = (h q).stamp) ∧ (∀ q, q ∉ rest → run.heap q = h q) ∧
          ∀ f ∈ run.fills, ∃ q ∈ rest, ∃ o : Order,
            o.stamp = (h q).stamp ∧ k.reports o = true ∧ f.orderId = o.orderId) →
        (∀ q, (run.heap q).stamp = (h q).stamp) ∧ (∀ q, q ∉ r :: rest → run.heap q = h q) ∧
          ∀ f ∈ run.fills, ∃ q ∈ r :: rest, ∃ o : Order,
            o.stamp = (h q).stamp ∧ k.reports o = true ∧ f.orderId = o.orderId := by
      rintro run h ⟨hstamp, hsame, hfills⟩
      refine ⟨hstamp, fun q hq => hsame q fun hmem => hq (List.mem_cons_of_mem r hmem), ?_⟩
      intro f hf
      obtain ⟨q, hq, hrest⟩ := hfills f hf
      exact ⟨q, List.mem_cons_of_mem r hq, hrest⟩
    simp only [walkLevel]
    split
    · exact ⟨fun _ => rfl, fun _ _ => rfl, fun f hf => (by cases hf)⟩
    · split
      · exact hskip (ih heap remaining)
      · split
        · exact hskip (ih heap remaining)
        · have hhit := hk price (min remaining (heap r).remainingQuantity) (heap r)
          generalize min remaining (heap r).remainingQuantity = quantity at hhit ⊢
          generalize ho : k.hit price quantity (heap r) = o at hhit ⊢
          have hrest := hskip (ih (Function.update heap r o) (remaining - quantity))
          have hupdate : ∀ q, (Function.update heap r o q).stamp = (heap q).stamp := fun q => by
            by_cases hq : q = r
            · rw [hq, Function.update_self, hhit]
            · rw [Function.update_of_ne hq]
          have hstamp := fun q => (hrest.1 q).trans (hupdate q)
          have hsame : ∀ q, q ∉ r :: rest → (walkLevel k price rest (Function.update heap r o)
              (remaining - quantity)).heap q = heap q := fun q hq => by
            rw [hrest.2.1 q hq]
            refine Function.update_of_ne ?_ ..
            rintro rfl
            exact hq (List.mem_cons_self ..)
          have hfills : ∀ f ∈ (walkLevel k price rest (Function.update heap r o)
              (remaining - quantity)).fills, ∃ q ∈ r :: rest, ∃ o : Order,
                o.stamp = (heap q).stamp ∧ k.reports o = true ∧ f.orderId = o.orderId := by
            intro f hf
            obtain ⟨q, hq, o', hstamp', hreports⟩ := hrest.2.2 f hf
            exact ⟨q, hq, o', hstamp'.trans (hupdate q), hreports⟩
          split
          · rename_i hreports
            refine ⟨hstamp, hsame, fun f hf => ?_⟩
            rcases List.mem_cons.mp hf with rfl | hlater
            · exact ⟨r, List.mem_cons_self .., o, hhit, hreports, rfl⟩
            · exact hfills f hlater
          · exact ⟨hstamp, hsame, hfills⟩

/-- A sweep touches the book alone, and what it reports are fills of orders of the book. -/
theorem walk_confined {k : Sweeper} (hk : k.Stamps) (S : Ref → Prop) (passive : TradeSide)
    (beyond : ℤ → Bool) (ticks : List ℤ) (b : OrderBook) (remaining : ℚ) :
    Confined S b (walk k passive beyond ticks b remaining).book ∧
    ∀ f ∈ (walk k passive beyond ticks b remaining).fills, ∃ q, b.Rests q ∧ ∃ o : Order,
      o.stamp = (b.heap q).stamp ∧ k.reports o = true ∧ f.orderId = o.orderId := by
  induction ticks generalizing b remaining with
  | nil => exact ⟨Confined.refl S b, fun f hf => (by cases hf)⟩
  | cons t rest ih =>
    simp only [walk]
    split
    · exact ⟨Confined.refl S b, fun f hf => (by cases hf)⟩
    · split
      · exact ⟨Confined.refl S b, fun f hf => (by cases hf)⟩
      · rename_i level hlevel
        obtain ⟨hstamp, hsame, hfills⟩ :=
          walkLevel_spec hk level.price level.orders b.heap remaining
        generalize walkLevel k level.price level.orders b.heap remaining = run
          at hstamp hsame hfills ⊢
        have hqueue := queue_of_level hlevel
        have hwalked : Confined S b (b.withHeap run.heap) := Confined.heap hstamp
          fun q _ hnot => hsame q fun hmem => hnot (Or.inl ⟨passive, t, hqueue ▸ hmem⟩)
        have hpruned := hwalked.trans (prune_confined S _ passive t)
        obtain ⟨hlater, hmore⟩ := ih ((b.withHeap run.heap).prune passive t) run.remaining
        refine ⟨hpruned.trans hlater, fun f hf => ?_⟩
        rcases List.mem_append.mp hf with hnow | hthen
        · obtain ⟨q, hq, o, ho⟩ := hfills f hnow
          exact ⟨q, ⟨passive, t, hqueue ▸ hq⟩, o, ho⟩
        · obtain ⟨q, ⟨s', t', hq⟩, o, ho, hreports⟩ := hmore f hthen
          rw [queue_prune] at hq
          have hrests : b.Rests q := by
            split at hq
            · have hmem := List.mem_of_mem_filter hq
              rw [queue_withHeap] at hmem
              exact ⟨passive, t, hmem⟩
            · rw [queue_withHeap] at hq
              exact ⟨s', t', hq⟩
          refine ⟨q, hrests, o, ho.trans ?_, hreports⟩
          have hsans : ((b.withHeap run.heap).prune passive t |>.heap q).sansQueue.stamp =
              ((b.withHeap run.heap).heap q).sansQueue.stamp :=
            congrArg Order.stamp (heap_prune_sansQueue q)
          exact hsans.trans (hstamp q)

/-- An aggressor touches the book alone. -/
theorem consumeLiquidity_confined (S : Ref → Prop) (b : OrderBook) (aggressor : TradeSide)
    (quantity timestamp : ℚ) (limitPrice : Option ℚ) (skipPaper : Bool) :
    Confined S b (b.consumeLiquidity aggressor quantity timestamp limitPrice skipPaper).1 := by
  have hwalk := (walk_confined (aggressorSweep_stamps skipPaper timestamp) S aggressor.opposite
    (b.beyondLimit aggressor limitPrice) (b.bestFirst aggressor) b quantity).1
  simp only [consumeLiquidity]
  split
  · exact hwalk
  · exact hwalk.trans (Confined.congr (fun s t => queue_congr (by cases s <;> rfl)) rfl rfl rfl)

/-! ## Feed events -/

/-- A new order is not in the index, and no order of the book is new. -/
theorem Registered.alloc (h : b.Registered) {o : Order} : (b.alloc o).Registered where
  index := fun id q hget => by
    obtain ⟨hlt, hid⟩ := h.index id q hget
    exact ⟨hlt.trans (Nat.lt_succ_self _),
      (congrArg Order.orderId (Function.update_of_ne hlt.ne ..)).trans hid⟩
  rests := fun q ⟨s, t, hmem⟩ => by
    rw [queue_alloc] at hmem
    exact (h.rests q ⟨s, t, hmem⟩).trans (Nat.lt_succ_self _)
  unused := fun q hq => by
    have hlt : b.nextRef < q := hq
    exact (congrArg Order.owner (Function.update_of_ne hlt.ne' ..)).trans (h.unused q hlt.le)

/-- A new feed order touches no order that exists. -/
theorem insertFeed_confined (S : Ref → Prop) (b : OrderBook) (event : BookEvent) (uuid : HexId)
    (quantity limit : ℚ) : Confined S b (b.insertFeed event uuid quantity limit) := by
  have hadd := addOrder_confined (b := b.alloc (b.feedOrder event uuid quantity limit))
    (S := fun q => q = b.nextRef) rfl (Nat.lt_succ_self _) event.timestamp
  have hheap : ∀ q, q ≠ b.nextRef →
      (b.alloc (b.feedOrder event uuid quantity limit)).heap q = b.heap q := fun q hq =>
    Function.update_of_ne hq ..
  have hold : ∀ q, (b.alloc (b.feedOrder event uuid quantity limit)).Present q ↔ b.Present q :=
    fun q => by simp only [Present, Rests, queue_alloc, orders_alloc]
  refine ⟨(Nat.le_succ _).trans hadd.nextRef, fun q hq => ?_, fun q hq _ hnot => ?_,
    fun q hq hp => ?_, fun hn => hadd.names hn.alloc, fun q hle hlt => ?_⟩
  · rw [← hheap q hq.ne]
    exact hadd.stamp q (hq.trans (Nat.lt_succ_self _))
  · rw [← hheap q hq.ne]
    exact hadd.same q (hq.trans (Nat.lt_succ_self _)) hq.ne fun hp => hnot ((hold q).mp hp)
  · refine Or.inr ((hold q).mp ?_)
    exact (hadd.present q (hq.trans (Nat.lt_succ_self _)) hp).resolve_left hq.ne
  · have hnext : (b.insertFeed event uuid quantity limit).nextRef = b.nextRef + 1 :=
      nextRef_addOrder ..
    rw [hnext] at hlt
    have hq : q = b.nextRef := le_antisymm (Nat.lt_succ_iff.mp hlt) hle
    have hstamp := congrArg (fun p => p.2.1) (hadd.stamp q (hq ▸ Nat.lt_succ_self _))
    refine hstamp.trans ?_
    have hself : (b.alloc (b.feedOrder event uuid quantity limit)).heap b.nextRef =
        b.feedOrder event uuid quantity limit := Function.update_self ..
    show ((b.alloc (b.feedOrder event uuid quantity limit)).heap q).owner = .market
    rw [hq, hself]
    rfl

theorem applyAdd_confined (S : Ref → Prop) (b : OrderBook) (event : BookEvent) (uuid : HexId) :
    Confined S b (b.applyAdd event uuid) := by
  unfold applyAdd
  split
  · exact insertFeed_confined S b event uuid _ _
  · exact Confined.refl S b

/-- A known order that changes is in the book. -/
theorem changeKnown_confined (S : Ref → Prop) (event : BookEvent) {level : LevelQueue}
    (hlevel : b.level? event.side t = some level) (hr : r ∈ level.orders) :
    Confined S b (b.changeKnown event t level r) := by
  have hqueue := queue_of_level hlevel
  have hpresent : b.Present r := Or.inl ⟨event.side, t, hqueue ▸ hr⟩
  have hresize : Confined S b (b.modify r (resize event.size)) :=
    Confined.modify (Or.inr hpresent) rfl
  unfold changeKnown
  split
  · exact Confined.modify (Or.inr hpresent) rfl
  · split
    · exact hresize
    · refine hresize.trans (Confined.setLevel fun q hq => ?_)
      have hmem : q ∈ level.orders := by
        rcases List.mem_append.mp hq with hkept | hlast
        · exact List.mem_of_mem_eraseP hkept
        · exact List.mem_singleton.mp hlast ▸ hr
      refine Or.inl ⟨event.side, t, ?_⟩
      rw [queue_modify, hqueue]
      exact hmem

/-- Orders of the book that shrink. -/
theorem reduceMarket_confined (S : Ref → Prop) (b : OrderBook) {level : LevelQueue}
    (hlevel : b.level? s t = some level) (amount : ℚ) :
    Confined S b (b.reduceMarket level amount) := by
  have hfold : ∀ (share : ℚ) (refs : List Ref) (c : OrderBook), (∀ q ∈ refs, c.Present q) →
      Confined S c (refs.foldl (fun c r => c.modify r (shrink share)) c) := by
    intro share refs
    induction refs with
    | nil => exact fun c _ => Confined.refl S c
    | cons q rest ih =>
      intro c hpresent
      refine Confined.trans (Confined.modify (Or.inr (hpresent q (List.mem_cons_self ..))) rfl)
        (ih (c.modify q (shrink share)) fun p hp => ?_)
      exact (hpresent p (List.mem_cons_of_mem q hp)).imp_left
        (rests_modify q p (shrink share)).mpr
  unfold reduceMarket
  simp only
  split
  · exact Confined.refl S b
  · refine hfold _ _ b fun q hq => Or.inl ⟨s, t, ?_⟩
    rw [queue_of_level hlevel]
    exact List.mem_of_mem_filter hq

theorem changeAggregated_confined (S : Ref → Prop) (event : BookEvent) (uuid : HexId)
    {level : LevelQueue} (hlevel : b.level? s t = some level) :
    Confined S b (b.changeAggregated event uuid level) := by
  unfold changeAggregated
  simp only
  split
  · exact reduceMarket_confined S b hlevel _
  · split
    · exact insertFeed_confined S b event uuid _ _
    · exact Confined.refl S b

theorem applyChange_confined (S : Ref → Prop) (b : OrderBook) (event : BookEvent) (uuid : HexId) :
    Confined S b (b.applyChange event uuid) := by
  unfold applyChange
  simp only
  split
  · split
    · exact applyAdd_confined S b event uuid
    · exact Confined.refl S b
  · rename_i level hlevel
    split
    · rename_i r hr
      have hmem : r ∈ level.orders := by
        have hfound := (Option.mem_filter_iff.mp hr).2
        rw [Bool.and_eq_true, decide_eq_true_eq] at hfound
        exact hfound.2
      exact (changeKnown_confined S event hlevel hmem).trans (prune_confined S _ _ _)
    · exact (changeAggregated_confined S event uuid hlevel).trans (prune_confined S _ _ _)

/-- A print touches the book alone, and reports fills of paper orders that rested. -/
theorem applyTrade_confined (S : Ref → Prop) (b : OrderBook) (event : BookEvent) :
    Confined S b (b.applyTrade event).1 ∧
    ∀ f ∈ (b.applyTrade event).2, ∃ q, b.Rests q ∧ (b.heap q).owner = .paper ∧
      f.orderId = (b.heap q).orderId := by
  have hwalk := walk_confined (printSweep_stamps event.timestamp) S event.side.opposite
    (fun _ => false) (b.tradePath event) { b with
      lastTradePrice := some (b.grid.fromTicks (b.grid.toTicks event.price))
      lastTradeSize := some event.size } event.size
  have hqueue : ∀ s t, OrderBook.queue { b with
      lastTradePrice := some (b.grid.fromTicks (b.grid.toTicks event.price))
      lastTradeSize := some event.size } s t = b.queue s t := fun s t =>
    queue_congr (by cases s <;> rfl)
  refine ⟨(Confined.congr hqueue rfl rfl rfl).trans hwalk.1, fun f hf => ?_⟩
  obtain ⟨q, ⟨s, t, hq⟩, o, ho, hpaper, hid⟩ := hwalk.2 f hf
  refine ⟨q, ⟨s, t, hqueue s t ▸ hq⟩, ?_, hid.trans (congrArg Prod.fst ho)⟩
  have howner : o.owner = (b.heap q).owner := congrArg (fun p => p.2.1) ho
  rw [← howner]
  exact of_decide_eq_true hpaper

/-- A feed event touches the book alone, and reports fills of paper orders that rested. -/
theorem applyMarketEvent_confined (S : Ref → Prop) (b : OrderBook) (event : BookEvent)
    (uuid : HexId) :
    Confined S b (b.applyMarketEvent event uuid).1 ∧
    ∀ f ∈ (b.applyMarketEvent event uuid).2, ∃ q, b.Rests q ∧ (b.heap q).owner = .paper ∧
      f.orderId = (b.heap q).orderId := by
  have hqueue : ∀ s t, OrderBook.queue { b with lastEventTime := event.timestamp } s t =
      b.queue s t := fun s t => queue_congr (by cases s <;> rfl)
  have hstart : Confined S b { b with lastEventTime := event.timestamp } :=
    Confined.congr hqueue rfl rfl rfl
  unfold applyMarketEvent
  simp only
  split
  · exact ⟨hstart.trans (applyAdd_confined S _ event uuid), fun f hf => (by cases hf)⟩
  · exact ⟨hstart.trans (applyChange_confined S _ event uuid), fun f hf => (by cases hf)⟩
  · exact ⟨hstart.trans (applyChange_confined S _ event uuid), fun f hf => (by cases hf)⟩
  · obtain ⟨hconfined, hfills⟩ :=
      applyTrade_confined S { b with lastEventTime := event.timestamp } event
    refine ⟨hstart.trans hconfined, fun f hf => ?_⟩
    obtain ⟨q, ⟨s, t, hq⟩, hrest⟩ := hfills f hf
    exact ⟨q, ⟨s, t, hqueue s t ▸ hq⟩, hrest⟩

/-- A cancel touches the book alone. -/
theorem cancelOrder_confined (S : Ref → Prop) (b : OrderBook) (id : String) :
    Confined S b (b.cancelOrder id).1 := by
  unfold cancelOrder
  cases hfound : b.cancellable id with
  | none => exact Confined.refl S b
  | some found =>
    obtain ⟨r, limit⟩ := found
    have hpresent : b.Present r := Or.inr ⟨id, (cancellable_spec hfound).1⟩
    have hmarked : Confined S b (b.modify r (withStatus .cancelled)) :=
      Confined.modify (Or.inr hpresent) rfl
    simp only
    split
    · exact hmarked
    · rename_i level hlevel
      refine (hmarked.trans (Confined.setLevel fun q hq => ?_)).trans
        (prune_confined S _ _ _)
      exact Or.inl ⟨_, _, queue_of_level hlevel ▸ List.mem_of_mem_eraseP hq⟩

end OrderBook

/-! ## Events -/

/-- The event is no submission; a fill event is one of a paper order that the operation is
about or that is in the book. -/
def OrderBook.FillsFrom (S : Ref → Prop) (b : OrderBook) (event : ExchangeEvent) : Prop :=
  event.eventType ≠ .orderSubmitted ∧
    (event.eventType.isFill = true → ∃ q, (S q ∨ b.Present q) ∧ (b.heap q).owner = .paper ∧
      event.orderId = some (b.heap q).orderId)

/-- An operation of the book on given orders, with its events. -/
structure OrderBook.Handled (S : Ref → Prop) (b : OrderBook)
    (result : OrderBook × List ExchangeEvent) : Prop where
  confined : Confined S b result.1
  events : ∀ event ∈ result.2, FillsFrom S b event

namespace OrderBook

variable {b b' : OrderBook} {S : Ref → Prop} {r : Ref} {now : ℚ}

theorem fillsFrom_orderEvent (S : Ref → Prop) (b : OrderBook) (now : ℚ)
    {eventType : ExchangeEventType} (o : Order) (details : EventDetails)
    (hfill : eventType.isFill = false) (hsubmitted : eventType ≠ .orderSubmitted) :
    FillsFrom S b (orderEvent now eventType o details) := by
  refine ⟨hsubmitted, fun h => ?_⟩
  have htype : eventType.isFill = true := h
  rw [hfill] at htype
  cases htype

theorem fillsFrom_fillEvent {q : Ref} (hq : S q ∨ b.Present q) (hpaper : (b.heap q).owner = .paper)
    {o : Order} (hid : o.orderId = (b.heap q).orderId) (price quantity now : ℚ) (aggressor : Bool) :
    FillsFrom S b (fillEvent o price quantity now aggressor) := by
  refine ⟨?_, fun _ => ⟨q, hq, hpaper, congrArg some hid⟩⟩
  unfold fillEvent
  split <;> exact fun h => by cases h

/-- A fill after an operation is a fill of an order from before it. -/
theorem FillsFrom.back {event : ExchangeEvent} (h : FillsFrom S b' event)
    (hconfined : Confined S b b') (hnames : b.Registered) : FillsFrom S b event := by
  refine ⟨h.1, fun hfill => ?_⟩
  obtain ⟨q, hq, hpaper, hid⟩ := h.2 hfill
  have hlt : q < b.nextRef := by
    by_contra hnot
    by_cases hnew : q < b'.nextRef
    · rw [hconfined.fresh q (not_lt.mp hnot) hnew] at hpaper
      cases hpaper
    · rw [(hconfined.names hnames).unused q (not_lt.mp hnew)] at hpaper
      cases hpaper
  have hstamp := hconfined.stamp q hlt
  have howner : (b'.heap q).owner = (b.heap q).owner := congrArg (fun p => p.2.1) hstamp
  have hname : (b'.heap q).orderId = (b.heap q).orderId := congrArg Prod.fst hstamp
  exact ⟨q, hq.elim Or.inl (hconfined.present q hlt), howner ▸ hpaper, hname ▸ hid⟩

/-- Two operations, one after the other. -/
theorem Handled.append {result result' : OrderBook × List ExchangeEvent} (h : Handled S b result)
    (h' : Handled S result.1 result') (hnames : b.Registered) :
    Handled S b (result'.1, result.2 ++ result'.2) where
  confined := h.confined.trans h'.confined
  events := fun event hevent => (List.mem_append.mp hevent).elim (h.events event) fun hlater =>
    (h'.events event hlater).back h.confined hnames

/-- An operation without events. -/
theorem Handled.of_confined (h : Confined S b b') : Handled S b (b', []) :=
  ⟨h, fun event hevent => (by cases hevent)⟩

/-- An order whose status changes, and the event that says so. -/
theorem handled_status (hr : S r) (status : OrderStatus) (now : ℚ)
    (eventType : ExchangeEventType) (o : Order) (details : EventDetails) (hfill : eventType.isFill = false)
    (hsubmitted : eventType ≠ .orderSubmitted) :
    Handled S b (b.modify r (withStatus status), [orderEvent now eventType o details]) where
  confined := Confined.modify (Or.inl hr) rfl
  events := fun event hevent => by
    rw [List.mem_singleton.mp hevent]
    exact fillsFrom_orderEvent S b now o details hfill hsubmitted

/-! ## Executions -/

/-- What an execution of one order needs to know of it. -/
structure Executable (S : Ref → Prop) (b : OrderBook) (r : Ref) : Prop where
  about : S r
  known : ∀ q, S q → q < b.nextRef
  paper : (b.heap r).owner = .paper
  names : b.Registered

theorem Executable.next (h : Executable S b r) (hconfined : Confined S b b') :
    Executable S b' r where
  about := h.about
  known := fun q hq => (h.known q hq).trans_le hconfined.nextRef
  paper := (congrArg (fun p => p.2.1) (hconfined.stamp r (h.known r h.about))).trans h.paper
  names := hconfined.names h.names

/-- The next operation on the same order. -/
theorem Handled.bind {result result' : OrderBook × List ExchangeEvent} (h : Handled S b result)
    (hexec : Executable S b r) (h' : Executable S result.1 r → Handled S result.1 result') :
    Handled S b (result'.1, result.2 ++ result'.2) :=
  h.append (h' (hexec.next h.confined)) hexec.names

theorem recordFills_handled (h : Executable S b r) (now : ℚ) (fills : List Fill) :
    Handled S b (recordFills r now fills b) := by
  induction fills generalizing b with
  | nil => exact Handled.of_confined (Confined.refl S b)
  | cons fill rest ih =>
    have hfilled : Confined S b
        (b.modify r (Order.recordFill fill.fillPrice fill.fillQuantity now)) :=
      Confined.modify (Or.inl h.about) rfl
    have hrest := ih (h.next hfilled)
    simp only [recordFills]
    refine ⟨hfilled.trans hrest.confined, fun event hevent => ?_⟩
    rcases List.mem_cons.mp hevent with rfl | hlater
    · exact fillsFrom_fillEvent (Or.inl h.about) h.paper
        (congrArg Prod.fst (hfilled.stamp r (h.known r h.about))) _ _ _ _
    · exact (hrest.events event hlater).back hfilled h.names

theorem take_handled (h : Executable S b r) (now : ℚ) (limitPrice : Option ℚ) :
    Handled S b (b.take r now limitPrice) := by
  have htaken := consumeLiquidity_confined S b (b.heap r).side (b.heap r).remainingQuantity now
    limitPrice true
  have hrecorded := recordFills_handled (h.next htaken) now
    (b.consumeLiquidity (b.heap r).side (b.heap r).remainingQuantity now limitPrice true).2
  exact ⟨htaken.trans hrecorded.confined, fun event hevent =>
    (hrecorded.events event hevent).back htaken h.names⟩

theorem executeMarketOrder_handled (h : Executable S b r) (now : ℚ) :
    Handled S b (b.executeMarketOrder r now) := by
  have htaken := take_handled h now none
  unfold executeMarketOrder
  dsimp only
  split
  · exact htaken.append (handled_status h.about .rejected now _ _ _ rfl (fun hf => by cases hf))
      h.names
  · split
    · exact htaken.append (handled_status h.about .cancelled now _ _ _ rfl (fun hf => by cases hf))
        h.names
    · exact htaken

theorem restRemainder_handled (h : Executable S b r) (now : ℚ) :
    Handled S b (b.restRemainder r now) := by
  unfold restRemainder
  dsimp only
  split
  · exact Handled.of_confined (Confined.refl S b)
  · split
    · exact handled_status h.about .cancelled now _ _ _ rfl (fun hf => by cases hf)
    · refine ⟨addOrder_confined h.about (h.known r h.about) now, fun event hevent => ?_⟩
      rw [List.mem_singleton.mp hevent]
      exact fillsFrom_orderEvent S b now _ _ rfl (fun hf => by cases hf)

theorem executeLimitOrder_handled (h : Executable S b r) (now : ℚ) :
    Handled S b (b.executeLimitOrder r now) := by
  unfold executeLimitOrder
  dsimp only
  split
  · exact handled_status h.about .rejected now _ _ _ rfl (fun hf => by cases hf)
  · split
    · exact (take_handled h now _).bind h fun hnext => restRemainder_handled hnext now
    · exact (Handled.of_confined (Confined.refl S b)).bind h fun hnext =>
        restRemainder_handled hnext now

end OrderBook

/-! ## The engine -/

namespace MatchingEngine

open OrderBook

variable {m : MatchingEngine} {S : Ref → Prop} {r : Ref}

/-- An operation of the engine on given orders, with its events. -/
structure Handled (S : Ref → Prop) (m : MatchingEngine)
    (result : MatchingEngine × List ExchangeEvent) : Prop where
  confined : Confined S m.book result.1.book
  events : ∀ event ∈ result.2, FillsFrom S m.book event
  stops : ∀ q ∈ result.1.pendingStops, S q ∨ q ∈ m.pendingStops
  log : result.1.eventLog = m.eventLog ++ result.2

/-- The stops of the engine are paper orders, and its index is one. -/
structure Tidy (m : MatchingEngine) : Prop where
  known : ∀ q ∈ m.pendingStops, q < m.book.nextRef
  paper : ∀ q ∈ m.pendingStops, (m.book.heap q).owner = .paper
  names : m.book.Registered

/-- The order is checked and executed, rests, or waits for its trigger. -/
theorem process_handled (h : Executable S m.book r) (now : ℚ) :
    Confined S m.book (m.process r now).1.book ∧
      (∀ event ∈ (m.process r now).2, FillsFrom S m.book event) ∧
      (∀ q ∈ (m.process r now).1.pendingStops, S q ∨ q ∈ m.pendingStops) ∧
      (m.process r now).1.eventLog = m.eventLog := by
  have haccepted : Confined S m.book (m.book.modify r (withStatus .accepted)) :=
    Confined.modify (Or.inl h.about) rfl
  have hevent : FillsFrom S m.book (orderEvent now .orderAccepted (m.book.heap r) .empty) :=
    fillsFrom_orderEvent S m.book now _ _ rfl (fun hf => by cases hf)
  have hexecuted : ∀ {result : OrderBook × List ExchangeEvent},
      OrderBook.Handled S (m.book.modify r (withStatus .accepted)) result →
      Confined S m.book result.1 ∧
        ∀ event ∈ orderEvent now .orderAccepted (m.book.heap r) .empty :: result.2,
          FillsFrom S m.book event := by
    intro result hresult
    refine ⟨haccepted.trans hresult.confined, fun event hmem => ?_⟩
    rcases List.mem_cons.mp hmem with rfl | hlater
    · exact hevent
    · exact (hresult.events event hlater).back haccepted h.names
  unfold process
  dsimp only
  split
  · have hrejected := handled_status (b := m.book) (S := S) h.about .rejected now .orderRejected
      (m.book.heap r) (.reason ‹_›) rfl (fun hf => by cases hf)
    exact ⟨hrejected.confined, hrejected.events, fun q hq => Or.inr hq, rfl⟩
  · split
    · have hmarket := hexecuted (executeMarketOrder_handled (h.next haccepted) now)
      exact ⟨hmarket.1, hmarket.2, fun q hq => Or.inr hq, rfl⟩
    · have hlimit := hexecuted (executeLimitOrder_handled (h.next haccepted) now)
      exact ⟨hlimit.1, hlimit.2, fun q hq => Or.inr hq, rfl⟩
    · refine ⟨haccepted, fun event hmem => ?_, fun q hq => ?_, rfl⟩
      · rw [List.mem_singleton.mp hmem]
        exact hevent
      · rcases List.mem_append.mp hq with hold | hnew
        · exact Or.inr hold
        · rw [List.mem_singleton.mp hnew]
          exact Or.inl h.about

/-- A submission is logged once, and is about its order and the book. -/
theorem submitOrder_confined (h : Executable S m.book r) (now : ℚ) :
    ∃ submitted rest, (m.submitOrder r now).2 = submitted :: rest ∧
      submitted.eventType = .orderSubmitted ∧ submitted.timestamp = now ∧
      submitted.orderId = some (m.book.heap r).orderId ∧
      Confined S m.book (m.submitOrder r now).1.book ∧
      (∀ event ∈ rest, FillsFrom S m.book event) ∧
      (∀ q ∈ (m.submitOrder r now).1.pendingStops, S q ∨ q ∈ m.pendingStops) ∧
      (m.submitOrder r now).1.eventLog = m.eventLog ++ (submitted :: rest) := by
  have htaken : Confined S m.book (m.book.modify r m.received) := by
    refine Confined.modify (Or.inl h.about) ?_
    rw [Order.stamp, Order.stamp, h.paper]
    rfl
  obtain ⟨hconfined, hevents, hstops, hlog⟩ :=
    process_handled (m := { m with book := m.book.modify r m.received }) (h.next htaken) now
  have hname : ((m.book.modify r m.received).heap r).orderId = (m.book.heap r).orderId :=
    congrArg Prod.fst (htaken.stamp r (h.known r h.about))
  refine ⟨_, _, rfl, rfl, rfl, congrArg some hname, htaken.trans hconfined, fun event hevent => ?_,
    hstops, congrArg (· ++ _) hlog⟩
  exact (hevents event hevent).back htaken h.names

/-- A cancel is about a stop or the book. -/
theorem cancelOrder_handled (m : MatchingEngine) (id : String) (now : ℚ) :
    Handled (· ∈ m.pendingStops) m (m.cancelOrder id now) := by
  unfold cancelOrder
  split
  · rename_i r hfound
    have hstop : r ∈ m.pendingStops := List.mem_of_find?_eq_some hfound
    have hcancelled := handled_status (b := m.book) (S := (· ∈ m.pendingStops)) hstop .cancelled now
      .orderCancelled (m.book.heap r) .empty rfl (fun hf => by cases hf)
    exact ⟨hcancelled.confined, hcancelled.events, fun q hq => Or.inr (List.mem_of_mem_eraseP hq),
      rfl⟩
  · refine ⟨cancelOrder_confined _ m.book id, fun event hevent => ?_, fun q hq => Or.inr hq, rfl⟩
    dsimp only at hevent
    cases hcancelled : (m.book.cancelOrder id).2 with
    | none =>
      rw [hcancelled] at hevent
      cases hevent
    | some r =>
      rw [hcancelled] at hevent
      rw [List.mem_singleton.mp hevent]
      exact fillsFrom_orderEvent _ m.book now _ _ rfl (fun hf => by cases hf)

/-- The loop over the stops is about the stops and the book. -/
theorem checkStopTriggers_handled (tradePrice now : ℚ) (stops : List Ref) {b : OrderBook}
    (hstops : ∀ q ∈ stops, S q ∧ (b.heap q).owner = .paper) (hknown : ∀ q, S q → q < b.nextRef)
    (hnames : b.Registered) :
    OrderBook.Handled S b ((checkStopTriggers tradePrice now stops b).book,
        (checkStopTriggers tradePrice now stops b).events) ∧
      (checkStopTriggers tradePrice now stops b).stillPending.Sublist stops := by
  induction stops generalizing b with
  | nil => exact ⟨Handled.of_confined (Confined.refl S b), List.Sublist.refl _⟩
  | cons r rest ih =>
    have hrest := fun q hq => hstops q (List.mem_cons_of_mem r hq)
    obtain ⟨habout, hpaper⟩ := hstops r (List.mem_cons_self ..)
    simp only [checkStopTriggers]
    split
    · have hexec : Executable S b r := ⟨habout, hknown, hpaper, hnames⟩
      have hretyped : Confined S b
          (b.modify r (withType (b.heap r).orderType.triggered)) :=
        Confined.modify (Or.inl habout) rfl
      have hexecuted : OrderBook.Handled S b (executeTriggered b r now) := by
        have hbook : OrderBook.Handled S
            (b.modify r (withType (b.heap r).orderType.triggered)) (executeTriggered b r now) := by
          unfold executeTriggered
          dsimp only
          split
          · exact executeMarketOrder_handled (hexec.next hretyped) now
          · exact executeLimitOrder_handled (hexec.next hretyped) now
        exact (Handled.of_confined hretyped).append hbook hnames
      have hnext := hexecuted.confined
      obtain ⟨hlater, hsub⟩ := ih (b := (executeTriggered b r now).1)
        (fun q hq => ⟨(hrest q hq).1, (congrArg (fun p => p.2.1)
          (hnext.stamp q (hknown q (hrest q hq).1))).trans (hrest q hq).2⟩)
        (fun q hq => (hknown q hq).trans_le hnext.nextRef) (hnext.names hnames)
      have hboth := hexecuted.append hlater hnames
      refine ⟨⟨hboth.confined, fun event hevent => ?_⟩, hsub.cons r⟩
      rcases List.mem_cons.mp hevent with rfl | hmem
      · exact fillsFrom_orderEvent S b now _ _ rfl (fun hf => by cases hf)
      · exact hboth.events event hmem
    · obtain ⟨hlater, hsub⟩ := ih hrest hknown hnames
      exact ⟨hlater, hsub.cons_cons r⟩

/-- The maker events are fills of paper orders that rested. -/
theorem makerEvents_fillsFrom {b b' : OrderBook} {fills : List Fill} (hconfined : Confined S b b')
    (hnames : b.Registered) (hfills : ∀ f ∈ fills, ∃ q, b.Rests q ∧ (b.heap q).owner = .paper ∧
      f.orderId = (b.heap q).orderId) (now : ℚ) :
    ∀ event ∈ makerEvents now b' fills, FillsFrom S b event := by
  intro event hevent
  obtain ⟨f, hf, hsome⟩ := List.mem_filterMap.mp hevent
  obtain ⟨r, hget, rfl⟩ := Option.map_eq_some_iff.mp hsome
  obtain ⟨q, hrests, hpaper, hid⟩ := hfills f hf
  refine fillsFrom_fillEvent (Or.inr (Or.inl hrests)) hpaper ?_ _ _ _ _
  exact ((hconfined.names hnames).index _ r hget).2.trans hid

/-- A feed event is about the stops and the book. -/
theorem onMarketEvent_handled (h : m.Tidy) (event : BookEvent) (uuid : HexId) :
    Handled (· ∈ m.pendingStops) m (m.onMarketEvent event uuid) := by
  obtain ⟨hconfined, hfills⟩ :=
    applyMarketEvent_confined (· ∈ m.pendingStops) m.book event uuid
  have hmaker := makerEvents_fillsFrom hconfined h.names hfills event.timestamp
  unfold onMarketEvent
  dsimp only
  split
  · obtain ⟨hrun, hsub⟩ := checkStopTriggers_handled (S := (· ∈ m.pendingStops)) event.price
      event.timestamp m.pendingStops (b := (m.book.applyMarketEvent event uuid).1)
      (fun q hq => ⟨hq, (congrArg (fun p => p.2.1)
        (hconfined.stamp q (h.known q hq))).trans (h.paper q hq)⟩)
      (fun q hq => (h.known q hq).trans_le hconfined.nextRef) (hconfined.names h.names)
    refine ⟨hconfined.trans hrun.confined, fun later hlater => ?_,
      fun q hq => Or.inr (hsub.subset hq), rfl⟩
    rcases List.mem_append.mp hlater with hmem | hmem
    · exact hmaker later hmem
    · exact (hrun.events later hmem).back hconfined h.names
  · exact ⟨hconfined, hmaker, fun q hq => Or.inr hq, rfl⟩

/-- The loop over the index is about the orders of the index and the book. -/
theorem expireResting_handled (now : ℚ) (items : List (String × Ref)) {b : OrderBook}
    (hitems : ∀ p ∈ items, S p.2) (hknown : ∀ q, S q → q < b.nextRef) (hnames : b.Registered) :
    OrderBook.Handled S b (expireResting now items b) := by
  induction items generalizing b with
  | nil => exact Handled.of_confined (Confined.refl S b)
  | cons p rest ih =>
    obtain ⟨id, r⟩ := p
    have hrest := fun q hq => hitems q (List.mem_cons_of_mem _ hq)
    have hcancelled := cancelOrder_confined S b id
    have hlater : ∀ {c : OrderBook}, Confined S b c →
        OrderBook.Handled S c (expireResting now rest c) := fun hc =>
      ih hrest (fun q hq => (hknown q hq).trans_le hc.nextRef) (hc.names hnames)
    simp only [expireResting]
    split
    · split
      · rename_i cancelled found hresult
        have hexpired : Confined S b (cancelled.modify r (withStatus .expired)) := by
          rw [show cancelled = (b.cancelOrder id).1 from (congrArg Prod.fst hresult).symm]
          exact hcancelled.trans
            (Confined.modify (Or.inl (hitems (id, r) (List.mem_cons_self ..))) rfl)
        have hmore := hlater hexpired
        refine ⟨hexpired.trans hmore.confined, fun event hevent => ?_⟩
        rcases List.mem_cons.mp hevent with rfl | hmem
        · exact fillsFrom_orderEvent S b now _ _ rfl (fun hf => by cases hf)
        · exact (hmore.events event hmem).back hexpired hnames
      · rename_i same hresult
        have hsame : Confined S b same := by
          rw [show same = (b.cancelOrder id).1 from (congrArg Prod.fst hresult).symm]
          exact hcancelled
        have hmore := hlater hsame
        exact ⟨hsame.trans hmore.confined, fun event hevent =>
          (hmore.events event hevent).back hsame hnames⟩
    · exact ih hrest hknown hnames

/-- The loop over the stops is about the stops. -/
theorem expireStops_handled (now : ℚ) (stops : List Ref) {b : OrderBook}
    (hstops : ∀ q ∈ stops, S q) (hknown : ∀ q, S q → q < b.nextRef) (hnames : b.Registered) :
    OrderBook.Handled S b ((expireStops now stops b).book, (expireStops now stops b).events) ∧
      (expireStops now stops b).stillPending.Sublist stops := by
  induction stops generalizing b with
  | nil => exact ⟨Handled.of_confined (Confined.refl S b), List.Sublist.refl _⟩
  | cons r rest ih =>
    have hrest := fun q hq => hstops q (List.mem_cons_of_mem r hq)
    simp only [expireStops]
    split
    · have hexpired : Confined S b (b.modify r (withStatus .expired)) :=
        Confined.modify (Or.inl (hstops r (List.mem_cons_self ..))) rfl
      obtain ⟨hmore, hsub⟩ := ih hrest (fun q hq => (hknown q hq).trans_le hexpired.nextRef)
        (hexpired.names hnames)
      refine ⟨⟨hexpired.trans hmore.confined, fun event hevent => ?_⟩, hsub.cons r⟩
      rcases List.mem_cons.mp hevent with rfl | hmem
      · exact fillsFrom_orderEvent S b now _ _ rfl (fun hf => by cases hf)
      · exact (hmore.events event hmem).back hexpired hnames
    · obtain ⟨hmore, hsub⟩ := ih hrest hknown hnames
      exact ⟨hmore, hsub.cons_cons r⟩

/-- Expiry is about the stops and the book. -/
theorem expireOrders_handled (h : m.Tidy) (now : ℚ) :
    Handled (· ∈ m.pendingStops) m (m.expireOrders now) := by
  have hknown : ∀ q, q ∈ m.pendingStops ∨ (∃ id, m.book.orders.get? id = some q) →
      q < m.book.nextRef := fun q hq =>
    hq.elim (h.known q) fun ⟨id, hget⟩ => (h.names.index id q hget).1
  have hresting := expireResting_handled
    (S := fun q => q ∈ m.pendingStops ∨ ∃ id, m.book.orders.get? id = some q) now
    m.book.orders.items (fun p hp => Or.inr ⟨p.1, Dict.get?_eq_some_iff.mpr hp⟩) hknown
    h.names
  obtain ⟨hstops, hsub⟩ := expireStops_handled
    (S := fun q => q ∈ m.pendingStops ∨ ∃ id, m.book.orders.get? id = some q) now
    m.pendingStops (b := (expireResting now m.book.orders.items m.book).1)
    (fun q hq => Or.inl hq) (fun q hq => (hknown q hq).trans_le hresting.confined.nextRef)
    (hresting.confined.names h.names)
  have hboth := hresting.append hstops h.names
  have hbook : ∀ q, q ∈ m.pendingStops ∨ (∃ id, m.book.orders.get? id = some q) →
      q ∈ m.pendingStops ∨ m.book.Present q := fun q hq => hq.imp_right Or.inr
  refine ⟨hboth.confined.absorb hbook, fun event hevent => ?_,
    fun q hq => Or.inr (hsub.subset hq), rfl⟩
  obtain ⟨hsubmitted, hfill⟩ := hboth.events event hevent
  refine ⟨hsubmitted, fun hisfill => ?_⟩
  obtain ⟨q, hq, hrest⟩ := hfill hisfill
  exact ⟨q, hq.elim (hbook q) Or.inr, hrest⟩

end MatchingEngine

end QuantumSentinel.Exchange
