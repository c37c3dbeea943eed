import QuantumSentinel.Exchange.BuyEstimate
import QuantumSentinel.Exchange.Confinement
import QuantumSentinel.Exchange.EngineMoves

/-!
# Paper exchange: fill or kill

A FOK order is to be filled for its whole quantity or not at all.  `_execute_limit_order`
compares the quantity with `_available` before it takes any liquidity;
`_execute_market_order` does not look at the time in force, and takes what there is.

Main results:

- Theorem `OrderBook.take_took`: what an order without fills has after it took liquidity.
- Theorem `MatchingEngine.fill_or_kill_iff`: the books and orders for which an execution is
  all or nothing.
-/

namespace QuantumSentinel.Exchange

open Lib

/-! ## The fills of one order -/

/-- An order after the fills of a sweep, one after the other. -/
def Order.filledBy (now : ℚ) (fills : List Fill) (o : Order) : Order :=
  fills.foldl (fun o fill => o.recordFill fill.fillPrice fill.fillQuantity now) o

namespace Order

variable {now : ℚ} {fills : List Fill} {o : Order}

/-- Fills change neither the quantity nor the time in force, the side or the limit. -/
theorem filledBy_fixed (now : ℚ) (fills : List Fill) (o : Order) :
    (o.filledBy now fills).quantity = o.quantity ∧
    (o.filledBy now fills).timeInForce = o.timeInForce ∧ (o.filledBy now fills).side = o.side ∧
      (o.filledBy now fills).limitPrice = o.limitPrice := by
  induction fills generalizing o with
  | nil => exact ⟨rfl, rfl, rfl, rfl⟩
  | cons fill rest ih => exact ih (o.recordFill fill.fillPrice fill.fillQuantity now)

theorem filledBy_filled :
    (o.filledBy now fills).filledQuantity = o.filledQuantity + hitSize (fills.map Fill.hit) := by
  induction fills generalizing o with
  | nil => exact (add_zero _).symm
  | cons fill rest ih =>
    have hrest := ih (o := o.recordFill fill.fillPrice fill.fillQuantity now)
    rw [List.map_cons, hitSize_cons, ← add_assoc]
    exact hrest

/-- The last fill settles the status. -/
theorem filledBy_status (hne : fills ≠ []) : (o.filledBy now fills).status =
    statusAfterFill o.quantity (o.filledBy now fills).filledQuantity := by
  induction fills generalizing o with
  | nil => exact absurd rfl hne
  | cons fill rest ih =>
    cases rest with
    | nil => rfl
    | cons fill' rest' =>
      exact ih (o := o.recordFill fill.fillPrice fill.fillQuantity now) (List.cons_ne_nil _ _)

end Order

namespace OrderBook

variable {b b' taken : OrderBook} {r : Ref} {aggressor : TradeSide} {limitPrice : Option ℚ}
  {quantity size now : ℚ}

/-- The loop of `_take` changes the order that takes, and nothing else. -/
theorem recordFills_fst (r : Ref) (now : ℚ) (fills : List Fill) :
    (recordFills r now fills b).1 = b.modify r (Order.filledBy now fills) := by
  induction fills generalizing b with
  | nil =>
    have hsame : b.modify r (Order.filledBy now []) = b := by
      simp only [modify, Order.filledBy, List.foldl_nil, Function.update_eq_self]
    exact hsame.symm
  | cons fill rest ih =>
    simp only [recordFills, ih, modify, Function.update_self, Function.update_idem]
    rfl

/-- `_take`, as a change of the book and then of the order. -/
theorem take_fst (r : Ref) (now : ℚ) (limitPrice : Option ℚ) : (b.take r now limitPrice).1 =
    (b.consumeLiquidity (b.heap r).side (b.heap r).remainingQuantity now limitPrice true).1.modify r
      (Order.filledBy now (b.consumeLiquidity (b.heap r).side (b.heap r).remainingQuantity now
        limitPrice true).2) :=
  recordFills_fst r now _

/-! ## Books with the same feed orders -/

/-- The feed orders are as they were, in the same queues. -/
structure FeedKept (b b' : OrderBook) : Prop where
  queue : ∀ s t,
    (b'.queue s t).filter (isMarket b'.heap) = (b.queue s t).filter (isMarket b.heap)
  order : ∀ q, b.Rests q → (b.heap q).owner = .market → b'.heap q = b.heap q

namespace FeedKept

/-- Queues that are the same with orders that are the same but for their queue positions. -/
theorem of_queue (hqueue : ∀ s t, b'.queue s t = b.queue s t)
    (hheap : ∀ q, b.Rests q → b'.heap q = b.heap q ∨
      ((b.heap q).owner = .paper ∧ (b'.heap q).owner = .paper)) : FeedKept b b' where
  queue := fun s t => by
    rw [hqueue]
    refine List.filter_congr fun q hq => ?_
    rcases hheap q ⟨s, t, hq⟩ with heq | ⟨howner, howner'⟩
    · rw [isMarket, isMarket, heq]
    · rw [isMarket, isMarket, howner, howner']
  order := fun q hq hmarket => by
    rcases hheap q hq with heq | ⟨howner, -⟩
    · exact heq
    · rw [hmarket] at howner
      cases howner

theorem refl (b : OrderBook) : FeedKept b b :=
  of_queue (fun _ _ => rfl) fun _ _ => Or.inl rfl

/-- An order outside the queues changes before. -/
theorem modify_left (hr : ¬b.Rests r) (f : Order → Order) :
    FeedKept (b.modify r f) b' ↔ FeedKept b b' := by
  have hsame : ∀ q, b.Rests q → (b.modify r f).heap q = b.heap q := fun q hq =>
    heap_modify_ne f fun heq => hr (heq ▸ hq)
  have hfilter : ∀ s t, ((b.modify r f).queue s t).filter (isMarket (b.modify r f).heap) =
      (b.queue s t).filter (isMarket b.heap) := fun s t => by
    rw [queue_modify]
    exact List.filter_congr fun q hq => by rw [isMarket, isMarket, hsame q ⟨s, t, hq⟩]
  constructor
  · intro h
    refine ⟨fun s t => (h.queue s t).trans (hfilter s t), fun q hq hmarket => ?_⟩
    rw [← hsame q hq]
    exact h.order q ((rests_modify r q f).mpr hq) (by rwa [hsame q hq])
  · intro h
    refine ⟨fun s t => (h.queue s t).trans (hfilter s t).symm, fun q hq hmarket => ?_⟩
    have hq' := (rests_modify r q f).mp hq
    rw [hsame q hq'] at hmarket ⊢
    exact h.order q hq' hmarket

/-- An order outside the queues changes afterwards. -/
theorem modify (h : FeedKept b b') (hr : ¬b.Rests r) (hr' : ¬b'.Rests r) (f : Order → Order) :
    FeedKept b (b'.modify r f) where
  queue := fun s t => by
    rw [← h.queue, queue_modify]
    refine List.filter_congr fun q hq => ?_
    have hne : q ≠ r := fun heq => hr' ⟨s, t, heq ▸ hq⟩
    rw [isMarket, isMarket, heap_modify_ne f hne]
  order := fun q hq hmarket => by
    rw [heap_modify_ne f fun heq : q = r => hr (heq ▸ hq)]
    exact h.order q hq hmarket

end FeedKept

/-! ## Sweeps that fill nothing -/

/-- The market size that an aggressor finds within its limit, each order counted once. -/
def depthWithin (b : OrderBook) (aggressor : TradeSide) (limitPrice : Option ℚ) : ℚ :=
  b.distinctDepth aggressor.opposite (b.reach aggressor limitPrice)

theorem Shape.reach_levels (h : b.Shape) (aggressor : TradeSide) (limitPrice : Option ℚ) :
    ∀ t ∈ b.reach aggressor limitPrice, ∃ level, b.level? aggressor.opposite t = some level :=
  fun t ht => (h.keys _ t).mp (h.reach_sub aggressor limitPrice ht)

theorem Ok.depthWithin_nonneg (hok : b.Ok) (aggressor : TradeSide) (limitPrice : Option ℚ) :
    0 ≤ b.depthWithin aggressor limitPrice :=
  hok.distinctDepth_nonneg (hok.shape.reach_levels aggressor limitPrice)

/-- A level has no more than the levels together. -/
theorem Ok.distinctSize_le_depth (hok : b.Ok) {s : TradeSide} {ticks : List ℤ}
    (hlevels : ∀ t ∈ ticks, ∃ level, b.level? s t = some level) {t : ℤ} (ht : t ∈ ticks) :
    distinctSize b.heap (b.queue s t) ≤ b.distinctDepth s ticks := by
  induction ticks with
  | nil => cases ht
  | cons t' rest ih =>
    obtain ⟨level, hlevel⟩ := hlevels t' (List.mem_cons_self ..)
    have hrest : ∀ t ∈ rest, ∃ level, b.level? s t = some level := fun t ht =>
      hlevels t (List.mem_cons_of_mem t' ht)
    rw [distinctDepth_cons hlevel]
    rcases List.mem_cons.mp ht with rfl | hmem
    · rw [queue_of_level hlevel]
      exact le_add_of_nonneg_right (hok.distinctDepth_nonneg hrest)
    · exact (ih hrest hmem).trans (le_add_of_nonneg_left (hok.distinctSize_nonneg hlevel))

/-- Without market size within the limit there are paper orders only. -/
theorem Ok.paper_of_depth (hok : b.Ok) (hdepth : b.depthWithin aggressor limitPrice = 0) {t : ℤ}
    (ht : t ∈ b.reach aggressor limitPrice) {q : Ref} (hq : q ∈ b.queue aggressor.opposite t) :
    (b.heap q).owner = .paper := by
  cases howner : (b.heap q).owner with
  | paper => rfl
  | market =>
    have hlive := hok.eps_lt_remaining hq
    have hsize := le_distinctSize hq howner fun q' hq' _ => (hok.remaining_pos hq').le
    have hle := hok.distinctSize_le_depth
      (hok.shape.reach_levels aggressor limitPrice) ht
    rw [depthWithin] at hdepth
    have heps := eps_pos
    linarith

/-- A sweep that finds nothing leaves the feed orders as they are. -/
theorem Ok.feedKept_of_depth (hok : b.Ok) (hdepth : b.depthWithin aggressor limitPrice = 0)
    (quantity now : ℚ) :
    FeedKept b (b.consumeLiquidity aggressor quantity now limitPrice true).1 := by
  have honce : ∀ t ∈ b.reach aggressor limitPrice, (b.queue aggressor.opposite t).Nodup := by
    intro t ht
    have hpaper := hok.paper_nodup aggressor.opposite t
    rwa [List.filter_eq_self.mpr fun q hq => by
      simp [isPaper, hok.paper_of_depth hdepth ht hq]] at hpaper
  have hline : b.marketLine aggressor limitPrice = [] := by
    refine List.eq_nil_iff_forall_not_mem.mpr fun p hp => ?_
    obtain ⟨t, ht, hmem, hmarket, -⟩ := mem_marketLine.mp hp
    rw [hok.paper_of_depth hdepth ht hmem] at hmarket
    cases hmarket
  have hgreedy := @consume_liquidity_greedy b aggressor quantity now limitPrice hok honce
  generalize b.consumeLiquidity aggressor quantity now limitPrice true = result at hgreedy ⊢
  have hothers := hgreedy.others
  rw [hline] at hothers
  have hheap : ∀ q, result.1.heap q = b.heap q ∨ ((b.heap q).owner = .paper ∧
      result.1.heap q = (b.heap q).queuedBehind (result.1.heap q).queueAhead) := fun q =>
    hothers q fun p hp => by
      rw [List.take_nil] at hp
      cases hp
  have hsans : ∀ q, (result.1.heap q).sansQueue = (b.heap q).sansQueue := fun q => by
    rcases hheap q with heq | ⟨-, heq⟩
    · rw [heq]
    · rw [heq, queuedBehind_sansQueue]
  refine FeedKept.of_queue (fun s t => ?_) fun q _ => ?_
  · rw [hgreedy.queues]
    exact List.filter_eq_self.mpr fun q hq => by
      rw [isLive_of_sansQueue (hsans q)]
      exact hok.isLive hq
  · refine (hheap q).imp_right fun h => ⟨h.1, ?_⟩
    rw [← h.1]
    exact (fields_of_sansQueue (hsans q)).2.2.1

/-! ## One execution -/

/-- An order without fills took some size within a limit. -/
structure Took (b : OrderBook) (r : Ref) (limitPrice : Option ℚ) (taken : OrderBook) (size : ℚ) :
    Prop where
  filled : (taken.heap r).filledQuantity = size
  quantity : (taken.heap r).quantity = (b.heap r).quantity
  timeInForce : (taken.heap r).timeInForce = (b.heap r).timeInForce
  sized : size = 0 ∨ eps < size ∧
    (taken.heap r).status = Order.statusAfterFill (b.heap r).quantity size
  size_le : size ≤ (b.heap r).quantity
  depth_le : size ≤ b.depthWithin (b.heap r).side limitPrice
  /-- more than the tolerance is left open only when there is no more -/
  used : eps < (b.heap r).quantity - size → size = b.depthWithin (b.heap r).side limitPrice
  kept : size = 0 → FeedKept b taken
  outside : ¬taken.Rests r

/-- What an order without fills has after it took liquidity. -/
theorem take_took (hok : b.Ok) (hr : r < b.nextRef) (hnew : ¬b.Present r)
    (hunfilled : (b.heap r).filledQuantity = 0) (hquantity : 0 ≤ (b.heap r).quantity) (now : ℚ)
    (limitPrice : Option ℚ) : ∃ size, b.Took r limitPrice (b.take r now limitPrice).1 size := by
  set o := b.heap r with ho
  have hremaining : o.remainingQuantity = o.quantity := by
    rw [Order.remainingQuantity, hunfilled, sub_zero]
  have hconfined := b.consumeLiquidity_confined (fun _ => False) o.side o.quantity now limitPrice
    true
  have htake := (consumeLiquidity_take hok o.side o.quantity now limitPrice).1
  have hkept : o.quantity ≤ eps ∨ b.depthWithin o.side limitPrice = 0 →
      FeedKept b (b.consumeLiquidity o.side o.quantity now limitPrice true).1 := by
    rintro (hle | hdepth)
    · rw [consumeLiquidity_eq hok.shape, walk_of_le hle]
      exact FeedKept.refl b
    · exact hok.feedKept_of_depth hdepth o.quantity now
  obtain ⟨_, _, -, hestimated⟩ := walk_estimate hok now
    (hok.shape.reach_nodup o.side limitPrice) (some 0) (List.cons_ne_nil _ _)
    (hok.shape.reach_levels o.side limitPrice) hquantity 0
  have hfills : (b.consumeLiquidity o.side o.quantity now limitPrice true).2 =
      (walk (aggressorSweep true now) o.side.opposite (fun _ => false)
        (b.reach o.side limitPrice) b o.quantity).fills := by
    rw [consumeLiquidity_eq hok.shape]
  rw [← hfills] at hestimated
  have hbook : (b.take r now limitPrice).1 =
      (b.consumeLiquidity o.side o.quantity now limitPrice true).1.modify r (Order.filledBy now
        (b.consumeLiquidity o.side o.quantity now limitPrice true).2) := by
    rw [take_fst, ← ho, hremaining]
  generalize b.consumeLiquidity o.side o.quantity now limitPrice true = result
    at hconfined htake hkept hestimated hbook
  have hsame : result.1.heap r = o := hconfined.same r hr (fun h => h) hnew
  have hself : (b.take r now limitPrice).1.heap r = o.filledBy now result.2 := by
    rw [hbook, heap_modify_self, hsame]
  have hfilled : (o.filledBy now result.2).filledQuantity = hitSize (result.2.map Fill.hit) := by
    rw [Order.filledBy_filled, hunfilled, zero_add]
  have hout : ¬result.1.Rests r := fun hrests =>
    (hconfined.present r hr (Or.inl hrests)).elim id hnew
  have hsome : hitSize (result.2.map Fill.hit) = 0 ∨
      eps < hitSize (result.2.map Fill.hit) ∧ (o.filledBy now result.2).status =
        Order.statusAfterFill o.quantity (hitSize (result.2.map Fill.hit)) := by
    by_cases hnone : result.2 = []
    · exact Or.inl (by rw [hnone]; rfl)
    · refine Or.inr ⟨htake.eps_lt_size (by rwa [Ne, List.map_eq_nil_iff]), ?_⟩
      rw [Order.filledBy_status hnone, hfilled]
  refine ⟨hitSize (result.2.map Fill.hit), ?_, ?_, ?_, ?_, hestimated.size_le,
    hestimated.depth_le, fun hopen => (hestimated.used hopen).1, fun hzero => ?_, ?_⟩
  · rw [hself, hfilled]
  · rw [hself]
    exact (Order.filledBy_fixed ..).1
  · rw [hself]
    exact (Order.filledBy_fixed ..).2.1
  · rw [hself]
    exact hsome
  · rw [hbook]
    refine (hkept ?_).modify (fun hrests => hnew (Or.inl hrests)) hout _
    by_cases hopen : eps < o.quantity - hitSize (result.2.map Fill.hit)
    · exact Or.inr ((hestimated.used hopen).1.symm.trans hzero)
    · rw [hzero, sub_zero, not_lt] at hopen
      exact Or.inl hopen
  · rw [hbook, rests_modify]
    exact hout

/-- All or nothing: the order is FILLED for its whole quantity, up to the tolerance, or it has no
fill and the feed orders are as they were. -/
def FillOrKill (b b' : OrderBook) (r : Ref) : Prop :=
  ((b'.heap r).status = .filled ∧ (b'.heap r).filledQuantity ≤ (b.heap r).quantity ∧
      (b.heap r).quantity ≤ (b'.heap r).filledQuantity + eps) ∨
    ((b'.heap r).filledQuantity = 0 ∧ FeedKept b b')

/-- Whether the feed orders within a limit, each counted once, are enough for an order, up to the
tolerance, or there are none. -/
def Fillable (b : OrderBook) (o : Order) (limitPrice : Option ℚ) : Prop :=
  o.quantity ≤ b.depthWithin o.side limitPrice + eps ∨ b.depthWithin o.side limitPrice = 0

/-- An order that is not filled up is closed, with another status than FILLED. -/
def Closes (r : Ref) (size quantity : ℚ) (taken b' : OrderBook) : Prop :=
  (b' = taken ∧ quantity - size ≤ eps) ∨
    ∃ status, status ≠ .filled ∧ b' = taken.modify r (withStatus status) ∧
      (size = 0 ∨ eps < quantity - size)

/-- An execution is all or nothing exactly when there is enough within the limit, or nothing. -/
theorem Took.fillOrKill_iff (h : b.Took r limitPrice taken size) (hok : b.Ok) (hnew : ¬b.Rests r)
    (hclose : Closes r size (b.heap r).quantity taken b') :
    FillOrKill b b' r ↔ b.Fillable (b.heap r) limitPrice := by
  have hfilled : (b'.heap r).filledQuantity = size := by
    rcases hclose with ⟨rfl, -⟩ | ⟨status, -, rfl, -⟩
    · exact h.filled
    · rw [heap_modify_self]
      exact h.filled
  have hdepth := hok.depthWithin_nonneg (b.heap r).side limitPrice
  unfold FillOrKill Fillable
  rw [hfilled]
  constructor
  · rintro (⟨-, -, hle⟩ | ⟨hzero, -⟩)
    · exact Or.inl (hle.trans (add_le_add h.depth_le le_rfl))
    · by_cases hopen : eps < (b.heap r).quantity - size
      · exact Or.inr ((h.used hopen).symm.trans hzero)
      · rw [hzero, sub_zero, not_lt] at hopen
        exact Or.inl (hopen.trans (le_add_of_nonneg_left hdepth))
  · intro hcond
    rcases h.sized with hzero | ⟨hsome, hstatus⟩
    · refine Or.inr ⟨hzero, ?_⟩
      rcases hclose with ⟨rfl, -⟩ | ⟨status, -, rfl, -⟩
      · exact h.kept hzero
      · exact (h.kept hzero).modify hnew h.outside _
    · have hdone : (b.heap r).quantity - size ≤ eps := by
        by_contra hopen
        have hused := h.used (not_le.mp hopen)
        have heps := eps_pos
        rcases hcond with hle | hnone
        · linarith
        · linarith
      refine Or.inl ⟨?_, h.size_le, by linarith⟩
      rcases hclose with ⟨rfl, -⟩ | ⟨_, _, _, hwhy⟩
      · rw [hstatus, Order.statusAfterFill, if_pos hdone]
      · rcases hwhy with hzero | hopen
        · exact absurd hsome (not_lt.mpr (hzero ▸ eps_pos.le))
        · exact absurd hdone (not_le.mpr hopen)

/-- The execution of a market order. -/
theorem executeMarketOrder_fillOrKill (hok : b.Ok) (hr : r < b.nextRef) (hnew : ¬b.Present r)
    (hunfilled : (b.heap r).filledQuantity = 0) (hquantity : 0 ≤ (b.heap r).quantity) (now : ℚ) :
    FillOrKill b (b.executeMarketOrder r now).1 r ↔ b.Fillable (b.heap r) none := by
  obtain ⟨size, htook⟩ := take_took hok hr hnew hunfilled hquantity now none
  refine htook.fillOrKill_iff hok (fun hrests => hnew (Or.inl hrests)) ?_
  have hremaining : ((b.take r now none).1.heap r).remainingQuantity =
      (b.heap r).quantity - size := by
    rw [Order.remainingQuantity, htook.quantity, htook.filled]
  simp only [executeMarketOrder, htook.filled, hremaining]
  split
  · rename_i hnone
    refine Or.inr ⟨.rejected, by decide, rfl, Or.inl ?_⟩
    exact htook.sized.resolve_right fun hsome => not_le.mpr hsome.1 hnone
  · split
    · rename_i hopen
      exact Or.inr ⟨.cancelled, by decide, rfl, Or.inr hopen⟩
    · rename_i hdone
      exact Or.inl ⟨rfl, not_lt.mp hdone⟩

/-- What is left of a FOK order is cancelled. -/
theorem restRemainder_closes (hfok : (taken.heap r).timeInForce = .fok) {quantity : ℚ}
    (hremaining : (taken.heap r).remainingQuantity = quantity - size) (now : ℚ) :
    Closes r size quantity taken (taken.restRemainder r now).1 := by
  simp only [restRemainder, hremaining, hfok]
  split
  · rename_i hdone
    exact Or.inl ⟨rfl, hdone⟩
  · rename_i hopen
    rw [if_pos (Or.inr trivial)]
    exact Or.inr ⟨.cancelled, by decide, rfl, Or.inr (not_le.mp hopen)⟩

/-- The execution of a FOK limit order. -/
theorem executeLimitOrder_fillOrKill (hok : b.Ok) (hr : r < b.nextRef) (hnew : ¬b.Present r)
    (hunfilled : (b.heap r).filledQuantity = 0) (hquantity : 0 ≤ (b.heap r).quantity)
    (hfok : (b.heap r).timeInForce = .fok) (now : ℚ) :
    FillOrKill b (b.executeLimitOrder r now).1 r ↔ b.fokShort (b.heap r) = true ∨
      b.isMarketable (b.heap r) = false ∨ b.Fillable (b.heap r) (b.heap r).limitPrice := by
  have hnew' : ¬b.Rests r := fun hrests => hnew (Or.inl hrests)
  have hclosed : ∀ status, FillOrKill b (b.modify r (withStatus status)) r := fun status =>
    Or.inr ⟨by rw [heap_modify_self]; exact hunfilled, (FeedKept.refl b).modify hnew' hnew' _⟩
  unfold executeLimitOrder
  dsimp only
  by_cases hshort : b.fokShort (b.heap r) = true
  · rw [if_pos hshort]
    exact iff_of_true (hclosed .rejected) (Or.inl hshort)
  · rw [if_neg hshort]
    cases hmarketable : b.isMarketable (b.heap r) with
    | false =>
      refine iff_of_true ?_ (Or.inr (Or.inl rfl))
      -- nothing is taken
      have hrest : Closes r 0 (b.heap r).quantity b (b.restRemainder r now).1 :=
        restRemainder_closes hfok (by rw [Order.remainingQuantity, hunfilled]) now
      have hkept : FillOrKill b (b.restRemainder r now).1 r := by
        rcases hrest with ⟨heq, -⟩ | ⟨status, -, heq, -⟩
        · rw [heq]
          exact Or.inr ⟨hunfilled, FeedKept.refl b⟩
        · rw [heq]
          exact hclosed status
      exact hkept
    | true =>
      obtain ⟨size, htook⟩ := take_took hok hr hnew hunfilled hquantity now
        (b.heap r).limitPrice
      have hiff := htook.fillOrKill_iff hok hnew' (restRemainder_closes
        (htook.timeInForce.trans hfok)
        (by rw [Order.remainingQuantity, htook.quantity, htook.filled]) now)
      simp only [hshort, Bool.false_eq_true, false_or, reduceCtorEq]
      exact hiff

/-! ## The book beside a changed order -/

section Beside

variable (hnew : ¬b.Rests r) (f : Order → Order)

include hnew

theorem heap_modify_rests {q : Ref} (hq : b.Rests q) : (b.modify r f).heap q = b.heap q :=
  heap_modify_ne f fun heq => hnew (heq ▸ hq)

theorem Ok.modify_outside (hok : b.Ok) : (b.modify r f).Ok := by
  refine hok.congr (fun s => by cases s <;> rfl) rfl le_rfl fun s t level hlevel q hq => ?_
  exact heap_modify_rests hnew f ⟨s, t, by rwa [queue_of_level hlevel]⟩

/-- The market sizes are those of the orders in the queues. -/
theorem depthWithin_modify (aggressor : TradeSide) (limitPrice : Option ℚ) :
    (b.modify r f).depthWithin aggressor limitPrice = b.depthWithin aggressor limitPrice := by
  have hsize : ∀ level ∈ b.distinctLevels aggressor.opposite (b.reach aggressor limitPrice),
      depth (b.modify r f).heap level = depth b.heap level := by
    intro level hlevel
    obtain ⟨t, -, found, hfound, rfl⟩ := mem_distinctLevels hlevel
    refine congrArg (Prod.mk _) (marketSize_congr fun q hq => ?_)
    rw [heap_modify_rests hnew f ⟨_, t, (queue_of_level hfound).symm ▸ List.mem_dedup.mp hq⟩]
    exact ⟨rfl, fun _ => rfl⟩
  have hlevels : (b.modify r f).distinctLevels aggressor.opposite
      ((b.modify r f).reach aggressor limitPrice) =
        b.distinctLevels aggressor.opposite (b.reach aggressor limitPrice) := by
    cases aggressor <;> rfl
  rw [depthWithin, depthWithin, distinctDepth, distinctDepth, hlevels, List.map_congr_left hsize]

theorem available_modify (aggressor : TradeSide) (limitPrice : Option ℚ) :
    (b.modify r f).available aggressor limitPrice = b.available aggressor limitPrice := by
  have hsame : (b.modify r f).oppositeLevels aggressor = b.oppositeLevels aggressor := by
    cases aggressor <;> rfl
  rw [available, available, hsame]
  refine congrArg List.sum (List.map_congr_left fun level hlevel => marketSize_congr fun q hq => ?_)
  have hmem : level ∈ b.oppositeLevels aggressor :=
    (List.takeWhile_sublist _).subset hlevel
  have hfound : ∃ t, b.level? aggressor.opposite t = some level := by
    cases aggressor with
    | buy =>
      obtain ⟨t, -, hget⟩ := List.mem_filterMap.mp hmem
      exact ⟨t, hget⟩
    | sell =>
      obtain ⟨t, -, hget⟩ := List.mem_filterMap.mp hmem
      exact ⟨t, hget⟩
  obtain ⟨t, ht⟩ := hfound
  rw [heap_modify_rests hnew f ⟨_, t, by rwa [queue_of_level ht]⟩]
  exact ⟨rfl, fun _ => rfl⟩

theorem fillOrKill_modify (hquantity : (f (b.heap r)).quantity = (b.heap r).quantity) :
    FillOrKill (b.modify r f) b' r ↔ FillOrKill b b' r := by
  rw [FillOrKill, FillOrKill, FeedKept.modify_left hnew, heap_modify_self, hquantity]

end Beside

/-- Whether the execution of a FOK order is all or nothing. -/
def AllOrNothing (b : OrderBook) (o : Order) : Prop :=
  match o.orderType with
  | .market | .stop => b.Fillable o none
  | .limit | .stopLimit =>
    b.fokShort o = true ∨ b.isMarketable o = false ∨ b.Fillable o o.limitPrice

end OrderBook

/-! ## The engine -/

namespace MatchingEngine

open OrderBook

/-- The book after the engine executed an order: on its submission, or when its stop triggers. -/
def executed (e : MatchingEngine) (r : Ref) (now : ℚ) : OrderBook :=
  match (e.book.heap r).orderType with
  | .market | .limit => (e.submitOrder r now).1.book
  | .stop | .stopLimit => (executeTriggered e.book r now).1

variable {e : MatchingEngine} {r : Ref} {now : ℚ}

/-- What `submit_order` executes of an order that it accepts. -/
theorem submitOrder_book (hvalid : e.book.invalidReason (e.book.heap r) = none) :
    (e.submitOrder r now).1.book =
      let accepted := e.book.modify r fun o => withStatus .accepted (e.received o)
      match (e.book.heap r).orderType with
      | .market => (accepted.executeMarketOrder r now).1
      | .limit => (accepted.executeLimitOrder r now).1
      | .stop | .stopLimit => accepted := by
  have hself : (e.book.modify r e.received).heap r = e.received (e.book.heap r) :=
    heap_modify_self r e.received
  have hvalid' : (e.book.modify r e.received).invalidReason (e.received (e.book.heap r)) =
      none := hvalid
  have hbook : (e.book.modify r e.received).modify r (withStatus .accepted) =
      e.book.modify r fun o => withStatus .accepted (e.received o) := by
    simp only [OrderBook.modify, Function.update_self, Function.update_idem]
  have htype : (e.received (e.book.heap r)).orderType = (e.book.heap r).orderType := rfl
  simp only [submitOrder, process, hself, hvalid', hbook, htype]
  cases (e.book.heap r).orderType <;> rfl

/-- What an execution reads of an order. -/
structure SameTerms (o o' : Order) : Prop where
  side : o'.side = o.side
  quantity : o'.quantity = o.quantity
  limitPrice : o'.limitPrice = o.limitPrice
  timeInForce : o'.timeInForce = o.timeInForce
  filled : o'.filledQuantity = o.filledQuantity

/-- The condition of an order that changed in its status, its type or its owner. -/
theorem fillOrKill_started {b : OrderBook} (hok : b.Ok) (hr : r < b.nextRef) (hnew : ¬b.Present r)
    (hfok : (b.heap r).timeInForce = .fok) (hunfilled : (b.heap r).filledQuantity = 0)
    (hquantity : 0 ≤ (b.heap r).quantity) (f : Order → Order)
    (hf : SameTerms (b.heap r) (f (b.heap r))) (now : ℚ) :
    (FillOrKill b ((b.modify r f).executeMarketOrder r now).1 r ↔ b.Fillable (b.heap r) none) ∧
      (FillOrKill b ((b.modify r f).executeLimitOrder r now).1 r ↔
        b.fokShort (b.heap r) = true ∨ b.isMarketable (b.heap r) = false ∨
          b.Fillable (b.heap r) (b.heap r).limitPrice) := by
  have hnew' : ¬b.Rests r := fun hrests => hnew (Or.inl hrests)
  have hpresent : ¬(b.modify r f).Present r := fun hp =>
    hnew (hp.imp_left (rests_modify r r f).mp)
  have hself : (b.modify r f).heap r = f (b.heap r) := heap_modify_self r f
  have hfillable : ∀ limitPrice, (b.modify r f).Fillable (f (b.heap r)) limitPrice ↔
      b.Fillable (b.heap r) limitPrice := fun limitPrice => by
    rw [Fillable, Fillable, depthWithin_modify hnew', hf.side, hf.quantity]
  have hshort : (b.modify r f).fokShort (f (b.heap r)) = b.fokShort (b.heap r) := by
    rw [fokShort, fokShort, available_modify hnew', hf.side, hf.quantity, hf.limitPrice,
      hf.timeInForce]
  have hmarketable : (b.modify r f).isMarketable (f (b.heap r)) = b.isMarketable (b.heap r) := by
    simp only [isMarketable, hf.side, hf.limitPrice]
    rfl
  have hmarket := executeMarketOrder_fillOrKill (hok.modify_outside hnew' f) hr hpresent
    (by rw [hself, hf.filled]; exact hunfilled) (by rw [hself, hf.quantity]; exact hquantity) now
  have hlimit := executeLimitOrder_fillOrKill (hok.modify_outside hnew' f) hr hpresent
    (by rw [hself, hf.filled]; exact hunfilled) (by rw [hself, hf.quantity]; exact hquantity)
    (by rw [hself, hf.timeInForce]; exact hfok) now
  rw [fillOrKill_modify hnew' f hf.quantity, hself, hfillable] at hmarket
  rw [fillOrKill_modify hnew' f hf.quantity, hself, hfillable, hshort, hmarketable,
    hf.limitPrice] at hlimit
  exact ⟨hmarket, hlimit⟩

/-- An accepted FOK order is executed all or nothing exactly when the feed orders within its limit,
each counted once, are enough or there are none, or when it is a limit order that the check
rejects or that is not marketable. -/
theorem fill_or_kill_iff (e : MatchingEngine) (hok : e.book.Ok) {r : Ref}
    (hr : r < e.book.nextRef) (hnew : ¬e.book.Present r)
    (hvalid : e.book.invalidReason (e.book.heap r) = none)
    (hfok : (e.book.heap r).timeInForce = .fok)
    (hunfilled : (e.book.heap r).filledQuantity = 0) (now : ℚ) :
    FillOrKill e.book (e.executed r now) r ↔ e.book.AllOrNothing (e.book.heap r) := by
  have hquantity : 0 ≤ (e.book.heap r).quantity := (invalidReason_none hvalid).1.le
  obtain ⟨haccepted, haccepted'⟩ := fillOrKill_started hok hr hnew hfok hunfilled
    hquantity (fun o => withStatus .accepted (e.received o)) ⟨rfl, rfl, rfl, rfl, rfl⟩ now
  obtain ⟨htriggered, htriggered'⟩ := fillOrKill_started hok hr hnew hfok hunfilled
    hquantity (withType (e.book.heap r).orderType.triggered) ⟨rfl, rfl, rfl, rfl, rfl⟩ now
  unfold executed AllOrNothing
  rw [submitOrder_book hvalid]
  cases htype : (e.book.heap r).orderType with
  | market => exact haccepted
  | limit => exact haccepted'
  | stop =>
    simp only [executeTriggered, htype]
    rw [htype] at htriggered
    exact htriggered
  | stopLimit =>
    simp only [executeTriggered, htype]
    rw [htype] at htriggered'
    exact htriggered'

/-- An engine with a book, and a FOK buy of our own that is to be executed. -/
def withFok (b : OrderBook) (orderType : OrderType) (quantity : ℚ) (limitPrice : Option ℚ) :
    MatchingEngine where
  book := b.alloc
    (Order.new "P00000002" "X" .buy orderType quantity limitPrice none .fok 5 none .paper)
  eventLog := []
  pendingStops := []

/-- A new order is not in a book whose index maps to its own orders. -/
theorem not_present_alloc {b : OrderBook} (hok : b.Ok)
    (hindex : ∀ p ∈ b.orders.items, p.2 < b.nextRef) (o : Order) :
    ¬(b.alloc o).Present b.nextRef := by
  rintro (⟨s, t, hmem⟩ | ⟨id, hget⟩)
  · rw [queue_alloc] at hmem
    exact lt_irrefl _ (hok.lt_nextRef hmem)
  · exact lt_irrefl _ (hindex _ (Dict.get?_eq_some_iff.mp hget))

/-- A FOK buy of 12 at 100 is filled from the two asks of the feed. -/
theorem fill_or_kill_twelve :
    (((withFok threeAsks .limit 12 (some 100)).executed threeAsks.nextRef 6).heap
        threeAsks.nextRef).filledQuantity = 12 ∧
      FillOrKill (withFok threeAsks .limit 12 (some 100)).book
        ((withFok threeAsks .limit 12 (some 100)).executed threeAsks.nextRef 6)
        threeAsks.nextRef := by
  have hbook : (∀ p ∈ threeAsks.orders.items, p.2 < threeAsks.nextRef) ∧
      (withFok threeAsks .limit 12 (some 100)).book.invalidReason
        ((withFok threeAsks .limit 12 (some 100)).book.heap threeAsks.nextRef) = none ∧
      (12 : ℚ) ≤ (withFok threeAsks .limit 12 (some 100)).book.depthWithin .buy (some 100) + eps ∧
      (((withFok threeAsks .limit 12 (some 100)).executed threeAsks.nextRef 6).heap
        threeAsks.nextRef).filledQuantity = 12 := by
    decide +kernel
  obtain ⟨hindex, hvalid, hdepth, hfilled⟩ := hbook
  have hself : (withFok threeAsks .limit 12 (some 100)).book.heap threeAsks.nextRef =
      Order.new "P00000002" "X" .buy .limit 12 (some 100) none .fok 5 none .paper :=
    Function.update_self ..
  refine ⟨hfilled, (fill_or_kill_iff _ (alloc_ok threeAsks_ok _) (Nat.lt_succ_self _)
    (not_present_alloc threeAsks_ok hindex _) hvalid ?_ ?_ 6).mpr ?_⟩
  · rw [hself]
    rfl
  · rw [hself]
    rfl
  · rw [hself]
    exact Or.inr (Or.inr (Or.inl hdepth))

/-- A market buy of 50 takes the 15 that there are, and is then cancelled; a limit buy of 50 passes
the check with an order that is listed twice, takes 35, and is then cancelled. -/
theorem fok_filled_in_part :
    (withFok threeAsks .market 50 none).book.Ok ∧
      ¬(withFok threeAsks .market 50 none).book.Present threeAsks.nextRef ∧
      (withFok threeAsks .market 50 none).book.invalidReason
        ((withFok threeAsks .market 50 none).book.heap threeAsks.nextRef) = none ∧
      (((withFok threeAsks .market 50 none).executed threeAsks.nextRef 6).heap
        threeAsks.nextRef).filledQuantity = 15 ∧
      ¬FillOrKill (withFok threeAsks .market 50 none).book
        ((withFok threeAsks .market 50 none).executed threeAsks.nextRef 6) threeAsks.nextRef ∧
      (((withFok listedTwice .limit 50 (some 101)).executed listedTwice.nextRef 6).heap
        listedTwice.nextRef).filledQuantity = 35 ∧
      ¬FillOrKill (withFok listedTwice .limit 50 (some 101)).book
        ((withFok listedTwice .limit 50 (some 101)).executed listedTwice.nextRef 6)
        listedTwice.nextRef := by
  have hmarket : (∀ p ∈ threeAsks.orders.items, p.2 < threeAsks.nextRef) ∧
      (withFok threeAsks .market 50 none).book.invalidReason
        ((withFok threeAsks .market 50 none).book.heap threeAsks.nextRef) = none ∧
      (((withFok threeAsks .market 50 none).executed threeAsks.nextRef 6).heap
        threeAsks.nextRef).filledQuantity = 15 ∧
      (((withFok threeAsks .market 50 none).executed threeAsks.nextRef 6).heap
        threeAsks.nextRef).status = .cancelled := by
    decide +kernel
  have hlimit : (((withFok listedTwice .limit 50 (some 101)).executed listedTwice.nextRef 6).heap
        listedTwice.nextRef).filledQuantity = 35 ∧
      (((withFok listedTwice .limit 50 (some 101)).executed listedTwice.nextRef 6).heap
        listedTwice.nextRef).status = .cancelled := by
    decide +kernel
  obtain ⟨hindex, hvalid, hfilled, hstatus⟩ := hmarket
  obtain ⟨hfilled', hstatus'⟩ := hlimit
  refine ⟨alloc_ok threeAsks_ok _, not_present_alloc threeAsks_ok hindex _, hvalid, hfilled, ?_,
    hfilled', ?_⟩
  · rintro (⟨hfull, -⟩ | ⟨hzero, -⟩)
    · rw [hstatus] at hfull
      cases hfull
    · rw [hfilled] at hzero
      norm_num at hzero
  · rintro (⟨hfull, -⟩ | ⟨hzero, -⟩)
    · rw [hstatus'] at hfull
      cases hfull
    · rw [hfilled'] at hzero
      norm_num at hzero

end MatchingEngine

end QuantumSentinel.Exchange
