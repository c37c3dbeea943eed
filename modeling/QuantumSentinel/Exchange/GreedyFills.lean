import QuantumSentinel.Exchange.Allotment

/-!
# Paper exchange: aggressive execution is greedy

What `consume_liquidity` does to a book that lists its orders once: the fills follow price and
then time, nothing is skipped but our own orders, and the liquidity of the feed falls by what was
filled, up to a remainder within the tolerance that is dropped with its order.

Main results:

- Theorem `OrderBook.consume_liquidity_greedy`: the fills, and everything that changes.
-/

namespace QuantumSentinel.Exchange

open Lib

namespace OrderBook

variable {b : OrderBook} {aggressor : TradeSide} {quantity timestamp : ℚ} {limitPrice : Option ℚ}

/-! ## Market liquidity -/

/-- The market orders within the limit of an aggressor, best price first and then first in first
out, with the prices of their levels. -/
def marketLine (b : OrderBook) (aggressor : TradeSide) (limitPrice : Option ℚ) :
    List (Ref × ℚ) :=
  (b.reach aggressor limitPrice).flatMap fun t =>
    ((b.queue aggressor.opposite t).filter (isMarket b.heap)).map fun r =>
      (r, b.grid.fromTicks t)

/-- The market size of a side. -/
def marketDepth (b : OrderBook) (s : TradeSide) : ℚ :=
  ((b.side s).ticks.map fun t => marketSize b.heap (b.queue s t)).sum

theorem skips_aggressor (timestamp : ℚ) (o : Order) :
    (!(aggressorSweep true timestamp).skips o) = decide (o.owner = .market) := by
  cases howner : o.owner <;> simp [aggressorSweep, howner]

theorem line_aggressor (timestamp : ℚ) :
    b.line (aggressorSweep true timestamp) aggressor.opposite (b.reach aggressor limitPrice) =
      b.marketLine aggressor limitPrice := by
  simp only [line, lineOf, skips_aggressor]
  rfl

theorem depthOf_aggressor (timestamp : ℚ) (b : OrderBook) (s : TradeSide) :
    depthOf (aggressorSweep true timestamp) b s = b.marketDepth s := by
  simp only [depthOf, line_singleton, lineSize_lineOf, skips_aggressor]
  rfl

/-! ## The sweep of an aggressor -/

/-- What a sweep leaves, with the print of its last fill. -/
def printed (run : BookRun) : OrderBook :=
  match run.fills.getLast? with
  | none => run.book
  | some last =>
    { run.book with
      lastTradePrice := some last.fillPrice
      lastTradeSize := some (run.fills.map Fill.fillQuantity).sum }

theorem consumeLiquidity_eq (h : b.Shape) :
    b.consumeLiquidity aggressor quantity timestamp limitPrice true =
      let run := walk (aggressorSweep true timestamp) aggressor.opposite (fun _ => false)
        (b.reach aggressor limitPrice) b quantity
      (printed run, run.fills) := by
  simp only [consumeLiquidity, printed, h.walk_reach]
  generalize walk (aggressorSweep true timestamp) aggressor.opposite (fun _ => false)
    (b.reach aggressor limitPrice) b quantity = run
  cases hlast : run.fills.getLast? with
  | none => rw [List.getLast?_eq_none_iff.mp hlast]
  | some last => rfl

theorem heap_printed (run : BookRun) : (printed run).heap = run.book.heap := by
  unfold printed
  split <;> rfl

theorem side_printed (run : BookRun) (s : TradeSide) :
    (printed run).side s = run.book.side s := by
  unfold printed
  split <;> cases s <;> rfl

theorem level?_printed (run : BookRun) (s : TradeSide) (t : ℤ) :
    (printed run).level? s t = run.book.level? s t := by
  rw [level?, level?, side_printed]

theorem queue_printed (run : BookRun) (s : TradeSide) (t : ℤ) :
    (printed run).queue s t = run.book.queue s t :=
  queue_congr (level?_printed run s t)

theorem orders_printed (run : BookRun) : (printed run).orders = run.book.orders := by
  unfold printed
  split <;> rfl

theorem marketDepth_printed (run : BookRun) (s : TradeSide) :
    (printed run).marketDepth s = run.book.marketDepth s := by
  simp only [marketDepth, side_printed, queue_printed, heap_printed]

/-- What an aggressor takes from a book that lists its orders once. -/
theorem Ok.aggressor_swept (hok : b.Ok)
    (honce : ∀ t ∈ b.reach aggressor limitPrice, (b.queue aggressor.opposite t).Nodup)
    (quantity timestamp : ℚ) :
    Swept (aggressorSweep true timestamp) b aggressor.opposite (b.reach aggressor limitPrice)
      quantity (walk (aggressorSweep true timestamp) aggressor.opposite (fun _ => false)
        (b.reach aggressor limitPrice) b quantity) := by
  refine hok.walk_swept (aggressorSweep_sound true timestamp)
    (hok.shape.reach_nodup aggressor limitPrice) (fun t ht => ?_) honce quantity
  exact (hok.shape.mem_bestFirst aggressor).mp (List.mem_filter.mp ht).1

/-! ## Greedy execution -/

/-- What greedy execution of an aggressor leaves and reports. -/
structure Greedy (b : OrderBook) (aggressor : TradeSide) (quantity timestamp : ℚ)
    (limitPrice : Option ℚ) (after : OrderBook) (fills : List Fill) : Prop where
  /-- the fills are those of the first orders of the line, at the prices of their levels -/
  first : fills.map (fun f => (f.orderId, f.fillPrice)) =
    ((b.marketLine aggressor limitPrice).take fills.length).map fun p =>
      ((b.heap p.1).orderId, p.2)
  /-- no fill is beyond the limit -/
  within : ∀ f ∈ fills, ∃ t ∈ b.bestFirst aggressor,
    b.beyondLimit aggressor limitPrice t = false ∧ f.fillPrice = b.grid.fromTicks t
  /-- each order gives all it has, or all that is still wanted, and is filled by that -/
  size : ∀ i f, fills[i]? = some f → ∃ p, (b.marketLine aggressor limitPrice)[i]? = some p ∧
    f.fillQuantity = min (quantity - lineSize b.heap
      ((b.marketLine aggressor limitPrice).take i)) (b.heap p.1).remainingQuantity ∧
    after.heap p.1 = (b.heap p.1).recordFill f.fillPrice f.fillQuantity timestamp
  /-- what is filled is what is wanted or all there is within the limit, up to the tolerance -/
  total : (fills.map Fill.fillQuantity).sum ≤
      min (max 0 quantity) (lineSize b.heap (b.marketLine aggressor limitPrice)) ∧
    min (max 0 quantity) (lineSize b.heap (b.marketLine aggressor limitPrice)) ≤
      (fills.map Fill.fillQuantity).sum + eps
  /-- the market size falls by what is filled, and a remainder within the tolerance -/
  depth : ∃ crumb, 0 ≤ crumb ∧ crumb ≤ eps ∧
    b.marketDepth aggressor.opposite = (fills.map Fill.fillQuantity).sum + crumb +
      after.marketDepth aggressor.opposite
  /-- orders that are not filled change their queue position at most, and market orders not at
  all -/
  others : ∀ r, (∀ p ∈ (b.marketLine aggressor limitPrice).take fills.length, p.1 ≠ r) →
    after.heap r = b.heap r ∨ ((b.heap r).owner = .paper ∧
      after.heap r = (b.heap r).queuedBehind (after.heap r).queueAhead)
  /-- a paper order with nothing consumed in front of it keeps its position -/
  ahead : ∀ s t front r back, b.queue s t = front ++ r :: back → (b.heap r).owner = .paper →
    (∀ q ∈ front, ∀ p ∈ (b.marketLine aggressor limitPrice).take fills.length, p.1 ≠ q) →
    (after.heap r).queueAhead = (b.heap r).queueAhead
  /-- queues lose used-up market orders and nothing else -/
  queues : ∀ s t, after.queue s t =
    (b.queue s t).filter fun r => (after.heap r).isLive
  /-- the side of the aggressor and the levels beyond the limit are as they were -/
  levels : after.side aggressor = b.side aggressor ∧
    ∀ t, t ∉ b.reach aggressor limitPrice →
      after.level? aggressor.opposite t = b.level? aggressor.opposite t
  /-- the index loses the ids of used-up market orders -/
  index : ∀ id r, after.orders.get? id = some r ↔ b.orders.get? id = some r ∧
    ∀ s t, ∀ q ∈ b.queue s t, (after.heap q).isLive = false → (b.heap q).owner = .market →
      (b.heap q).orderId ≠ id
  /-- the print is that of the last fill -/
  print : (fills = [] → after.lastTradePrice = b.lastTradePrice ∧
      after.lastTradeSize = b.lastTradeSize) ∧
    ∀ last, fills.getLast? = some last → after.lastTradePrice = some last.fillPrice ∧
      after.lastTradeSize = some (fills.map Fill.fillQuantity).sum
  fixed : after.grid = b.grid ∧ after.symbol = b.symbol ∧ after.nextRef = b.nextRef ∧
    after.lastEventTime = b.lastEventTime
  ok : after.Ok

/-- The fill that a hit of an aggressor reports. -/
def takenFill (heap : Heap) (timestamp : ℚ) (h : Ref × Hit) : Fill :=
  restingFill ((heap h.1).recordFill h.2.price h.2.quantity timestamp) h.2.price h.2.quantity
    timestamp

theorem reports_aggressor (heap : Heap) (timestamp : ℚ) (hits : List (Ref × Hit)) :
    hits.filterMap (reportOf (aggressorSweep true timestamp) heap) =
      hits.map (takenFill heap timestamp) := by
  rw [← List.filterMap_eq_map']
  rfl

/-- The hits of an aggressor. -/
def takes (b : OrderBook) (aggressor : TradeSide) (limitPrice : Option ℚ) (quantity : ℚ) :
    List (Ref × Hit) :=
  hitsOf b.heap (b.marketLine aggressor limitPrice) quantity

theorem mem_marketLine {p : Ref × ℚ} :
    p ∈ b.marketLine aggressor limitPrice ↔ ∃ t ∈ b.reach aggressor limitPrice,
      p.1 ∈ b.queue aggressor.opposite t ∧ (b.heap p.1).owner = .market ∧
        p.2 = b.grid.fromTicks t := by
  rw [← line_aggressor 0, mem_line]
  refine exists_congr fun t => and_congr_right fun _ => and_congr_right fun _ =>
    and_congr_left fun _ => ?_
  have hskips := skips_aggressor 0 (b.heap p.1)
  rw [← decide_eq_true_iff (p := (b.heap p.1).owner = .market), ← hskips, Bool.not_eq_true']

/-- The market orders within the limit are different ones. -/
theorem Ok.marketLine_apart (hok : b.Ok)
    (honce : ∀ t ∈ b.reach aggressor limitPrice, (b.queue aggressor.opposite t).Nodup) :
    Apart (b.marketLine aggressor limitPrice) := by
  rw [← line_aggressor 0]
  exact hok.line_apart (hok.shape.reach_nodup aggressor limitPrice) honce

theorem Ok.marketLine_live (hok : b.Ok) :
    ∀ p ∈ b.marketLine aggressor limitPrice, (b.heap p.1).isLive = true := by
  rw [← line_aggressor 0]
  exact hok.line_live

theorem sum_takes (b : OrderBook) (aggressor : TradeSide) (limitPrice : Option ℚ)
    (quantity timestamp : ℚ) :
    (((b.takes aggressor limitPrice quantity).map (takenFill b.heap timestamp)).map
      Fill.fillQuantity).sum =
      lineTotal b.heap (b.marketLine aggressor limitPrice) quantity := by
  rw [lineTotal_eq, List.map_map]
  rfl

/-- The market size within the limit bounds what is filled, and is filled as far as wanted. -/
theorem Ok.lineTotal_near (hok : b.Ok) (aggressor : TradeSide) (limitPrice : Option ℚ)
    (quantity : ℚ) :
    lineTotal b.heap (b.marketLine aggressor limitPrice) quantity ≤
        min (max 0 quantity) (lineSize b.heap (b.marketLine aggressor limitPrice)) ∧
      min (max 0 quantity) (lineSize b.heap (b.marketLine aggressor limitPrice)) ≤
        lineTotal b.heap (b.marketLine aggressor limitPrice) quantity + eps := by
  have hsizes : ∀ size ∈ lineSizes b.heap (b.marketLine aggressor limitPrice), 0 ≤ size := by
    intro size hsize
    obtain ⟨p, hp, rfl⟩ := List.mem_map.mp hsize
    obtain ⟨t, -, hmem, -⟩ := mem_marketLine.mp hp
    exact (hok.remaining_pos hmem).le
  have hnonneg : lineTotal b.heap (b.marketLine aggressor limitPrice) quantity =
      lineTotal b.heap (b.marketLine aggressor limitPrice) (max 0 quantity) := by
    by_cases hquantity : 0 ≤ quantity
    · rw [max_eq_right hquantity]
    · have hle := (not_le.mp hquantity).le
      rw [max_eq_left hle, lineTotal, lineTotal, allot_of_le (hle.trans eps_pos.le),
        allot_of_le eps_pos.le]
  rw [hnonneg]
  exact sum_allot_near eps_pos.le (le_max_left _ _) hsizes

section Fields

variable {run : BookRun}
  (h : Swept (aggressorSweep true timestamp) b aggressor.opposite (b.reach aggressor limitPrice)
    quantity run)

include h

theorem Swept.fills_takes :
    run.fills = (b.takes aggressor limitPrice quantity).map (takenFill b.heap timestamp) := by
  rw [h.fills, hits, line_aggressor, reports_aggressor]
  rfl

theorem Swept.length_fills :
    run.fills.length = (b.takes aggressor limitPrice quantity).length := by
  rw [h.fills_takes, List.length_map]

/-- The fills are those of the first orders of the line. -/
theorem Swept.fills_first :
    run.fills.map (fun f => (f.orderId, f.fillPrice)) =
      ((b.marketLine aggressor limitPrice).take run.fills.length).map fun p =>
        ((b.heap p.1).orderId, p.2) := by
  rw [h.length_fills, takes, ← hitsOf_take, List.map_map, h.fills_takes, List.map_map]
  rfl

/-- No fill is beyond the limit. -/
theorem Swept.fills_within {f : Fill} (hf : f ∈ run.fills) :
    ∃ t ∈ b.bestFirst aggressor, b.beyondLimit aggressor limitPrice t = false ∧
      f.fillPrice = b.grid.fromTicks t := by
  rw [h.fills_takes] at hf
  obtain ⟨hit, hmem, rfl⟩ := List.mem_map.mp hf
  obtain ⟨t, ht, -, -, hprice⟩ := mem_marketLine.mp (mem_of_mem_hitsOf hmem)
  obtain ⟨hbest, hwithin⟩ := List.mem_filter.mp ht
  exact ⟨t, hbest, by simpa using hwithin, hprice⟩

/-- A market order is as the sweep struck it. -/
theorem Swept.heap_market {r : Ref} (hmarket : (b.heap r).owner = .market) :
    run.book.heap r = struck (aggressorSweep true timestamp)
      (b.takes aggressor limitPrice quantity) b.heap r := by
  have hstruck : b.struckAt (aggressorSweep true timestamp) aggressor.opposite
      (b.reach aggressor limitPrice) quantity r = struck (aggressorSweep true timestamp)
        (b.takes aggressor limitPrice quantity) b.heap r := by
    rw [struckAt, hits, line_aggressor]
    rfl
  rw [← hstruck]
  rcases h.order r with heq | ⟨position, heq⟩
  · exact heq
  · rw [heq, queuedBehind_of_market]
    exact (struck_owner (aggressorSweep_sound true timestamp) _ _ r).trans hmarket

/-- A filled order gives all it has, or all that is still wanted. -/
theorem Swept.fills_size (hline : Apart (b.marketLine aggressor limitPrice)) {i : ℕ} {f : Fill}
    (hf : run.fills[i]? = some f) :
    ∃ p, (b.marketLine aggressor limitPrice)[i]? = some p ∧
      f.fillQuantity = min (quantity - lineSize b.heap
        ((b.marketLine aggressor limitPrice).take i)) (b.heap p.1).remainingQuantity ∧
      run.book.heap p.1 =
        (b.heap p.1).recordFill f.fillPrice f.fillQuantity timestamp := by
  rw [h.fills_takes, List.getElem?_map, Option.map_eq_some_iff] at hf
  obtain ⟨hit, hhit, rfl⟩ := hf
  obtain ⟨hp, -, hsize⟩ := hitsOf_getElem? hhit
  have hmem := List.mem_of_getElem? hhit
  obtain ⟨t, -, -, hmarket, -⟩ := mem_marketLine.mp (mem_of_mem_hitsOf hmem)
  exact ⟨_, hp, hsize, (h.heap_market hmarket).trans (struck_of_mem hline hmem)⟩

/-- An order that is not filled changes its queue position at most. -/
theorem Swept.heap_others {r : Ref}
    (hr : ∀ p ∈ (b.marketLine aggressor limitPrice).take run.fills.length, p.1 ≠ r) :
    run.book.heap r = b.heap r ∨ ((b.heap r).owner = .paper ∧
      run.book.heap r = (b.heap r).queuedBehind (run.book.heap r).queueAhead) := by
  have hnone : b.struckAt (aggressorSweep true timestamp) aggressor.opposite
      (b.reach aggressor limitPrice) quantity r = b.heap r := by
    refine struck_of_none (Dict.lookup_eq_none_iff.mpr fun hkey => ?_)
    rw [hits, line_aggressor] at hkey
    obtain ⟨hit, hmem, heq⟩ := List.mem_map.mp hkey
    have htake := hitsOf_take b.heap (b.marketLine aggressor limitPrice) quantity
    refine hr (hit.1, hit.2.price) ?_ heq
    rw [h.length_fills, takes, ← htake]
    exact List.mem_map.mpr ⟨hit, hmem, rfl⟩
  rcases h.order r with heq | ⟨position, heq⟩
  · exact Or.inl (heq.trans hnone)
  · rw [hnone] at heq
    cases howner : (b.heap r).owner with
    | market => exact Or.inl (heq.trans (queuedBehind_of_market howner position))
    | paper =>
      refine Or.inr ⟨rfl, ?_⟩
      have hposition : (run.book.heap r).queueAhead = position := by
        rw [heq]
        simp [Order.queuedBehind, howner]
      rw [hposition]
      exact heq

end Fields

/-- The market size falls by what is filled, and a remainder within the tolerance. -/
theorem Ok.depth_taken (hok : b.Ok)
    (honce : ∀ t ∈ b.reach aggressor limitPrice, (b.queue aggressor.opposite t).Nodup)
    {run : BookRun} (hok' : run.book.Ok)
    (h : Swept (aggressorSweep true timestamp) b aggressor.opposite
      (b.reach aggressor limitPrice) quantity run) :
    ∃ crumb, 0 ≤ crumb ∧ crumb ≤ eps ∧ b.marketDepth aggressor.opposite =
      (run.fills.map Fill.fillQuantity).sum + crumb +
        run.book.marketDepth aggressor.opposite := by
  have hnodup := hok.shape.reach_nodup aggressor limitPrice
  have hdepth := h.depthOf_eq (aggressorSweep_sound true timestamp)
    (fun o o' howner => by simp [aggressorSweep, howner]) hok hok' hnodup
    (hok.shape.reach_sub aggressor limitPrice)
  rw [struckAt, hits, line_aggressor, depthOf_aggressor, depthOf_aggressor] at hdepth
  obtain ⟨crumb, hnonneg, hle, hcrumb⟩ := keptSize_struck (aggressorSweep_exact true timestamp)
    (hok.marketLine_apart honce) hok.marketLine_live quantity
  refine ⟨crumb, hnonneg, hle, ?_⟩
  rw [h.fills_takes, sum_takes]
  linarith

/-- Aggressive execution is greedy. -/
theorem consume_liquidity_greedy (hok : b.Ok)
    (honce : ∀ t ∈ b.reach aggressor limitPrice, (b.queue aggressor.opposite t).Nodup) :
    Greedy b aggressor quantity timestamp limitPrice
      (b.consumeLiquidity aggressor quantity timestamp limitPrice true).1
      (b.consumeLiquidity aggressor quantity timestamp limitPrice true).2 := by
  have hk := aggressorSweep_sound true timestamp
  have hswept := hok.aggressor_swept honce quantity timestamp
  have hok' := walk_ok hk aggressor.opposite (fun _ => false) (b.reach aggressor limitPrice) hok
    quantity
  have hok'' := consumeLiquidity_ok hok aggressor quantity timestamp limitPrice true
  rw [consumeLiquidity_eq hok.shape] at hok'' ⊢
  simp only at hok'' ⊢
  generalize walk (aggressorSweep true timestamp) aggressor.opposite (fun _ => false)
    (b.reach aggressor limitPrice) b quantity = run at hswept hok' hok'' ⊢
  have hheap := heap_printed run
  exact
    { first := hswept.fills_first
      within := fun f hf => hswept.fills_within hf
      size := fun i f hf => by
        rw [hheap]
        exact hswept.fills_size (hok.marketLine_apart honce) hf
      total := by
        rw [hswept.fills_takes, sum_takes]
        exact hok.lineTotal_near aggressor limitPrice quantity
      depth := by
        rw [marketDepth_printed]
        exact hok.depth_taken honce hok' hswept
      others := fun r hr => by
        rw [hheap]
        exact hswept.heap_others hr
      ahead := fun s t front r back hqueue hpaper hfront => by
        rw [hheap]
        have hsame : ∀ q, (∀ p ∈ (b.marketLine aggressor limitPrice).take run.fills.length,
            p.1 ≠ q) → (run.book.heap q).sansQueue = (b.heap q).sansQueue := fun q hq => by
          rcases hswept.heap_others hq with heq | ⟨-, heq⟩
          · rw [heq]
          · rw [heq, queuedBehind_sansQueue]
        refine hswept.queueAhead_eq hk hok hok' hqueue hpaper
          (fun q hq => hsame q (hfront q hq)) ?_
        have hr : r ∈ b.queue s t := by
          rw [hqueue]
          exact List.mem_append_right _ (List.mem_cons_self ..)
        rw [isLive_of_sansQueue (hsame r fun p hp heq => ?_)]
        · exact hok.isLive hr
        · obtain ⟨-, -, -, hmarket, -⟩ := mem_marketLine.mp (List.mem_of_mem_take hp)
          rw [heq, hpaper] at hmarket
          cases hmarket
      queues := fun s t => by
        rw [queue_printed, hheap]
        exact hswept.queue_filter hok s t
      levels := by
        refine ⟨?_, fun t ht => ?_⟩
        · rw [side_printed]
          exact hswept.side aggressor (by cases aggressor <;> exact fun heq => by cases heq)
        · rw [level?_printed]
          exact hswept.level t ht
      index := fun id r => by
        rw [orders_printed, hheap]
        exact hswept.index_iff hok id r
      print := by
        obtain ⟨-, -, -, hprice, hsize, -⟩ := hswept.fixed
        refine ⟨fun hnone => ?_, fun last hlast => ?_⟩
        · rw [printed, hnone]
          exact ⟨hprice, hsize⟩
        · simp only [printed, hlast, and_self]
      fixed := by
        obtain ⟨hgrid, hsymbol, hnext, -, -, htime⟩ := hswept.fixed
        unfold printed
        split <;> exact ⟨hgrid, hsymbol, hnext, htime⟩
      ok := hok'' }

/-- A book with two asks of the feed, and one of our own between them. -/
def threeAsks : OrderBook :=
  let first := ((OrderBook.empty cents "X").applyMarketEvent
    ⟨1, .add, .sell, 100, 10, some "a"⟩ zeros).1
  let own := Order.new "P00000001" "X" .sell .limit 3 (some 100) none .gtc 2 none .paper
  let second := (first.alloc own).addOrder first.nextRef 2
  (second.applyMarketEvent ⟨3, .add, .sell, 100, 5, some "b"⟩ zeros).1

theorem threeAsks_ok : threeAsks.Ok := by
  refine applyMarketEvent_ok (addNew_ok (applyMarketEvent_ok (empty_ok cents "X") _ _) ?_ 2) _ _
  have hsize : eps < (3 : ℚ) - 0 := by norm_num [eps]
  exact ⟨hsize, le_rfl, fun hfilled => absurd hfilled (lt_irrefl _)⟩

/-- A buy of 12 takes the first ask and two of the second. -/
theorem consume_liquidity_greedy_three :
    (threeAsks.consumeLiquidity .buy 12 4 (some 100) true).2.map Fill.fillQuantity = [10, 2] ∧
      Greedy threeAsks .buy 12 4 (some 100) (threeAsks.consumeLiquidity .buy 12 4 (some 100) true).1
        (threeAsks.consumeLiquidity .buy 12 4 (some 100) true).2 := by
  refine ⟨by decide +kernel, consume_liquidity_greedy threeAsks_ok fun t ht => ?_⟩
  have hreach : threeAsks.reach .buy (some 100) = [10000] := by decide +kernel
  rw [hreach, List.mem_singleton] at ht
  rw [ht]
  decide +kernel

/-- A remainder within the tolerance leaves the book with its order: the market size falls by more
than what is filled. -/
theorem crumb_dropped :
    threeAsks.Ok ∧
      (threeAsks.consumeLiquidity .buy (15 - 1 / 2000000000) 4 none true).2.map
        Fill.fillQuantity = [10, 5 - 1 / 2000000000] ∧
      threeAsks.marketDepth .sell -
          (threeAsks.consumeLiquidity .buy (15 - 1 / 2000000000) 4 none true).1.marketDepth .sell =
        15 ∧
      threeAsks.marketDepth .sell -
          (threeAsks.consumeLiquidity .buy (15 - 1 / 2000000000) 4 none true).1.marketDepth .sell ≠
        ((threeAsks.consumeLiquidity .buy (15 - 1 / 2000000000) 4 none true).2.map
          Fill.fillQuantity).sum := by
  have hsizes : (threeAsks.consumeLiquidity .buy (15 - 1 / 2000000000) 4 none true).2.map
        Fill.fillQuantity = [10, 5 - 1 / 2000000000] ∧
      threeAsks.marketDepth .sell -
          (threeAsks.consumeLiquidity .buy (15 - 1 / 2000000000) 4 none true).1.marketDepth .sell =
        15 := by
    decide +kernel
  refine ⟨threeAsks_ok, hsizes.1, hsizes.2, ?_⟩
  rw [hsizes.1, hsizes.2]
  norm_num

end OrderBook

end QuantumSentinel.Exchange
