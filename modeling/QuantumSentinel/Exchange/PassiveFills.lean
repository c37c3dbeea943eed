import QuantumSentinel.Exchange.Allotment

/-!
# Paper exchange: passive fills follow price and time

What a trade print does to the book it prints into.  A paper order in the path of the print gets
what the print leaves behind all strictly better levels and behind the size in front of it in its
own level.  The path must list each order once: a level that lists an order twice counts its size
twice, and the orders behind it are filled too early.

Main results:

- Theorem `OrderBook.passive_fills`: what each paper order gets, exactly for the books whose
  levels list their orders once.
-/

namespace QuantumSentinel.Exchange

open Lib

namespace OrderBook

variable {b : OrderBook} {s : TradeSide} {t : ℤ} {event : BookEvent}

/-! ## The book of a print -/

/-- The book with the last print and the last event noted. -/
def noted (b : OrderBook) (event : BookEvent) : OrderBook :=
  { b with
    lastTradePrice := some (b.grid.fromTicks (b.grid.toTicks event.price))
    lastTradeSize := some event.size
    lastEventTime := event.timestamp }

theorem side_noted (b : OrderBook) (event : BookEvent) (s : TradeSide) :
    (b.noted event).side s = b.side s := by
  cases s <;> rfl

theorem level?_noted (b : OrderBook) (event : BookEvent) (s : TradeSide) (t : ℤ) :
    (b.noted event).level? s t = b.level? s t := by
  rw [level?, level?, side_noted]

theorem queue_noted (b : OrderBook) (event : BookEvent) (s : TradeSide) (t : ℤ) :
    (b.noted event).queue s t = b.queue s t :=
  queue_congr (level?_noted b event s t)

theorem line_noted (k : Sweeper) (b : OrderBook) (event : BookEvent) (s : TradeSide)
    (ticks : List ℤ) : (b.noted event).line k s ticks = b.line k s ticks := by
  simp only [line, queue_noted]
  rfl

theorem Ok.noted (hok : b.Ok) (event : BookEvent) : (b.noted event).Ok :=
  hok.congr (side_noted b event) rfl le_rfl fun _ _ _ _ _ _ => rfl

/-- The run of a print over the levels in its path. -/
def printRun (b : OrderBook) (event : BookEvent) : BookRun :=
  walk (printSweep event.timestamp) event.side.opposite (fun _ => false) (b.tradePath event)
    (b.noted event) event.size

theorem applyMarketEvent_trade (htrade : event.eventType = .trade) (uuid : HexId) :
    b.applyMarketEvent event uuid = ((b.printRun event).book, (b.printRun event).fills) := by
  have hpath : ({ b with lastEventTime := event.timestamp } : OrderBook).tradePath event =
      b.tradePath event := by
    unfold tradePath bestFirst
    cases event.side <;> rfl
  simp only [applyMarketEvent, htrade, applyTrade, hpath]
  rfl

/-- The size of a side. -/
def sideDepth (b : OrderBook) (s : TradeSide) : ℚ :=
  ((b.side s).ticks.map fun t => totalSize b.heap (b.queue s t)).sum

/-- The size of the levels in the path of a print. -/
def pathSize (b : OrderBook) (event : BookEvent) : ℚ :=
  ((b.tradePath event).map fun t => totalSize b.heap (b.queue event.side.opposite t)).sum

/-- The size of the levels in the path of a print that are strictly better than a tick. -/
def betterSize (b : OrderBook) (event : BookEvent) (t : ℤ) : ℚ :=
  (((b.tradePath event).filter fun t' => worseThan event.side t t').map fun t' =>
    totalSize b.heap (b.queue event.side.opposite t')).sum

/-- What a print leaves and reports, by price and time. -/
structure PassiveFills (b : OrderBook) (event : BookEvent) (after : OrderBook)
    (fills : List Fill) : Prop where
  /-- an order of ours in the path gets what is left behind better levels and behind the size in
  front of it, up to the tolerance, at the price of its level -/
  filled : ∀ t ∈ b.tradePath event, ∀ r ∈ b.queue event.side.opposite t,
    (b.heap r).owner = .paper → ∃ size, 0 ≤ size ∧
      size ≤ min (b.heap r).remainingQuantity
          (max 0 (event.size - b.betterSize event t - (b.heap r).queueAhead)) ∧
        min (b.heap r).remainingQuantity
            (max 0 (event.size - b.betterSize event t - (b.heap r).queueAhead)) ≤ size + eps ∧
      ((size = 0 ∧ (after.heap r).sansQueue = (b.heap r).sansQueue) ∨
        ((after.heap r).sansQueue = ((b.heap r).recordFill (b.grid.fromTicks t) size
            event.timestamp).sansQueue ∧
          restingFill (after.heap r) (b.grid.fromTicks t) size event.timestamp ∈ fills))
  /-- only these fills are reported -/
  reported : ∀ f ∈ fills, ∃ t ∈ b.tradePath event, ∃ r ∈ b.queue event.side.opposite t,
    (b.heap r).owner = .paper ∧ f.orderId = (b.heap r).orderId ∧
      f.fillPrice = b.grid.fromTicks t ∧
        f.fillQuantity = (after.heap r).filledQuantity - (b.heap r).filledQuantity
  /-- the book loses the size of the print or all that is in its path, up to the tolerance -/
  total : |b.sideDepth event.side.opposite - after.sideDepth event.side.opposite -
    min event.size (b.pathSize event)| ≤ eps
  /-- what is not in the path is as it was -/
  outside : (∀ r, (∀ t ∈ b.tradePath event, r ∉ b.queue event.side.opposite t) →
      after.heap r = b.heap r) ∧
    (∀ t, t ∉ b.tradePath event →
      after.level? event.side.opposite t = b.level? event.side.opposite t) ∧
    after.side event.side = b.side event.side

/-! ## The line of a print -/

theorem lineOf_print (timestamp : ℚ) (heap : Heap) (price : ℚ) (orders : List Ref) :
    lineOf (printSweep timestamp) heap price orders = orders.map fun r => (r, price) := by
  have hnone : ∀ o, (printSweep timestamp).skips o = false := fun o => rfl
  simp [lineOf, hnone]

theorem lineSize_orders (heap : Heap) (price : ℚ) (orders : List Ref) :
    lineSize heap (orders.map fun r => (r, price)) = totalSize heap orders := by
  rw [lineSize, lineSizes, List.map_map]
  rfl

theorem lineSize_print (timestamp : ℚ) (b : OrderBook) (s : TradeSide) (ticks : List ℤ) :
    lineSize b.heap (b.line (printSweep timestamp) s ticks) =
      (ticks.map fun t => totalSize b.heap (b.queue s t)).sum := by
  rw [lineSize_line]
  simp only [line_singleton, lineOf_print, lineSize_orders]

theorem depthOf_print (timestamp : ℚ) (b : OrderBook) (s : TradeSide) :
    depthOf (printSweep timestamp) b s = b.sideDepth s := by
  simp only [depthOf, line_singleton, lineOf_print, lineSize_orders]
  rfl

/-- The path of a print is what lies within its price. -/
theorem tradePath_eq (b : OrderBook) (event : BookEvent) :
    b.tradePath event = b.reach event.side (some event.price) :=
  rfl

theorem worseThan_irrefl {aggressor : TradeSide} (t : ℤ) : worseThan aggressor t t = false := by
  cases aggressor <;> simp [worseThan]

theorem worseThan_asymm {aggressor : TradeSide} {t t' : ℤ}
    (h : worseThan aggressor t t' = true) : worseThan aggressor t' t = false := by
  cases aggressor <;> simp only [worseThan, decide_eq_true_eq, decide_eq_false_iff_not] at * <;>
    omega

/-- The ticks in front of a tick of the path are those that are strictly better. -/
theorem Shape.filter_better (h : b.Shape) {front back : List ℤ}
    (hpath : b.tradePath event = front ++ t :: back) :
    ((b.tradePath event).filter fun t' => worseThan event.side t t') = front := by
  have hsorted : (b.tradePath event).Pairwise fun t t' => worseThan event.side t' t = true :=
    (h.bestFirst_pairwise event.side).filter _
  rw [hpath] at hsorted ⊢
  obtain ⟨-, hback, hfront⟩ := List.pairwise_append.mp hsorted
  rw [List.filter_append, List.filter_eq_self.mpr fun t' ht' => hfront t' ht' t
      (List.mem_cons_self ..), List.filter_cons, worseThan_irrefl]
  rw [List.filter_eq_nil_iff.mpr fun t' ht' => ?_]
  · simp
  · rw [worseThan_asymm ((List.pairwise_cons.mp hback).1 t' ht')]
    exact Bool.false_ne_true

/-- The line in front of an order in the path: all strictly better levels, and the orders in front
of it in its own. -/
theorem Ok.line_split (hok : b.Ok) (ht : t ∈ b.tradePath event) {r : Ref}
    (hr : r ∈ b.queue event.side.opposite t) :
    ∃ front back, b.line (printSweep event.timestamp) event.side.opposite (b.tradePath event) =
        front ++ (r, b.grid.fromTicks t) :: back ∧
      (∀ p ∈ front, 0 ≤ (b.heap p.1).remainingQuantity) ∧
      ((b.heap r).owner = .paper →
        lineSize b.heap front = b.betterSize event t + (b.heap r).queueAhead) := by
  obtain ⟨better, worse, hpath⟩ := List.append_of_mem ht
  obtain ⟨ahead, behind, hqueue⟩ := List.append_of_mem hr
  have hsplit : b.line (printSweep event.timestamp) event.side.opposite (b.tradePath event) =
      (b.line (printSweep event.timestamp) event.side.opposite better ++
        ahead.map fun q => (q, b.grid.fromTicks t)) ++
      (r, b.grid.fromTicks t) :: (behind.map (fun q => (q, b.grid.fromTicks t)) ++
        b.line (printSweep event.timestamp) event.side.opposite worse) := by
    rw [hpath]
    simp only [line, List.flatMap_append, List.flatMap_cons, lineOf_print, hqueue,
      List.map_append, List.map_cons, List.append_assoc, List.cons_append]
  refine ⟨_, _, hsplit, fun p hp => ?_, fun hpaper => ?_⟩
  · have hmem : p ∈ b.line (printSweep event.timestamp) event.side.opposite
        (b.tradePath event) := by
      rw [hsplit]
      exact List.mem_append_left _ hp
    obtain ⟨t', -, hrest, -⟩ := mem_line.mp hmem
    exact (hok.remaining_pos hrest).le
  · rw [lineSize_append, lineSize_orders, lineSize_print, betterSize,
      hok.shape.filter_better hpath, hok.queueAhead_eq hqueue hpaper]

/-- What a print leaves of a book whose path lists its orders once. -/
theorem Ok.print_swept (hok : b.Ok)
    (honce : ∀ t ∈ b.tradePath event, (b.queue event.side.opposite t).Nodup) :
    Swept (printSweep event.timestamp) (b.noted event) event.side.opposite (b.tradePath event)
      event.size (b.printRun event) := by
  refine (hok.noted event).walk_swept (printSweep_sound event.timestamp)
    (hok.shape.reach_nodup event.side (some event.price)) (fun t ht => ?_) (fun t ht => ?_)
    event.size
  · rw [level?_noted]
    exact (hok.shape.mem_bestFirst event.side).mp (List.mem_filter.mp ht).1
  · rw [queue_noted]
    exact honce t ht

/-! ## What a print fills -/

/-- A fill shows nothing of the queue position. -/
theorem restingFill_congr {o o' : Order} (h : o'.sansQueue = o.sansQueue)
    (price quantity timestamp : ℚ) :
    restingFill o' price quantity timestamp = restingFill o price quantity timestamp := by
  cases o
  cases o'
  simp only [Order.sansQueue, Order.mk.injEq] at h
  obtain ⟨hid, -, hside, -, -, -, -, -, -, -, -, hstatus, -⟩ := h
  simp only [restingFill, hid, hside, hstatus]

theorem hit_paper {o : Order} (hpaper : o.owner = .paper) (price quantity timestamp : ℚ) :
    (printSweep timestamp).hit price quantity o = o.recordFill price quantity timestamp := by
  simp only [printSweep, hpaper]

theorem reportOf_paper {heap : Heap} {h : Ref × Hit} (hpaper : (heap h.1).owner = .paper)
    (timestamp : ℚ) : reportOf (printSweep timestamp) heap h =
      some (restingFill ((heap h.1).recordFill h.2.price h.2.quantity timestamp) h.2.price
        h.2.quantity timestamp) := by
  have howner : ((heap h.1).recordFill h.2.price h.2.quantity timestamp).owner = .paper := hpaper
  simp only [reportOf, hit_paper hpaper]
  exact if_pos (by simpa [printSweep] using howner)

theorem reportOf_market {heap : Heap} {h : Ref × Hit} (hmarket : (heap h.1).owner = .market)
    (timestamp : ℚ) : reportOf (printSweep timestamp) heap h = none := by
  have howner : ((printSweep timestamp).hit h.2.price h.2.quantity (heap h.1)).owner = .market :=
    ((printSweep_sound timestamp).owner _ _ _).trans hmarket
  simp only [reportOf]
  exact if_neg (by simp [printSweep] at howner ⊢; simp [howner])

section Fields

variable {run : BookRun}
  (h : Swept (printSweep event.timestamp) (b.noted event) event.side.opposite
    (b.tradePath event) event.size run)

include h

/-- A paper order in the path gets what is left for it. -/
theorem Swept.print_filled (hok : b.Ok)
    (honce : ∀ t ∈ b.tradePath event, (b.queue event.side.opposite t).Nodup)
    (ht : t ∈ b.tradePath event) {r : Ref} (hr : r ∈ b.queue event.side.opposite t)
    (hpaper : (b.heap r).owner = .paper) : ∃ size, 0 ≤ size ∧
      size ≤ min (b.heap r).remainingQuantity
          (max 0 (event.size - b.betterSize event t - (b.heap r).queueAhead)) ∧
        min (b.heap r).remainingQuantity
            (max 0 (event.size - b.betterSize event t - (b.heap r).queueAhead)) ≤ size + eps ∧
      ((size = 0 ∧ (run.book.heap r).sansQueue = (b.heap r).sansQueue) ∨
        ((run.book.heap r).sansQueue = ((b.heap r).recordFill (b.grid.fromTicks t) size
            event.timestamp).sansQueue ∧
          restingFill (run.book.heap r) (b.grid.fromTicks t) size event.timestamp ∈
            run.fills)) := by
  obtain ⟨front, back, hline, hfront, hahead⟩ := hok.line_split ht hr
  have hnear := portion_near eps_pos.le (hok.remaining_pos hr).le event.size
    (lineSize b.heap front)
  have hleft : event.size - lineSize b.heap front =
      event.size - b.betterSize event t - (b.heap r).queueAhead := by
    rw [hahead hpaper, sub_sub]
  rw [hleft] at hnear
  refine ⟨_, portion_nonneg eps_pos.le (hok.remaining_pos hr).le event.size
    (lineSize b.heap front), hnear.1, hnear.2, ?_⟩
  have hapart := hok.line_apart (k := printSweep event.timestamp)
    (hok.shape.reach_nodup event.side (some event.price)) honce
  rw [← tradePath_eq, hline] at hapart
  have hstruck : (b.noted event).struckAt (printSweep event.timestamp) event.side.opposite
      (b.tradePath event) event.size = struck (printSweep event.timestamp)
        (hitsOf b.heap (front ++ (r, b.grid.fromTicks t) :: back) event.size) b.heap := by
    rw [struckAt, hits, line_noted, hline]
    rfl
  have horder := h.sansQueue r
  rw [hstruck] at horder
  by_cases hnone : event.size - lineSize b.heap front ≤ eps
  · refine Or.inl ⟨?_, ?_⟩
    · exact if_pos hnone
    · rw [horder, struck_of_none (notMem_hitsOf_of_le hnone hfront hapart)]
  · have hmem := mem_hitsOf_of_lt (r, b.grid.fromTicks t) back (not_le.mp hnone) hfront
    have hportion : portion eps event.size (lineSize b.heap front)
        (b.heap r).remainingQuantity =
          min (event.size - lineSize b.heap front) (b.heap r).remainingQuantity :=
      if_neg hnone
    rw [hportion]
    have hheap := struck_of_mem (k := printSweep event.timestamp) hapart hmem
    simp only [hit_paper hpaper] at hheap
    rw [hheap] at horder
    refine Or.inr ⟨horder, ?_⟩
    rw [restingFill_congr horder, h.fills, hits, line_noted, hline]
    exact List.mem_filterMap.mpr ⟨_, hmem, reportOf_paper hpaper event.timestamp⟩

/-- Only the fills of paper orders in the path are reported. -/
theorem Swept.print_reported (hok : b.Ok)
    (honce : ∀ t ∈ b.tradePath event, (b.queue event.side.opposite t).Nodup) {f : Fill}
    (hf : f ∈ run.fills) :
    ∃ t ∈ b.tradePath event, ∃ r ∈ b.queue event.side.opposite t,
      (b.heap r).owner = .paper ∧ f.orderId = (b.heap r).orderId ∧
        f.fillPrice = b.grid.fromTicks t ∧
          f.fillQuantity = (run.book.heap r).filledQuantity - (b.heap r).filledQuantity := by
  rw [h.fills, hits, line_noted] at hf
  obtain ⟨hit, hmem, hreport⟩ := List.mem_filterMap.mp hf
  obtain ⟨t, ht, hr, -, hprice⟩ := mem_line.mp (mem_of_mem_hitsOf hmem)
  change reportOf _ b.heap hit = some f at hreport
  cases howner : (b.heap hit.1).owner with
  | market =>
    rw [reportOf_market howner] at hreport
    cases hreport
  | paper =>
    rw [reportOf_paper howner, Option.some.injEq] at hreport
    subst hreport
    refine ⟨t, ht, hit.1, hr, howner, rfl, hprice, ?_⟩
    have hapart := hok.line_apart (k := printSweep event.timestamp)
      (hok.shape.reach_nodup event.side (some event.price)) honce
    have horder := h.sansQueue hit.1
    have hstruck : (b.noted event).struckAt (printSweep event.timestamp) event.side.opposite
        (b.tradePath event) event.size hit.1 =
          (b.heap hit.1).recordFill hit.2.price hit.2.quantity event.timestamp := by
      rw [← hit_paper howner]
      rw [struckAt, hits, line_noted]
      exact struck_of_mem hapart hmem
    rw [hstruck] at horder
    rw [(fields_of_sansQueue horder).2.2.2.2.2.2]
    show hit.2.quantity = (b.heap hit.1).filledQuantity + hit.2.quantity - _
    rw [add_sub_cancel_left]

/-- The book loses the size of the print or all that is in its path. -/
theorem Swept.print_total (hok : b.Ok) (hok' : run.book.Ok)
    (honce : ∀ t ∈ b.tradePath event, (b.queue event.side.opposite t).Nodup)
    (hsize : 0 ≤ event.size) :
    |b.sideDepth event.side.opposite - run.book.sideDepth event.side.opposite -
      min event.size (b.pathSize event)| ≤ eps := by
  have hnodup := hok.shape.reach_nodup event.side (some event.price)
  have hsub := hok.shape.reach_sub event.side (some event.price)
  rw [← tradePath_eq] at hnodup hsub
  have hdepth := h.depthOf_eq (printSweep_sound event.timestamp) (fun o o' _ => rfl)
    (hok.noted event) hok' hnodup (by rwa [side_noted])
  rw [struckAt, hits, line_noted, depthOf_print, depthOf_print] at hdepth
  obtain ⟨crumb, hnonneg, hle, hcrumb⟩ := keptSize_struck (printSweep_exact event.timestamp)
    (hok.line_apart hnodup honce) hok.line_live event.size
  have hsizes : ∀ size ∈ lineSizes b.heap (b.line (printSweep event.timestamp)
      event.side.opposite (b.tradePath event)), 0 ≤ size := by
    intro size hmem
    obtain ⟨p, hp, rfl⟩ := List.mem_map.mp hmem
    obtain ⟨t', -, hrest, -⟩ := mem_line.mp hp
    exact (hok.remaining_pos hrest).le
  obtain ⟨hupper, hlower⟩ := sum_allot_near eps_pos.le hsize hsizes
  have hside : (b.noted event).sideDepth event.side.opposite =
      b.sideDepth event.side.opposite := by
    simp only [sideDepth, side_noted, queue_noted]
    rfl
  have hpath : (lineSizes b.heap (b.line (printSweep event.timestamp) event.side.opposite
      (b.tradePath event))).sum = b.pathSize event := lineSize_print ..
  rw [hside] at hdepth
  rw [hpath] at hupper hlower
  have hheap : (b.noted event).heap = b.heap := rfl
  rw [hheap] at hdepth
  unfold lineTotal at hcrumb
  rw [abs_le]
  constructor <;> linarith

end Fields

/-- A print into a path that lists its orders once fills by price and time. -/
theorem Ok.passiveFills (hok : b.Ok) (htrade : event.eventType = .trade)
    (hsize : 0 ≤ event.size)
    (honce : ∀ t ∈ b.tradePath event, (b.queue event.side.opposite t).Nodup) (uuid : HexId) :
    PassiveFills b event (b.applyMarketEvent event uuid).1
      (b.applyMarketEvent event uuid).2 := by
  have hswept := hok.print_swept honce
  have hok' : (b.printRun event).book.Ok :=
    walk_ok (printSweep_sound event.timestamp) _ _ _ (hok.noted event) _
  rw [applyMarketEvent_trade htrade]
  exact
    { filled := fun t ht r hr hpaper => hswept.print_filled hok honce ht hr hpaper
      reported := fun f hf => hswept.print_reported hok honce hf
      total := hswept.print_total hok hok' honce hsize
      outside := by
        refine ⟨fun r hr => hswept.elsewhere r fun t ht => ?_, fun t ht => ?_, ?_⟩
        · rw [queue_noted]
          exact hr t ht
        · rw [← level?_noted b event]
          exact hswept.level t ht
        · rw [← side_noted b event]
          exact hswept.side _ (by cases event.side <;> exact fun heq => by cases heq) }

/-! ## Books that list an order twice -/

/-- The first entry of a list that comes again. -/
theorem exists_repeated {l : List Ref} (h : ¬l.Nodup) :
    ∃ front r back, l = front ++ r :: back ∧ r ∈ back ∧ (front ++ [r]).Nodup := by
  induction l with
  | nil => exact absurd List.nodup_nil h
  | cons a rest ih =>
    by_cases hmem : a ∈ rest
    · exact ⟨[], a, rest, rfl, hmem, List.nodup_singleton a⟩
    · obtain ⟨front, r, back, hrest, hagain, hnodup⟩ :=
        ih fun hrest => h (List.nodup_cons.mpr ⟨hmem, hrest⟩)
      refine ⟨a :: front, r, back, by rw [hrest]; rfl, hagain, ?_⟩
      refine List.nodup_cons.mpr ⟨fun hfront => hmem ?_, hnodup⟩
      rw [hrest]
      rcases List.mem_append.mp hfront with hin | hlast
      · exact List.mem_append_left _ hin
      · rw [List.mem_singleton.mp hlast]
        exact List.mem_append_right _ (List.mem_cons_self ..)

/-- The loop over one level, the orders in front first. -/
theorem walkLevel_append (k : Sweeper) (price : ℚ) (orders orders' : List Ref) (heap : Heap)
    (remaining : ℚ) :
    (walkLevel k price (orders ++ orders') heap remaining).heap =
      (walkLevel k price orders' (walkLevel k price orders heap remaining).heap
        (walkLevel k price orders heap remaining).remaining).heap ∧
    (walkLevel k price (orders ++ orders') heap remaining).remaining =
      (walkLevel k price orders' (walkLevel k price orders heap remaining).heap
        (walkLevel k price orders heap remaining).remaining).remaining := by
  induction orders generalizing heap remaining with
  | nil => exact ⟨rfl, rfl⟩
  | cons r rest ih =>
    by_cases hdone : remaining ≤ eps
    · rw [walkLevel_of_le hdone, walkLevel_of_le hdone, walkLevel_of_le hdone]
      exact ⟨rfl, rfl⟩
    · simp only [List.cons_append, walkLevel, if_neg hdone]
      split
      · exact ih heap remaining
      · split
        · exact ih heap remaining
        · split
          · exact ih _ _
          · exact ih _ _

/-- A level that is swept by the size of its first orders uses them up. -/
theorem walkLevel_used {k : Sweeper} (hk : k.Exact) (hskips : ∀ o, k.skips o = false) (price : ℚ)
    {front : List Ref} (back : List Ref) {heap : Heap} (hnodup : front.Nodup)
    (hlive : ∀ r ∈ front, eps < (heap r).remainingQuantity) :
    (∀ r ∈ front, ((walkLevel k price (front ++ back) heap (totalSize heap front)).heap
        r).remainingQuantity = 0) ∧
      (∀ r, r ∉ front →
        (walkLevel k price (front ++ back) heap (totalSize heap front)).heap r = heap r) ∧
      (walkLevel k price (front ++ back) heap (totalSize heap front)).remaining = 0 := by
  have hline : lineOf k heap price front = front.map fun r => (r, price) := by
    simp [lineOf, hskips]
  have hsizes : ∀ p ∈ lineOf k heap price front, eps < (heap p.1).remainingQuantity :=
    fun p hp => hlive p.1 (mem_lineOf.mp hp).1
  have hsize : lineSize heap (lineOf k heap price front) = totalSize heap front := by
    rw [hline, lineSize_orders]
  have hhits : hitsOf heap (lineOf k heap price front) (totalSize heap front) =
      fullHits heap (lineOf k heap price front) := by
    rw [← hsize, hitsOf_self hsizes]
  have htotal : lineTotal heap (lineOf k heap price front) (totalSize heap front) =
      totalSize heap front := by
    rw [lineTotal_eq, hhits, fullHits, List.map_map, ← hsize]
    rfl
  have hapart : Apart (lineOf k heap price front) := by
    rw [Apart, hline, List.map_map]
    simpa [Function.comp_def] using hnodup
  obtain ⟨hheap, hremaining⟩ :=
    walkLevel_append k price front back heap (totalSize heap front)
  rw [walkLevel_eq price hnodup hlive, htotal, sub_self, walkLevel_of_le eps_pos.le] at hheap
  rw [walkLevel_eq price hnodup hlive, htotal, sub_self, walkLevel_of_le eps_pos.le] at hremaining
  rw [hheap, hremaining]
  refine ⟨fun r hr => ?_, fun r hr => ?_, rfl⟩
  · have hmem : (r, ⟨price, (heap r).remainingQuantity⟩) ∈
        hitsOf heap (lineOf k heap price front) (totalSize heap front) := by
      rw [hhits, fullHits, hline, List.map_map]
      exact List.mem_map.mpr ⟨r, hr, rfl⟩
    refine (congrArg Order.remainingQuantity (struck_of_mem hapart hmem)).trans ?_
    rw [hk.remaining, sub_self]
  · refine struck_of_none (lookup_hitsOf_of_notMem fun p hp heq => hr ?_)
    exact heq ▸ (mem_lineOf.mp hp).1

theorem totalSize_append (heap : Heap) (orders orders' : List Ref) :
    totalSize heap (orders ++ orders') = totalSize heap orders + totalSize heap orders' := by
  rw [totalSize, List.map_append, List.sum_append]
  rfl

theorem totalSize_perm (heap : Heap) {orders orders' : List Ref} (h : orders.Perm orders') :
    totalSize heap orders = totalSize heap orders' :=
  (h.map _).sum_eq

theorem totalSize_filter_le {heap heap' : Heap} (orders : List Ref) (keeps : Ref → Bool)
    (h : ∀ r ∈ orders, 0 ≤ (heap r).remainingQuantity)
    (hle : ∀ r ∈ orders, (heap' r).remainingQuantity ≤ (heap r).remainingQuantity) :
    totalSize heap' (orders.filter keeps) ≤ totalSize heap orders := by
  induction orders with
  | nil => rfl
  | cons r rest ih =>
    have hrest := ih (fun q hq => h q (List.mem_cons_of_mem r hq))
      fun q hq => hle q (List.mem_cons_of_mem r hq)
    have hr := h r (List.mem_cons_self ..)
    have hr' := hle r (List.mem_cons_self ..)
    rw [List.filter_cons]
    split
    · rw [totalSize_cons, totalSize_cons]
      exact add_le_add hr' hrest
    · rw [totalSize_cons]
      linarith

theorem Ok.lineSize_nonneg {k : Sweeper} (hok : b.Ok) (ticks : List ℤ) :
    0 ≤ lineSize b.heap (b.line k s ticks) := by
  refine List.sum_nonneg fun size hsize => ?_
  obtain ⟨p, hp, rfl⟩ := List.mem_map.mp hsize
  obtain ⟨t', -, hmem, -⟩ := mem_line.mp hp
  exact (hok.remaining_pos hmem).le

/-- The orders up to one of a queue are in the queue. -/
theorem mem_queue_front {front back : List Ref} {q r : Ref} (hqueue : b.queue s t = front ++ r :: back)
    (hq : q ∈ front ++ [r]) : q ∈ b.queue s t := by
  rw [hqueue, List.append_cons]
  exact List.mem_append_left back hq

theorem Ok.lt_totalSize (hok : b.Ok) {front : List Ref} {r : Ref}
    (h : ∀ q ∈ front ++ [r], q ∈ b.queue s t) : eps < totalSize b.heap (front ++ [r]) := by
  have hlive := hok.eps_lt_remaining (h r (List.mem_append_right _ (List.mem_cons_self ..)))
  have hfront : 0 ≤ totalSize b.heap front := List.sum_nonneg fun size hsize => by
    obtain ⟨q, hq, rfl⟩ := List.mem_map.mp hsize
    exact (hok.remaining_pos (h q (List.mem_append_left _ hq))).le
  rw [totalSize_append, totalSize_cons, totalSize_nil]
  linarith

/-- A line gets all it has when enough is left behind it. -/
theorem Ok.lineTotal_of_lt {k : Sweeper} (hok : b.Ok) {ticks : List ℤ} {quantity : ℚ}
    (h : eps < quantity - lineSize b.heap (b.line k s ticks)) :
    lineTotal b.heap (b.line k s ticks) quantity = lineSize b.heap (b.line k s ticks) := by
  have hsizes : ∀ size ∈ lineSizes b.heap (b.line k s ticks), 0 ≤ size := fun size hsize => by
    obtain ⟨p, hp, rfl⟩ := List.mem_map.mp hsize
    obtain ⟨t', -, hmem, -⟩ := mem_line.mp hp
    exact (hok.remaining_pos hmem).le
  have hle : (allot eps quantity (lineSizes b.heap (b.line k s ticks))).sum ≤
      (lineSizes b.heap (b.line k s ticks)).sum := sum_allot_le_sum quantity hsizes
  have hlt : eps < quantity - (allot eps quantity (lineSizes b.heap (b.line k s ticks))).sum :=
    h.trans_le (sub_le_sub_left hle quantity)
  rw [lineTotal, allot_eq_of_lt eps_pos.le hlt]
  rfl

/-- A level that is used up takes its size out of the side. -/
theorem Ok.depthOf_levelSwept {k : Sweeper} (hok : b.Ok) (hk : k.Exact) (hsound : k.Sound)
    (hskips : ∀ o, k.skips o = false) (hlevel : ∃ level, b.level? s t = some level)
    (honce : (b.queue s t).Nodup) {quantity : ℚ} (hmore : eps < quantity)
    (htotal : lineTotal b.heap (b.line k s [t]) quantity = lineSize b.heap (b.line k s [t])) :
    depthOf k (levelSwept k b s t quantity) s + lineSize b.heap (b.line k s [t]) ≤
      depthOf k b s := by
  have honce' : ∀ t' ∈ [t], (b.queue s t').Nodup := fun t' ht' => by
    rwa [List.mem_singleton.mp ht']
  have hswept := hok.walk_swept hsound (List.nodup_singleton t)
    (fun t' ht' => by rwa [List.mem_singleton.mp ht']) honce' quantity
  rw [hok.walk_cons hlevel honce hmore] at hswept
  have hdepth := hswept.depthOf_eq hsound (fun o o' _ => by rw [hskips, hskips]) hok
    (hok.levelSwept_ok hsound hlevel honce quantity) (List.nodup_singleton t)
    (List.cons_subset.mpr ⟨(hok.shape.keys s t).mpr hlevel, List.nil_subset _⟩)
  obtain ⟨crumb, hnonneg, -, hcrumb⟩ := keptSize_struck hk
    (hok.line_apart (k := k) (List.nodup_singleton t) honce') hok.line_live quantity
  have hbook : depthOf k b s - depthOf k (levelSwept k b s t quantity) s =
      lineSize b.heap (b.line k s [t]) -
        keptSize (b.struckAt k s [t] quantity) (b.line k s [t]) := hdepth
  rw [htotal] at hcrumb
  unfold struckAt hits at hbook
  linarith

/-- What is left of a level whose first listings are used up, when one of them is listed again. -/
theorem totalSize_left_le {heap heap' : Heap} {front back : List Ref} {r : Ref} (hagain : r ∈ back)
    (hused : ∀ q ∈ front ++ [r], (heap' q).remainingQuantity = 0)
    (hsame : ∀ q ∉ front ++ [r], heap' q = heap q)
    (hpos : ∀ q ∈ back, 0 ≤ (heap q).remainingQuantity) :
    totalSize heap' ((front ++ [r] ++ back).filter fun q => (heap' q).isLive) ≤
      totalSize heap (back.erase r) := by
  have hdead : ∀ q ∈ front ++ [r], (heap' q).isLive = false := fun q hq => by
    rw [← Bool.not_eq_true, Order.isLive_iff, hused q hq]
    exact fun h => absurd h.1 (not_lt.mpr eps_pos.le)
  have hnone : ((front ++ [r]).filter fun q => (heap' q).isLive) = [] :=
    List.filter_eq_nil_iff.mpr fun q hq => by rw [hdead q hq]; exact Bool.false_ne_true
  have hr := hdead r (List.mem_append_right _ (List.mem_cons_self ..))
  have hperm := (List.perm_cons_erase hagain).filter fun q => (heap' q).isLive
  rw [List.filter_cons, hr, if_neg Bool.false_ne_true] at hperm
  have hle : ∀ q ∈ back.erase r, (heap' q).remainingQuantity ≤ (heap q).remainingQuantity := by
    intro q hq
    by_cases hin : q ∈ front ++ [r]
    · rw [hused q hin]
      exact hpos q (List.mem_of_mem_erase hq)
    · rw [hsame q hin]
  rw [List.filter_append, hnone, List.nil_append, totalSize_perm _ hperm]
  exact totalSize_filter_le _ _ (fun q hq => hpos q (List.mem_of_mem_erase hq)) hle

/-- A level that lists an order again loses the size of that order once too often. -/
theorem Ok.repeated_level {k : Sweeper} (hok : b.Ok) (hk : k.Exact) (hsound : k.Sound)
    (hskips : ∀ o, k.skips o = false) {front back : List Ref} {r : Ref}
    (hlevel : ∃ level, b.level? s t = some level) (hqueue : b.queue s t = front ++ r :: back)
    (hagain : r ∈ back) (hnodup : (front ++ [r]).Nodup) :
    (walk k s (fun _ => false) [t] b (totalSize b.heap (front ++ [r]))).book.Ok ∧
      depthOf k (walk k s (fun _ => false) [t] b (totalSize b.heap (front ++ [r]))).book s +
        totalSize b.heap (front ++ [r]) + (b.heap r).remainingQuantity ≤ depthOf k b s := by
  have hok' : (walk k s (fun _ => false) [t] b (totalSize b.heap (front ++ [r]))).book.Ok :=
    walk_ok hsound _ _ _ hok _
  refine ⟨hok', ?_⟩
  have hlive : ∀ q ∈ b.queue s t, eps < (b.heap q).remainingQuantity :=
    fun q hq => hok.eps_lt_remaining hq
  have hsub : ∀ q ∈ front ++ [r], q ∈ b.queue s t := fun q hq => mem_queue_front hqueue hq
  have hmore := hok.lt_totalSize hsub
  obtain ⟨level, hfound⟩ := hlevel
  have horders : level.orders = (front ++ [r]) ++ back := by
    rw [← queue_of_level hfound, hqueue]
    simp
  obtain ⟨hused, hsame, hzero⟩ := walkLevel_used hk hskips level.price back hnodup
    fun q hq => hlive q (hsub q hq)
  set heap' := (walkLevel k level.price (front ++ [r] ++ back) b.heap
    (totalSize b.heap (front ++ [r]))).heap with hheap'
  have hbook : (walk k s (fun _ => false) [t] b (totalSize b.heap (front ++ [r]))).book =
      (b.withHeap heap').prune s t := by
    simp only [walk, not_le.mpr hmore, decide_false, Bool.or_false, Bool.false_eq_true, if_false,
      hfound, horders]
    rfl
  rw [hbook] at hok' ⊢
  have hremaining : ∀ q, (((b.withHeap heap').prune s t).heap q).remainingQuantity =
      (heap' q).remainingQuantity := fun q => (fields_of_sansQueue (heap_prune_sansQueue q)).1
  have hleft : totalSize ((b.withHeap heap').prune s t).heap
      ((b.queue s t).filter fun q => (heap' q).isLive) ≤ totalSize b.heap (back.erase r) := by
    rw [totalSize_congr fun q _ => hremaining q, hqueue, List.append_cons]
    refine totalSize_left_le hagain hused hsame fun q hq => (eps_pos.trans (hlive q ?_)).le
    rw [hqueue]
    exact List.mem_append_right _ (List.mem_cons_of_mem r hq)
  have hnot : t ∈ (b.side s).ticks := (hok.shape.keys s t).mpr ⟨level, hfound⟩
  have hdepth := hok.shape.depthOf_sub (k := k) hok'.shape
    (List.nodup_singleton t) (List.cons_subset.mpr ⟨hnot, List.nil_subset _⟩)
    (fun t' ht' => by
      rw [level?_prune_ne (fun heq => ht' (by rw [(Prod.mk.inj heq).2]; exact List.mem_cons_self ..)),
        level?_withHeap])
    (fun t' ht' => by
      have hne : ¬(s, t') = (s, t) := fun heq =>
        ht' (by rw [(Prod.mk.inj heq).2]; exact List.mem_cons_self ..)
      have hheap : ∀ q ∈ b.queue s t', ((b.withHeap heap').prune s t).heap q = b.heap q := by
        intro q hq
        have hout : q ∉ b.queue s t := fun hin => hne (by rw [(hok.queue_unique hin hq).2])
        rw [heap_prune_of_notMem (by rwa [queue_withHeap])]
        exact hsame q fun hin => hout (hsub q hin)
      rw [line_singleton, line_singleton, queue_prune, if_neg hne, queue_withHeap, grid_prune,
        lineOf_congr hheap, lineSize, lineSize,
        lineSizes_congr fun p hp => hheap p.1 (mem_lineOf.mp hp).1]
      rfl)
  have hall : ∀ (heap : Heap) (price : ℚ) (orders : List Ref),
      lineSize heap (lineOf k heap price orders) = totalSize heap orders := by
    intro heap price orders
    rw [lineSize_lineOf]
    simp [hskips]
  rw [List.map_singleton, List.sum_singleton, line_singleton, line_singleton, hall, hall,
    queue_prune, if_pos rfl, queue_withHeap] at hdepth
  have hback : totalSize b.heap (b.queue s t) = totalSize b.heap (front ++ [r]) +
      ((b.heap r).remainingQuantity + totalSize b.heap (back.erase r)) := by
    rw [← totalSize_cons, ← totalSize_perm _ (List.perm_cons_erase hagain), ← totalSize_append,
      hqueue]
    simp
  have hleft' : totalSize ((b.withHeap heap').prune s t).heap
      ((b.queue s t).filter fun q => ((b.withHeap heap').heap q).isLive) ≤
        totalSize b.heap (back.erase r) := hleft
  linarith

/-- A sweep that reaches the second listing of an order takes its size out of the side twice. -/
theorem Ok.repeated_walk {k : Sweeper} (hok : b.Ok) (hk : k.Exact) (hsound : k.Sound)
    (hskips : ∀ o, k.skips o = false) {ticks : List ℤ} {front back : List Ref} {r : Ref}
    (hticks : (ticks ++ [t]).Nodup) (hsub : ticks ++ [t] ⊆ (b.side s).ticks)
    (honce : ∀ t' ∈ ticks, (b.queue s t').Nodup) (hqueue : b.queue s t = front ++ r :: back)
    (hagain : r ∈ back) (hnodup : (front ++ [r]).Nodup) (quantity : ℚ)
    (hquantity : quantity =
      lineSize b.heap (b.line k s ticks) + totalSize b.heap (front ++ [r])) :
    depthOf k (walk k s (fun _ => false) (ticks ++ [t]) b quantity).book s + quantity +
      (b.heap r).remainingQuantity ≤ depthOf k b s := by
  induction ticks generalizing b quantity with
  | nil =>
    have hsize : quantity = totalSize b.heap (front ++ [r]) := by
      rw [hquantity]
      exact zero_add _
    have hlevel := (hok.shape.keys s t).mp (hsub (List.mem_cons_self ..))
    rw [hsize]
    exact (hok.repeated_level hk hsound hskips hlevel hqueue hagain hnodup).2
  | cons t' rest ih =>
    obtain ⟨hnot, hrest⟩ := List.nodup_cons.mp hticks
    have hnot' : t' ∉ rest := fun hmem => hnot (List.mem_append_left _ hmem)
    have hne : t ≠ t' := fun heq =>
      hnot (List.mem_append_right rest (by rw [heq]; exact List.mem_cons_self ..))
    have honce' := honce t' (List.mem_cons_self ..)
    have hlevel := (hok.shape.keys s t').mp (hsub (List.mem_cons_self ..))
    have hnext := hok.levelSwept_ok (k := k) hsound hlevel honce' quantity
    obtain ⟨hline, hsame⟩ :=
      hok.line_levelSwept (k := k) (s := s) hnot' quantity
    have hqueue' : ∀ t'' ≠ t', (levelSwept k b s t' quantity).queue s t'' = b.queue s t'' :=
      fun t'' hne' => by rw [queue_levelSwept, if_neg hne']
    have hmem : ∀ q ∈ front ++ [r], q ∈ b.queue s t := fun q hq => mem_queue_front hqueue hq
    have hheap : ∀ q ∈ front ++ [r], (levelSwept k b s t' quantity).heap q = b.heap q :=
      fun q hq => heap_levelSwept_of_notMem fun hin => hne (hok.queue_unique hin (hmem q hq)).2
    have hr := hheap r (List.mem_append_right _ (List.mem_cons_self ..))
    have hsize : lineSize b.heap (b.line k s (t' :: rest)) =
        lineSize b.heap (b.line k s [t']) + lineSize b.heap (b.line k s rest) := by
      rw [line_cons k b s t' rest, lineSize_append]
    have hbehind : eps < quantity - lineSize b.heap (b.line k s [t']) := by
      have hpos := hok.lt_totalSize hmem
      have hnonneg := hok.lineSize_nonneg (k := k) (s := s) rest
      rw [hquantity, hsize]
      linarith
    have hmore : eps < quantity :=
      hbehind.trans_le (sub_le_self _ (hok.lineSize_nonneg [t']))
    -- the better level is used up
    have htotal : lineTotal b.heap (b.line k s [t']) quantity =
        lineSize b.heap (b.line k s [t']) := hok.lineTotal_of_lt hbehind
    have hdepth := hok.depthOf_levelSwept hk hsound hskips hlevel honce' hmore htotal
    have hleft := ih (b := levelSwept k b s t' quantity) hnext hrest
      (fun t'' ht'' => by
        have hne'' : t'' ≠ t' := fun heq => hnot (heq ▸ ht'')
        refine (hnext.shape.keys s t'').mpr ?_
        rw [levelSwept, level?_prune_ne fun heq => hne'' (Prod.mk.inj heq).2, level?_withHeap]
        exact (hok.shape.keys s t'').mp (hsub (List.mem_cons_of_mem t' ht'')))
      (fun t'' ht'' => by
        rw [hqueue' t'' fun heq => hnot' (heq ▸ ht'')]
        exact honce t'' (List.mem_cons_of_mem t' ht''))
      ((hqueue' t hne).trans hqueue)
      (quantity - lineTotal b.heap (b.line k s [t']) quantity) (by
        have hrest' : lineSize (levelSwept k b s t' quantity).heap (b.line k s rest) =
            lineSize b.heap (b.line k s rest) := by
          rw [lineSize, lineSize, lineSizes_congr hsame]
        have hfront : totalSize (levelSwept k b s t' quantity).heap (front ++ [r]) =
            totalSize b.heap (front ++ [r]) := totalSize_congr fun q hq => by rw [hheap q hq]
        rw [htotal, hline, hrest', hfront, hquantity, hsize]
        ring)
    rw [hr, htotal] at hleft
    rw [List.cons_append, hok.walk_cons hlevel honce' hmore]
    simp only
    rw [htotal]
    linarith

/-- The first tick of a side whose level lists an order twice. -/
theorem exists_first_tick {ticks : List ℤ} (h : ∃ t ∈ ticks, ¬(b.queue s t).Nodup) :
    ∃ front t back, ticks = front ++ t :: back ∧ ¬(b.queue s t).Nodup ∧
      ∀ t' ∈ front, (b.queue s t').Nodup := by
  obtain ⟨t, ht, hbad⟩ := h
  have hsome : (ticks.find? fun t => !decide (b.queue s t).Nodup).isSome := by
    rw [List.find?_isSome]
    exact ⟨t, ht, by simpa using hbad⟩
  obtain ⟨first, hfirst⟩ := Option.isSome_iff_exists.mp hsome
  obtain ⟨hbad', front, back, hsplit, hfront⟩ := List.find?_eq_some_iff_append.mp hfirst
  exact ⟨front, first, back, hsplit, by simpa using hbad',
    fun t' ht' => by simpa using hfront t' ht'⟩

/-- A print at the price of a level goes up to that level. -/
theorem Shape.tradePath_to (h : b.Shape) {better worse : List ℤ} {first : ℤ}
    (hticks : b.bestFirst event.side = better ++ first :: worse)
    (hprice : event.price = b.grid.fromTicks first) :
    b.tradePath event = better ++ [first] := by
  have hsorted := h.bestFirst_pairwise event.side
  rw [hticks] at hsorted
  obtain ⟨-, hback, hfront⟩ := List.pairwise_append.mp hsorted
  unfold tradePath
  rw [hticks, hprice, b.grid.toTicks_fromTicks, List.filter_append, List.filter_cons,
    worseThan_irrefl, List.filter_eq_self.mpr fun t ht => by
      rw [worseThan_asymm (hfront t ht first (List.mem_cons_self ..))]
      rfl,
    List.filter_eq_nil_iff.mpr fun t ht => by
      rw [(List.pairwise_cons.mp hback).1 t ht]
      exact Bool.false_ne_true]
  rfl

/-- A level that lists an order is among those that a print walks. -/
theorem Ok.mem_bestFirst_of_repeated (hok : b.Ok) (hbad : ¬(b.queue s t).Nodup) :
    t ∈ b.bestFirst s.opposite := by
  have hopposite : s.opposite.opposite = s := by cases s <;> rfl
  refine (hok.shape.mem_bestFirst s.opposite).mpr ?_
  rw [hopposite, ← hok.shape.keys]
  by_contra hnone
  rw [hok.shape.queue_of_notMem hnone] at hbad
  exact hbad List.nodup_nil

/-- A print that ends with the first listing of an order that is listed again takes more than its
size out of the book. -/
theorem Ok.exists_overfill (hok : b.Ok) (hbad : ¬(b.queue s t).Nodup) :
    ∃ event : BookEvent, event.eventType = .trade ∧ 0 < event.size ∧
      event.size + eps < b.sideDepth event.side.opposite -
        (b.printRun event).book.sideDepth event.side.opposite := by
  have hopposite : s.opposite.opposite = s := by cases s <;> rfl
  obtain ⟨better, first, worse, hticks, hfirst, honce⟩ :=
    exists_first_tick (s := s) ⟨t, hok.mem_bestFirst_of_repeated hbad, hbad⟩
  obtain ⟨front, r, back, hqueue, hagain, hnodup⟩ := exists_repeated hfirst
  obtain ⟨event, hevent⟩ : ∃ event : BookEvent, event = ⟨0, .trade, s.opposite,
    b.grid.fromTicks first, lineSize b.heap (b.line (printSweep 0) s better) +
      totalSize b.heap (front ++ [r]), none⟩ := ⟨_, rfl⟩
  have hside : event.side.opposite = s := by rw [hevent]; exact hopposite
  have hpath : b.tradePath event = better ++ [first] := by
    rw [hevent]
    exact hok.shape.tradePath_to hticks rfl
  have hmem : ∀ q ∈ front ++ [r], q ∈ b.queue s first := fun q hq => mem_queue_front hqueue hq
  have hsize : event.size = lineSize b.heap (b.line (printSweep 0) s better) +
      totalSize b.heap (front ++ [r]) := by rw [hevent]
  have hpos : 0 < event.size := by
    have hnonneg := hok.lineSize_nonneg (k := printSweep 0) (s := s) better
    have hlt := hok.lt_totalSize hmem
    have heps := eps_pos
    rw [hsize]
    linarith
  refine ⟨event, by rw [hevent], hpos, ?_⟩
  have hnodup' := hok.shape.reach_nodup event.side (some event.price)
  have hsub' := hok.shape.reach_sub event.side (some event.price)
  rw [← tradePath_eq, hpath] at hnodup' hsub'
  rw [hside] at hsub'
  have hlost := (hok.noted event).repeated_walk (k := printSweep event.timestamp) (s := s)
    (t := first) (printSweep_exact _) (printSweep_sound _) (fun _ => rfl) hnodup'
    (by rwa [side_noted]) (fun t' ht' => by rw [queue_noted]; exact honce t' ht')
    (by rw [queue_noted]; exact hqueue) hagain hnodup
    event.size (by rw [line_noted, hsize, hevent]; rfl)
  rw [depthOf_print, depthOf_print] at hlost
  have hdepth : (b.noted event).sideDepth s = b.sideDepth s := by
    simp only [sideDepth, side_noted, queue_noted]
    rfl
  have hsame : walk (printSweep event.timestamp) s (fun _ => false) (better ++ [first])
      (b.noted event) event.size = b.printRun event := by
    rw [printRun, hpath, hside]
  rw [hdepth, hsame] at hlost
  have hr : eps < ((b.noted event).heap r).remainingQuantity :=
    hok.eps_lt_remaining (hmem r (List.mem_append_right _ (List.mem_cons_self ..)))
  rw [hside]
  linarith

/-- Passive fills follow price and time exactly in the books whose levels list their orders
once. -/
theorem passive_fills (hok : b.Ok) :
    (∀ event uuid, event.eventType = .trade → 0 < event.size →
      PassiveFills b event (b.applyMarketEvent event uuid).1 (b.applyMarketEvent event uuid).2) ↔
    ∀ s t, (b.queue s t).Nodup := by
  constructor
  · intro hfills s t
    by_contra hbad
    obtain ⟨event, htrade, hpos, hover⟩ := hok.exists_overfill hbad
    have htotal := (hfills event zeros htrade hpos).total
    rw [applyMarketEvent_trade htrade] at htotal
    have hmost := (abs_le.mp htotal).2
    have hmin := min_le_left event.size (b.pathSize event)
    simp only at hmost
    linarith
  · intro honce event uuid htrade hsize
    exact hok.passiveFills htrade hsize.le (fun t _ => honce _ t) uuid

/-- One of our sells behind an ask of the feed. -/
def oneBehind : OrderBook :=
  let feed := ((OrderBook.empty cents "X").applyMarketEvent
    ⟨1, .add, .sell, 100, 10, some "a"⟩ zeros).1
  (feed.alloc (Order.new "P00000001" "X" .sell .limit 20 (some 100) none .gtc 2 none
    .paper)).addOrder feed.nextRef 2

theorem oneBehind_ok : oneBehind.Ok := by
  refine addNew_ok (applyMarketEvent_ok (empty_ok cents "X") _ _) ?_ 2
  have hsize : eps < (20 : ℚ) - 0 := by norm_num [eps]
  exact ⟨hsize, le_rfl, fun hfilled => absurd hfilled (lt_irrefl _)⟩

/-- A print of 15 takes the ask of the feed and five of ours. -/
theorem passive_fills_behind :
    (oneBehind.applyMarketEvent ⟨3, .trade, .buy, 100, 15, none⟩ zeros).2.map
        Fill.fillQuantity = [5] ∧
      PassiveFills oneBehind ⟨3, .trade, .buy, 100, 15, none⟩
        (oneBehind.applyMarketEvent ⟨3, .trade, .buy, 100, 15, none⟩ zeros).1
        (oneBehind.applyMarketEvent ⟨3, .trade, .buy, 100, 15, none⟩ zeros).2 := by
  refine ⟨by decide +kernel, (passive_fills oneBehind_ok).mpr (fun s t => ?_) _ zeros rfl
    (by decide +kernel)⟩
  have hticks : (oneBehind.side .sell).ticks = [10000] ∧ (oneBehind.side .buy).ticks = [] ∧
      (oneBehind.queue .sell 10000).Nodup := by decide +kernel
  by_cases ht : t ∈ (oneBehind.side s).ticks
  · cases s with
    | buy =>
      rw [hticks.2.1] at ht
      cases ht
    | sell =>
      rw [hticks.1, List.mem_singleton] at ht
      rw [ht]
      exact hticks.2.2
  · rw [oneBehind_ok.shape.queue_of_notMem ht]
    exact List.nodup_nil

/-- A book that lists an order twice: the feed order `a` is modified at another price and
back, and then increased. -/
def listedTwice : OrderBook :=
  let added := ((OrderBook.empty cents "X").applyMarketEvent
    ⟨1, .add, .sell, 100, 10, some "a"⟩ zeros).1
  let moved := (added.applyMarketEvent ⟨2, .modify, .sell, 101, 5, some "a"⟩ zeros).1
  let back := (moved.applyMarketEvent ⟨3, .modify, .sell, 100, 20, some "a"⟩ zeros).1
  let increased := (back.applyMarketEvent ⟨4, .modify, .sell, 100, 30, some "a"⟩ zeros).1
  (increased.alloc (Order.new "P00000001" "X" .sell .limit 20 (some 100) none .gtc 5 none
    .paper)).addOrder increased.nextRef 5

theorem listedTwice_ok : listedTwice.Ok := by
  refine addNew_ok (applyMarketEvent_ok (applyMarketEvent_ok (applyMarketEvent_ok
    (applyMarketEvent_ok (empty_ok cents "X") _ _) _ _) _ _) _ _) ?_ 5
  have hsize : eps < (20 : ℚ) - 0 := by norm_num [eps]
  exact ⟨hsize, le_rfl, fun hfilled => absurd hfilled (lt_irrefl _)⟩

/-- With 60 shown in front of our sell, a print of 45 fills 15 of it. -/
theorem filled_too_early :
    listedTwice.Ok ∧ listedTwice.queue .sell 10000 = [2, 2, 3] ∧
      (listedTwice.heap 3).queueAhead = 60 ∧
      (listedTwice.applyMarketEvent ⟨6, .trade, .buy, 100, 45, none⟩ zeros).2.map
        Fill.fillQuantity = [15] ∧
      ¬PassiveFills listedTwice ⟨6, .trade, .buy, 100, 45, none⟩
        (listedTwice.applyMarketEvent ⟨6, .trade, .buy, 100, 45, none⟩ zeros).1
        (listedTwice.applyMarketEvent ⟨6, .trade, .buy, 100, 45, none⟩ zeros).2 := by
  have hbook : listedTwice.queue .sell 10000 = [2, 2, 3] ∧
      (listedTwice.heap 3).queueAhead = 60 ∧
      (listedTwice.applyMarketEvent ⟨6, .trade, .buy, 100, 45, none⟩ zeros).2.map
        Fill.fillQuantity = [15] ∧
      listedTwice.sideDepth .sell - (listedTwice.applyMarketEvent
        ⟨6, .trade, .buy, 100, 45, none⟩ zeros).1.sideDepth .sell = 75 ∧
      listedTwice.pathSize ⟨6, .trade, .buy, 100, 45, none⟩ = 80 := by
    decide +kernel
  obtain ⟨hqueue, hahead, hfills, hdepth, hpath⟩ := hbook
  refine ⟨listedTwice_ok, hqueue, hahead, hfills, fun h => ?_⟩
  have htotal := h.total
  have hside : TradeSide.buy.opposite = .sell := rfl
  simp only [hside] at htotal
  rw [hdepth, hpath] at htotal
  norm_num [eps] at htotal

end OrderBook

end QuantumSentinel.Exchange
