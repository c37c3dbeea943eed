import QuantumSentinel.Exchange.PassiveFills
import QuantumSentinel.Exchange.GreedyFills

/-!
# Paper exchange: the estimate of a market buy

`_estimate_market_buy_cost` walks the ask levels by their market sizes, and
`consume_liquidity` walks them order by order.  The sweep takes each order once, so the two
agree when no level lists a feed order twice: the estimate is what the sweep pays, and the price of
its last level for what the sweep leaves open.

Main results:

- Theorem `OrderBook.walk_estimate`: the estimate that counts each order once.
- Theorem `OrderBook.buy_estimate_bounds`: the books in which the estimate bounds every sweep.
-/

namespace QuantumSentinel.Exchange

open Lib

namespace OrderBook

variable {b : OrderBook}

/-! ## Estimates that count each order once -/

/-- The level with each order listed once. -/
def distinctLevel (level : LevelQueue) : LevelQueue :=
  { level with orders := level.orders.dedup }

/-- The estimate at a level in which each order counts once. -/
theorem estimateFrom_distinctLevel (heap : Heap) (level : LevelQueue) (rest : List LevelQueue)
    (remaining cost : ℚ) (last : Option ℚ) :
    estimateFrom heap (distinctLevel level :: rest) remaining cost last =
      let take := min remaining (distinctSize heap level.orders)
      if remaining - take ≤ eps then
        some (cost + take * level.price + max 0 (remaining - take) * level.price)
      else
        estimateFrom heap rest (remaining - take) (cost + take * level.price)
          (some level.price) :=
  rfl

/-- What an estimate reads of a level. -/
def depth (heap : Heap) (level : LevelQueue) : ℚ × ℚ :=
  (level.price, marketSize heap level.orders)

/-- The estimate reads prices and market sizes only. -/
theorem estimateFrom_congr {heap heap' : Heap} {levels levels' : List LevelQueue}
    (h : levels'.map (depth heap') = levels.map (depth heap)) (remaining cost : ℚ)
    (last : Option ℚ) :
    estimateFrom heap' levels' remaining cost last =
      estimateFrom heap levels remaining cost last := by
  induction levels generalizing levels' remaining cost last with
  | nil =>
    rw [List.map_eq_nil_iff.mp h]
    rfl
  | cons level rest ih =>
    rcases List.map_eq_cons_iff.mp h with ⟨level', rest', rfl, hlevel, hrest⟩
    have hprice : level'.price = level.price := congrArg Prod.fst hlevel
    have hsize : marketSize heap' level'.orders = marketSize heap level.orders :=
      congrArg Prod.snd hlevel
    simp only [estimateFrom, hprice, hsize]
    split
    · rfl
    · exact ih hrest ..

theorem hitCost_of_price {hits : List Hit} {price : ℚ} (h : ∀ hit ∈ hits, hit.price = price) :
    hitCost hits = hitSize hits * price := by
  induction hits with
  | nil => simp
  | cons hit rest ih =>
    rw [hitCost_cons, hitSize_cons, h hit (List.mem_cons_self ..),
      ih fun q hq => h q (List.mem_cons_of_mem hit hq)]
    ring

/-- The levels at some ticks, each order counted once. -/
def distinctLevels (b : OrderBook) (s : TradeSide) (ticks : List ℤ) : List LevelQueue :=
  (ticks.filterMap (b.level? s)).map distinctLevel

theorem mem_distinctLevels {s : TradeSide} {ticks : List ℤ} {level : LevelQueue}
    (h : level ∈ b.distinctLevels s ticks) :
    ∃ t ∈ ticks, ∃ found, b.level? s t = some found ∧ level = distinctLevel found := by
  rcases List.mem_map.mp h with ⟨found, hfound, rfl⟩
  rcases List.mem_filterMap.mp hfound with ⟨t, ht, hlevel⟩
  exact ⟨t, ht, found, hlevel, rfl⟩

/-- Walking one level changes nothing about the size of the others. -/
theorem depth_distinctLevels_prune (hok : b.Ok) {s : TradeSide} {t : ℤ} {heap : Heap}
    (hw : Within b.grid s t b.heap heap) {rest : List ℤ} (hnot : t ∉ rest) :
    (((b.withHeap heap).prune s t).distinctLevels s rest).map
        (depth ((b.withHeap heap).prune s t).heap) =
      (b.distinctLevels s rest).map (depth b.heap) := by
  have hlevels : ((b.withHeap heap).prune s t).distinctLevels s rest =
      b.distinctLevels s rest := by
    unfold distinctLevels
    congr 1
    apply List.filterMap_congr
    intro t' ht'
    have hne : (s, t') ≠ (s, t) := fun heq => hnot ((Prod.mk.inj heq).2 ▸ ht')
    rw [level?_prune_ne hne, level?_withHeap]
  rw [hlevels]
  apply List.map_congr_left
  intro level hlevel
  rcases mem_distinctLevels hlevel with ⟨t', ht', found, hfound, rfl⟩
  have hne : (s, t') ≠ (s, t) := fun heq => hnot ((Prod.mk.inj heq).2 ▸ ht')
  refine congrArg (Prod.mk found.price) (marketSize_congr fun r hr => ?_)
  have hbelongs := (hok.shape.level s t' found hfound).belongs r (List.mem_dedup.mp hr)
  rcases fields_of_sansQueue (heap_prune_sansQueue (b := b.withHeap heap) (s := s) (t := t) r)
    with ⟨hremaining, -, howner, -⟩
  have hsame : heap r = b.heap r := hw.eq_of_elsewhere hne hbelongs
  exact ⟨howner.trans (congrArg Order.owner hsame),
    fun _ => hremaining.trans (congrArg Order.remainingQuantity hsame)⟩

/-- The market size of levels, each order counted once. -/
def distinctDepth (b : OrderBook) (s : TradeSide) (ticks : List ℤ) : ℚ :=
  (((b.distinctLevels s ticks).map (depth b.heap)).map Prod.snd).sum

theorem distinctLevels_cons {s : TradeSide} {t : ℤ} {rest : List ℤ} {level : LevelQueue}
    (hlevel : b.level? s t = some level) :
    b.distinctLevels s (t :: rest) = distinctLevel level :: b.distinctLevels s rest := by
  simp [distinctLevels, hlevel]

theorem distinctDepth_cons {s : TradeSide} {t : ℤ} {rest : List ℤ} {level : LevelQueue}
    (hlevel : b.level? s t = some level) :
    b.distinctDepth s (t :: rest) =
      distinctSize b.heap level.orders + b.distinctDepth s rest := by
  rw [distinctDepth, distinctLevels_cons hlevel]
  rfl

theorem Ok.distinctSize_nonneg (hok : b.Ok) {s : TradeSide} {t : ℤ} {level : LevelQueue}
    (hlevel : b.level? s t = some level) : 0 ≤ distinctSize b.heap level.orders := by
  refine Exchange.distinctSize_nonneg fun r hr _ => ?_
  rw [← queue_of_level hlevel] at hr
  exact (hok.remaining_pos hr).le

theorem Ok.distinctDepth_nonneg (hok : b.Ok) {s : TradeSide} {ticks : List ℤ}
    (hlevels : ∀ t ∈ ticks, ∃ level, b.level? s t = some level) :
    0 ≤ b.distinctDepth s ticks := by
  induction ticks with
  | nil => exact le_rfl
  | cons t rest ih =>
    obtain ⟨level, hlevel⟩ := hlevels t (List.mem_cons_self ..)
    rw [distinctDepth_cons hlevel]
    exact add_nonneg (hok.distinctSize_nonneg hlevel)
      (ih fun t' ht' => hlevels t' (List.mem_cons_of_mem t ht'))

theorem LevelTake.size_le {price remaining size : ℚ} {run : LevelRun}
    (h : LevelTake price remaining size run) (hremaining : 0 ≤ remaining) :
    hitSize (run.fills.map Fill.hit) ≤ remaining := by
  by_cases hnil : run.fills.map Fill.hit = []
  · rw [hnil]
    exact hremaining
  · exact h.fits.size_le hnil

theorem LevelTake.cost {price remaining size : ℚ} {run : LevelRun}
    (h : LevelTake price remaining size run) :
    hitCost (run.fills.map Fill.hit) = hitSize (run.fills.map Fill.hit) * price := by
  apply hitCost_of_price
  intro hit hmem
  obtain ⟨f, hf, rfl⟩ := List.mem_map.mp hmem
  exact h.price f hf

/-- A sweep takes what it gets at the first level, and goes on behind it. -/
theorem walk_cons_level {k : Sweeper} {s : TradeSide} {t : ℤ} {rest : List ℤ} {level : LevelQueue}
    (hlevel : b.level? s t = some level) {remaining : ℚ} (hmore : ¬remaining ≤ eps) :
    (walk k s (fun _ => false) (t :: rest) b remaining).fills =
      (walkLevel k level.price level.orders b.heap remaining).fills ++
        (walk k s (fun _ => false) rest
          ((b.withHeap (walkLevel k level.price level.orders b.heap remaining).heap).prune s t)
          (walkLevel k level.price level.orders b.heap remaining).remaining).fills := by
  simp only [walk, hmore, decide_false, Bool.or_false, Bool.false_eq_true, if_false, hlevel]
  rfl

/-- What a sweep of some levels pays, against the estimate over these levels: `seen` are their
ticks, behind that of the level in front of them. -/
structure Estimated (b : OrderBook) (s : TradeSide) (seen ticks : List ℤ) (remaining : ℚ)
    (hits : List Hit) (estimate : ℚ) (t : ℤ) : Prop where
  /-- the price of what is left open is that of a level -/
  tick : t ∈ seen
  paid : estimate = hitCost hits + (remaining - hitSize hits) * b.grid.fromTicks t
  size_le : hitSize hits ≤ remaining
  depth_le : hitSize hits ≤ b.distinctDepth s ticks
  /-- more than the tolerance is left open only when the levels are used up -/
  used : eps < remaining - hitSize hits →
    hitSize hits = b.distinctDepth s ticks ∧ seen.getLast? = some t

/-- A sweep that stops takes nothing, and the estimate stops at the next level. -/
theorem Ok.estimated_of_le (hok : b.Ok) {s : TradeSide} {ticks : List ℤ} {last : Option ℤ}
    (hseen : last.toList ++ ticks ≠ [])
    (hlevels : ∀ t ∈ ticks, ∃ level, b.level? s t = some level) {remaining : ℚ}
    (hremaining : 0 ≤ remaining) (hdone : remaining ≤ eps) (cost : ℚ) :
    ∃ estimate t, estimateFrom b.heap (b.distinctLevels s ticks) remaining cost
        (last.map b.grid.fromTicks) = some (cost + estimate) ∧
      Estimated b s (last.toList ++ ticks) ticks remaining [] estimate t := by
  have hnone : ¬eps < remaining - hitSize [] := by
    rw [hitSize_nil, sub_zero]
    exact not_lt.mpr hdone
  have hdepth : hitSize [] ≤ b.distinctDepth s ticks := hok.distinctDepth_nonneg hlevels
  cases ticks with
  | nil =>
    cases last with
    | none => exact absurd rfl hseen
    | some t =>
      refine ⟨remaining * b.grid.fromTicks t, t, ?_, List.mem_cons_self .., ?_, hremaining,
        hdepth, fun h => absurd h hnone⟩
      · simp [estimateFrom, distinctLevels, max_eq_right hremaining]
      · simp
  | cons t rest =>
    obtain ⟨level, hlevel⟩ := hlevels t (List.mem_cons_self ..)
    have htake : 0 ≤ min remaining (distinctSize b.heap level.orders) :=
      le_min hremaining (hok.distinctSize_nonneg hlevel)
    have hstop : remaining - min remaining (distinctSize b.heap level.orders) ≤ eps := by
      linarith
    have hopen : 0 ≤ remaining - min remaining (distinctSize b.heap level.orders) :=
      sub_nonneg.mpr (min_le_left ..)
    refine ⟨remaining * b.grid.fromTicks t, t, ?_,
      List.mem_append_right _ (List.mem_cons_self ..), ?_, hremaining, hdepth,
      fun h => absurd h hnone⟩
    · rw [distinctLevels_cons hlevel, estimateFrom_distinctLevel]
      simp only [if_pos hstop, max_eq_right hopen, (hok.shape.level s t level hlevel).price]
      exact congrArg some (by ring)
    · simp

/-- The estimate that counts each order once is what the sweep pays, and the price of the last
level for what the sweep leaves open. -/
theorem walk_estimate (hok : b.Ok) (timestamp : ℚ) {s : TradeSide} {ticks : List ℤ}
    (hnodup : ticks.Nodup) (last : Option ℤ) (hseen : last.toList ++ ticks ≠ [])
    (hlevels : ∀ t ∈ ticks, ∃ level, b.level? s t = some level) {remaining : ℚ}
    (hremaining : 0 ≤ remaining) (cost : ℚ) :
    ∃ estimate t, estimateFrom b.heap (b.distinctLevels s ticks) remaining cost
        (last.map b.grid.fromTicks) = some (cost + estimate) ∧
      Estimated b s (last.toList ++ ticks) ticks remaining
        ((walk (aggressorSweep true timestamp) s (fun _ => false) ticks b remaining).fills.map
          Fill.hit) estimate t := by
  induction ticks generalizing b remaining cost last with
  | nil =>
    cases last with
    | none => exact absurd rfl hseen
    | some t =>
      refine ⟨remaining * b.grid.fromTicks t, t, ?_, List.mem_cons_self .., ?_, hremaining,
        le_rfl, fun _ => ⟨rfl, rfl⟩⟩
      · simp [estimateFrom, distinctLevels, max_eq_right hremaining]
      · simp [walk]
  | cons t rest ih =>
    obtain ⟨hnot, hrest⟩ := List.nodup_cons.mp hnodup
    obtain ⟨level, hlevel⟩ := hlevels t (List.mem_cons_self ..)
    by_cases hdone : remaining ≤ eps
    · rw [walk_of_le hdone]
      exact hok.estimated_of_le hseen hlevels hremaining hdone cost
    · have htake := hok.walkLevel_take hlevel timestamp remaining
      have hw := walkLevel_within (aggressorSweep_sound true timestamp) level.price remaining
        (hok.shape.level s t level hlevel).belongs
      have hprice := (hok.shape.level s t level hlevel).price
      have hsize := htake.size_le hremaining
      have hcost := htake.cost
      rw [walk_cons_level hlevel hdone, distinctLevels_cons hlevel]
      simp only [estimateFrom_distinctLevel]
      rw [hprice] at htake hw hcost hsize ⊢
      by_cases hstop : (walkLevel (aggressorSweep true timestamp) (b.grid.fromTicks t)
          level.orders b.heap remaining).remaining ≤ eps
      · -- both stop at this level
        have hmin := le_min hsize htake.le
        have hleft : remaining - min remaining (distinctSize b.heap level.orders) ≤ eps := by
          rw [htake.left] at hstop
          linarith
        have hopen : 0 ≤ remaining - min remaining (distinctSize b.heap level.orders) :=
          sub_nonneg.mpr (min_le_left ..)
        rw [walk_of_le hstop, List.append_nil, if_pos hleft, max_eq_right hopen]
        refine ⟨remaining * b.grid.fromTicks t, t, congrArg some (by ring),
          List.mem_append_right _ (List.mem_cons_self ..), ?_, hsize, ?_, fun hmore => ?_⟩
        · rw [hcost]
          ring
        · rw [distinctDepth_cons hlevel]
          exact htake.le.trans (le_add_of_nonneg_right (hok.distinctDepth_nonneg fun t' ht' =>
            hlevels t' (List.mem_cons_of_mem t ht')))
        · rw [htake.left] at hstop
          exact absurd hmore (not_lt.mpr hstop)
      · -- the level is used up, and both go on behind it
        have hall := htake.all (not_le.mp hstop)
        have hleft : remaining - min remaining (distinctSize b.heap level.orders) =
            remaining - distinctSize b.heap level.orders := by
          rw [min_eq_right (hall ▸ hsize)]
        have hmore : ¬remaining - distinctSize b.heap level.orders ≤ eps := by
          rwa [htake.left, hall] at hstop
        rw [htake.left, hall, min_eq_right (hall ▸ hsize), if_neg hmore]
        have hnext := prune_ok ((hok.except s t).within hw)
        have hdepths := depth_distinctLevels_prune hok hw hnot
        obtain ⟨estimate, t', hestimate, h⟩ := ih hnext hrest (some t)
          (List.cons_ne_nil _ _)
          (fun t' ht' => by
            have hne : (s, t') ≠ (s, t) := fun heq => hnot ((Prod.mk.inj heq).2 ▸ ht')
            rw [level?_prune_ne hne, level?_withHeap]
            exact hlevels t' (List.mem_cons_of_mem t ht'))
          (eps_pos.le.trans (not_le.mp hmore).le)
          (cost + distinctSize b.heap level.orders * b.grid.fromTicks t)
        rw [estimateFrom_congr hdepths, grid_prune] at hestimate
        have hdepth' : ((b.withHeap (walkLevel (aggressorSweep true timestamp)
            (b.grid.fromTicks t) level.orders b.heap remaining).heap).prune s t).distinctDepth s
              rest = b.distinctDepth s rest := by
          rw [distinctDepth, hdepths]
          rfl
        have hgrid : ((b.withHeap (walkLevel (aggressorSweep true timestamp)
            (b.grid.fromTicks t) level.orders b.heap remaining).heap).prune s t).grid = b.grid :=
          grid_prune ..
        have hpaid := h.paid
        have hle := h.size_le
        have hdepth := h.depth_le
        rw [hgrid] at hpaid
        rw [hdepth'] at hdepth
        refine ⟨distinctSize b.heap level.orders * b.grid.fromTicks t + estimate, t',
          hestimate.trans (congrArg some (by ring)), List.mem_append_right _ h.tick, ?_, ?_, ?_,
          fun hopen => ?_⟩
        · rw [List.map_append, hitCost_append, hitSize_append, hcost, hall, hpaid]
          ring
        · rw [List.map_append, hitSize_append, hall]
          linarith
        · rw [List.map_append, hitSize_append, hall, distinctDepth_cons hlevel]
          exact add_le_add le_rfl hdepth
        · rw [List.map_append, hitSize_append, hall, ← sub_sub] at hopen
          obtain ⟨hused, hlast⟩ := h.used hopen
          rw [List.map_append, hitSize_append, hall, hused, hdepth', distinctDepth_cons hlevel]
          refine ⟨rfl, ?_⟩
          rw [List.getLast?_append_of_ne_nil _ (List.cons_ne_nil t rest)]
          exact hlast

/-! ## Levels that list an order twice -/

section Repeated

variable {heap : Heap} {orders : List Ref}

theorem distinctSize_cons_of_notMem {r : Ref} (hmarket : (heap r).owner = .market)
    (hnot : r ∉ orders) :
    distinctSize heap (r :: orders) = (heap r).remainingQuantity + distinctSize heap orders := by
  unfold distinctSize
  rw [List.dedup_cons_of_notMem hnot, marketSize_cons_market hmarket]

/-- Counting each order once makes no difference to a level that lists its feed orders once. -/
theorem distinctSize_eq (h : (orders.filter (isMarket heap)).Nodup) :
    distinctSize heap orders = marketSize heap orders := by
  induction orders with
  | nil => rfl
  | cons r rest ih =>
    cases howner : (heap r).owner with
    | paper =>
      rw [List.filter_cons_of_neg (by simp [isMarket, howner])] at h
      rw [distinctSize_cons_paper howner, marketSize_cons_paper howner, ih h]
    | market =>
      have hmarket : isMarket heap r = true := by simp [isMarket, howner]
      rw [List.filter_cons_of_pos hmarket] at h
      obtain ⟨hnot, hrest⟩ := List.nodup_cons.mp h
      have hnot' : r ∉ rest := fun hmem => hnot (List.mem_filter.mpr ⟨hmem, hmarket⟩)
      rw [distinctSize_cons_of_notMem howner hnot', marketSize_cons_market howner, ih hrest]

theorem distinctSize_le (hsizes : ∀ r ∈ orders, 0 ≤ (heap r).remainingQuantity) :
    distinctSize heap orders ≤ marketSize heap orders := by
  induction orders with
  | nil => exact le_rfl
  | cons r rest ih =>
    have hle := ih fun q hq => hsizes q (List.mem_cons_of_mem r hq)
    have hr := hsizes r (List.mem_cons_self ..)
    cases howner : (heap r).owner with
    | paper => rwa [distinctSize_cons_paper howner, marketSize_cons_paper howner]
    | market =>
      rw [marketSize_cons_market howner]
      by_cases hmem : r ∈ rest
      · rw [distinctSize, List.dedup_cons_of_mem hmem]
        exact hle.trans (le_add_of_nonneg_left hr)
      · rw [distinctSize_cons_of_notMem howner hmem]
        exact add_le_add le_rfl hle

/-- A feed order that is listed twice is counted once too often. -/
theorem distinctSize_lt (h : ¬(orders.filter (isMarket heap)).Nodup)
    (hsizes : ∀ r ∈ orders, eps < (heap r).remainingQuantity) :
    distinctSize heap orders + eps < marketSize heap orders := by
  induction orders with
  | nil => exact absurd List.nodup_nil h
  | cons r rest ih =>
    have hrest : ∀ q ∈ rest, eps < (heap q).remainingQuantity :=
      fun q hq => hsizes q (List.mem_cons_of_mem r hq)
    have hr := hsizes r (List.mem_cons_self ..)
    cases howner : (heap r).owner with
    | paper =>
      rw [List.filter_cons_of_neg (by simp [isMarket, howner])] at h
      rw [distinctSize_cons_paper howner, marketSize_cons_paper howner]
      exact ih h hrest
    | market =>
      have hmarket : isMarket heap r = true := by simp [isMarket, howner]
      rw [List.filter_cons_of_pos hmarket] at h
      rw [marketSize_cons_market howner]
      by_cases hmem : r ∈ rest
      · have hle := distinctSize_le fun q hq => (eps_pos.trans (hrest q hq)).le
        rw [distinctSize, List.dedup_cons_of_mem hmem]
        unfold distinctSize at hle
        linarith
      · have hlt := ih (fun hnodup => h (List.nodup_cons.mpr
          ⟨fun hin => hmem (List.mem_filter.mp hin).1, hnodup⟩)) hrest
        rw [distinctSize_cons_of_notMem howner hmem]
        linarith

end Repeated

/-- The market size of the levels at some ticks. -/
def depthAt (b : OrderBook) (s : TradeSide) (ticks : List ℤ) : ℚ :=
  (ticks.map fun t => marketSize b.heap (b.queue s t)).sum

section Depths

variable {s : TradeSide} {ticks : List ℤ}
  (hlevels : ∀ t ∈ ticks, ∃ level, b.level? s t = some level)

include hlevels

theorem Ok.distinctDepth_le (hok : b.Ok) : b.distinctDepth s ticks ≤ b.depthAt s ticks := by
  induction ticks with
  | nil => exact le_rfl
  | cons t rest ih =>
    obtain ⟨level, hlevel⟩ := hlevels t (List.mem_cons_self ..)
    rw [distinctDepth_cons hlevel, ← queue_of_level hlevel]
    exact add_le_add (distinctSize_le fun r hr => (hok.remaining_pos hr).le)
      (ih fun t' ht' => hlevels t' (List.mem_cons_of_mem t ht'))

/-- A feed order that is listed twice is counted once too often in its side. -/
theorem Ok.distinctDepth_lt (hok : b.Ok)
    (h : ∃ t ∈ ticks, ¬((b.queue s t).filter (isMarket b.heap)).Nodup) :
    b.distinctDepth s ticks + eps < b.depthAt s ticks := by
  induction ticks with
  | nil =>
    obtain ⟨t, ht, -⟩ := h
    cases ht
  | cons t rest ih =>
    have hrest : ∀ t' ∈ rest, ∃ level, b.level? s t' = some level :=
      fun t' ht' => hlevels t' (List.mem_cons_of_mem t ht')
    obtain ⟨level, hlevel⟩ := hlevels t (List.mem_cons_self ..)
    have hcons : b.depthAt s (t :: rest) =
        marketSize b.heap (b.queue s t) + b.depthAt s rest := by
      simp [depthAt]
    rw [distinctDepth_cons hlevel, ← queue_of_level hlevel, hcons]
    by_cases hhere : ((b.queue s t).filter (isMarket b.heap)).Nodup
    · obtain ⟨t', ht', hbad⟩ := h
      rcases List.mem_cons.mp ht' with rfl | hmem
      · exact absurd hhere hbad
      · have hlt := ih hrest ⟨t', hmem, hbad⟩
        have hle := distinctSize_le fun r (hr : r ∈ b.queue s t) => (hok.remaining_pos hr).le
        linarith
    · have hlt := distinctSize_lt hhere fun r hr => hok.eps_lt_remaining hr
      have hle := hok.distinctDepth_le hrest
      linarith

/-- With no feed order listed twice both counts agree. -/
theorem distinctDepth_eq
    (honce : ∀ t ∈ ticks, ((b.queue s t).filter (isMarket b.heap)).Nodup) :
    b.distinctDepth s ticks = b.depthAt s ticks := by
  induction ticks with
  | nil => rfl
  | cons t rest ih =>
    obtain ⟨level, hlevel⟩ := hlevels t (List.mem_cons_self ..)
    rw [distinctDepth_cons hlevel, ← queue_of_level hlevel,
      distinctSize_eq (honce t (List.mem_cons_self ..)),
      ih (fun t' ht' => hlevels t' (List.mem_cons_of_mem t ht'))
        fun t' ht' => honce t' (List.mem_cons_of_mem t ht')]
    rfl

end Depths

/-- The estimate counts each order once when no level lists a feed order twice. -/
theorem depths_distinctLevels {s : TradeSide} (ticks : List ℤ)
    (honce : ∀ t, ((b.queue s t).filter (isMarket b.heap)).Nodup) :
    (b.distinctLevels s ticks).map (depth b.heap) =
      (ticks.filterMap (b.level? s)).map (depth b.heap) := by
  rw [distinctLevels, List.map_map]
  refine List.map_congr_left fun level hlevel => ?_
  obtain ⟨t, -, hfound⟩ := List.mem_filterMap.mp hlevel
  have hqueue := honce t
  rw [queue_of_level hfound] at hqueue
  exact congrArg (Prod.mk level.price) (distinctSize_eq hqueue)

/-! ## The estimate and the sweep -/

/-- What a market buy takes from the book. -/
def buyHits (b : OrderBook) (quantity timestamp : ℚ) : List Hit :=
  (b.consumeLiquidity .buy quantity timestamp none true).2.map Fill.hit

/-- An estimate bounds what a market buy pays, with the price of a level for the tolerance. -/
structure EstimateBounds (b : OrderBook) (quantity : ℚ) (hits : List Hit) (estimate : ℚ)
    (t : ℤ) : Prop where
  tick : t ∈ b.asks.ticks
  cost_le : hitCost hits ≤ estimate + eps * |b.grid.fromTicks t|
  /-- with enough market size it is what is paid, but for what is left open within the tolerance -/
  exact : quantity ≤ b.marketDepth .sell → ∃ rest, 0 ≤ rest ∧ rest ≤ eps ∧
    hitSize hits = quantity - rest ∧ estimate = hitCost hits + rest * b.grid.fromTicks t

theorem Ok.ask_levels (hok : b.Ok) :
    ∀ t ∈ b.asks.ticks, ∃ level, b.level? .sell t = some level :=
  fun t ht => (hok.shape.keys .sell t).mp ht

/-- The estimate that counts each order once, of a market buy. -/
theorem Ok.buy_estimated (hok : b.Ok) (hasks : b.asks.ticks ≠ []) {quantity : ℚ}
    (hquantity : 0 ≤ quantity) (timestamp : ℚ) :
    ∃ estimate t, estimateFrom b.heap (b.distinctLevels .sell b.asks.ticks) quantity 0 none =
        some estimate ∧
      Estimated b .sell b.asks.ticks b.asks.ticks quantity (b.buyHits quantity timestamp) estimate
        t := by
  have hfills : (b.consumeLiquidity .buy quantity timestamp none true).2 =
      (walk (aggressorSweep true timestamp) .sell (fun _ => false) b.asks.ticks b quantity).fills := by
    rw [consumeLiquidity_eq hok.shape]
    have hreach : b.reach .buy none = b.asks.ticks :=
      List.filter_eq_self.mpr fun _ _ => rfl
    rw [hreach]
    rfl
  have hnodup : b.asks.ticks.Nodup := (hok.shape.sorted .sell).imp fun hlt => hlt.ne
  obtain ⟨estimate, t, hestimate, h⟩ :=
    walk_estimate hok timestamp hnodup none hasks hok.ask_levels hquantity 0
  rw [zero_add] at hestimate
  refine ⟨estimate, t, hestimate, ?_⟩
  rw [buyHits, hfills]
  exact h

/-- The estimate is the one that counts each order once, when no ask level lists a feed order
twice. -/
theorem estimate_distinct (honce : ∀ t, ((b.queue .sell t).filter (isMarket b.heap)).Nodup)
    (quantity : ℚ) : b.estimateMarketBuyCost quantity =
      estimateFrom b.heap (b.distinctLevels .sell b.asks.ticks) quantity 0 none :=
  (estimateFrom_congr (depths_distinctLevels b.asks.ticks honce) quantity 0 none).symm

/-- The estimate bounds every sweep exactly in the books whose ask levels list their feed orders
once and whose highest ask is not negative. -/
theorem buy_estimate_bounds (hok : b.Ok) (hasks : b.asks.ticks ≠ []) :
    (∀ quantity timestamp, 0 < quantity → ∃ estimate t,
        b.estimateMarketBuyCost quantity = some estimate ∧
          EstimateBounds b quantity (b.buyHits quantity timestamp) estimate t) ↔
      (∀ t, ((b.queue .sell t).filter (isMarket b.heap)).Nodup) ∧
        ∀ t ∈ b.asks.ticks.getLast?, 0 ≤ b.grid.fromTicks t := by
  constructor
  · intro hbounds
    have honce : ∀ t, ((b.queue .sell t).filter (isMarket b.heap)).Nodup := by
      by_contra hbad
      obtain ⟨t, hbad⟩ := not_forall.mp hbad
      have ht : t ∈ b.asks.ticks := by
        by_contra hnone
        rw [hok.shape.queue_of_notMem (s := .sell) hnone] at hbad
        exact hbad List.nodup_nil
      -- a buy of all that is listed
      have hlt : b.distinctDepth .sell b.asks.ticks + eps < b.marketDepth .sell :=
        hok.distinctDepth_lt hok.ask_levels ⟨t, ht, hbad⟩
      have hpos : 0 < b.marketDepth .sell := by
        have hnonneg := hok.distinctDepth_nonneg hok.ask_levels
        have heps := eps_pos
        linarith
      obtain ⟨_, _, _, h⟩ := hbounds (b.marketDepth .sell) 0 hpos
      obtain ⟨rest, -, hrest, hsize, -⟩ := h.exact le_rfl
      obtain ⟨_, _, _, h'⟩ := hok.buy_estimated hasks hpos.le 0
      have hle := h'.depth_le
      linarith
    refine ⟨honce, fun top htop => ?_⟩
    by_contra hneg
    rw [not_le] at hneg
    obtain ⟨bound, hbound⟩ : ∃ bound, ∀ t ∈ b.asks.ticks, |b.grid.fromTicks t| ≤ bound :=
      ⟨_, fun t ht => List.single_le_sum (fun x hx => by
        obtain ⟨t', -, rfl⟩ := List.mem_map.mp hx
        exact abs_nonneg _) _ (List.mem_map_of_mem (f := fun t => |b.grid.fromTicks t|) ht)⟩
    -- a buy of so much more than there is that the negative price counts
    have hnonneg := hok.distinctDepth_nonneg hok.ask_levels
    have hmuch : 0 ≤ (eps * bound + 1) / -b.grid.fromTicks top := by
      have htick : top ∈ b.asks.ticks := List.mem_of_getLast? htop
      have hpos : 0 ≤ bound := (abs_nonneg _).trans (hbound top htick)
      have heps := eps_pos
      exact div_nonneg (by positivity) (by linarith)
    have hpos : 0 < b.distinctDepth .sell b.asks.ticks + 1 +
        (eps * bound + 1) / -b.grid.fromTicks top := by linarith
    obtain ⟨estimate, t, hestimate, h⟩ := hbounds _ 0 hpos
    obtain ⟨estimate', t', hestimate', h'⟩ := hok.buy_estimated hasks hpos.le 0
    rw [estimate_distinct honce, hestimate', Option.some.injEq] at hestimate
    subst hestimate
    have hdepth := h'.depth_le
    have hopen : 1 + (eps * bound + 1) / -b.grid.fromTicks top ≤
        b.distinctDepth .sell b.asks.ticks + 1 + (eps * bound + 1) / -b.grid.fromTicks top -
          hitSize (b.buyHits (b.distinctDepth .sell b.asks.ticks + 1 +
            (eps * bound + 1) / -b.grid.fromTicks top) 0) := by
      linarith
    have hone : eps < 1 := by norm_num [eps]
    obtain ⟨-, hlast⟩ := h'.used (by linarith)
    rw [htop, Option.some.injEq] at hlast
    have hcost := h.cost_le
    rw [h'.paid, ← hlast] at hcost
    have hprice := mul_le_mul_of_nonneg_left (hbound t h.tick) eps_pos.le
    have hpart := mul_le_mul_of_nonpos_right hopen hneg.le
    have hself : (1 + (eps * bound + 1) / -b.grid.fromTicks top) * b.grid.fromTicks top =
        b.grid.fromTicks top - (eps * bound + 1) := by
      rw [add_mul, one_mul, div_neg, neg_mul, div_mul_cancel₀ _ hneg.ne]
      ring
    linarith
  · intro h quantity timestamp hquantity
    obtain ⟨honce, htop⟩ := h
    obtain ⟨estimate, t, hestimate, h⟩ := hok.buy_estimated hasks hquantity.le timestamp
    refine ⟨estimate, t, (estimate_distinct honce quantity).trans hestimate, h.tick, ?_,
      fun henough => ?_⟩
    · by_cases hopen : eps < quantity - hitSize (b.buyHits quantity timestamp)
      · have hprice := htop t (h.used hopen).2
        have hrest := mul_nonneg (eps_pos.trans hopen).le hprice
        have htolerance := mul_nonneg eps_pos.le (abs_nonneg (b.grid.fromTicks t))
        rw [h.paid]
        linarith
      · have hrest := sub_nonneg.mpr h.size_le
        have habs := mul_le_mul_of_nonneg_right (not_lt.mp hopen)
          (abs_nonneg (b.grid.fromTicks t))
        have hneg := mul_le_mul_of_nonneg_left (neg_abs_le (b.grid.fromTicks t)) hrest
        rw [h.paid]
        linarith
    · refine ⟨quantity - hitSize (b.buyHits quantity timestamp), sub_nonneg.mpr h.size_le, ?_, by
        ring, h.paid⟩
      by_contra hopen
      have hused := (h.used (not_le.mp hopen)).1
      have hdepth : b.distinctDepth .sell b.asks.ticks = b.marketDepth .sell :=
        distinctDepth_eq hok.ask_levels fun t _ => honce t
      have heps := eps_pos
      rw [not_le, hused, hdepth] at hopen
      linarith

/-- A market buy of 12 is estimated at what it pays. -/
theorem buy_estimate_bounds_three :
    threeAsks.estimateMarketBuyCost 12 = some 1200 ∧ hitCost (threeAsks.buyHits 12 4) = 1200 ∧
      ∃ estimate t, threeAsks.estimateMarketBuyCost 12 = some estimate ∧
        EstimateBounds threeAsks 12 (threeAsks.buyHits 12 4) estimate t := by
  have hbook : threeAsks.asks.ticks = [10000] ∧
      ((threeAsks.queue .sell 10000).filter (isMarket threeAsks.heap)).Nodup ∧
      (0 : ℚ) ≤ threeAsks.grid.fromTicks 10000 ∧
      threeAsks.estimateMarketBuyCost 12 = some 1200 ∧
      hitCost (threeAsks.buyHits 12 4) = 1200 := by
    decide +kernel
  obtain ⟨hticks, honce, hprice, hestimate, hpaid⟩ := hbook
  have hasks : threeAsks.asks.ticks ≠ [] := by
    rw [hticks]
    exact List.cons_ne_nil _ _
  refine ⟨hestimate, hpaid, (buy_estimate_bounds threeAsks_ok hasks).mpr ⟨fun t => ?_,
    fun t ht => ?_⟩ 12 4 (by norm_num)⟩
  · by_cases ht : t ∈ threeAsks.asks.ticks
    · rw [hticks, List.mem_singleton] at ht
      rw [ht]
      exact honce
    · rw [threeAsks_ok.shape.queue_of_notMem (s := .sell) ht]
      exact List.nodup_nil
  · rw [hticks, List.getLast?_singleton, Option.mem_some_iff] at ht
    rw [← ht]
    exact hprice

/-- With 65 shown by the feed, of which one order of 30 is listed twice, a market buy of 50 is
estimated at 5000 and buys 35. -/
theorem estimate_counts_twice :
    listedTwice.Ok ∧ listedTwice.estimateMarketBuyCost 50 = some 5000 ∧
      listedTwice.marketDepth .sell = 65 ∧
      listedTwice.buyHits 50 6 = [⟨100, 30⟩, ⟨101, 5⟩] ∧
      ¬∃ estimate t, listedTwice.estimateMarketBuyCost 50 = some estimate ∧
        EstimateBounds listedTwice 50 (listedTwice.buyHits 50 6) estimate t := by
  have hbook : listedTwice.estimateMarketBuyCost 50 = some 5000 ∧
      listedTwice.marketDepth .sell = 65 ∧
      listedTwice.buyHits 50 6 = [⟨100, 30⟩, ⟨101, 5⟩] := by
    decide +kernel
  obtain ⟨hestimate, hdepth, hhits⟩ := hbook
  refine ⟨listedTwice_ok, hestimate, hdepth, hhits, fun h => ?_⟩
  obtain ⟨estimate, t, -, h⟩ := h
  obtain ⟨rest, -, hrest, hsize, -⟩ := h.exact (by rw [hdepth]; norm_num)
  rw [hhits] at hsize
  have heps : eps < 1 := by norm_num [eps]
  norm_num at hsize
  linarith

end OrderBook

end QuantumSentinel.Exchange
