import QuantumSentinel.Exchange.FillOrKill

/-!
# Paper exchange: three notions of marketable

`_available` and `_is_marketable` compare the price of a level with the limit price, up to
`_EPS`; `consume_liquidity` compares the tick of the level with the tick of the limit.  A
limit price is accepted when it is within a millionth of a tick of the grid, which may be more than
`_EPS`, and a tick may be less than `_EPS`: there the notions differ.

Main results:

- Theorem `OrderBook.countedLevels_eq_iff`: when both comparisons admit the same levels.
- Theorem `OrderBook.walk_spent`: a sweep that leaves something open leaves no feed orders
  within its reach.
- Theorem `MatchingEngine.notions_agree_iff`: the books and limit prices for which the three
  notions agree.
-/

namespace QuantumSentinel.Exchange

open Lib

/-! ## A limit price and its tick -/

namespace TickGrid

variable (grid : TickGrid) {aggressor : TradeSide} {limit : ℚ}

/-- How far the price of its tick lies beyond a limit price, for an aggressor. -/
def shortfall (aggressor : TradeSide) (limit : ℚ) : ℚ :=
  match aggressor with
  | .buy => grid.fromTicks (grid.toTicks limit) - limit
  | .sell => limit - grid.fromTicks (grid.toTicks limit)

/-- How many ticks a tick lies beyond the tick of a limit price, for an aggressor. -/
def ticksBeyond (aggressor : TradeSide) (limit : ℚ) (t : ℤ) : ℤ :=
  match aggressor with
  | .buy => t - grid.toTicks limit
  | .sell => grid.toTicks limit - t

/-- An accepted price is within a millionth of a tick of its tick. -/
theorem abs_shortfall_lt (h : grid.isOnGrid limit = true) (aggressor : TradeSide) :
    |grid.shortfall aggressor limit| < grid.tickSize / 1000000 := by
  have hpos := grid.tickSize_pos
  simp only [isOnGrid, decide_eq_true_eq] at h
  have hscaled : |limit / grid.tickSize - roundHalfEven (limit / grid.tickSize)| * grid.tickSize =
      |limit - grid.fromTicks (grid.toTicks limit)| := by
    rw [fromTicks_eq, toTicks, ← abs_of_pos hpos, ← abs_mul, abs_of_pos hpos, sub_mul,
      div_mul_cancel₀ _ hpos.ne']
  have hshort : |grid.shortfall aggressor limit| =
      |limit - grid.fromTicks (grid.toTicks limit)| := by
    cases aggressor with
    | buy => exact abs_sub_comm _ _
    | sell => rfl
  rw [hshort, ← hscaled]
  have hlt := mul_lt_mul_of_pos_right h hpos
  linarith

end TickGrid

namespace OrderBook

variable {b : OrderBook} {aggressor : TradeSide} {limit : ℚ} {t : ℤ}

/-- The comparison of a price with a limit price, up to the tolerance. -/
def withinPrice (aggressor : TradeSide) (limit price : ℚ) : Bool :=
  match aggressor with
  | .buy => price ≤ limit + eps
  | .sell => limit - eps ≤ price

theorem withinLimit_eq (level : LevelQueue) :
    withinLimit aggressor (some limit) level = withinPrice aggressor limit level.price := by
  cases aggressor <;> rfl

/-- The comparison of prices, in ticks beyond the tick of the limit. -/
theorem withinPrice_iff (grid : TickGrid) :
    withinPrice aggressor limit (grid.fromTicks t) = true ↔
      grid.shortfall aggressor limit + grid.ticksBeyond aggressor limit t * grid.tickSize ≤ eps := by
  cases aggressor with
  | buy =>
    simp only [withinPrice, TickGrid.shortfall, TickGrid.ticksBeyond, grid.fromTicks_eq,
      decide_eq_true_eq]
    push_cast
    constructor <;> intro h <;> linarith
  | sell =>
    simp only [withinPrice, TickGrid.shortfall, TickGrid.ticksBeyond, grid.fromTicks_eq,
      decide_eq_true_eq]
    push_cast
    constructor <;> intro h <;> linarith

/-- The comparison of ticks. -/
theorem beyondLimit_iff :
    b.beyondLimit aggressor (some limit) t = true ↔ 0 < b.grid.ticksBeyond aggressor limit t := by
  cases aggressor <;> simp [beyondLimit, worseThan, TickGrid.ticksBeyond]

/-- The opposite levels lie clear of the limit price: none at its tick when the limit is short of
the tick by more than the tolerance, and none beyond its tick within the tolerance of the limit. -/
def Clear (b : OrderBook) (aggressor : TradeSide) (limit : ℚ) : Prop :=
  ∀ t ∈ b.bestFirst aggressor,
    (b.grid.ticksBeyond aggressor limit t = 0 → b.grid.shortfall aggressor limit ≤ eps) ∧
      (0 < b.grid.ticksBeyond aggressor limit t → eps < b.grid.shortfall aggressor limit +
        b.grid.ticksBeyond aggressor limit t * b.grid.tickSize)

/-- A level better than the tick of an accepted limit is within the limit price. -/
theorem withinPrice_of_better (hgrid : b.grid.isOnGrid limit = true)
    (h : b.grid.ticksBeyond aggressor limit t < 0) :
    withinPrice aggressor limit (b.grid.fromTicks t) = true := by
  have hpos := b.grid.tickSize_pos
  have hshort := (abs_lt.mp (b.grid.abs_shortfall_lt hgrid aggressor)).2
  have hticks : (b.grid.ticksBeyond aggressor limit t : ℚ) ≤ -1 := by
    have hle : b.grid.ticksBeyond aggressor limit t ≤ -1 := by omega
    exact_mod_cast hle
  have hsize := mul_le_mul_of_nonneg_right hticks hpos.le
  have heps := eps_pos
  rw [withinPrice_iff]
  linarith

/-- The comparisons agree at all opposite levels exactly when these lie clear of the limit. -/
theorem clear_iff (hgrid : b.grid.isOnGrid limit = true) :
    b.Clear aggressor limit ↔ ∀ t ∈ b.bestFirst aggressor,
      withinPrice aggressor limit (b.grid.fromTicks t) =
        !b.beyondLimit aggressor (some limit) t := by
  refine forall₂_congr fun t _ => ?_
  rw [Bool.eq_iff_iff, Bool.not_eq_true', ← Bool.not_eq_true, beyondLimit_iff]
  rcases lt_trichotomy (b.grid.ticksBeyond aggressor limit t) 0 with hlt | heq | hgt
  · refine iff_of_true ⟨fun h => absurd h hlt.ne, fun h => absurd h hlt.not_gt⟩
      (iff_of_true (withinPrice_of_better hgrid hlt) hlt.not_gt)
  · rw [withinPrice_iff, heq]
    simp
  · rw [withinPrice_iff]
    simp [hgt, hgt.ne']

/-! ## The levels of each notion -/

/-- The levels that `_available` counts. -/
def countedLevels (b : OrderBook) (aggressor : TradeSide) (limitPrice : Option ℚ) :
    List LevelQueue :=
  (b.oppositeLevels aggressor).takeWhile (withinLimit aggressor limitPrice)

/-- The levels that `consume_liquidity` executes at. -/
def reachedLevels (b : OrderBook) (aggressor : TradeSide) (limitPrice : Option ℚ) :
    List LevelQueue :=
  (b.reach aggressor limitPrice).filterMap (b.level? aggressor.opposite)

theorem oppositeLevels_eq :
    b.oppositeLevels aggressor = (b.bestFirst aggressor).filterMap (b.level? aggressor.opposite) := by
  cases aggressor <;> rfl

/-- Better prices are within a limit that worse ones are within. -/
theorem withinPrice_mono {price price' : ℚ}
    (h : match aggressor with
      | .buy => price ≤ price'
      | .sell => price' ≤ price)
    (hwithin : withinPrice aggressor limit price' = true) :
    withinPrice aggressor limit price = true := by
  cases aggressor with
  | buy =>
    simp only [withinPrice, decide_eq_true_eq] at *
    exact h.trans hwithin
  | sell =>
    simp only [withinPrice, decide_eq_true_eq] at *
    exact hwithin.trans h

/-- The levels that are counted are those within the limit price. -/
theorem Shape.countedLevels_eq (h : b.Shape) :
    b.countedLevels aggressor (some limit) = (b.oppositeLevels aggressor).filter fun level =>
      withinPrice aggressor limit level.price := by
  have hwithin : withinLimit aggressor (some limit) =
      fun level : LevelQueue => withinPrice aggressor limit level.price :=
    funext withinLimit_eq
  rw [countedLevels, hwithin]
  refine takeWhile_eq_filter _ ?_
  rw [oppositeLevels_eq]
  refine (h.bestFirst_pairwise aggressor).filterMap _ fun t t' hworse level hlevel level' hlevel' => ?_
  rw [(h.level _ t level hlevel).price, (h.level _ t' level' hlevel').price]
  refine withinPrice_mono ?_
  cases aggressor with
  | buy => exact b.grid.fromTicks_le_iff.mpr (of_decide_eq_true hworse).le
  | sell => exact b.grid.fromTicks_le_iff.mpr (of_decide_eq_true hworse).le

/-- Both comparisons admit the same levels exactly when the opposite levels lie clear of the
limit. -/
theorem countedLevels_eq_iff (h : b.Shape) (hgrid : b.grid.isOnGrid limit = true) :
    b.countedLevels aggressor (some limit) = b.reachedLevels aggressor (some limit) ↔
      b.Clear aggressor limit := by
  rw [clear_iff hgrid, h.countedLevels_eq, oppositeLevels_eq, reachedLevels, reach]
  constructor
  · intro heq t ht
    obtain ⟨level, hlevel⟩ := (h.mem_bestFirst aggressor).mp ht
    have hprice := (h.level _ t level hlevel).price
    have hmem : level ∈ (b.bestFirst aggressor).filterMap (b.level? aggressor.opposite) :=
      List.mem_filterMap.mpr ⟨t, ht, hlevel⟩
    have hcounted : level ∈ ((b.bestFirst aggressor).filterMap
        (b.level? aggressor.opposite)).filter (fun level =>
          withinPrice aggressor limit level.price) ↔
        withinPrice aggressor limit (b.grid.fromTicks t) = true := by
      rw [List.mem_filter, hprice]
      exact and_iff_right hmem
    have hreached : level ∈ ((b.bestFirst aggressor).filter fun t =>
        !b.beyondLimit aggressor (some limit) t).filterMap (b.level? aggressor.opposite) ↔
        (!b.beyondLimit aggressor (some limit) t) = true := by
      rw [List.mem_filterMap]
      constructor
      · rintro ⟨t', ht', hlevel'⟩
        have hsame : t' = t := by
          rw [← (h.level _ t level hlevel).ticks, (h.level _ t' level hlevel').ticks]
        rw [← hsame]
        exact (List.mem_filter.mp ht').2
      · exact fun hwithin => ⟨t, List.mem_filter.mpr ⟨ht, hwithin⟩, hlevel⟩
    rw [Bool.eq_iff_iff, ← hcounted, heq, hreached]
  · intro hagree
    rw [List.filter_filterMap, List.filterMap_filter]
    refine List.filterMap_congr fun t ht => ?_
    obtain ⟨level, hlevel⟩ := (h.mem_bestFirst aggressor).mp ht
    rw [hlevel, Option.filter_some, (h.level _ t level hlevel).price, hagree t ht]

/-- The market size of some levels is that of their queues. -/
theorem depthAt_eq (s : TradeSide) (ticks : List ℤ) :
    b.depthAt s ticks =
      ((ticks.filterMap (b.level? s)).map fun level => marketSize b.heap level.orders).sum := by
  induction ticks with
  | nil => rfl
  | cons t rest ih =>
    have hcons : b.depthAt s (t :: rest) = marketSize b.heap (b.queue s t) + b.depthAt s rest :=
      List.sum_cons
    rw [hcons, ih]
    cases hlevel : b.level? s t with
    | none =>
      rw [queue_of_none hlevel, List.filterMap_cons_none hlevel]
      exact zero_add _
    | some level =>
      rw [queue_of_level hlevel, List.filterMap_cons_some hlevel, List.map_cons, List.sum_cons]

/-- `_is_marketable` compares the best opposite price. -/
theorem isMarketable_iff {o : Order} (hlimit : o.limitPrice = some limit) :
    b.isMarketable o = true ↔ ∃ t ∈ (b.bestFirst o.side).head?,
      withinPrice o.side limit (b.grid.fromTicks t) = true := by
  unfold isMarketable
  rw [hlimit]
  cases o.side with
  | buy =>
    simp only [bestAsk, bestFirst, withinPrice, Option.any_map, Option.any_eq_true,
      decide_eq_true_eq, sub_le_iff_le_add, Option.mem_def]
  | sell =>
    simp only [bestBid, bestFirst, withinPrice, Option.any_map, Option.any_eq_true,
      decide_eq_true_eq, sub_le_iff_le_add, Option.mem_def,
      List.head?_reverse]

/-! ## Sweeps that leave something open -/

/-- A used-up order stays as it is. -/
theorem walkLevel_heap_of_zero {k : Sweeper} (price : ℚ) {orders : List Ref} {heap : Heap}
    (remaining : ℚ) {q : Ref} (hzero : (heap q).remainingQuantity = 0) :
    (walkLevel k price orders heap remaining).heap q = heap q := by
  induction orders generalizing heap remaining with
  | nil => rfl
  | cons r rest ih =>
    simp only [walkLevel]
    split
    · rfl
    · split
      · exact ih remaining hzero
      · split
        · exact ih remaining hzero
        · rename_i hsize
          have hne : q ≠ r := by
            rintro rfl
            rw [hzero] at hsize
            exact hsize ((min_le_right _ _).trans eps_pos.le)
          have hsame : ∀ o, Function.update heap r o q = heap q := fun o =>
            Function.update_of_ne hne ..
          split <;> exact (ih _ (by rw [hsame]; exact hzero)).trans (hsame _)

/-- A level that does not fill an aggressor is used up. -/
theorem walkLevel_spent (timestamp price : ℚ) {orders : List Ref} {heap : Heap} (remaining : ℚ)
    (hlive : ∀ r ∈ orders, (heap r).owner = .market →
      (heap r).remainingQuantity = 0 ∨ eps < (heap r).remainingQuantity)
    (hmore : eps <
      (walkLevel (aggressorSweep true timestamp) price orders heap remaining).remaining) :
    ∀ q ∈ orders, (heap q).owner = .market →
      ((walkLevel (aggressorSweep true timestamp) price orders heap remaining).heap
        q).remainingQuantity = 0 := by
  induction orders generalizing heap remaining with
  | nil => exact fun q hq => by cases hq
  | cons r rest ih =>
    have hrest : ∀ q ∈ rest, (heap q).owner = .market →
        (heap q).remainingQuantity = 0 ∨ eps < (heap q).remainingQuantity :=
      fun q hq => hlive q (List.mem_cons_of_mem r hq)
    by_cases hremaining : remaining ≤ eps
    · rw [walkLevel_of_le hremaining] at hmore
      exact absurd hmore (not_lt.mpr hremaining)
    · intro q hq hmarket
      simp only [walkLevel, if_neg hremaining] at hmore ⊢
      cases howner : (heap r).owner with
      | paper =>
        have hskips : (aggressorSweep true timestamp).skips (heap r) = true := by
          simp [aggressorSweep, howner]
        rw [if_pos hskips] at hmore ⊢
        rcases List.mem_cons.mp hq with rfl | hmem
        · rw [howner] at hmarket
          cases hmarket
        · exact ih remaining hrest hmore q hmem hmarket
      | market =>
        have hskips : ¬(aggressorSweep true timestamp).skips (heap r) = true := by
          simp [aggressorSweep, howner]
        rw [if_neg hskips] at hmore ⊢
        rcases hlive r (List.mem_cons_self ..) howner with hzero | hpos
        · -- used up before
          rw [if_pos ((min_le_right _ _).trans (hzero.le.trans eps_pos.le))] at hmore ⊢
          rcases List.mem_cons.mp hq with rfl | hmem
          · rw [walkLevel_heap_of_zero price remaining hzero]
            exact hzero
          · exact ih remaining hrest hmore q hmem hmarket
        · have hsize : ¬min remaining (heap r).remainingQuantity ≤ eps :=
            not_le.mpr (lt_min (not_le.mp hremaining) hpos)
          rw [if_neg hsize, if_pos (by rfl)] at hmore ⊢
          by_cases hle : remaining ≤ (heap r).remainingQuantity
          · -- the aggressor would be used up
            rw [min_eq_left hle, sub_self, walkLevel_of_le eps_pos.le] at hmore
            exact absurd hmore (not_lt.mpr eps_pos.le)
          · rw [min_eq_right (not_le.mp hle).le] at hmore ⊢
            set o := (aggressorSweep true timestamp).hit price (heap r).remainingQuantity
              (heap r) with ho
            have hzero : (Function.update heap r o r).remainingQuantity = 0 := by
              rw [Function.update_self, ho]
              exact (recordFill_remaining ..).trans (sub_self _)
            have howners : ∀ q', (Function.update heap r o q').owner = (heap q').owner := by
              intro q'
              by_cases heq : q' = r
              · rw [heq, Function.update_self]
                rfl
              · rw [Function.update_of_ne heq]
            have hlater : ∀ q' ∈ rest, (Function.update heap r o q').owner = .market →
                (Function.update heap r o q').remainingQuantity = 0 ∨
                  eps < (Function.update heap r o q').remainingQuantity := by
              intro q' hq' hmarket'
              by_cases heq : q' = r
              · exact Or.inl (heq ▸ hzero)
              · rw [howners] at hmarket'
                rw [Function.update_of_ne heq]
                exact hrest q' hq' hmarket'
            rcases List.mem_cons.mp hq with rfl | hmem
            · rw [walkLevel_heap_of_zero price _ hzero]
              exact hzero
            · exact ih _ hlater hmore q hmem ((howners q).trans hmarket)

/-- A sweep adds no order to a queue. -/
theorem mem_queue_of_walk {k : Sweeper} {s s' : TradeSide} {beyond : ℤ → Bool} {ticks : List ℤ}
    {remaining : ℚ} {q : Ref} (h : q ∈ (walk k s beyond ticks b remaining).book.queue s' t) :
    q ∈ b.queue s' t := by
  induction ticks generalizing b remaining with
  | nil => exact h
  | cons t' rest ih =>
    simp only [walk] at h
    split at h
    · exact h
    · split at h
      · exact h
      · have hpruned := ih h
        rw [queue_prune] at hpruned
        split at hpruned
        · rename_i heq
          rw [(Prod.mk.inj heq).1, (Prod.mk.inj heq).2]
          exact List.mem_of_mem_filter hpruned
        · exact hpruned

/-- What a sweep leaves open is what it does not fill. -/
theorem walk_left (hok : b.Ok) (timestamp : ℚ) (s : TradeSide) (ticks : List ℤ) (remaining : ℚ) :
    (walk (aggressorSweep true timestamp) s (fun _ => false) ticks b remaining).remaining =
      remaining - hitSize ((walk (aggressorSweep true timestamp) s (fun _ => false) ticks b
        remaining).fills.map Fill.hit) := by
  induction ticks generalizing b remaining with
  | nil => exact (sub_zero _).symm
  | cons t rest ih =>
    by_cases hdone : remaining ≤ eps
    · rw [walk_of_le hdone]
      exact (sub_zero _).symm
    · simp only [walk, hdone, decide_false, Bool.or_false, Bool.false_eq_true, if_false]
      cases hlevel : b.level? s t with
      | none => exact (sub_zero _).symm
      | some level =>
        have hw := walkLevel_within (aggressorSweep_sound true timestamp) level.price
          remaining (hok.shape.level s t level hlevel).belongs
        have hnext := ih (prune_ok ((hok.except s t).within hw))
          (walkLevel (aggressorSweep true timestamp) level.price level.orders b.heap
            remaining).remaining
        rw [(hok.walkLevel_take hlevel timestamp remaining).left] at hnext
        simp only [List.map_append, hitSize_append]
        rw [← sub_sub]
        rw [(hok.walkLevel_take hlevel timestamp remaining).left]
        exact hnext

/-- A sweep that leaves something open leaves no feed orders at its ticks. -/
theorem walk_spent (hok : b.Ok) (timestamp : ℚ) {s : TradeSide} {ticks : List ℤ}
    (hnodup : ticks.Nodup) (hlevels : ∀ t ∈ ticks, ∃ level, b.level? s t = some level)
    {remaining : ℚ} (hmore : eps < (walk (aggressorSweep true timestamp) s (fun _ => false) ticks b
      remaining).remaining) :
    ∀ t ∈ ticks, ∀ q ∈ (walk (aggressorSweep true timestamp) s (fun _ => false) ticks b
      remaining).book.queue s t, (b.heap q).owner = .paper := by
  induction ticks generalizing b remaining with
  | nil => exact fun t ht => by cases ht
  | cons t rest ih =>
    obtain ⟨hnot, hrest⟩ := List.nodup_cons.mp hnodup
    obtain ⟨level, hlevel⟩ := hlevels t (List.mem_cons_self ..)
    by_cases hdone : remaining ≤ eps
    · rw [walk_of_le hdone] at hmore
      exact absurd hmore (not_lt.mpr hdone)
    · simp only [walk, hdone, decide_false, Bool.or_false, Bool.false_eq_true, if_false,
        hlevel] at hmore ⊢
      have hw := walkLevel_within (aggressorSweep_sound true timestamp) level.price remaining
        (hok.shape.level s t level hlevel).belongs
      have hok' := prune_ok ((hok.except s t).within hw)
      have hlive : ∀ r ∈ level.orders, (b.heap r).owner = .market →
          (b.heap r).remainingQuantity = 0 ∨ eps < (b.heap r).remainingQuantity := by
        intro r hr _
        rw [← queue_of_level hlevel] at hr
        exact Or.inr (hok.eps_lt_remaining hr)
      have hspent := walkLevel_spent timestamp level.price remaining hlive
      generalize walkLevel (aggressorSweep true timestamp) level.price level.orders b.heap
        remaining = run at hw hok' hspent hmore ⊢
      have hopen : eps < run.remaining := by
        by_contra hle
        rw [walk_of_le (not_lt.mp hle)] at hmore
        exact hle hmore
      have howner : ∀ q, (((b.withHeap run.heap).prune s t).heap q).owner =
          (b.heap q).owner := fun q =>
        (fields_of_sansQueue (heap_prune_sansQueue q)).2.2.1.trans (hw.owner q)
      intro t' ht' q hq
      rcases List.mem_cons.mp ht' with rfl | hmem
      · -- the level was walked and pruned
        have hpruned := mem_queue_of_walk hq
        rw [queue_prune, if_pos rfl] at hpruned
        obtain ⟨hin, hlive'⟩ := List.mem_filter.mp hpruned
        cases howner' : (b.heap q).owner with
        | paper => rfl
        | market =>
          have hzero := hspent hopen q (by rwa [← queue_of_level hlevel]) howner'
          exact absurd (Order.isLive_iff.mp hlive').1 (not_lt.mpr (hzero.le.trans eps_pos.le))
      · have hlater := ih hok' hrest (fun t'' ht'' => by
          have hne : (s, t'') ≠ (s, t) := fun heq => hnot ((Prod.mk.inj heq).2 ▸ ht'')
          rw [level?_prune_ne hne, level?_withHeap]
          exact hlevels t'' (List.mem_cons_of_mem t ht'')) hmore t' hmem q hq
        rwa [howner] at hlater

/-! ## An order that comes to rest -/

/-- No feed order lies at a tick or better, for an aggressor. -/
def FreeOfFeed (b : OrderBook) (aggressor : TradeSide) (t : ℤ) : Prop :=
  ∀ t', worseThan aggressor t' t = false → ∀ q ∈ b.queue aggressor.opposite t',
    (b.heap q).owner = .paper

section Rest

variable {r : Ref} {now : ℚ}

/-- An order comes to rest with more than the tolerance, through `add_order`. -/
theorem restRemainder_of_rests (hnew : ¬b.Rests r) (h : (b.restRemainder r now).1.Rests r) :
    eps < (b.heap r).remainingQuantity ∧ (b.restRemainder r now).1 = b.addOrder r now := by
  unfold restRemainder at h ⊢
  dsimp only at h ⊢
  split at h
  · exact absurd h hnew
  · rename_i hopen
    split at h
    · exact absurd ((rests_modify r r _).mp h) hnew
    · rename_i hkeeps
      rw [if_neg hopen, if_neg hkeeps]
      exact ⟨not_le.mp hopen, rfl⟩

/-- An order that comes to rest is at the tick of its limit, and no feed order with it. -/
theorem addOrder_freeOfFeed (hnew : ¬b.Rests r) (hlimit : (b.heap r).limitPrice = some limit)
    (hfree : b.FreeOfFeed (b.heap r).side (b.grid.toTicks limit)) {s : TradeSide}
    (h : r ∈ (b.addOrder r now).queue s t) :
    s = (b.heap r).side ∧ (b.addOrder r now).FreeOfFeed (b.heap r).side t := by
  rw [queue_addOrder now hlimit] at h
  split at h
  · rename_i heq
    obtain ⟨rfl, rfl⟩ := Prod.mk.inj heq
    refine ⟨rfl, fun t' ht' q hq => ?_⟩
    have hside : ((b.heap r).side.opposite, t') ≠ ((b.heap r).side, b.grid.toTicks limit) :=
      fun heq' => by
        have hcontra := (Prod.mk.inj heq').1
        cases hr : (b.heap r).side <;> rw [hr] at hcontra <;> cases hcontra
    rw [queue_addOrder now hlimit, if_neg hside] at hq
    have hne : q ≠ r := fun heq' => hnew ⟨_, t', heq' ▸ hq⟩
    rw [heap_addOrder now hlimit, Function.update_of_ne hne]
    exact hfree t' ht' q hq
  · exact absurd ⟨s, t, h⟩ hnew

/-- Levels that are not beyond the limit are within the reach of an aggressor. -/
theorem Shape.mem_reach_of_queue (h : b.Shape) {q : Ref}
    (hq : q ∈ b.queue aggressor.opposite t)
    (ht : worseThan aggressor t (b.grid.toTicks limit) = false) :
    t ∈ b.reach aggressor (some limit) := by
  obtain ⟨level, hlevel, -⟩ := level_of_mem_queue hq
  refine List.mem_filter.mpr ⟨(h.mem_bestFirst aggressor).mpr ⟨level, hlevel⟩, ?_⟩
  have hbeyond : b.beyondLimit aggressor (some limit) t = false := ht
  rw [hbeyond]
  rfl

/-- A sweep that leaves something open frees the levels within its limit of feed orders. -/
theorem Ok.freeOfFeed_of_open (hok : b.Ok) (aggressor : TradeSide) (limit quantity now : ℚ)
    (hmore : eps < (walk (aggressorSweep true now) aggressor.opposite (fun _ => false)
      (b.reach aggressor (some limit)) b quantity).remaining) :
    (b.consumeLiquidity aggressor quantity now (some limit) true).1.FreeOfFeed aggressor
      (b.grid.toTicks limit) := by
  intro t ht q hq
  have hstamp := (b.consumeLiquidity_confined (fun _ => False) aggressor quantity now (some limit)
    true).stamp q
  rw [consumeLiquidity_eq hok.shape] at hq hstamp ⊢
  rw [queue_printed] at hq
  have hbefore := mem_queue_of_walk hq
  have hpaper := walk_spent hok now (hok.shape.reach_nodup aggressor (some limit))
    (hok.shape.reach_levels aggressor (some limit)) hmore t
    (hok.shape.mem_reach_of_queue hbefore ht) q hq
  have howner := congrArg (fun p => p.2.1) (hstamp (hok.lt_nextRef hbefore))
  exact howner.trans hpaper

/-- Opposite levels that lie clear of a limit that is not marketable are all beyond its tick. -/
theorem Ok.freeOfFeed_of_not_marketable (hok : b.Ok) {o : Order} (hlimit : o.limitPrice = some limit)
    (hgrid : b.grid.isOnGrid limit = true) (hclear : b.Clear o.side limit)
    (hnot : b.isMarketable o = false) : b.FreeOfFeed o.side (b.grid.toTicks limit) := by
  intro t ht q hq
  obtain ⟨hmem, hwithin⟩ := List.mem_filter.mp (hok.shape.mem_reach_of_queue hq ht)
  cases hticks : b.bestFirst o.side with
  | nil =>
    rw [hticks] at hmem
    cases hmem
  | cons best rest =>
    -- the best level is within the limit, as a worse one is
    have hbest : b.beyondLimit o.side (some limit) best = false := by
      have hsorted := hok.shape.bestFirst_pairwise o.side
      rw [hticks] at hmem hsorted
      rcases List.mem_cons.mp hmem with rfl | hrest
      · simpa using hwithin
      · by_contra hbeyond
        have hworse := beyondLimit_of_worse ((List.pairwise_cons.mp hsorted).1 t hrest)
          (by simpa using hbeyond)
        rw [hworse] at hwithin
        cases hwithin
    have hagree := (clear_iff hgrid).mp hclear best (by rw [hticks]; exact List.mem_cons_self ..)
    rw [hbest] at hagree
    have hyes : b.isMarketable o = true :=
      (isMarketable_iff hlimit).mpr ⟨best, by rw [hticks]; rfl, hagree⟩
    rw [hnot] at hyes
    cases hyes

theorem FreeOfFeed.modify (h : b.FreeOfFeed aggressor t) (hnew : ¬b.Rests r) (f : Order → Order) :
    (b.modify r f).FreeOfFeed aggressor t := by
  intro t' ht' q hq
  rw [queue_modify] at hq
  rw [heap_modify_rests hnew f ⟨_, t', hq⟩]
  exact h t' ht' q hq

/-- What rests of an order that took liquidity leaves no opposite feed order at its tick. -/
theorem Ok.take_uncrossed (hok : b.Ok) (hr : r < b.nextRef) (hnew : ¬b.Present r)
    (hlimit : (b.heap r).limitPrice = some limit) {s : TradeSide}
    (h : r ∈ ((b.take r now (some limit)).1.restRemainder r now).1.queue s t) :
    s = (b.heap r).side ∧
      ((b.take r now (some limit)).1.restRemainder r now).1.FreeOfFeed (b.heap r).side t := by
  have hconfined := b.consumeLiquidity_confined (fun _ => False) (b.heap r).side
    (b.heap r).remainingQuantity now (some limit) true
  have hgrid := (consumeLiquidity_fixed (b := b) (b.heap r).side (b.heap r).remainingQuantity now
    (some limit) true).1
  have hleft := walk_left hok now (b.heap r).side.opposite
    (b.reach (b.heap r).side (some limit)) (b.heap r).remainingQuantity
  have hfills : (b.consumeLiquidity (b.heap r).side (b.heap r).remainingQuantity now (some limit)
      true).2 = (walk (aggressorSweep true now) (b.heap r).side.opposite (fun _ => false)
        (b.reach (b.heap r).side (some limit)) b (b.heap r).remainingQuantity).fills := by
    rw [consumeLiquidity_eq hok.shape]
  have hfree := hok.freeOfFeed_of_open (b.heap r).side limit (b.heap r).remainingQuantity now
  rw [← hfills] at hleft
  rw [hleft] at hfree
  rw [take_fst] at h ⊢
  generalize b.consumeLiquidity (b.heap r).side (b.heap r).remainingQuantity now (some limit) true =
    result at hconfined hgrid hfree h ⊢
  have hout : ¬result.1.Rests r := fun hrests =>
    (hconfined.present r hr (Or.inl hrests)).elim id hnew
  have hself : (result.1.modify r (Order.filledBy now result.2)).heap r =
      (b.heap r).filledBy now result.2 := by
    rw [heap_modify_self, hconfined.same r hr (fun h => h) hnew]
  have hterms := Order.filledBy_fixed now result.2 (b.heap r)
  have hside : ((result.1.modify r (Order.filledBy now result.2)).heap r).side =
      (b.heap r).side := by
    rw [hself]
    exact hterms.2.2.1
  have htaken : ¬(result.1.modify r (Order.filledBy now result.2)).Rests r := fun hrests =>
    hout ((rests_modify r r _).mp hrests)
  obtain ⟨hopen, hrest⟩ := restRemainder_of_rests htaken ⟨s, t, h⟩
  rw [hself, Order.remainingQuantity, hterms.1, Order.filledBy_filled, ← sub_sub] at hopen
  rw [hrest] at h ⊢
  rw [← hside]
  refine addOrder_freeOfFeed htaken (by rw [hself, hterms.2.2.2, hlimit]) ?_ h
  have htick : (result.1.modify r (Order.filledBy now result.2)).grid = b.grid := hgrid
  rw [hside, htick]
  exact (hfree hopen).modify hout _

/-- An order that comes to rest leaves no opposite feed order at its tick or better, when the
opposite levels lie clear of its limit. -/
theorem executeLimitOrder_uncrossed (hok : b.Ok) (hr : r < b.nextRef) (hnew : ¬b.Present r)
    (hlimit : (b.heap r).limitPrice = some limit) (hgrid : b.grid.isOnGrid limit = true)
    (hclear : b.Clear (b.heap r).side limit) {s : TradeSide}
    (h : r ∈ (b.executeLimitOrder r now).1.queue s t) :
    s = (b.heap r).side ∧ (b.executeLimitOrder r now).1.FreeOfFeed (b.heap r).side t := by
  have hnew' : ¬b.Rests r := fun hrests => hnew (Or.inl hrests)
  unfold executeLimitOrder at h ⊢
  dsimp only at h ⊢
  by_cases hshort : b.fokShort (b.heap r) = true
  · rw [if_pos hshort] at h
    exact absurd ((rests_modify r r _).mp ⟨s, t, h⟩) hnew'
  · rw [if_neg hshort] at h ⊢
    cases hmarketable : b.isMarketable (b.heap r) with
    | false =>
      simp only [hmarketable, Bool.false_eq_true, if_false] at h ⊢
      have hrest := (restRemainder_of_rests hnew' ⟨s, t, h⟩).2
      rw [hrest] at h ⊢
      exact addOrder_freeOfFeed hnew' hlimit
        (hok.freeOfFeed_of_not_marketable hlimit hgrid hclear hmarketable) h
    | true =>
      simp only [hmarketable, if_true, hlimit] at h ⊢
      exact hok.take_uncrossed hr hnew hlimit h

end Rest

/-- The three notions of marketable agree for an order that is executed. -/
structure NotionsAgree (b b' : OrderBook) (r : Ref) (limit : ℚ) : Prop where
  /-- the levels that are counted are those that are executed at -/
  levels : b.countedLevels (b.heap r).side (some limit) =
    b.reachedLevels (b.heap r).side (some limit)
  /-- marketable is what can execute at the best opposite level -/
  best : b.isMarketable (b.heap r) = true ↔ ∃ t ∈ (b.bestFirst (b.heap r).side).head?,
    b.beyondLimit (b.heap r).side (some limit) t = false
  /-- the available size is the market size of the levels that are executed at -/
  size : b.available (b.heap r).side (some limit) =
    b.depthAt (b.heap r).side.opposite (b.reach (b.heap r).side (some limit))
  /-- where the order comes to rest there is no opposite feed order, nor at a better tick -/
  uncrossed : ∀ s t, r ∈ b'.queue s t →
    s = (b.heap r).side ∧ b'.FreeOfFeed (b.heap r).side t

/-- The notions agree when the opposite levels lie clear of the limit, and the order rests as it
should. -/
theorem NotionsAgree.of_clear {b b' : OrderBook} {r : Ref} (hshape : b.Shape)
    (hlimit : (b.heap r).limitPrice = some limit) (hgrid : b.grid.isOnGrid limit = true)
    (hclear : b.Clear (b.heap r).side limit)
    (huncrossed : ∀ s t, r ∈ b'.queue s t →
      s = (b.heap r).side ∧ b'.FreeOfFeed (b.heap r).side t) : NotionsAgree b b' r limit := by
  have hlevels := (countedLevels_eq_iff hshape hgrid).mpr hclear
  refine ⟨hlevels, ?_, ?_, huncrossed⟩
  · rw [isMarketable_iff hlimit]
    refine exists_congr fun t => and_congr_right fun ht => ?_
    rw [(clear_iff hgrid).mp hclear t (List.mem_of_mem_head? ht), Bool.not_eq_true']
  · rw [depthAt_eq]
    exact congrArg (fun levels : List LevelQueue =>
      (levels.map fun level => marketSize b.heap level.orders).sum) hlevels

/-! ## Tick sizes -/

end OrderBook

/-! ## The engine -/

namespace MatchingEngine

open OrderBook

variable {e : MatchingEngine} {r : Ref} {now limit : ℚ}

/-- An accepted limit price is on the grid. -/
theorem isOnGrid_of_valid {b : OrderBook} {o : Order} (hvalid : b.invalidReason o = none)
    (hlimit : o.limitPrice = some limit) : b.grid.isOnGrid limit = true := by
  unfold invalidReason at hvalid
  dsimp only at hvalid
  by_contra hoff
  split at hvalid
  · cases hvalid
  · split at hvalid
    · cases hvalid
    · split at hvalid
      · cases hvalid
      · simp [hlimit, hoff] at hvalid

/-- An accepted limit order, or a triggered one, leaves no opposite feed order where it rests. -/
theorem executed_uncrossed (hok : e.book.Ok) (hr : r < e.book.nextRef)
    (hnew : ¬e.book.Present r) (hvalid : e.book.invalidReason (e.book.heap r) = none)
    (htype : (e.book.heap r).orderType = .limit ∨ (e.book.heap r).orderType = .stopLimit)
    (hlimit : (e.book.heap r).limitPrice = some limit)
    (hclear : e.book.Clear (e.book.heap r).side limit) (s : TradeSide) (t : ℤ)
    (h : r ∈ (e.executed r now).queue s t) :
    s = (e.book.heap r).side ∧ (e.executed r now).FreeOfFeed (e.book.heap r).side t := by
  have hnew' : ¬e.book.Rests r := fun hrests => hnew (Or.inl hrests)
  -- the order as the execution finds it
  have hstarted : ∀ f : Order → Order, SameTerms (e.book.heap r) (f (e.book.heap r)) →
      r ∈ ((e.book.modify r f).executeLimitOrder r now).1.queue s t →
      s = (e.book.heap r).side ∧
        ((e.book.modify r f).executeLimitOrder r now).1.FreeOfFeed (e.book.heap r).side t := by
    intro f hf hqueue
    have hself : (e.book.modify r f).heap r = f (e.book.heap r) := heap_modify_self r f
    have hpresent : ¬(e.book.modify r f).Present r := fun hp =>
      hnew (hp.imp_left (rests_modify r r f).mp)
    have hrested := executeLimitOrder_uncrossed (hok.modify_outside hnew' f) hr
      hpresent (by rw [hself, hf.limitPrice]; exact hlimit) (isOnGrid_of_valid hvalid hlimit)
      (by rw [hself, hf.side]; exact hclear) hqueue
    rwa [hself, hf.side] at hrested
  unfold executed at h ⊢
  rw [submitOrder_book hvalid] at h ⊢
  rcases htype with htype | htype
  · simp only [htype] at h ⊢
    exact hstarted (fun o => withStatus .accepted (e.received o)) ⟨rfl, rfl, rfl, rfl, rfl⟩ h
  · simp only [htype, executeTriggered] at h ⊢
    exact hstarted (withType OrderType.stopLimit.triggered) ⟨rfl, rfl, rfl, rfl, rfl⟩ h

/-- The three notions of marketable agree for an accepted limit order exactly when the opposite
levels lie clear of its limit; the available size is also what a sweep can take exactly when,
besides, no level within the limit lists a feed order twice. -/
theorem notions_agree_iff (e : MatchingEngine) (hok : e.book.Ok) {r : Ref}
    (hr : r < e.book.nextRef) (hnew : ¬e.book.Present r)
    (hvalid : e.book.invalidReason (e.book.heap r) = none)
    (htype : (e.book.heap r).orderType = .limit ∨ (e.book.heap r).orderType = .stopLimit)
    {limit : ℚ} (hlimit : (e.book.heap r).limitPrice = some limit) (now : ℚ) :
    (NotionsAgree e.book (e.executed r now) r limit ↔
        e.book.Clear (e.book.heap r).side limit) ∧
      (NotionsAgree e.book (e.executed r now) r limit ∧
          e.book.available (e.book.heap r).side (some limit) =
            e.book.depthWithin (e.book.heap r).side (some limit) ↔
        e.book.Clear (e.book.heap r).side limit ∧
          ∀ t ∈ e.book.reach (e.book.heap r).side (some limit),
            ((e.book.queue (e.book.heap r).side.opposite t).filter
              (isMarket e.book.heap)).Nodup) := by
  have hgrid := isOnGrid_of_valid hvalid hlimit
  have hagree : NotionsAgree e.book (e.executed r now) r limit ↔
      e.book.Clear (e.book.heap r).side limit := by
    constructor
    · exact fun h => (countedLevels_eq_iff hok.shape hgrid).mp h.levels
    · exact fun hclear => NotionsAgree.of_clear hok.shape hlimit hgrid hclear fun s t =>
        executed_uncrossed hok hr hnew hvalid htype hlimit hclear s t
  refine ⟨hagree, ?_⟩
  rw [← hagree]
  refine and_congr_right fun h => ?_
  have hlevels := hok.shape.reach_levels (e.book.heap r).side (some limit)
  rw [h.size]
  constructor
  · intro hsize
    by_contra htwice
    push Not at htwice
    have hlt := hok.distinctDepth_lt hlevels htwice
    have heps := eps_pos
    rw [hsize, depthWithin] at hlt
    linarith
  · exact fun honce => (distinctDepth_eq hlevels honce).symm

/-- A buy at 100 finds both asks of the feed, by each of the notions. -/
theorem notions_agree_hundred :
    (withFok threeAsks .limit 12 (some 100)).book.available .buy (some 100) = 15 ∧
      NotionsAgree (withFok threeAsks .limit 12 (some 100)).book
        ((withFok threeAsks .limit 12 (some 100)).executed threeAsks.nextRef 6)
        threeAsks.nextRef 100 := by
  have hbook : (∀ p ∈ threeAsks.orders.items, p.2 < threeAsks.nextRef) ∧
      (withFok threeAsks .limit 12 (some 100)).book.invalidReason
        ((withFok threeAsks .limit 12 (some 100)).book.heap threeAsks.nextRef) = none ∧
      (withFok threeAsks .limit 12 (some 100)).book.available .buy (some 100) = 15 ∧
      (withFok threeAsks .limit 12 (some 100)).book.bestFirst .buy = [10000] ∧
      (withFok threeAsks .limit 12 (some 100)).book.grid.ticksBeyond .buy 100 10000 = 0 ∧
      (withFok threeAsks .limit 12 (some 100)).book.grid.shortfall .buy 100 = 0 := by
    decide +kernel
  obtain ⟨hindex, hvalid, havailable, hticks, hbeyond, hshort⟩ := hbook
  have hself : (withFok threeAsks .limit 12 (some 100)).book.heap threeAsks.nextRef =
      Order.new "P00000002" "X" .buy .limit 12 (some 100) none .fok 5 none .paper :=
    Function.update_self ..
  refine ⟨havailable, (notions_agree_iff _ (alloc_ok threeAsks_ok _) (Nat.lt_succ_self _)
    (not_present_alloc threeAsks_ok hindex _) hvalid ?_ ?_ 6).1.mpr ?_⟩
  · rw [hself]
    exact Or.inl rfl
  · rw [hself]
    rfl
  · rw [hself]
    intro t ht
    have htick : t ∈ (withFok threeAsks .limit 12 (some 100)).book.bestFirst .buy := ht
    rw [hticks, List.mem_singleton] at htick
    rw [htick]
    refine ⟨fun _ => ?_, fun hpos => ?_⟩
    · exact hshort.le.trans eps_pos.le
    · exact absurd hpos (not_lt.mpr hbeyond.le)

/-- A book with one ask of the feed at 100. -/
def oneAsk : OrderBook :=
  ((OrderBook.empty cents "X").applyMarketEvent ⟨1, .add, .sell, 100, 10, some "a"⟩ zeros).1

/-- A buy of our own, a two hundred millionth below the ask. -/
def justBelow : MatchingEngine where
  book := oneAsk.alloc (Order.new "P00000001" "X" .buy .limit 5 (some (100 - 1 / 200000000)) none
    .gtc 2 none .paper)
  eventLog := []
  pendingStops := []

/-- The limit is accepted, at the tick of the ask; the buy is not marketable and nothing is
available to it, a sweep would take the ask, and the buy comes to rest at the tick of the ask. -/
theorem rests_at_the_ask :
    justBelow.book.Ok ∧ ¬justBelow.book.Present oneAsk.nextRef ∧
      justBelow.book.invalidReason (justBelow.book.heap oneAsk.nextRef) = none ∧
      justBelow.book.isMarketable (justBelow.book.heap oneAsk.nextRef) = false ∧
      justBelow.book.beyondLimit .buy (some (100 - 1 / 200000000)) 10000 = false ∧
      justBelow.book.available .buy (some (100 - 1 / 200000000)) = 0 ∧
      justBelow.book.depthAt .sell (justBelow.book.reach .buy (some (100 - 1 / 200000000))) = 10 ∧
      (justBelow.executed oneAsk.nextRef 3).queue .buy 10000 = [oneAsk.nextRef] ∧
      (justBelow.executed oneAsk.nextRef 3).queue .sell 10000 = [0] ∧
      ((justBelow.executed oneAsk.nextRef 3).heap 0).owner = .market ∧
      ¬NotionsAgree justBelow.book (justBelow.executed oneAsk.nextRef 3) oneAsk.nextRef
        (100 - 1 / 200000000) := by
  have hbook : (∀ p ∈ oneAsk.orders.items, p.2 < oneAsk.nextRef) ∧
      justBelow.book.invalidReason (justBelow.book.heap oneAsk.nextRef) = none ∧
      justBelow.book.isMarketable (justBelow.book.heap oneAsk.nextRef) = false ∧
      justBelow.book.beyondLimit .buy (some (100 - 1 / 200000000)) 10000 = false ∧
      justBelow.book.available .buy (some (100 - 1 / 200000000)) = 0 ∧
      justBelow.book.depthAt .sell (justBelow.book.reach .buy (some (100 - 1 / 200000000))) = 10 ∧
      (justBelow.executed oneAsk.nextRef 3).queue .buy 10000 = [oneAsk.nextRef] ∧
      (justBelow.executed oneAsk.nextRef 3).queue .sell 10000 = [0] ∧
      ((justBelow.executed oneAsk.nextRef 3).heap 0).owner = .market ∧
      (justBelow.book.heap oneAsk.nextRef).side = .buy := by
    decide +kernel
  obtain ⟨hindex, hvalid, hmarketable, hbeyond, havailable, hdepth, hbids, hasks, howner, hside⟩ :=
    hbook
  have hok : oneAsk.Ok := applyMarketEvent_ok (empty_ok cents "X") _ _
  refine ⟨alloc_ok hok _, not_present_alloc hok hindex _, hvalid, hmarketable, hbeyond, havailable,
    hdepth, hbids, hasks, howner, fun h => ?_⟩
  have hsize := h.size
  rw [hside] at hsize
  have hdepth' : justBelow.book.depthAt TradeSide.buy.opposite
      (justBelow.book.reach .buy (some (100 - 1 / 200000000))) = 10 := hdepth
  rw [havailable, hdepth'] at hsize
  norm_num at hsize

end MatchingEngine

end QuantumSentinel.Exchange
