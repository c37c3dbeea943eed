import Mathlib.Data.List.Dedup
import QuantumSentinel.Exchange.PaperChanges

/-!
# Paper exchange: what an aggressor takes

The fills that `consume_liquidity` reports: their sizes fit the quantity, and their prices
are those of levels within the limit.

Main results:

- Theorem `OrderBook.consumeLiquidity_take`: what is taken fits the quantity, at prices of
  levels within the limit.

Current gaps:

- Only sweeps that pass over paper orders, as the engine makes them.
-/

namespace QuantumSentinel.Exchange

open Lib

/-- The hit that a fill reports. -/
def Fill.hit (f : Fill) : Hit where
  price := f.fillPrice
  quantity := f.fillQuantity

/-- What fits first, and then what is left. -/
theorem Fits.append {remaining : ℚ} {hits hits' : List Hit} (h : Fits remaining hits)
    (h' : Fits (remaining - hitSize hits) hits') : Fits remaining (hits ++ hits') := by
  induction hits generalizing remaining with
  | nil => simpa using h'
  | cons hit rest ih =>
    rcases h with ⟨hsize, hle, hrest⟩
    refine ⟨hsize, hle, ih hrest ?_⟩
    rw [hitSize_cons, ← sub_sub] at h'
    exact h'

@[simp]
theorem hitSize_append (hits hits' : List Hit) :
    hitSize (hits ++ hits') = hitSize hits + hitSize hits' := by
  simp [hitSize]

@[simp]
theorem hitCost_append (hits hits' : List Hit) :
    hitCost (hits ++ hits') = hitCost hits + hitCost hits' := by
  simp [hitCost]

/-! ## Market sizes -/

section Sizes

variable {heap heap' : Heap} {orders : List Ref} {r : Ref}

theorem marketSize_congr
    (h : ∀ r ∈ orders, (heap' r).owner = (heap r).owner ∧
      ((heap r).owner = .market → (heap' r).remainingQuantity = (heap r).remainingQuantity)) :
    marketSize heap' orders = marketSize heap orders := by
  have hfilter : orders.filter (isMarket heap') = orders.filter (isMarket heap) :=
    List.filter_congr fun r hr => by rw [isMarket, isMarket, (h r hr).1]
  unfold marketSize
  rw [hfilter]
  apply totalSize_congr
  intro r hr
  rcases List.mem_filter.mp hr with ⟨hmem, hmarket⟩
  exact (h r hmem).2 (by simpa [isMarket] using hmarket)

theorem marketSize_cons_market (hr : (heap r).owner = .market) :
    marketSize heap (r :: orders) = (heap r).remainingQuantity + marketSize heap orders := by
  unfold marketSize
  rw [List.filter_cons_of_pos (by simpa [isMarket] using hr), totalSize_cons]

theorem marketSize_cons_paper (hr : (heap r).owner = .paper) :
    marketSize heap (r :: orders) = marketSize heap orders := by
  unfold marketSize
  rw [List.filter_cons_of_neg (by simp [isMarket, hr])]

theorem marketSize_nonneg
    (h : ∀ r ∈ orders, (heap r).owner = .market → 0 ≤ (heap r).remainingQuantity) :
    0 ≤ marketSize heap orders := by
  unfold marketSize totalSize
  apply List.sum_nonneg
  intro q hq
  rcases List.mem_map.mp hq with ⟨r, hr, rfl⟩
  rcases List.mem_filter.mp hr with ⟨hmem, hmarket⟩
  exact h r hmem (by simpa [isMarket] using hmarket)

/-- An order of the list can be counted first. -/
theorem marketSize_of_mem (hr : r ∈ orders) :
    marketSize heap orders = marketSize heap (r :: orders.erase r) := by
  unfold marketSize totalSize
  exact ((List.perm_cons_erase hr).filter _ |>.map _).sum_eq

/-- The market size of a queue when each order is counted once. -/
def distinctSize (heap : Heap) (orders : List Ref) : ℚ :=
  marketSize heap orders.dedup

theorem distinctSize_nonneg
    (h : ∀ r ∈ orders, (heap r).owner = .market → 0 ≤ (heap r).remainingQuantity) :
    0 ≤ distinctSize heap orders :=
  marketSize_nonneg fun r hr => h r (List.mem_dedup.mp hr)

theorem distinctSize_cons_paper (hr : (heap r).owner = .paper) :
    distinctSize heap (r :: orders) = distinctSize heap orders := by
  unfold distinctSize
  by_cases hmem : r ∈ orders
  · rw [List.dedup_cons_of_mem hmem]
  · rw [List.dedup_cons_of_notMem hmem, marketSize_cons_paper hr]

/-- Using up the first order takes its size out of the queue. -/
theorem distinctSize_cons_update {o : Order} (hr : (heap r).owner = .market)
    (ho : o.owner = .market) (hzero : o.remainingQuantity = 0) :
    distinctSize heap (r :: orders) =
      (heap r).remainingQuantity + distinctSize (Function.update heap r o) orders := by
  have hself : Function.update heap r o r = o := Function.update_self ..
  have hsame : ∀ orders : List Ref, r ∉ orders →
      marketSize (Function.update heap r o) orders = marketSize heap orders := by
    intro orders hnot
    refine marketSize_congr fun q hq => ?_
    have hne : q ≠ r := fun heq => hnot (heq ▸ hq)
    rw [Function.update_of_ne hne]
    exact ⟨rfl, fun _ => rfl⟩
  unfold distinctSize
  by_cases hmem : r ∈ orders
  · have hdedup := List.mem_dedup.mpr hmem
    have hnodup := List.nodup_dedup orders
    have hnot : r ∉ orders.dedup.erase r := hnodup.not_mem_erase
    have hupdated : marketSize (Function.update heap r o) orders.dedup =
        marketSize heap (orders.dedup.erase r) := by
      rw [marketSize_of_mem hdedup, marketSize_cons_market (by rw [hself]; exact ho), hself,
        hzero, zero_add, hsame _ hnot]
    rw [List.dedup_cons_of_mem hmem, hupdated, marketSize_of_mem hdedup,
      marketSize_cons_market hr]
  · have hnot : r ∉ orders.dedup := fun h => hmem (List.mem_dedup.mp h)
    rw [List.dedup_cons_of_notMem hmem, marketSize_cons_market hr, hsame _ hnot]

/-- An order of the queue is no larger than the queue. -/
theorem le_distinctSize (hr : r ∈ orders) (hmarket : (heap r).owner = .market)
    (h : ∀ r ∈ orders, (heap r).owner = .market → 0 ≤ (heap r).remainingQuantity) :
    (heap r).remainingQuantity ≤ distinctSize heap orders := by
  unfold distinctSize
  rw [marketSize_of_mem (List.mem_dedup.mpr hr), marketSize_cons_market hmarket]
  have hrest : 0 ≤ marketSize heap (orders.dedup.erase r) :=
    marketSize_nonneg fun q hq => h q (List.mem_dedup.mp (List.mem_of_mem_erase hq))
  linarith

end Sizes

/-! ## One level -/

namespace OrderBook

/-- What the loop over one level takes. -/
structure LevelTake (price remaining size : ℚ) (run : LevelRun) : Prop where
  fits : Fits remaining (run.fills.map Fill.hit)
  left : run.remaining = remaining - hitSize (run.fills.map Fill.hit)
  price : ∀ f ∈ run.fills, f.fillPrice = price
  /-- no more than the level has -/
  le : hitSize (run.fills.map Fill.hit) ≤ size
  /-- all the level has, when more was wanted -/
  all : eps < run.remaining → hitSize (run.fills.map Fill.hit) = size

theorem walkLevel_of_le {k : Sweeper} {price remaining : ℚ} {orders : List Ref} {heap : Heap}
    (h : remaining ≤ eps) : walkLevel k price orders heap remaining = ⟨heap, remaining, []⟩ := by
  cases orders with
  | nil => rfl
  | cons r rest => simp only [walkLevel, if_pos h]

theorem LevelTake.nothing {price remaining size : ℚ} {heap : Heap} (hsize : 0 ≤ size)
    (h : remaining ≤ eps) : LevelTake price remaining size ⟨heap, remaining, []⟩ where
  fits := trivial
  left := by simp
  price := fun f hf => by cases hf
  le := by simpa using hsize
  all := fun hlt => absurd hlt (not_lt.mpr h)

/-- One order is used up before the rest of the level. -/
theorem LevelTake.cons {price remaining size size' quantity : ℚ} {run : LevelRun} {fill : Fill}
    (h : LevelTake price (remaining - quantity) size' run) (hpos : eps < quantity)
    (hle : quantity ≤ remaining) (hsize : size = quantity + size')
    (hprice : fill.fillPrice = price) (hquantity : fill.fillQuantity = quantity) :
    LevelTake price remaining size { run with fills := fill :: run.fills } where
  fits := by
    refine ⟨?_, ?_, ?_⟩
    · rw [Fill.hit, hquantity]
      exact hpos
    · rw [Fill.hit, hquantity]
      exact hle
    · rw [Fill.hit, hquantity]
      exact h.fits
  left := by
    rw [List.map_cons, hitSize_cons, Fill.hit, hquantity, ← sub_sub]
    exact h.left
  price := fun f hf => by
    rcases List.mem_cons.mp hf with rfl | hlater
    · exact hprice
    · exact h.price f hlater
  le := by
    rw [List.map_cons, hitSize_cons, Fill.hit, hquantity, hsize]
    linarith [h.le]
  all := fun hlt => by
    rw [List.map_cons, hitSize_cons, Fill.hit, hquantity, hsize]
    exact congrArg _ (h.all hlt)

/-- The loop over one level takes feed orders, each until it is used up. -/
theorem walkLevel_take (timestamp price : ℚ) {orders : List Ref} {heap : Heap} (remaining : ℚ)
    (hlive : ∀ r ∈ orders, (heap r).owner = .market →
      (heap r).remainingQuantity = 0 ∨ eps < (heap r).remainingQuantity) :
    LevelTake price remaining (distinctSize heap orders)
      (walkLevel (aggressorSweep true timestamp) price orders heap remaining) := by
  induction orders generalizing heap remaining with
  | nil =>
    by_cases hremaining : remaining ≤ eps
    · exact LevelTake.nothing le_rfl hremaining
    · refine ⟨trivial, ?_, (fun f hf => by cases hf), le_rfl, fun _ => rfl⟩
      simp [walkLevel]
  | cons r rest ih =>
    have hnonneg : ∀ q ∈ r :: rest, (heap q).owner = .market →
        0 ≤ (heap q).remainingQuantity := by
      intro q hq hmarket
      rcases hlive q hq hmarket with hzero | hpos
      · exact hzero.ge
      · exact (eps_pos.trans hpos).le
    have hrest : ∀ q ∈ rest, (heap q).owner = .market →
        (heap q).remainingQuantity = 0 ∨ eps < (heap q).remainingQuantity :=
      fun q hq => hlive q (List.mem_cons_of_mem r hq)
    have hmem : r ∈ r :: rest := List.mem_cons_self ..
    by_cases hremaining : remaining ≤ eps
    · rw [walkLevel_of_le hremaining]
      exact LevelTake.nothing (distinctSize_nonneg hnonneg) hremaining
    · simp only [walkLevel, if_neg hremaining]
      cases howner : (heap r).owner with
      | paper =>
        have hskips : (aggressorSweep true timestamp).skips (heap r) = true := by
          simp [aggressorSweep, howner]
        rw [if_pos hskips, distinctSize_cons_paper howner]
        exact ih remaining hrest
      | market =>
        have hskips : ¬(aggressorSweep true timestamp).skips (heap r) = true := by
          simp [aggressorSweep, howner]
        rw [if_neg hskips]
        rcases hlive r hmem howner with hzero | hpos
        · -- used up before
          have hsame : distinctSize heap (r :: rest) = _ + distinctSize _ rest :=
            distinctSize_cons_update howner howner hzero
          rw [Function.update_eq_self, hzero, zero_add] at hsame
          rw [if_pos ((min_le_right _ _).trans (hzero.le.trans eps_pos.le)), hsame]
          exact ih remaining hrest
        · have hsize : ¬min remaining (heap r).remainingQuantity ≤ eps :=
            not_le.mpr (lt_min (not_le.mp hremaining) hpos)
          rw [if_neg hsize, if_pos (by rfl)]
          by_cases hle : remaining ≤ (heap r).remainingQuantity
          · -- the aggressor is used up
            rw [min_eq_left hle, sub_self, walkLevel_of_le eps_pos.le]
            have hdepth := le_distinctSize hmem howner hnonneg
            refine ⟨⟨not_le.mp hremaining, le_rfl, trivial⟩, ?_, ?_, ?_, ?_⟩
            · simp [Fill.hit, restingFill]
            · intro f hf
              rw [List.mem_singleton.mp hf]
              rfl
            · simpa [Fill.hit, restingFill] using hle.trans hdepth
            · exact fun hlt => absurd hlt (not_lt.mpr eps_pos.le)
          · -- the order is used up
            rw [not_le] at hle
            rw [min_eq_right hle.le]
            have hzero : ((heap r).recordFill price (heap r).remainingQuantity
                timestamp).remainingQuantity = 0 := by
              rw [recordFill_remaining, sub_self]
            set heap' := Function.update heap r ((heap r).recordFill price
              (heap r).remainingQuantity timestamp) with hheap'
            have hlater : ∀ q ∈ rest, (heap' q).owner = .market →
                (heap' q).remainingQuantity = 0 ∨ eps < (heap' q).remainingQuantity := by
              intro q hq hmarket
              rw [hheap'] at hmarket ⊢
              by_cases heq : q = r
              · rw [heq, Function.update_self]
                exact Or.inl hzero
              · rw [Function.update_of_ne heq] at hmarket ⊢
                exact hrest q hq hmarket
            have hrun := ih (remaining - (heap r).remainingQuantity) hlater
            have hsize : distinctSize heap (r :: rest) = _ + distinctSize heap' rest :=
              distinctSize_cons_update howner
                (o := (heap r).recordFill price (heap r).remainingQuantity timestamp)
                howner hzero
            exact hrun.cons hpos hle.le hsize rfl rfl

/-! ## All levels -/

section Walks

variable {b : OrderBook}

theorem walk_of_le {k : Sweeper} {passive : TradeSide} {beyond : ℤ → Bool} {ticks : List ℤ}
    {remaining : ℚ} (h : remaining ≤ eps) :
    walk k passive beyond ticks b remaining = ⟨b, remaining, []⟩ := by
  cases ticks with
  | nil => rfl
  | cons t rest => simp [walk, h]

/-- The loop over a level of a book that is as it should be. -/
theorem Ok.walkLevel_take (hok : b.Ok) {s : TradeSide} {t : ℤ} {level : LevelQueue}
    (hlevel : b.level? s t = some level) (timestamp remaining : ℚ) :
    LevelTake level.price remaining (distinctSize b.heap level.orders)
      (walkLevel (aggressorSweep true timestamp) level.price level.orders b.heap remaining) := by
  refine OrderBook.walkLevel_take timestamp level.price remaining fun r hr _ => ?_
  rw [← queue_of_level hlevel] at hr
  exact Or.inr (hok.eps_lt_remaining hr)

/-- What the loop over levels takes fits, at prices of levels that are not out of reach. -/
theorem walk_take (hok : b.Ok) (timestamp : ℚ) (passive : TradeSide) (beyond : ℤ → Bool)
    (ticks : List ℤ) (remaining : ℚ) :
    Fits remaining ((walk (aggressorSweep true timestamp) passive beyond ticks b
        remaining).fills.map Fill.hit) ∧
      ∀ f ∈ (walk (aggressorSweep true timestamp) passive beyond ticks b remaining).fills,
        ∃ t, f.fillPrice = b.grid.fromTicks t ∧ beyond t = false := by
  induction ticks generalizing b remaining with
  | nil => exact ⟨trivial, fun f hf => by cases hf⟩
  | cons t rest ih =>
    simp only [walk]
    split
    · exact ⟨trivial, fun f hf => by cases hf⟩
    · rename_i hreach
      have hwithin : beyond t = false := by
        cases hbeyond : beyond t with
        | false => rfl
        | true => exact absurd (by rw [hbeyond, Bool.or_true]) hreach
      cases hl : b.level? passive t with
      | none => exact ⟨trivial, fun f hf => by cases hf⟩
      | some level =>
        have hshape := hok.shape.level passive t level hl
        have hw := walkLevel_within (aggressorSweep_sound true timestamp) level.price
          remaining hshape.belongs
        have htake := hok.walkLevel_take hl timestamp remaining
        have hnext := ih (prune_ok ((hok.except passive t).within hw))
          (walkLevel (aggressorSweep true timestamp) level.price level.orders b.heap
            remaining).remaining
        rw [grid_prune] at hnext
        refine ⟨?_, ?_⟩
        · rw [List.map_append]
          refine htake.fits.append ?_
          rw [← htake.left]
          exact hnext.1
        · intro f hf
          rcases List.mem_append.mp hf with hhere | hlater
          · exact ⟨t, by rw [htake.price f hhere, hshape.price], hwithin⟩
          · exact hnext.2 f hlater

/-- What `consume_liquidity` takes fits the quantity, at prices of levels within the limit. -/
theorem consumeLiquidity_take (hok : b.Ok) (aggressor : TradeSide) (quantity timestamp : ℚ)
    (limitPrice : Option ℚ) :
    Fits quantity ((b.consumeLiquidity aggressor quantity timestamp limitPrice true).2.map
        Fill.hit) ∧
      ∀ f ∈ (b.consumeLiquidity aggressor quantity timestamp limitPrice true).2,
        ∃ t, f.fillPrice = b.grid.fromTicks t ∧ b.beyondLimit aggressor limitPrice t = false := by
  have htake := walk_take hok timestamp aggressor.opposite (b.beyondLimit aggressor limitPrice)
    (b.bestFirst aggressor) quantity
  simp only [consumeLiquidity]
  split
  · exact ⟨trivial, fun f hf => by cases hf⟩
  · exact htake

end Walks

end OrderBook

end QuantumSentinel.Exchange
