import QuantumSentinel.Exchange.BookInvariant

/-!
# Paper exchange: what the book operations change

The effect of each operation on the queues, on the order objects and on the id index, as
equations.  The proofs about identities and about paper orders use these and never unfold
an operation of the book.

Main results:

- Theorem `OrderBook.queue_prune`: a prune takes the dead orders out of one queue.
- Theorem `OrderBook.queue_addOrder`: a resting order joins the back of one queue.
- Theorem `OrderBook.forgetDead_get?`: the index entries a prune takes out.
-/

namespace QuantumSentinel.Exchange

open Lib

namespace OrderBook

variable {b : OrderBook} {s s' : TradeSide} {t t' : ℤ}

/-- The orders at a tick of a side, first in first out. -/
def queue (b : OrderBook) (s : TradeSide) (t : ℤ) : List Ref :=
  match b.level? s t with
  | some level => level.orders
  | none => []

/-- An order rests in the book. -/
def Rests (b : OrderBook) (r : Ref) : Prop :=
  ∃ s t, r ∈ b.queue s t

theorem queue_of_level {level : LevelQueue} (h : b.level? s t = some level) :
    b.queue s t = level.orders := by
  simp [queue, h]

theorem queue_of_none (h : b.level? s t = none) : b.queue s t = [] := by
  simp [queue, h]

theorem Shape.queue_of_notMem (hshape : b.Shape) (h : t ∉ (b.side s).ticks) :
    b.queue s t = [] := by
  refine queue_of_none (Option.eq_none_iff_forall_ne_some.mpr fun level hlevel => ?_)
  exact h ((hshape.keys s t).mpr ⟨level, hlevel⟩)

/-- Whoever is in a queue is in its level. -/
theorem level_of_mem_queue {r : Ref} (h : r ∈ b.queue s t) :
    ∃ level, b.level? s t = some level ∧ r ∈ level.orders := by
  unfold queue at h
  split at h
  · rename_i level hlevel
    exact ⟨level, hlevel, h⟩
  · simp at h

theorem queue_congr {b' : OrderBook} (h : b'.level? s t = b.level? s t) :
    b'.queue s t = b.queue s t := by
  rw [queue, queue, h]

@[simp]
theorem queue_withHeap (heap : Heap) : (b.withHeap heap).queue s t = b.queue s t :=
  queue_congr (level?_withHeap heap)

@[simp]
theorem queue_modify (r : Ref) (f : Order → Order) : (b.modify r f).queue s t = b.queue s t :=
  queue_congr (level?_modify r f)

@[simp]
theorem heap_modify_self (r : Ref) (f : Order → Order) : (b.modify r f).heap r = f (b.heap r) :=
  Function.update_self ..

theorem heap_modify_ne {r q : Ref} (f : Order → Order) (h : q ≠ r) :
    (b.modify r f).heap q = b.heap q :=
  Function.update_of_ne h ..

@[simp]
theorem rests_modify (r q : Ref) (f : Order → Order) : (b.modify r f).Rests q ↔ b.Rests q := by
  simp only [Rests, queue_modify]

@[simp]
theorem queue_alloc (o : Order) : (b.alloc o).queue s t = b.queue s t := by
  cases s <;> rfl

@[simp]
theorem orders_alloc (o : Order) : (b.alloc o).orders = b.orders :=
  rfl

theorem queue_setLevel (level : LevelQueue) :
    (b.setLevel s t level).queue s' t' =
      if (s', t') = (s, t) then level.orders else b.queue s' t' := by
  split
  · rename_i heq
    cases heq
    exact queue_of_level (level?_setLevel_self level)
  · rename_i hne
    exact queue_congr (level?_setLevel_ne level hne)

theorem queue_ensureLevel : (b.ensureLevel s t).queue s' t' = b.queue s' t' := by
  unfold ensureLevel
  cases hl : b.level? s t with
  | some level => rfl
  | none =>
    by_cases hs : s' = s
    · subst hs
      by_cases ht : t' = t
      · subst ht
        rw [queue_of_none hl]
        simp [queue, level?]
      · apply queue_congr
        simp [level?, Dict.get?_set_ne _ _ ht]
    · apply queue_congr
      simp [level?, side_setSide_ne _ hs]

/-! ## What the invariant says about queues -/

theorem Ok.belongs (h : b.Ok) {r : Ref} (hr : r ∈ b.queue s t) :
    (b.heap r).Belongs b.grid s t := by
  rcases level_of_mem_queue hr with ⟨level, hlevel, hmem⟩
  exact (h.shape.level s t level hlevel).belongs r hmem

theorem Ok.isLive (h : b.Ok) {r : Ref} (hr : r ∈ b.queue s t) : (b.heap r).isLive = true := by
  rcases level_of_mem_queue hr with ⟨level, hlevel, hmem⟩
  exact (h.live s t level hlevel).live r hmem

/-- More than the tolerance is open of an order in a queue. -/
theorem Ok.eps_lt_remaining (h : b.Ok) {r : Ref} (hr : r ∈ b.queue s t) :
    eps < (b.heap r).remainingQuantity :=
  (Order.isLive_iff.mp (h.isLive hr)).1

theorem Ok.remaining_pos (h : b.Ok) {r : Ref} (hr : r ∈ b.queue s t) :
    0 < (b.heap r).remainingQuantity :=
  eps_pos.trans (h.eps_lt_remaining hr)

theorem Ok.lt_nextRef (h : b.Ok) {r : Ref} (hr : r ∈ b.queue s t) : r < b.nextRef := by
  rcases level_of_mem_queue hr with ⟨level, hlevel, hmem⟩
  exact (h.shape.level s t level hlevel).known r hmem

theorem Ok.paper_nodup (h : b.Ok) (s : TradeSide) (t : ℤ) :
    ((b.queue s t).filter (isPaper b.heap)).Nodup := by
  cases hl : b.level? s t with
  | none => simp [queue_of_none hl]
  | some level =>
    rw [queue_of_level hl]
    exact (h.shape.level s t level hl).paper_nodup

/-- An order rests in one level at most. -/
theorem Ok.queue_unique (h : b.Ok) {r : Ref} (hr : r ∈ b.queue s t) (hr' : r ∈ b.queue s' t') :
    s' = s ∧ t' = t :=
  (h.belongs hr).unique (h.belongs hr')

/-! ## Pruning -/

theorem queue_prune : (b.prune s t).queue s' t' =
    if (s', t') = (s, t) then (b.queue s t).filter fun r => (b.heap r).isLive
    else b.queue s' t' := by
  unfold prune
  cases hl : b.level? s t with
  | none =>
    simp only
    split
    · rename_i heq
      cases heq
      simp [queue_of_none hl]
    · rfl
  | some level =>
    simp only
    split
    · rename_i hempty
      split
      · rename_i heq
        cases heq
        rw [queue_of_level hl, hempty]
        apply queue_of_none
        simp [level?]
      · rename_i hne
        apply queue_congr
        by_cases hs : s' = s
        · subst hs
          have ht : t' ≠ t := fun ht => hne (by rw [ht])
          simp [level?, Dict.get?_erase_ne _ ht]
        · rw [level?, side_setSide_ne _ hs]
          cases s' <;> rfl
    · rw [queue_setLevel, queue_of_level hl]
      split
      · rfl
      · cases s' <;> rfl

/-- A prune leaves the other levels. -/
theorem level?_prune_ne (h : (s', t') ≠ (s, t)) :
    (b.prune s t).level? s' t' = b.level? s' t' := by
  unfold prune
  cases hl : b.level? s t with
  | none => rfl
  | some found =>
    simp only
    split
    · by_cases hs : s' = s
      · subst hs
        have ht : t' ≠ t := fun ht => h (by rw [ht])
        rw [level?, side_setSide_self, Dict.get?_erase_ne _ ht]
        rfl
      · rw [level?, side_setSide_ne _ hs]
        cases s' <;> rfl
    · rw [level?_setLevel_ne _ h]
      cases s' <;> rfl

/-- A prune changes the queue positions of orders only. -/
theorem heap_prune_sansQueue (r : Ref) :
    ((b.prune s t).heap r).sansQueue = (b.heap r).sansQueue := by
  unfold prune
  cases b.level? s t with
  | none => rfl
  | some level =>
    simp only
    split
    · rw [heap_setSide]
      exact refreshFrom_sansQueue ..
    · rw [heap_setLevel]
      exact refreshFrom_sansQueue ..

@[simp]
theorem grid_prune : (b.prune s t).grid = b.grid := by
  unfold prune
  split
  · rfl
  · simp only
    split <;> simp

@[simp]
theorem nextRef_prune : (b.prune s t).nextRef = b.nextRef := by
  unfold prune
  split
  · rfl
  · simp only
    split <;> simp

theorem orders_prune : (b.prune s t).orders = b.forgetDead (b.queue s t) := by
  unfold prune
  cases hl : b.level? s t with
  | none =>
    rw [queue_of_none hl]
    rfl
  | some level =>
    rw [queue_of_level hl]
    simp only
    split
    · simp
    · simp

theorem foldl_erase_get? (name : Ref → String) (refs : List Ref) (index : Dict String Ref)
    (k : String) :
    (refs.foldl (fun index r => index.erase (name r)) index).get? k =
      if k ∈ refs.map name then none else index.get? k := by
  induction refs generalizing index with
  | nil => simp
  | cons r rest ih =>
    rw [List.foldl_cons, ih, Dict.get?_erase]
    by_cases hk : k = name r
    · simp [hk]
    · simp [hk]

/-- A prune takes the entries of the dead feed orders out of the index. -/
theorem forgetDead_get? (orders : List Ref) (k : String) :
    (b.forgetDead orders).get? k =
      if ∃ r ∈ orders, (b.heap r).isLive = false ∧ (b.heap r).owner = .market ∧
          (b.heap r).orderId = k then none
      else b.orders.get? k := by
  unfold forgetDead
  rw [foldl_erase_get? fun r => (b.heap r).orderId]
  refine if_congr ?_ rfl rfl
  simp [isMarket, and_assoc]

/-! ## Resting an order -/

theorem level?_ensureLevel :
    ∃ level, (b.ensureLevel s t).level? s t = some level ∧ level.orders = b.queue s t := by
  have hqueue : (b.ensureLevel s t).queue s t = b.queue s t := queue_ensureLevel
  have hsome : ∃ level, (b.ensureLevel s t).level? s t = some level := by
    unfold ensureLevel
    cases hl : b.level? s t with
    | some level => exact ⟨level, hl⟩
    | none => exact ⟨⟨b.grid.fromTicks t, t, []⟩, by simp [level?]⟩
  rcases hsome with ⟨level, hlevel⟩
  exact ⟨level, hlevel, (queue_of_level hlevel).symm.trans hqueue⟩

@[simp]
theorem orders_ensureLevel : (b.ensureLevel s t).orders = b.orders := by
  unfold ensureLevel
  split <;> simp

/-- `add_order` of an order with a limit, with its level found or created. -/
theorem addOrder_eq {r : Ref} {limit : ℚ} (now : ℚ)
    (hlimit : (b.heap r).limitPrice = some limit) :
    ∃ level : LevelQueue, level.orders = b.queue (b.heap r).side (b.grid.toTicks limit) ∧
      b.addOrder r now =
        { (((b.ensureLevel (b.heap r).side (b.grid.toTicks limit)).modify r fun o =>
              entered o (b.restingLimit o limit) (totalSize b.heap level.orders) now).setLevel
            (b.heap r).side (b.grid.toTicks limit)
              { level with orders := level.orders ++ [r] }) with
          orders := b.orders.set (b.heap r).orderId r } := by
  rcases level?_ensureLevel (b := b) (s := (b.heap r).side) (t := b.grid.toTicks limit) with
    ⟨level, hlevel, hqueue⟩
  refine ⟨level, hqueue, ?_⟩
  unfold addOrder
  simp [hlimit, hlevel, modify]

/-- The order is at the back of its queue, behind the whole size of the queue. -/
theorem heap_addOrder {r : Ref} {limit : ℚ} (now : ℚ)
    (hlimit : (b.heap r).limitPrice = some limit) :
    (b.addOrder r now).heap = Function.update b.heap r
      (entered (b.heap r) (b.restingLimit (b.heap r) limit)
        (totalSize b.heap (b.queue (b.heap r).side (b.grid.toTicks limit))) now) := by
  rcases addOrder_eq now hlimit with ⟨level, hqueue, heq⟩
  rw [heq, ← hqueue]
  simp [modify]

theorem queue_addOrder {r : Ref} {limit : ℚ} (now : ℚ)
    (hlimit : (b.heap r).limitPrice = some limit) :
    (b.addOrder r now).queue s t =
      if (s, t) = ((b.heap r).side, b.grid.toTicks limit) then
        b.queue (b.heap r).side (b.grid.toTicks limit) ++ [r]
      else b.queue s t := by
  rcases addOrder_eq now hlimit with ⟨level, hqueue, heq⟩
  have hlevel : (b.addOrder r now).queue s t =
      (((b.ensureLevel (b.heap r).side (b.grid.toTicks limit)).modify r fun o =>
        entered o (b.restingLimit o limit) (totalSize b.heap level.orders) now).setLevel
          (b.heap r).side (b.grid.toTicks limit)
            { level with orders := level.orders ++ [r] }).queue s t := by
    rw [heq]
    cases s <;> rfl
  rw [hlevel, queue_setLevel, queue_modify, queue_ensureLevel, hqueue]

@[simp]
theorem orders_addOrder {r : Ref} {limit : ℚ} (now : ℚ)
    (hlimit : (b.heap r).limitPrice = some limit) :
    (b.addOrder r now).orders = b.orders.set (b.heap r).orderId r := by
  rcases addOrder_eq now hlimit with ⟨level, hqueue, heq⟩
  rw [heq]

@[simp]
theorem grid_addOrder (r : Ref) (now : ℚ) : (b.addOrder r now).grid = b.grid := by
  cases hlimit : (b.heap r).limitPrice with
  | none => simp [addOrder, hlimit]
  | some limit =>
    rcases addOrder_eq now hlimit with ⟨level, hqueue, heq⟩
    rw [heq]
    simp [modify]

@[simp]
theorem nextRef_addOrder (r : Ref) (now : ℚ) : (b.addOrder r now).nextRef = b.nextRef := by
  cases hlimit : (b.heap r).limitPrice with
  | none => simp [addOrder, hlimit]
  | some limit =>
    rcases addOrder_eq now hlimit with ⟨level, hqueue, heq⟩
    rw [heq]
    simp [modify]

/-! ## The grid -/

@[simp]
theorem grid_cancelOrder (id : String) : (b.cancelOrder id).1.grid = b.grid := by
  unfold cancelOrder
  split
  · rfl
  · dsimp only
    split
    · rfl
    · rw [grid_prune]
      exact grid_setLevel _

@[simp]
theorem nextRef_cancelOrder (id : String) : (b.cancelOrder id).1.nextRef = b.nextRef := by
  unfold cancelOrder
  split
  · rfl
  · dsimp only
    split
    · rfl
    · rw [nextRef_prune]
      exact nextRef_setLevel _

/-- A sweep over levels keeps the grid and makes no orders. -/
theorem walk_fixed (k : Sweeper) (passive : TradeSide) (beyond : ℤ → Bool) (ticks : List ℤ)
    (remaining : ℚ) :
    (walk k passive beyond ticks b remaining).book.grid = b.grid ∧
      (walk k passive beyond ticks b remaining).book.nextRef = b.nextRef := by
  induction ticks generalizing b remaining with
  | nil => exact ⟨rfl, rfl⟩
  | cons t rest ih =>
    simp only [walk]
    split
    · exact ⟨rfl, rfl⟩
    · split
      · exact ⟨rfl, rfl⟩
      · rename_i level _
        have hrest := ih (b := (b.withHeap
          (walkLevel k level.price level.orders b.heap remaining).heap).prune passive t)
          (walkLevel k level.price level.orders b.heap remaining).remaining
        rw [grid_prune, nextRef_prune] at hrest
        exact hrest

theorem consumeLiquidity_fixed (aggressor : TradeSide) (quantity timestamp : ℚ)
    (limitPrice : Option ℚ) (skipPaper : Bool) :
    (b.consumeLiquidity aggressor quantity timestamp limitPrice skipPaper).1.grid = b.grid ∧
      (b.consumeLiquidity aggressor quantity timestamp limitPrice skipPaper).1.nextRef =
        b.nextRef := by
  have hwalk := walk_fixed (b := b) (aggressorSweep skipPaper timestamp) aggressor.opposite
    (b.beyondLimit aggressor limitPrice) (b.bestFirst aggressor) quantity
  unfold consumeLiquidity
  dsimp only
  split
  · exact hwalk
  · exact hwalk

theorem applyTrade_fixed (event : BookEvent) :
    (b.applyTrade event).1.grid = b.grid ∧ (b.applyTrade event).1.nextRef = b.nextRef :=
  walk_fixed (b := { b with
    lastTradePrice := some (b.grid.fromTicks (b.grid.toTicks event.price))
    lastTradeSize := some event.size }) (printSweep event.timestamp) event.side.opposite
      (fun _ => false) (b.tradePath event) event.size

theorem grid_changeKnown (event : BookEvent) (t : ℤ) (level : LevelQueue) (r : Ref) :
    (b.changeKnown event t level r).grid = b.grid := by
  unfold changeKnown
  split
  · rfl
  · split
    · rfl
    · exact grid_setLevel _

theorem grid_reduceMarket (level : LevelQueue) (amount : ℚ) :
    (b.reduceMarket level amount).grid = b.grid := by
  have hfold : ∀ (share : ℚ) (refs : List Ref) (c : OrderBook),
      (refs.foldl (fun b r => b.modify r (shrink share)) c).grid = c.grid := by
    intro share refs
    induction refs with
    | nil => exact fun _ => rfl
    | cons r rest ih => exact fun c => ih (c.modify r (shrink share))
  unfold reduceMarket
  dsimp only
  split
  · rfl
  · exact hfold _ _ _

theorem grid_applyAdd (event : BookEvent) (uuid : HexId) :
    (b.applyAdd event uuid).grid = b.grid := by
  unfold applyAdd
  split
  · exact grid_addOrder _ _
  · rfl

theorem grid_changeAggregated (event : BookEvent) (uuid : HexId) (level : LevelQueue) :
    (b.changeAggregated event uuid level).grid = b.grid := by
  unfold changeAggregated
  dsimp only
  split
  · exact grid_reduceMarket _ _
  · split
    · exact grid_addOrder _ _
    · rfl

/-- A feed event keeps the grid. -/
theorem grid_applyMarketEvent (event : BookEvent) (uuid : HexId) :
    (b.applyMarketEvent event uuid).1.grid = b.grid := by
  have hchange : ∀ c : OrderBook, (c.applyChange event uuid).grid = c.grid := by
    intro c
    unfold applyChange
    dsimp only
    split
    · split
      · exact grid_applyAdd _ _
      · rfl
    · split
      · rw [grid_prune]
        exact grid_changeKnown _ _ _ _
      · rw [grid_prune]
        exact grid_changeAggregated _ _ _
  unfold applyMarketEvent
  dsimp only
  split
  · exact grid_applyAdd _ _
  · exact hchange _
  · exact hchange _
  · exact (applyTrade_fixed event).1

end OrderBook

end QuantumSentinel.Exchange
