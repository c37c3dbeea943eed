import QuantumSentinel.Exchange.BookEffects
import QuantumSentinel.Exchange.Feed

/-!
# Paper exchange: order ids in the book

The id index maps the id of every resting order to the order, as long as no order comes to
rest under an id that a resting order carries.  A feed that `validate_events` accepts
can bring one: a MODIFY that names a resting order at another price is applied as an ADD.

Main results:

- Theorem `order_identity`: without such insertions ids are unique, the index is right
  and a MODIFY or CANCEL changes the order it names only.
- Theorem `order_identity_broken`: an accepted feed after which two orders share an id.
-/

namespace QuantumSentinel.Exchange

open Lib

namespace OrderBook

variable {b : OrderBook} {s s' : TradeSide} {t t' : ℤ}

/-! ## Resting orders -/

/-- All resting orders, level by level. -/
def resting (b : OrderBook) : List Ref :=
  (b.bids.levels.values ++ b.asks.levels.values).flatMap LevelQueue.orders

theorem mem_values_side {level : LevelQueue} :
    level ∈ (b.side s).levels.values ↔ ∃ t, b.level? s t = some level := by
  simp only [Dict.values, level?, Dict.get?_eq_some_iff, List.mem_map, Prod.exists]
  constructor
  · rintro ⟨t, found, hmem, rfl⟩
    exact ⟨t, hmem⟩
  · rintro ⟨t, hmem⟩
    exact ⟨t, level, hmem, rfl⟩

/-- The list of resting orders is what the queues hold. -/
theorem mem_resting {r : Ref} : r ∈ b.resting ↔ b.Rests r := by
  have hside : ∀ s, (∃ level ∈ (b.side s).levels.values, r ∈ level.orders) ↔
      ∃ t, r ∈ b.queue s t := by
    intro s
    constructor
    · rintro ⟨level, hlevel, hr⟩
      rcases mem_values_side.mp hlevel with ⟨t, ht⟩
      exact ⟨t, by rw [queue_of_level ht]; exact hr⟩
    · rintro ⟨t, hr⟩
      rcases level_of_mem_queue hr with ⟨level, hlevel, hmem⟩
      exact ⟨level, mem_values_side.mpr ⟨t, hlevel⟩, hmem⟩
  have hbids := hside .buy
  have hasks := hside .sell
  simp only [side] at hbids hasks
  unfold resting Rests
  rw [List.mem_flatMap]
  simp only [List.mem_append, or_and_right, exists_or, hbids, hasks]
  constructor
  · rintro (h | h)
    · exact ⟨.buy, h⟩
    · exact ⟨.sell, h⟩
  · rintro ⟨s, h⟩
    cases s with
    | buy => exact Or.inl h
    | sell => exact Or.inr h

/-- Whether a resting order carries an id. -/
def carries (b : OrderBook) (id : String) : Bool :=
  b.resting.any fun r => (b.heap r).orderId = id

theorem carries_iff {id : String} :
    b.carries id = true ↔ ∃ r, b.Rests r ∧ (b.heap r).orderId = id := by
  simp [carries, mem_resting]

/-! ## The index -/

/-- Resting orders are found under their ids, and rest once. -/
structure Indexed (b : OrderBook) : Prop where
  nodup : ∀ s t, (b.queue s t).Nodup
  index : ∀ s t, ∀ r ∈ b.queue s t, b.orders.get? (b.heap r).orderId = some r

/-- No two resting orders share an id. -/
theorem Indexed.unique (h : b.Indexed) {r r' : Ref} (hr : b.Rests r) (hr' : b.Rests r')
    (hid : (b.heap r').orderId = (b.heap r).orderId) : r' = r := by
  rcases hr with ⟨s, t, hmem⟩
  rcases hr' with ⟨s', t', hmem'⟩
  have hindex := h.index s t r hmem
  have hindex' := h.index s' t' r' hmem'
  rw [hid, hindex] at hindex'
  exact (Option.some.inj hindex').symm

theorem Shape.belongs (h : b.Shape) {r : Ref} (hr : r ∈ b.queue s t) :
    (b.heap r).Belongs b.grid s t := by
  rcases level_of_mem_queue hr with ⟨level, hlevel, hmem⟩
  exact (h.level s t level hlevel).belongs r hmem

/-- Changes that keep the ids keep the index. -/
theorem Indexed.withHeap (h : b.Indexed) {heap : Heap}
    (hids : ∀ r, (heap r).orderId = (b.heap r).orderId) : (b.withHeap heap).Indexed where
  nodup := fun s t => by rw [queue_withHeap]; exact h.nodup s t
  index := fun s t r hr => by
    rw [queue_withHeap] at hr
    show b.orders.get? (heap r).orderId = some r
    rw [hids]
    exact h.index s t r hr

/-- A queue may lose and reorder orders. -/
theorem Indexed.setLevel {level : LevelQueue} (h : b.Indexed) (hnodup : level.orders.Nodup)
    (hsub : level.orders ⊆ b.queue s t) : (b.setLevel s t level).Indexed where
  nodup := fun s' t' => by
    rw [queue_setLevel]
    split
    · exact hnodup
    · exact h.nodup s' t'
  index := fun s' t' r hr => by
    rw [queue_setLevel] at hr
    rw [orders_setLevel, heap_setLevel]
    split at hr
    · exact h.index s t r (hsub hr)
    · exact h.index s' t' r hr

/-- A prune forgets ids of orders that it takes out only. -/
theorem Indexed.prune (h : b.Indexed) (hshape : b.Shape) : (b.prune s t).Indexed where
  nodup := fun s' t' => by
    rw [queue_prune]
    split
    · exact (h.nodup s t).filter _
    · exact h.nodup s' t'
  index := fun s' t' r hr => by
    have hr' : r ∈ b.queue s' t' ∧ ((s', t') = (s, t) → (b.heap r).isLive = true) := by
      rw [queue_prune] at hr
      split at hr
      · rename_i heq
        cases heq
        exact ⟨List.mem_of_mem_filter hr, fun _ => by simpa using List.of_mem_filter hr⟩
      · rename_i hne
        exact ⟨hr, fun heq => absurd heq hne⟩
    have hid : ((b.prune s t).heap r).orderId = (b.heap r).orderId :=
      (fields_of_sansQueue (heap_prune_sansQueue r)).2.2.2.2.2.1
    have hindex := h.index s' t' r hr'.1
    rw [hid, orders_prune, forgetDead_get?, if_neg, hindex]
    rintro ⟨q, hq, hdead, -, hsame⟩
    have hqr : q = r := by
      have hq' := h.index s t q hq
      rw [hsame, hindex] at hq'
      exact (Option.some.inj hq').symm
    subst hqr
    rcases (hshape.belongs hq).unique (hshape.belongs hr'.1) with ⟨hs, ht⟩
    rw [hr'.2 (by rw [hs, ht])] at hdead
    cases hdead

/-- An order that comes to rest under an id of its own. -/
theorem Indexed.addOrder (h : b.Indexed) {r : Ref} (hnew : ¬b.Rests r)
    (hid : ∀ q, b.Rests q → (b.heap q).orderId ≠ (b.heap r).orderId) (now : ℚ) :
    (b.addOrder r now).Indexed := by
  cases hlimit : (b.heap r).limitPrice with
  | none => simpa [OrderBook.addOrder, hlimit] using h
  | some limit =>
    have hrests : ∀ s' t', ∀ q ∈ b.queue s' t', q ≠ r := fun s' t' q hq heq =>
      hnew ⟨s', t', heq ▸ hq⟩
    have hids : ∀ q, ((b.addOrder r now).heap q).orderId = (b.heap q).orderId := by
      intro q
      rw [heap_addOrder now hlimit]
      by_cases hq : q = r
      · subst hq
        rw [Function.update_self]
        rfl
      · rw [Function.update_of_ne hq]
    constructor
    · intro s' t'
      rw [queue_addOrder now hlimit]
      split
      · refine (h.nodup _ _).append (List.nodup_singleton r) ?_
        intro q hq hq'
        exact hrests _ _ q hq (List.mem_singleton.mp hq')
      · exact h.nodup s' t'
    · intro s' t' q hq
      have hcases : q = r ∨ ∃ s'' t'', q ∈ b.queue s'' t'' := by
        rw [queue_addOrder now hlimit] at hq
        split at hq
        · rcases List.mem_append.mp hq with hold | hlast
          · exact Or.inr ⟨_, _, hold⟩
          · exact Or.inl (List.mem_singleton.mp hlast)
        · exact Or.inr ⟨s', t', hq⟩
      rw [orders_addOrder now hlimit, hids]
      rcases hcases with rfl | ⟨s'', t'', hold⟩
      · exact Dict.get?_set_self ..
      · rw [Dict.get?_set_ne _ _ (hid q ⟨s'', t'', hold⟩)]
        exact h.index s'' t'' q hold

theorem Indexed.alloc (h : b.Indexed) (hok : b.Ok) (o : Order) : (b.alloc o).Indexed where
  nodup := fun s t => by rw [queue_alloc]; exact h.nodup s t
  index := fun s t r hr => by
    rw [queue_alloc] at hr
    have hne : r ≠ b.nextRef := (hok.lt_nextRef hr).ne
    show b.orders.get? (Function.update b.heap b.nextRef o r).orderId = some r
    rw [Function.update_of_ne hne]
    exact h.index s t r hr

/-- A new order object under an id that no resting order carries. -/
theorem Indexed.addNew (h : b.Indexed) (hok : b.Ok) {o : Order}
    (hid : b.carries o.orderId = false) (now : ℚ) :
    ((b.alloc o).addOrder b.nextRef now).Indexed := by
  have hself : (b.alloc o).heap b.nextRef = o := Function.update_self ..
  have hrests : ∀ q, (b.alloc o).Rests q → b.Rests q ∧ (b.alloc o).heap q = b.heap q := by
    rintro q ⟨s, t, hq⟩
    rw [queue_alloc] at hq
    exact ⟨⟨s, t, hq⟩, Function.update_of_ne (hok.lt_nextRef hq).ne ..⟩
  refine (h.alloc hok o).addOrder ?_ ?_ now
  · rintro ⟨s, t, hq⟩
    rw [queue_alloc] at hq
    exact lt_irrefl _ (hok.lt_nextRef hq)
  · intro q hq heq
    rcases hrests q hq with ⟨hrest, hsame⟩
    rw [hself, hsame] at heq
    rw [carries_iff.mpr ⟨q, hrest, heq⟩] at hid
    cases hid

theorem Indexed.cancelOrder (h : b.Indexed) (hok : b.Ok) (id : String) :
    (b.cancelOrder id).1.Indexed := by
  unfold OrderBook.cancelOrder
  cases hfound : b.cancellable id with
  | none => exact h
  | some found =>
    rcases found with ⟨r, limit⟩
    have hmarked : (b.modify r (withStatus .cancelled)).Indexed := by
      refine h.withHeap fun q => ?_
      by_cases hq : q = r
      · subst hq
        rw [Function.update_self]
        rfl
      · rw [Function.update_of_ne hq]
    have hexcept := (cancel_okExcept hok hfound)
    simp only
    cases hl : (b.modify r (withStatus .cancelled)).level? (b.heap r).side
        (b.grid.toTicks limit) with
    | none => exact hmarked
    | some level =>
      have hqueue := queue_of_level hl
      have hsub : removeId (b.modify r (withStatus .cancelled)).heap id level.orders
          |>.Sublist level.orders := List.eraseP_sublist
      refine Indexed.prune (hmarked.setLevel ?_ ?_) ?_
      · exact (hqueue ▸ hmarked.nodup _ _).sublist hsub
      · rw [hqueue]
        exact hsub.subset
      · exact (hexcept.setLevel hl ((hexcept.shape.level _ _ level hl).sub hsub)).shape

/-! ## Sweeps and feed events -/

theorem Indexed.congr {b' : OrderBook} (h : b.Indexed) (hside : ∀ s, b'.side s = b.side s)
    (horders : b'.orders = b.orders) (hheap : b'.heap = b.heap) : b'.Indexed := by
  have hqueue : ∀ s t, b'.queue s t = b.queue s t := fun s t => by
    apply queue_congr
    rw [level?, level?, hside]
  constructor
  · intro s t
    rw [hqueue]
    exact h.nodup s t
  · intro s t r hr
    rw [hqueue] at hr
    rw [horders, hheap]
    exact h.index s t r hr

theorem Indexed.walk {k : Sweeper} (hk : k.Sound) (passive : TradeSide)
    (beyond : ℤ → Bool) (ticks : List ℤ) (h : b.Indexed) (hok : b.Ok) (remaining : ℚ) :
    (walk k passive beyond ticks b remaining).book.Indexed := by
  induction ticks generalizing b remaining with
  | nil => exact h
  | cons t rest ih =>
    simp only [OrderBook.walk]
    split
    · exact h
    · cases hl : b.level? passive t with
      | none => exact h
      | some level =>
        have hw := walkLevel_within hk level.price remaining
          (hok.shape.level passive t level hl).belongs
        have hexcept := (hok.except passive t).within hw
        exact ih ((h.withHeap hw.orderId).prune hexcept.shape) (prune_ok hexcept) _

theorem Indexed.consumeLiquidity (h : b.Indexed) (hok : b.Ok) (aggressor : TradeSide)
    (quantity timestamp : ℚ) (limitPrice : Option ℚ) (skipPaper : Bool) :
    (b.consumeLiquidity aggressor quantity timestamp limitPrice skipPaper).1.Indexed := by
  have hwalk := Indexed.walk (aggressorSweep_sound skipPaper timestamp) aggressor.opposite
    (b.beyondLimit aggressor limitPrice) (b.bestFirst aggressor) h hok quantity
  simp only [OrderBook.consumeLiquidity]
  split
  · exact hwalk
  · exact hwalk.congr (fun s => by cases s <;> rfl) rfl rfl

/-- Among orders with ids of their own, removing by id removes the one order. -/
theorem removeId_eq_filter (heap : Heap) {orders : List Ref} {r : Ref} (hnodup : orders.Nodup)
    (hids : ∀ q ∈ orders, (heap q).orderId = (heap r).orderId → q = r) :
    removeId heap (heap r).orderId orders = orders.filter fun q => q ≠ r := by
  induction orders with
  | nil => rfl
  | cons a rest ih =>
    rcases List.nodup_cons.mp hnodup with ⟨ha, hrest⟩
    by_cases heq : a = r
    · subst heq
      rw [removeId, List.eraseP_cons_of_pos (by simp), List.filter_cons_of_neg (by simp),
        List.filter_eq_self.mpr]
      intro q hq
      have hne : q ≠ a := fun heq => ha (heq ▸ hq)
      simpa using hne
    · have hid : (heap a).orderId ≠ (heap r).orderId := fun hid =>
        heq (hids a (List.mem_cons_self ..) hid)
      have hih := ih hrest fun q hq => hids q (List.mem_cons_of_mem a hq)
      rw [removeId] at hih ⊢
      rw [List.eraseP_cons_of_neg (by simpa using hid), List.filter_cons_of_pos (by simpa using heq),
        hih]

/-- The queue of a level after its known order `r` moved to the back. -/
theorem Indexed.requeued (h : b.Indexed) {r : Ref} {level : LevelQueue}
    (hlevel : b.level? s t = some level) (hr : r ∈ level.orders) :
    removeId b.heap (b.heap r).orderId level.orders ++ [r] =
      (b.queue s t).filter (fun q => q ≠ r) ++ [r] := by
  rw [← queue_of_level hlevel] at hr ⊢
  rw [removeId_eq_filter b.heap (h.nodup s t) fun _ hq hid => h.unique ⟨s, t, hr⟩ ⟨s, t, hq⟩ hid]

theorem Indexed.modify (h : b.Indexed) (r : Ref) {f : Order → Order}
    (hf : ∀ o, (f o).orderId = o.orderId) : (b.modify r f).Indexed := by
  refine h.withHeap fun q => ?_
  by_cases hq : q = r
  · subst hq
    rw [Function.update_self]
    exact hf _
  · rw [Function.update_of_ne hq]

theorem Indexed.changeKnown (h : b.Indexed) {event : BookEvent} {level : LevelQueue} {r : Ref}
    (hlevel : b.level? event.side t = some level) (hr : b.knownIn event level = some r) :
    (b.changeKnown event t level r).Indexed := by
  have hmem := (knownIn_mem hr).1
  have hresize := h.modify r (f := resize event.size) fun _ => rfl
  unfold OrderBook.changeKnown
  split
  · exact h.modify r fun _ => rfl
  · split
    · exact hresize
    · have hqueue := queue_of_level hlevel
      refine hresize.setLevel ?_ ?_
      · rw [h.requeued hlevel hmem]
        refine ((h.nodup _ _).filter _).append (List.nodup_singleton r) ?_
        intro q hq hq'
        have hne : q ≠ r := by simpa using List.of_mem_filter hq
        exact hne (List.mem_singleton.mp hq')
      · rw [h.requeued hlevel hmem, queue_modify]
        intro q hq
        rcases List.mem_append.mp hq with hq | hq
        · exact List.mem_of_mem_filter hq
        · rw [List.mem_singleton.mp hq, hqueue]
          exact hmem

theorem Indexed.reduceMarket (h : b.Indexed) (level : LevelQueue) (amount : ℚ) :
    (b.reduceMarket level amount).Indexed := by
  have hfold : ∀ (share : ℚ) (refs : List Ref) (b : OrderBook), b.Indexed →
      (refs.foldl (fun b r => b.modify r (shrink share)) b).Indexed := by
    intro share refs
    induction refs with
    | nil => exact fun _ h => h
    | cons r rest ih => exact fun b h => ih _ (h.modify r fun _ => rfl)
  unfold OrderBook.reduceMarket
  simp only
  split
  · exact h
  · exact hfold _ _ b h

/-! ## The condition on the operations -/

/-- Whether an event brings a new order into the book. -/
def inserts (b : OrderBook) (event : BookEvent) : Bool :=
  match event.eventType with
  | .add => eps < event.size
  | .trade => false
  | _ =>
    match b.level? event.side (b.grid.toTicks event.price) with
    | none => event.eventType = .modify && decide (eps < event.size)
    | some level =>
      let current := marketSize b.heap level.orders
      (b.knownIn event level).isNone && decide (current ≤ targetSize event current) &&
        decide (current + eps < targetSize event current)

/-- Whether a CANCEL or MODIFY takes size out of a level without an order of it named. -/
def reduces (b : OrderBook) (event : BookEvent) : Bool :=
  match b.level? event.side (b.grid.toTicks event.price) with
  | none => false
  | some level =>
    let current := marketSize b.heap level.orders
    (b.knownIn event level).isNone && decide (targetSize event current < current)

/-- The event is a CANCEL or MODIFY that names a resting market order. -/
def Names (b : OrderBook) (event : BookEvent) (r : Ref) : Prop :=
  (event.eventType = .cancel ∨ event.eventType = .modify) ∧ r ∈ b.resting ∧
    (b.heap r).owner = .market ∧ event.named = some (b.heap r).orderId

instance (b : OrderBook) (event : BookEvent) (r : Ref) : Decidable (b.Names event r) :=
  inferInstanceAs (Decidable (_ ∧ _))

/-- No operation brings an order under an id that a resting order carries, and no event that
names a resting market order reduces a level that the order is not in. -/
def KeepsIdentity (b : OrderBook) : Op → Prop
  | .addOrder order _ => order.limitPrice.isSome → b.carries order.orderId = false
  | .applyMarketEvent event uuid =>
    (b.inserts event = true → b.carries (event.idOr uuid) = false) ∧
      ((∃ r ∈ b.resting, b.Names event r) → b.reduces event = false)
  | _ => True

instance (b : OrderBook) : (op : Op) → Decidable (b.KeepsIdentity op)
  | .addOrder _ _ => inferInstanceAs (Decidable (_ → _))
  | .applyMarketEvent _ _ => inferInstanceAs (Decidable (_ ∧ _))
  | .cancelOrder _ => inferInstanceAs (Decidable True)
  | .consumeLiquidity .. => inferInstanceAs (Decidable True)

theorem Indexed.insertFeed (h : b.Indexed) (hok : b.Ok) {event : BookEvent} {uuid : HexId}
    (hid : b.carries (event.idOr uuid) = false) (quantity limit : ℚ) :
    (b.insertFeed event uuid quantity limit).Indexed :=
  h.addNew hok hid event.timestamp

theorem Indexed.applyAdd (h : b.Indexed) (hok : b.Ok) {event : BookEvent} {uuid : HexId}
    (hid : eps < event.size → b.carries (event.idOr uuid) = false) :
    (b.applyAdd event uuid).Indexed := by
  unfold OrderBook.applyAdd
  split
  · rename_i hsize
    exact h.insertFeed hok (hid hsize) _ _
  · exact h

/-- What an aggregated change does to a level: it reduces the level, brings an order, or
leaves the book as it is. -/
theorem changeAggregated_cases {event : BookEvent} (uuid : HexId) {level : LevelQueue}
    (htype : event.eventType = .cancel ∨ event.eventType = .modify)
    (hlevel : b.level? event.side (b.grid.toTicks event.price) = some level)
    (hknown : b.knownIn event level = none) :
    (b.reduces event = true ∧ ∃ amount,
        b.changeAggregated event uuid level = b.reduceMarket level amount) ∨
      (b.inserts event = true ∧ ∃ quantity, eps < quantity ∧
        b.changeAggregated event uuid level = b.insertFeed event uuid quantity level.price) ∨
      (b.reduces event = false ∧ b.inserts event = false ∧
        b.changeAggregated event uuid level = b) := by
  have hreduces : b.reduces event =
      decide (targetSize event (marketSize b.heap level.orders) <
        marketSize b.heap level.orders) := by
    simp [reduces, hlevel, hknown]
  have hinserts : b.inserts event =
      (decide (marketSize b.heap level.orders ≤
          targetSize event (marketSize b.heap level.orders)) &&
        decide (marketSize b.heap level.orders + eps <
          targetSize event (marketSize b.heap level.orders))) := by
    rcases htype with htype | htype <;> simp [inserts, htype, hlevel, hknown]
  unfold OrderBook.changeAggregated
  rw [hreduces, hinserts]
  simp only
  split
  · rename_i hlt
    exact Or.inl ⟨decide_eq_true hlt, _, rfl⟩
  · rename_i hle
    split
    · rename_i hgt
      refine Or.inr (Or.inl ⟨by simp [not_lt.mp hle, hgt], _, ?_, rfl⟩)
      exact lt_sub_iff_add_lt'.mpr hgt
    · rename_i hngt
      exact Or.inr (Or.inr ⟨decide_eq_false hle, by simp [hngt], rfl⟩)

theorem Indexed.applyChange (h : b.Indexed) (hok : b.Ok) {event : BookEvent} {uuid : HexId}
    (htype : event.eventType = .cancel ∨ event.eventType = .modify)
    (hid : b.inserts event = true → b.carries (event.idOr uuid) = false) :
    (b.applyChange event uuid).Indexed := by
  unfold OrderBook.applyChange
  simp only
  cases hlevel : b.level? event.side (b.grid.toTicks event.price) with
  | none =>
    simp only
    split
    · rename_i hmodify
      refine h.applyAdd hok fun hsize => hid ?_
      simp [inserts, hmodify, hlevel, hsize]
    · exact h
  | some level =>
    simp only
    cases hknown : b.knownIn event level with
    | some r =>
      exact (h.changeKnown hlevel hknown).prune (changeKnown_okExcept hok hlevel hknown).shape
    | none =>
      refine Indexed.prune ?_ (changeAggregated_okExcept hok uuid hlevel).shape
      rcases changeAggregated_cases uuid htype hlevel hknown with
        ⟨-, amount, heq⟩ | ⟨hins, quantity, -, heq⟩ | ⟨-, -, heq⟩
      · rw [heq]
        exact h.reduceMarket level amount
      · rw [heq]
        exact h.insertFeed hok (hid hins) quantity level.price
      · rw [heq]
        exact h

theorem Indexed.applyTrade (h : b.Indexed) (hok : b.Ok) (event : BookEvent) :
    (b.applyTrade event).1.Indexed := by
  unfold OrderBook.applyTrade
  refine Indexed.walk (printSweep_sound event.timestamp) _ _ _ ?_ (hok.lastTrade _ _) _
  exact h.congr (fun s => by cases s <;> rfl) rfl rfl

/-- A feed event under the condition keeps the index. -/
theorem Indexed.applyMarketEvent (h : b.Indexed) (hok : b.Ok) {event : BookEvent}
    {uuid : HexId} (hid : b.inserts event = true → b.carries (event.idOr uuid) = false) :
    (b.applyMarketEvent event uuid).1.Indexed := by
  have hlast : { b with lastEventTime := event.timestamp : OrderBook }.Indexed :=
    h.congr (fun s => by cases s <;> rfl) rfl rfl
  have hoklast := hok.lastEvent event.timestamp
  unfold OrderBook.applyMarketEvent
  cases htype : event.eventType with
  | add =>
    refine hlast.applyAdd hoklast fun hsize => hid ?_
    simp [inserts, htype, hsize]
  | cancel => exact hlast.applyChange hoklast (Or.inl htype) hid
  | modify => exact hlast.applyChange hoklast (Or.inr htype) hid
  | trade => exact hlast.applyTrade hoklast event

/-- Every operation under the condition keeps the index. -/
theorem Indexed.step {b b' : OrderBook} {op : Op} (h : b.Indexed) (hok : b.Ok)
    (hkeeps : b.KeepsIdentity op) (hstep : b.step op = some b') : b'.Indexed := by
  cases op with
  | addOrder order now =>
    simp only [OrderBook.step] at hstep
    split at hstep
    · cases hstep
      cases hlimit : order.limitPrice with
      | none =>
        have hself : ((b.alloc order).heap b.nextRef).limitPrice = none := by
          simp [OrderBook.alloc, hlimit]
        have heq : (b.alloc order).addOrder b.nextRef now = b.alloc order := by
          simp [OrderBook.addOrder, hself]
        rw [heq]
        exact h.alloc hok order
      | some limit => exact h.addNew hok (hkeeps (by simp [hlimit])) now
    · cases hstep
  | cancelOrder orderId =>
    cases hstep
    exact h.cancelOrder hok orderId
  | consumeLiquidity side quantity timestamp limitPrice skipPaper =>
    cases hstep
    exact h.consumeLiquidity hok side quantity timestamp limitPrice skipPaper
  | applyMarketEvent event uuid =>
    cases hstep
    exact h.applyMarketEvent hok hkeeps.1

/-! ## Events that name an order -/

/-- Every resting order but one keeps its remaining quantity, its level and its place among
the others. -/
structure ChangesOnly (b b' : OrderBook) (r : Ref) : Prop where
  queue : ∀ s t, (b'.queue s t).filter (fun q => q ≠ r) = (b.queue s t).filter fun q => q ≠ r
  remaining : ∀ q, b.Rests q → q ≠ r →
    (b'.heap q).remainingQuantity = (b.heap q).remainingQuantity

theorem ChangesOnly.trans {b₁ b₂ : OrderBook} {r : Ref} (h : b.ChangesOnly b₁ r)
    (h' : b₁.ChangesOnly b₂ r) : b.ChangesOnly b₂ r where
  queue := fun s t => (h'.queue s t).trans (h.queue s t)
  remaining := fun q hq hne => by
    have hq₁ : b₁.Rests q := by
      rcases hq with ⟨s, t, hmem⟩
      have hfilter : q ∈ (b₁.queue s t).filter fun x => x ≠ r := by
        rw [h.queue s t]
        exact List.mem_filter.mpr ⟨hmem, by simpa using hne⟩
      exact ⟨s, t, List.mem_of_mem_filter hfilter⟩
    exact (h'.remaining q hq₁ hne).trans (h.remaining q hq hne)

/-- A prune takes nothing out of a queue whose other orders are live. -/
theorem changesOnly_prune {r : Ref}
    (hlive : ∀ q ∈ b.queue s t, q ≠ r → (b.heap q).isLive = true) :
    b.ChangesOnly (b.prune s t) r where
  queue := fun s' t' => by
    rw [queue_prune]
    split
    · rename_i heq
      cases heq
      rw [List.filter_filter]
      apply List.filter_congr
      intro q hq
      by_cases hne : q = r
      · simp [hne]
      · simp [hne, hlive q hq hne]
    · rfl
  remaining := fun q _ _ => (fields_of_sansQueue (heap_prune_sansQueue q)).1

theorem changesOnly_modify (r : Ref) (f : Order → Order) : b.ChangesOnly (b.modify r f) r where
  queue := fun s t => by rw [queue_modify]
  remaining := fun q _ hne => by
    show (Function.update b.heap r _ q).remainingQuantity = _
    rw [Function.update_of_ne hne]

theorem changeKnown_heap_ne {event : BookEvent} {level : LevelQueue} {q r : Ref}
    (hne : q ≠ r) : (b.changeKnown event t level r).heap q = b.heap q := by
  unfold OrderBook.changeKnown
  split
  · exact Function.update_of_ne hne ..
  · split
    · exact Function.update_of_ne hne ..
    · rw [heap_setLevel]
      exact Function.update_of_ne hne ..

/-- A known order that changes, changes alone. -/
theorem changesOnly_changeKnown (h : b.Indexed) {event : BookEvent} {level : LevelQueue}
    {r : Ref} (hlevel : b.level? event.side t = some level)
    (hr : b.knownIn event level = some r) :
    b.ChangesOnly (b.changeKnown event t level r) r := by
  unfold OrderBook.changeKnown
  split
  · exact changesOnly_modify r _
  · split
    · exact changesOnly_modify r _
    · refine (changesOnly_modify r (resize event.size)).trans ⟨fun s' t' => ?_, fun q _ _ => ?_⟩
      · rw [queue_setLevel, h.requeued hlevel (knownIn_mem hr).1, queue_modify]
        split
        · rename_i heq
          cases heq
          rw [List.filter_append, List.filter_filter]
          simp
        · rfl
      · rw [heap_setLevel]

/-- A CANCEL or MODIFY that names a resting market order changes that order only. -/
theorem changesOnly_applyChange (h : b.Indexed) (hok : b.Ok) {event : BookEvent}
    (uuid : HexId) {r : Ref} (hname : b.Names event r)
    (hid : b.inserts event = true → b.carries (event.idOr uuid) = false)
    (hreduce : b.reduces event = false) : b.ChangesOnly (b.applyChange event uuid) r := by
  rcases hname with ⟨htype, hrest, hmarket, hnamed⟩
  have hcarried : b.carries (event.idOr uuid) = true := by
    refine carries_iff.mpr ⟨r, mem_resting.mp hrest, ?_⟩
    simp [BookEvent.idOr, hnamed]
  have hnotinsert : b.inserts event = false := by
    by_contra hins
    rw [hid (by simpa using hins)] at hcarried
    cases hcarried
  have hindexed : b.orders.get? (b.heap r).orderId = some r := by
    rcases mem_resting.mp hrest with ⟨s, t, hmem⟩
    exact h.index s t r hmem
  unfold OrderBook.applyChange
  simp only
  cases hlevel : b.level? event.side (b.grid.toTicks event.price) with
  | none =>
    simp only
    split
    · rename_i hmodify
      have hsize : ¬eps < event.size := fun hsize => by
        simp [inserts, hmodify, hlevel, hsize] at hnotinsert
      rw [OrderBook.applyAdd, if_neg hsize]
      exact ⟨fun _ _ => rfl, fun _ _ _ => rfl⟩
    · exact ⟨fun _ _ => rfl, fun _ _ _ => rfl⟩
  | some level =>
    simp only
    cases hknown : b.knownIn event level with
    | some q =>
      have hqr : q = r := by
        unfold knownIn at hknown
        have hfound := (Option.filter_eq_some_iff.mp hknown).1
        rw [hnamed, Option.bind_some, hindexed] at hfound
        exact (Option.some.inj hfound).symm
      subst hqr
      have honly := changesOnly_changeKnown h hlevel hknown
      refine honly.trans (changesOnly_prune fun x hx hne => ?_)
      have hx' : x ∈ (b.queue event.side (b.grid.toTicks event.price)).filter
          fun y => y ≠ q := by
        rw [← honly.queue]
        exact List.mem_filter.mpr ⟨hx, by simpa using hne⟩
      rw [changeKnown_heap_ne hne]
      exact hok.isLive (List.mem_of_mem_filter hx')
    | none =>
      rcases changeAggregated_cases uuid htype hlevel hknown with
        ⟨hred, -⟩ | ⟨hins, -⟩ | ⟨-, -, heq⟩
      · rw [hreduce] at hred
        cases hred
      · rw [hnotinsert] at hins
        cases hins
      · simp only [heq]
        exact changesOnly_prune fun x hx _ => hok.isLive hx

/-! ## Whole runs -/

theorem empty_indexed (grid : TickGrid) (symbol : String) :
    (OrderBook.empty grid symbol).Indexed := by
  have hnone : ∀ s t, (OrderBook.empty grid symbol).queue s t = [] := by
    intro s t
    cases s <;> rfl
  constructor
  · intro s t
    rw [hnone]
    exact List.nodup_nil
  · intro s t r hr
    rw [hnone] at hr
    cases hr

/-- What the claimed identity of resting orders says. -/
structure Identity (b : OrderBook) : Prop where
  /-- no two resting orders carry the same id, and no order rests twice -/
  unique : ∀ r r', b.Rests r → b.Rests r' → (b.heap r').orderId = (b.heap r).orderId → r' = r
  once : ∀ r s t s' t', r ∈ b.queue s t → r ∈ b.queue s' t' →
    s' = s ∧ t' = t ∧ (b.queue s t).count r = 1
  /-- the index maps the id of a resting order to the order itself -/
  index : ∀ r, b.Rests r → b.orders.get? (b.heap r).orderId = some r
  /-- an event that names a resting market order changes that order only -/
  named : ∀ event uuid r, b.KeepsIdentity (.applyMarketEvent event uuid) → b.Names event r →
    b.ChangesOnly (b.applyMarketEvent event uuid).1 r

theorem Indexed.identity (h : b.Indexed) (hok : b.Ok) : b.Identity where
  unique := fun r r' hr hr' hid => h.unique hr hr' hid
  once := fun r s t s' t' hr hr' => by
    rcases hok.queue_unique hr hr' with ⟨hs, ht⟩
    exact ⟨hs, ht, List.count_eq_one_of_mem (h.nodup s t) hr⟩
  index := fun r hr => by
    rcases hr with ⟨s, t, hmem⟩
    exact h.index s t r hmem
  named := fun event uuid r hkeeps hname => by
    have hlast : { b with lastEventTime := event.timestamp : OrderBook }.Indexed :=
      h.congr (fun s => by cases s <;> rfl) rfl rfl
    have honly := changesOnly_applyChange hlast (hok.lastEvent event.timestamp) uuid
      hname hkeeps.1 (hkeeps.2 ⟨r, hname.2.1, hname⟩)
    have heq : (b.applyMarketEvent event uuid).1 =
        { b with lastEventTime := event.timestamp : OrderBook }.applyChange event uuid := by
      rcases hname.1 with htype | htype <;> simp [OrderBook.applyMarketEvent, htype]
    rw [heq]
    exact ⟨honly.queue, honly.remaining⟩

/-- In every run whose operations meet the condition, the identity of resting orders holds in
every state. -/
theorem order_identity {grid : TickGrid} {symbol : String} {b : OrderBook}
    (h : (machine grid symbol).ReachableUnder KeepsIdentity b) : b.Identity := by
  have hinv : b.Ok ∧ b.Indexed := by
    refine Machine.ReachableUnder.invariant (I := fun b => b.Ok ∧ b.Indexed)
      ⟨empty_ok grid symbol, empty_indexed grid symbol⟩ ?_ h
    intro b op b' hkeeps hstep hb
    exact ⟨step_ok hstep hb.1, hb.2.step hb.1 hkeeps hstep⟩
  exact hinv.2.identity hinv.1

/-- A feed with an order that is modified in place and one that loses priority. -/
def namedRun : List Op :=
  [.applyMarketEvent ⟨1, .add, .buy, 100, 6, some "a"⟩ zeros,
    .applyMarketEvent ⟨2, .add, .buy, 100, 4, some "b"⟩ zeros,
    .addOrder (Order.new "P00000001" "X" .buy .limit 3 (some 100) none .gtc 2 none .paper) 2,
    .applyMarketEvent ⟨3, .modify, .buy, 100, 9, some "a"⟩ zeros,
    .cancelOrder "P00000001"]

theorem order_identity_named :
    ∃ b, (machine cents "X").execUnder KeepsIdentity (OrderBook.empty cents "X") namedRun =
        some b ∧ b.queue .buy 10000 = [1, 0] ∧ b.Identity := by
  have hrun : ((machine cents "X").execUnder KeepsIdentity (OrderBook.empty cents "X")
      namedRun).map (fun b => b.queue .buy 10000) = some [1, 0] := by
    decide +kernel
  rcases Option.map_eq_some_iff.mp hrun with ⟨b, hexec, hqueue⟩
  exact ⟨b, hexec, hqueue, order_identity (Machine.reachableUnder_of_execUnder hexec)⟩

/-- An accepted feed: an order is added, and modified at another price. -/
def movedFeed : List BookEvent :=
  [⟨1, .add, .buy, 100, 10, some "a"⟩, ⟨2, .modify, .buy, 101, 5, some "a"⟩]

/-- The feed passes `validate_events`, and afterwards two resting orders carry one id,
of which the index knows the second only. -/
theorem order_identity_broken :
    validateEvents cents 20 (fun _ => zeros) movedFeed = [] ∧
      ∃ b, (machine cents "X").exec (OrderBook.empty cents "X")
          (movedFeed.map fun event => .applyMarketEvent event zeros) = some b ∧
        ∃ r r', r' ≠ r ∧ r ∈ b.resting ∧ r' ∈ b.resting ∧
          (b.heap r').orderId = (b.heap r).orderId ∧
            b.orders.get? (b.heap r).orderId = some r' := by
  have hrun : ((machine cents "X").exec (OrderBook.empty cents "X")
      (movedFeed.map fun event => .applyMarketEvent event zeros)).map
        (fun b => (b.resting, (b.heap 0).orderId, (b.heap 1).orderId, b.orders.get? "a")) =
      some ([0, 1], "a", "a", some 1) := by
    decide +kernel
  rcases Option.map_eq_some_iff.mp hrun with ⟨b, hexec, hfacts⟩
  simp only [Prod.mk.injEq] at hfacts
  rcases hfacts with ⟨hresting, hid, hid', hindex⟩
  refine ⟨by decide +kernel, b, hexec, 0, 1, by decide, ?_, ?_, ?_, ?_⟩
  · simp [hresting]
  · simp [hresting]
  · rw [hid, hid']
  · rw [hid, hindex]

end OrderBook

end QuantumSentinel.Exchange
