import QuantumSentinel.Exchange.Book
import QuantumSentinel.Lib.Transition

/-!
# Paper exchange: the representation invariant of the book

Every mutation of the book works on one level: it changes orders that belong to that level
and prunes it afterwards.  So the invariant is kept in two halves: in between, it holds of
every other level, and `_prune` restores it at the one that was touched.

Main results:

- Theorem `OrderBook.prune_ok`: pruning the touched level restores the invariant.
- Theorem `OrderBook.walk_ok`: a sweep over levels keeps it.
- Theorem `book_representation`: it holds after every sequence of operations.
-/

namespace QuantumSentinel.Exchange

open Lib

/-! ## Changes of orders -/

/-- The order's own fields put it at a tick of a side. -/
def Order.Belongs (grid : TickGrid) (s : TradeSide) (t : ℤ) (o : Order) : Prop :=
  o.side = s ∧ o.limitPrice.map grid.toTicks = some t

/-- A change of an order that keeps its identity and its level. -/
structure Touched (grid : TickGrid) (s : TradeSide) (t : ℤ) (o o' : Order) : Prop where
  belongs : o.Belongs grid s t
  stays : o'.Belongs grid s t
  owner : o'.owner = o.owner
  orderId : o'.orderId = o.orderId
  filled : 0 ≤ o.filledQuantity → 0 ≤ o'.filledQuantity

/-- Only orders of one level changed. -/
def Within (grid : TickGrid) (s : TradeSide) (t : ℤ) (heap heap' : Heap) : Prop :=
  ∀ r, heap' r = heap r ∨ Touched grid s t (heap r) (heap' r)

section Within

variable {grid : TickGrid} {s : TradeSide} {t : ℤ} {heap heap' heap'' : Heap}

theorem Order.Belongs.unique {s' : TradeSide} {t' : ℤ} {o : Order}
    (h : o.Belongs grid s t) (h' : o.Belongs grid s' t') : s' = s ∧ t' = t := by
  refine ⟨h'.1.symm.trans h.1, ?_⟩
  have heq : some t' = some t := h'.2.symm.trans h.2
  exact Option.some.inj heq

theorem Within.refl : Within grid s t heap heap :=
  fun _ => Or.inl rfl

theorem Within.trans (h : Within grid s t heap heap') (h' : Within grid s t heap' heap'') :
    Within grid s t heap heap'' := by
  intro r
  rcases h r with heq | htouch
  · rcases h' r with heq' | htouch'
    · exact Or.inl (heq'.trans heq)
    · exact Or.inr (heq ▸ htouch')
  · rcases h' r with heq' | htouch'
    · exact Or.inr (heq'.symm ▸ htouch)
    · refine Or.inr ⟨htouch.belongs, htouch'.stays, htouch'.owner.trans htouch.owner,
        htouch'.orderId.trans htouch.orderId, ?_⟩
      exact fun hf => htouch'.filled (htouch.filled hf)

theorem Within.update {r : Ref} {o : Order} (h : Touched grid s t (heap r) o) :
    Within grid s t heap (Function.update heap r o) := by
  intro q
  by_cases hq : q = r
  · subst hq
    rw [Function.update_self]
    exact Or.inr h
  · rw [Function.update_of_ne hq]
    exact Or.inl rfl

/-- Orders of the level stay there. -/
theorem Within.belongs (h : Within grid s t heap heap') {s' : TradeSide} {t' : ℤ} {r : Ref}
    (hr : (heap r).Belongs grid s' t') : (heap' r).Belongs grid s' t' := by
  rcases h r with heq | htouch
  · rwa [heq]
  · rcases htouch.belongs.unique hr with ⟨rfl, rfl⟩
    exact htouch.stays

theorem Within.owner (h : Within grid s t heap heap') (r : Ref) :
    (heap' r).owner = (heap r).owner := by
  rcases h r with heq | htouch
  · rw [heq]
  · exact htouch.owner

theorem Within.orderId (h : Within grid s t heap heap') (r : Ref) :
    (heap' r).orderId = (heap r).orderId := by
  rcases h r with heq | htouch
  · rw [heq]
  · exact htouch.orderId

theorem Within.filled (h : Within grid s t heap heap') {r : Ref}
    (hr : 0 ≤ (heap r).filledQuantity) : 0 ≤ (heap' r).filledQuantity := by
  rcases h r with heq | htouch
  · rwa [heq]
  · exact htouch.filled hr

/-- Orders of other levels do not change. -/
theorem Within.eq_of_elsewhere (h : Within grid s t heap heap') {s' : TradeSide} {t' : ℤ}
    (hne : (s', t') ≠ (s, t)) {r : Ref} (hr : (heap r).Belongs grid s' t') :
    heap' r = heap r := by
  rcases h r with heq | htouch
  · exact heq
  · rcases htouch.belongs.unique hr with ⟨rfl, rfl⟩
    exact absurd rfl hne

end Within

/-! ## Queue positions -/

/-- Every paper order knows the remaining size in front of it. -/
def QueueOk (heap : Heap) (orders : List Ref) : Prop :=
  ∀ front r back, orders = front ++ r :: back → (heap r).owner = .paper →
    (heap r).queueAhead = totalSize heap front

theorem totalSize_congr {heap heap' : Heap} {orders : List Ref}
    (h : ∀ r ∈ orders, (heap' r).remainingQuantity = (heap r).remainingQuantity) :
    totalSize heap' orders = totalSize heap orders := by
  unfold totalSize
  rw [List.map_congr_left h]

@[simp]
theorem totalSize_nil (heap : Heap) : totalSize heap [] = 0 :=
  rfl

@[simp]
theorem totalSize_cons (heap : Heap) (r : Ref) (orders : List Ref) :
    totalSize heap (r :: orders) = (heap r).remainingQuantity + totalSize heap orders := by
  simp [totalSize]

theorem QueueOk.congr {heap heap' : Heap} {orders : List Ref} (h : QueueOk heap orders)
    (heq : ∀ r ∈ orders, heap' r = heap r) : QueueOk heap' orders := by
  intro front r back horders hpaper
  have hr : r ∈ orders := by simp [horders]
  have hfront : totalSize heap' front = totalSize heap front := by
    apply totalSize_congr
    intro q hq
    rw [heq q (by simp [horders, hq])]
  rw [heq r hr] at hpaper ⊢
  rw [hfront]
  exact h front r back horders hpaper

/-- One more order at the back, which knows the size in front of it. -/
theorem QueueOk.append {heap : Heap} {orders : List Ref} {r : Ref} (h : QueueOk heap orders)
    (hr : (heap r).queueAhead = totalSize heap orders) : QueueOk heap (orders ++ [r]) := by
  intro front q back hsplit hpaper
  rcases List.eq_nil_or_concat back with rfl | ⟨back', last, rfl⟩
  · have hfront : front = orders ∧ q = r := by
      have := List.append_inj' hsplit.symm rfl
      simpa using this
    rw [hfront.1, hfront.2]
    exact hr
  · have horders : orders = front ++ q :: back' := by
      have : orders ++ [r] = (front ++ q :: back') ++ [last] := by simpa using hsplit
      exact (List.append_inj' this rfl).1
    exact h front q back' horders hpaper

section Refresh

@[simp]
theorem queuedBehind_sansQueue (ahead : ℚ) (o : Order) :
    (o.queuedBehind ahead).sansQueue = o.sansQueue := by
  unfold Order.queuedBehind
  split <;> rfl

/-- A new queue position leaves a market order alone. -/
theorem queuedBehind_of_market {o : Order} (h : o.owner = .market) (ahead : ℚ) :
    o.queuedBehind ahead = o := by
  simp [Order.queuedBehind, h]

theorem refreshFrom_sansQueue (ahead : ℚ) (orders : List Ref) (heap : Heap) (r : Ref) :
    (refreshFrom ahead orders heap r).sansQueue = (heap r).sansQueue := by
  induction orders generalizing ahead heap with
  | nil => rfl
  | cons q rest ih =>
    rw [refreshFrom, ih]
    by_cases hr : r = q
    · subst hr
      simp
    · rw [Function.update_of_ne hr]

theorem refreshFrom_of_notMem (ahead : ℚ) {orders : List Ref} (heap : Heap) {r : Ref}
    (hr : r ∉ orders) : refreshFrom ahead orders heap r = heap r := by
  induction orders generalizing ahead heap with
  | nil => rfl
  | cons q rest ih =>
    rcases not_or.mp (List.mem_cons.not.mp hr) with ⟨hq, hrest⟩
    rw [refreshFrom, ih _ _ hrest, Function.update_of_ne hq]

/-- What two orders share when they differ in the queue position only. -/
theorem fields_of_sansQueue {o o' : Order} (h : o'.sansQueue = o.sansQueue) :
    o'.remainingQuantity = o.remainingQuantity ∧ o'.isActive = o.isActive ∧
      o'.owner = o.owner ∧ o'.side = o.side ∧ o'.limitPrice = o.limitPrice ∧
        o'.orderId = o.orderId ∧ o'.filledQuantity = o.filledQuantity := by
  cases o
  cases o'
  simp only [Order.sansQueue, Order.mk.injEq] at h
  simp [Order.remainingQuantity, Order.isActive, h]

theorem isLive_of_sansQueue {o o' : Order} (h : o'.sansQueue = o.sansQueue) :
    o'.isLive = o.isLive := by
  rcases fields_of_sansQueue h with ⟨hrem, hact, -⟩
  simp [Order.isLive, hrem, hact]

theorem update_queuedBehind_remaining (heap : Heap) (q r : Ref) (ahead : ℚ) :
    (Function.update heap q ((heap q).queuedBehind ahead) r).remainingQuantity =
      (heap r).remainingQuantity := by
  have h := refreshFrom_sansQueue ahead [q] heap r
  exact (fields_of_sansQueue h).1

theorem update_queuedBehind_owner (heap : Heap) (q r : Ref) (ahead : ℚ) :
    (Function.update heap q ((heap q).queuedBehind ahead) r).owner = (heap r).owner := by
  have h := refreshFrom_sansQueue ahead [q] heap r
  exact (fields_of_sansQueue h).2.2.1

/-- Refreshing puts every paper order behind the size in front of it. -/
theorem refreshFrom_queueAhead {orders front back : List Ref} {r : Ref} (ahead : ℚ)
    {heap : Heap} (horders : orders = front ++ r :: back) (hpaper : (heap r).owner = .paper)
    (hnodup : (orders.filter (isPaper heap)).Nodup) :
    (refreshFrom ahead orders heap r).queueAhead = ahead + totalSize heap front := by
  induction front generalizing orders ahead heap with
  | nil =>
    subst horders
    have hback : r ∉ back := by
      have hcons : ((r :: back).filter (isPaper heap)) =
          r :: back.filter (isPaper heap) := by
        rw [List.filter_cons_of_pos (by simpa [isPaper] using hpaper)]
      have hnot : r ∉ back.filter (isPaper heap) := by
        have := hcons ▸ hnodup
        exact (List.nodup_cons.mp this).1
      intro hmem
      exact hnot (List.mem_filter.mpr ⟨hmem, by simpa [isPaper] using hpaper⟩)
    rw [List.nil_append, refreshFrom, refreshFrom_of_notMem _ _ hback,
      Function.update_self]
    simp [Order.queuedBehind, hpaper]
  | cons q front ih =>
    subst horders
    have hnodup' : ((front ++ r :: back).filter (isPaper heap)).Nodup := by
      refine hnodup.sublist ?_
      exact (List.sublist_cons_self q (front ++ r :: back)).filter _
    have hfilter : ((front ++ r :: back).filter
        (isPaper (Function.update heap q ((heap q).queuedBehind ahead)))) =
          (front ++ r :: back).filter (isPaper heap) := by
      apply List.filter_congr
      intro x _
      simp only [isPaper, update_queuedBehind_owner]
    have hpaper' : (Function.update heap q ((heap q).queuedBehind ahead) r).owner = .paper := by
      rw [update_queuedBehind_owner]
      exact hpaper
    have hih := ih (ahead + (heap q).remainingQuantity) rfl hpaper'
      (by rw [hfilter]; exact hnodup')
    rw [List.cons_append, refreshFrom, hih, totalSize_cons,
      totalSize_congr fun x _ => update_queuedBehind_remaining heap q x ahead]
    ring

/-- `refresh_queue_positions` establishes the queue positions. -/
theorem queueOk_refresh {heap : Heap} {orders : List Ref}
    (hnodup : (orders.filter (isPaper heap)).Nodup) :
    QueueOk (refreshQueuePositions orders heap) orders := by
  intro front r back horders hpaper
  have hsize : totalSize (refreshQueuePositions orders heap) front = totalSize heap front :=
    totalSize_congr fun q _ => (fields_of_sansQueue (refreshFrom_sansQueue 0 orders heap q)).1
  have howner := (fields_of_sansQueue (refreshFrom_sansQueue 0 orders heap r)).2.2.1
  have hqueue := refreshFrom_queueAhead 0 horders (howner.symm.trans hpaper) hnodup
  rw [zero_add] at hqueue
  rw [hsize]
  exact hqueue

end Refresh

/-! ## Levels and sides -/

namespace OrderBook

variable {b : OrderBook} {s s' : TradeSide} {t t' : ℤ}

/-- The book over another heap. -/
def withHeap (b : OrderBook) (heap : Heap) : OrderBook :=
  { b with heap := heap }

@[simp]
theorem level?_withHeap (heap : Heap) : (b.withHeap heap).level? s t = b.level? s t := by
  cases s <;> rfl

@[simp]
theorem side_withHeap (heap : Heap) : (b.withHeap heap).side s = b.side s := by
  cases s <;> rfl

@[simp]
theorem level?_modify (r : Ref) (f : Order → Order) :
    (b.modify r f).level? s t = b.level? s t :=
  level?_withHeap _

@[simp]
theorem side_setSide_self (new : BookSide) : (b.setSide s new).side s = new := by
  cases s <;> rfl

theorem side_setSide_ne (new : BookSide) (h : s' ≠ s) :
    (b.setSide s new).side s' = b.side s' := by
  cases s <;> cases s' <;> first | rfl | exact absurd rfl h

@[simp]
theorem heap_setSide (new : BookSide) : (b.setSide s new).heap = b.heap := by
  cases s <;> rfl

@[simp]
theorem grid_setSide (new : BookSide) : (b.setSide s new).grid = b.grid := by
  cases s <;> rfl

@[simp]
theorem nextRef_setSide (new : BookSide) : (b.setSide s new).nextRef = b.nextRef := by
  cases s <;> rfl

@[simp]
theorem orders_setSide (new : BookSide) : (b.setSide s new).orders = b.orders := by
  cases s <;> rfl

@[simp]
theorem heap_setLevel (level : LevelQueue) : (b.setLevel s t level).heap = b.heap :=
  heap_setSide _

@[simp]
theorem grid_setLevel (level : LevelQueue) : (b.setLevel s t level).grid = b.grid :=
  grid_setSide _

@[simp]
theorem nextRef_setLevel (level : LevelQueue) :
    (b.setLevel s t level).nextRef = b.nextRef :=
  nextRef_setSide _

@[simp]
theorem orders_setLevel (level : LevelQueue) : (b.setLevel s t level).orders = b.orders :=
  orders_setSide _

@[simp]
theorem level?_setLevel_self (level : LevelQueue) :
    (b.setLevel s t level).level? s t = some level := by
  simp [setLevel, level?]

theorem level?_setLevel_ne (level : LevelQueue) (h : (s', t') ≠ (s, t)) :
    (b.setLevel s t level).level? s' t' = b.level? s' t' := by
  by_cases hs : s' = s
  · subst hs
    have ht : t' ≠ t := fun ht => h (by rw [ht])
    simp [setLevel, level?, Dict.get?_set_ne _ _ ht]
  · simp [setLevel, level?, side_setSide_ne _ hs]

theorem ticks_setLevel (level : LevelQueue) :
    ((b.setLevel s t level).side s').ticks = (b.side s').ticks := by
  by_cases hs : s' = s
  · subst hs
    simp [setLevel]
  · rw [setLevel, side_setSide_ne _ hs]

/-! ## The invariant -/

/-- What a level always is, also while it is being changed. -/
structure LevelShape (b : OrderBook) (s : TradeSide) (t : ℤ) (level : LevelQueue) : Prop where
  ticks : level.ticks = t
  price : level.price = b.grid.fromTicks t
  known : ∀ r ∈ level.orders, r < b.nextRef
  belongs : ∀ r ∈ level.orders, (b.heap r).Belongs b.grid s t
  filled : ∀ r ∈ level.orders, 0 ≤ (b.heap r).filledQuantity
  paper_nodup : (level.orders.filter (isPaper b.heap)).Nodup

/-- What a level is between two operations. -/
structure LevelLive (heap : Heap) (orders : List Ref) : Prop where
  nonempty : orders ≠ []
  live : ∀ r ∈ orders, (heap r).isLive = true
  queue : QueueOk heap orders

/-- The two indexes of each side agree, and each level holds orders that belong to it. -/
structure Shape (b : OrderBook) : Prop where
  sorted : ∀ s, (b.side s).ticks.Pairwise (· < ·)
  keys : ∀ s t, t ∈ (b.side s).ticks ↔ ∃ level, b.level? s t = some level
  level : ∀ s t level, b.level? s t = some level → b.LevelShape s t level

/-- The representation invariant while one level is being changed. -/
structure OkExcept (b : OrderBook) (s : TradeSide) (t : ℤ) : Prop where
  shape : b.Shape
  live : ∀ s' t' level, (s', t') ≠ (s, t) → b.level? s' t' = some level →
    LevelLive b.heap level.orders

/-- The representation invariant. -/
structure Ok (b : OrderBook) : Prop where
  shape : b.Shape
  live : ∀ s t level, b.level? s t = some level → LevelLive b.heap level.orders

theorem Ok.except (h : b.Ok) (s : TradeSide) (t : ℤ) : b.OkExcept s t :=
  ⟨h.shape, fun s' t' level _ => h.live s' t' level⟩

/-- The invariant holds when the excepted level is as it should be. -/
theorem OkExcept.ok (h : b.OkExcept s t)
    (hlive : ∀ level, b.level? s t = some level → LevelLive b.heap level.orders) : b.Ok := by
  refine ⟨h.shape, ?_⟩
  intro s' t' level hlevel
  by_cases heq : (s', t') = (s, t)
  · cases heq
    exact hlive level hlevel
  · exact h.live s' t' level heq hlevel

theorem LevelShape.congr {b' : OrderBook} {level : LevelQueue} (h : b.LevelShape s t level)
    (hgrid : b'.grid = b.grid) (hnext : b.nextRef ≤ b'.nextRef)
    (hheap : ∀ r ∈ level.orders, b'.heap r = b.heap r) : b'.LevelShape s t level where
  ticks := h.ticks
  price := by rw [hgrid]; exact h.price
  known := fun r hr => (h.known r hr).trans_le hnext
  belongs := fun r hr => by rw [hgrid, hheap r hr]; exact h.belongs r hr
  filled := fun r hr => by rw [hheap r hr]; exact h.filled r hr
  paper_nodup := by
    have hfilter : level.orders.filter (isPaper b'.heap) =
        level.orders.filter (isPaper b.heap) :=
      List.filter_congr fun r hr => by rw [isPaper, isPaper, hheap r hr]
    rw [hfilter]
    exact h.paper_nodup

theorem LevelLive.congr {heap heap' : Heap} {orders : List Ref} (h : LevelLive heap orders)
    (hheap : ∀ r ∈ orders, heap' r = heap r) : LevelLive heap' orders where
  nonempty := h.nonempty
  live := fun r hr => by rw [hheap r hr]; exact h.live r hr
  queue := h.queue.congr hheap

/-- A level keeps its shape when only orders of one level changed. -/
theorem LevelShape.within {level : LevelQueue} (h : b.LevelShape s' t' level) {heap : Heap}
    (hw : Within b.grid s t b.heap heap) : (b.withHeap heap).LevelShape s' t' level where
  ticks := h.ticks
  price := h.price
  known := h.known
  belongs := fun r hr => hw.belongs (h.belongs r hr)
  filled := fun r hr => hw.filled (h.filled r hr)
  paper_nodup := by
    have hfilter : level.orders.filter (isPaper heap) =
        level.orders.filter (isPaper b.heap) :=
      List.filter_congr fun r _ => by rw [isPaper, isPaper, hw.owner r]
    show (level.orders.filter (isPaper heap)).Nodup
    rw [hfilter]
    exact h.paper_nodup

/-- A change of orders of the excepted level keeps the rest. -/
theorem OkExcept.within (h : b.OkExcept s t) {heap : Heap}
    (hw : Within b.grid s t b.heap heap) : (b.withHeap heap).OkExcept s t where
  shape :=
    { sorted := fun s' => by rw [side_withHeap]; exact h.shape.sorted s'
      keys := fun s' t' => by simpa using h.shape.keys s' t'
      level := fun s' t' level hlevel => by
        rw [level?_withHeap] at hlevel
        exact (h.shape.level s' t' level hlevel).within hw }
  live := fun s' t' level hne hlevel => by
    rw [level?_withHeap] at hlevel
    refine (h.live s' t' level hne hlevel).congr fun r hr => ?_
    exact hw.eq_of_elsewhere hne ((h.shape.level s' t' level hlevel).belongs r hr)

/-- Replacing the queue of the excepted level keeps the rest. -/
theorem OkExcept.setLevel {level level' : LevelQueue} (h : b.OkExcept s t)
    (hlevel : b.level? s t = some level) (hshape : b.LevelShape s t level') :
    (b.setLevel s t level').OkExcept s t where
  shape :=
    { sorted := fun s' => by rw [ticks_setLevel]; exact h.shape.sorted s'
      keys := fun s' t' => by
        rw [ticks_setLevel, h.shape.keys]
        by_cases heq : (s', t') = (s, t)
        · cases heq
          simp [hlevel]
        · rw [level?_setLevel_ne _ heq]
      level := fun s' t' found hfound => by
        by_cases heq : (s', t') = (s, t)
        · cases heq
          rw [level?_setLevel_self, Option.some.injEq] at hfound
          subst hfound
          exact hshape.congr (by simp) (by simp) (by simp)
        · rw [level?_setLevel_ne _ heq] at hfound
          exact (h.shape.level s' t' found hfound).congr (by simp) (by simp) (by simp) }
  live := fun s' t' found hne hfound => by
    rw [level?_setLevel_ne _ hne] at hfound
    rw [heap_setLevel]
    exact h.live s' t' found hne hfound

/-- A heap that agrees on all resting orders keeps the invariant. -/
theorem Ok.congr {b' : OrderBook} (h : b.Ok) (hside : ∀ s, b'.side s = b.side s)
    (hgrid : b'.grid = b.grid) (hnext : b.nextRef ≤ b'.nextRef)
    (hheap : ∀ s t level, b.level? s t = some level → ∀ r ∈ level.orders,
      b'.heap r = b.heap r) : b'.Ok := by
  have hlevel : ∀ s t, b'.level? s t = b.level? s t := fun s t => by
    rw [level?, level?, hside]
  refine ⟨⟨?_, ?_, ?_⟩, ?_⟩
  · intro s
    rw [hside]
    exact h.shape.sorted s
  · intro s t
    rw [hside, hlevel]
    exact h.shape.keys s t
  · intro s t level hl
    rw [hlevel] at hl
    exact (h.shape.level s t level hl).congr hgrid hnext (hheap s t level hl)
  · intro s t level hl
    rw [hlevel] at hl
    exact (h.live s t level hl).congr (hheap s t level hl)

/-! ## Pruning -/

theorem refresh_within {orders : List Ref} (grid : TickGrid) (heap : Heap)
    (h : ∀ r ∈ orders, (heap r).Belongs grid s t) :
    Within grid s t heap (refreshQueuePositions orders heap) := by
  intro r
  by_cases hr : r ∈ orders
  · have hsame := refreshFrom_sansQueue 0 orders heap r
    rcases fields_of_sansQueue hsame with ⟨-, -, howner, hside, hlimit, hid, hfilled⟩
    refine Or.inr ⟨h r hr, ?_, howner, hid, fun hf => hfilled.symm ▸ hf⟩
    unfold Order.Belongs
    rw [refreshQueuePositions, hside, hlimit]
    exact h r hr
  · exact Or.inl (refreshFrom_of_notMem 0 heap hr)

/-- The orders that survive a prune keep the shape of their level. -/
theorem LevelShape.sub {level : LevelQueue} {kept : List Ref} (h : b.LevelShape s t level)
    (hsub : kept.Sublist level.orders) :
    b.LevelShape s t { level with orders := kept } where
  ticks := h.ticks
  price := h.price
  known := fun r hr => h.known r (hsub.subset hr)
  belongs := fun r hr => h.belongs r (hsub.subset hr)
  filled := fun r hr => h.filled r (hsub.subset hr)
  paper_nodup := h.paper_nodup.sublist (hsub.filter _)

/-- A level that lost all its orders disappears from both indexes. -/
theorem OkExcept.dropLevel (h : b.OkExcept s t) :
    (b.setSide s
      { levels := (b.side s).levels.erase t, ticks := popKey (b.side s).ticks t }).Ok := by
  have hlevel : ∀ s' t' level,
      (b.setSide s { levels := (b.side s).levels.erase t
                     ticks := popKey (b.side s).ticks t }).level? s' t' = some level ↔
        (s', t') ≠ (s, t) ∧ b.level? s' t' = some level := by
    intro s' t' level
    by_cases hs : s' = s
    · subst hs
      by_cases ht : t' = t
      · subst ht
        simp [level?]
      · simp [level?, Dict.get?_erase_ne _ ht, ht]
    · simp [level?, side_setSide_ne _ hs, hs]
  refine ⟨⟨?_, ?_, ?_⟩, ?_⟩
  · intro s'
    by_cases hs : s' = s
    · subst hs
      rw [side_setSide_self]
      exact popKey_pairwise (h.shape.sorted s') t
    · rw [side_setSide_ne _ hs]
      exact h.shape.sorted s'
  · intro s' t'
    simp only [hlevel, exists_and_left, ← h.shape.keys]
    by_cases hs : s' = s
    · subst hs
      rw [side_setSide_self, mem_popKey (h.shape.sorted s')]
      simp only [ne_eq, Prod.mk.injEq, true_and]
      exact And.comm
    · rw [side_setSide_ne _ hs]
      simp [hs]
  · intro s' t' level hl
    rcases (hlevel s' t' level).mp hl with ⟨-, hl'⟩
    exact (h.shape.level s' t' level hl').congr (by simp) (by simp) (by simp)
  · intro s' t' level hl
    rcases (hlevel s' t' level).mp hl with ⟨hne, hl'⟩
    rw [heap_setSide]
    exact h.live s' t' level hne hl'

/-- Pruning the touched level restores the invariant. -/
theorem prune_ok (h : b.OkExcept s t) : (b.prune s t).Ok := by
  unfold prune
  cases hl : b.level? s t with
  | none => exact h.ok (by simp [hl])
  | some level =>
    have hlevel := h.shape.level s t level hl
    have hsub : (level.orders.filter fun r => (b.heap r).isLive).Sublist level.orders :=
      List.filter_sublist
    simp only
    split
    · rename_i hempty
      rw [hempty]
      exact (OkExcept.dropLevel h).congr (fun s' => by cases s <;> cases s' <;> rfl)
        (by simp) (by simp) (fun _ _ _ _ _ _ => by simp [refreshQueuePositions, refreshFrom])
    · rename_i hkept
      have hshape := hlevel.sub hsub
      have hw := refresh_within b.grid b.heap hshape.belongs
      have hlevel' : (b.withHeap (refreshQueuePositions (level.orders.filter fun r =>
          (b.heap r).isLive) b.heap)).level? s t = some level := by
        rw [level?_withHeap]
        exact hl
      have hexcept := (h.within hw).setLevel hlevel' (hshape.within hw)
      have hok := hexcept.ok fun found hfound => by
        rw [level?_setLevel_self, Option.some.injEq] at hfound
        subst hfound
        rw [heap_setLevel]
        refine ⟨hkept, ?_, queueOk_refresh hshape.paper_nodup⟩
        intro r hr
        have hsame := refreshFrom_sansQueue 0
          (level.orders.filter fun r => (b.heap r).isLive) b.heap r
        exact (isLive_of_sansQueue hsame).trans
          (List.of_mem_filter (p := fun r => (b.heap r).isLive) hr)
      exact hok.congr (fun s' => by cases s <;> cases s' <;> rfl) (by simp [withHeap])
        (by simp [withHeap]) (fun _ _ _ _ _ _ => by simp [withHeap])

/-! ## Resting and cancelling -/

/-- What `_level` with creation returns: a level whose orders were there before. -/
theorem ensureLevel_spec (h : b.Ok) (s : TradeSide) (t : ℤ) :
    ∃ level, (b.ensureLevel s t).level? s t = some level ∧ (b.ensureLevel s t).OkExcept s t ∧
      (∀ r ∈ level.orders, (b.heap r).isLive = true) ∧ QueueOk b.heap level.orders ∧
        (∀ r ∈ level.orders, ∃ old, b.level? s t = some old ∧ r ∈ old.orders) := by
  unfold ensureLevel
  cases hl : b.level? s t with
  | some level =>
    have hlive := h.live s t level hl
    exact ⟨level, hl, h.except s t, hlive.live, hlive.queue, fun r hr => ⟨level, rfl, hr⟩⟩
  | none =>
    have habsent : t ∉ (b.side s).ticks := by
      rw [h.shape.keys, hl]
      simp
    have hlevel : ∀ s' t' level,
        (b.setSide s { levels := (b.side s).levels.set t
                          { price := b.grid.fromTicks t, ticks := t, orders := [] }
                       ticks := insort (b.side s).ticks t }).level? s' t' = some level ↔
          ((s', t') = (s, t) ∧ level = ⟨b.grid.fromTicks t, t, []⟩) ∨
            ((s', t') ≠ (s, t) ∧ b.level? s' t' = some level) := by
      intro s' t' level
      by_cases hs : s' = s
      · subst hs
        by_cases ht : t' = t
        · subst ht
          simp [level?, eq_comm]
        · simp [level?, Dict.get?_set_ne _ _ ht, ht]
      · simp [level?, side_setSide_ne _ hs, hs]
    refine ⟨⟨b.grid.fromTicks t, t, []⟩, ?_, ⟨⟨?_, ?_, ?_⟩, ?_⟩, by simp, ?_, by simp⟩
    · rw [hlevel]
      exact Or.inl ⟨rfl, rfl⟩
    · intro s'
      by_cases hs : s' = s
      · subst hs
        rw [side_setSide_self]
        exact insort_pairwise (h.shape.sorted s') habsent
      · rw [side_setSide_ne _ hs]
        exact h.shape.sorted s'
    · intro s' t'
      simp only [hlevel]
      by_cases hs : s' = s
      · subst hs
        rw [side_setSide_self, mem_insort, h.shape.keys]
        by_cases ht : t' = t
        · simp [ht]
        · simp [ht]
      · rw [side_setSide_ne _ hs, h.shape.keys]
        simp [hs]
    · intro s' t' level hfound
      rcases (hlevel s' t' level).mp hfound with ⟨heq, rfl⟩ | ⟨-, hold⟩
      · cases heq
        exact ⟨rfl, by simp, by simp, by simp, by simp, by simp⟩
      · exact (h.shape.level s' t' level hold).congr (by simp) (by simp) (by simp)
    · intro s' t' level hne hfound
      rcases (hlevel s' t' level).mp hfound with ⟨heq, -⟩ | ⟨-, hold⟩
      · exact absurd heq hne
      · rw [heap_setSide]
        exact h.live s' t' level hold
    · intro front r back hsplit
      simp at hsplit

@[simp]
theorem heap_ensureLevel : (b.ensureLevel s t).heap = b.heap := by
  unfold ensureLevel
  split <;> simp

@[simp]
theorem grid_ensureLevel : (b.ensureLevel s t).grid = b.grid := by
  unfold ensureLevel
  split <;> simp

@[simp]
theorem nextRef_ensureLevel : (b.ensureLevel s t).nextRef = b.nextRef := by
  unfold ensureLevel
  split <;> simp

/-- An order may rest: it has size left, and a started one is active. -/
structure Restable (o : Order) : Prop where
  remaining : eps < o.remainingQuantity
  filled : 0 ≤ o.filledQuantity
  active : 0 < o.filledQuantity → o.isActive = true

/-- An order that enters a level is live. -/
theorem entered_isLive {o : Order} (h : Restable o) (limit ahead now : ℚ) :
    (entered o limit ahead now).isLive = true := by
  have hrem : (entered o limit ahead now).remainingQuantity = o.remainingQuantity := rfl
  have hact : (entered o limit ahead now).isActive = true := by
    by_cases hf : o.filledQuantity ≤ 0
    · simp [Order.isActive, entered, hf]
    · have := h.active (not_le.mp hf)
      simpa [Order.isActive, entered, hf] using this
  simp [Order.isLive, hrem, hact, h.remaining]

/-- The limit an order keeps when it rests is at the same tick. -/
theorem restingLimit_ticks (o : Order) (limit : ℚ) :
    b.grid.toTicks (b.restingLimit o limit) = b.grid.toTicks limit := by
  unfold restingLimit
  split
  · exact b.grid.toTicks_fromTicks _
  · rfl

/-- No level holds the reference. -/
def Unlisted (b : OrderBook) (r : Ref) : Prop :=
  ∀ s t level, b.level? s t = some level → r ∉ level.orders

/-- One more order at the back of a level keeps the shape of the level. -/
theorem LevelShape.append {level : LevelQueue} {r : Ref} (h : b.LevelShape s t level)
    (hknown : r < b.nextRef) (hbelongs : (b.heap r).Belongs b.grid s t)
    (hfilled : 0 ≤ (b.heap r).filledQuantity) (hnew : r ∉ level.orders) :
    b.LevelShape s t { level with orders := level.orders ++ [r] } where
  ticks := h.ticks
  price := h.price
  known := by simpa [or_imp, forall_and] using And.intro h.known hknown
  belongs := by simpa [or_imp, forall_and] using And.intro h.belongs hbelongs
  filled := by simpa [or_imp, forall_and] using And.intro h.filled hfilled
  paper_nodup := by
    rw [List.filter_append]
    refine h.paper_nodup.append ((List.nodup_singleton r).filter _) ?_
    intro q hq hq'
    have hqr : q = r := by simpa using (List.mem_filter.mp hq').1
    exact hnew (hqr ▸ (List.mem_filter.mp hq).1)

/-- A live order that knows the size in front of it may join the excepted level. -/
theorem join_ok {level : LevelQueue} {r : Ref} {o : Order} (h : b.OkExcept s t)
    (hlevel : b.level? s t = some level) (hlive : ∀ q ∈ level.orders, (b.heap q).isLive = true)
    (hqueue : QueueOk b.heap level.orders) (hknown : r < b.nextRef)
    (hnew : r ∉ level.orders) (htouch : Touched b.grid s t (b.heap r) o)
    (hfilled : 0 ≤ (b.heap r).filledQuantity) (hlast : o.isLive = true)
    (hahead : o.queueAhead = totalSize b.heap level.orders) :
    ((b.withHeap (Function.update b.heap r o)).setLevel s t
      { level with orders := level.orders ++ [r] }).Ok := by
  have hw : Within b.grid s t b.heap (Function.update b.heap r o) := Within.update htouch
  have hself : Function.update b.heap r o r = o := Function.update_self ..
  have hsame : ∀ q ∈ level.orders, Function.update b.heap r o q = b.heap q := by
    intro q hq
    have hne : q ≠ r := fun heq => hnew (heq ▸ hq)
    exact Function.update_of_ne hne ..
  have hshape := ((h.shape.level s t level hlevel).append hknown htouch.belongs hfilled
    hnew).within hw
  refine ((h.within hw).setLevel (by simpa using hlevel) hshape).ok ?_
  intro found hfound
  rw [level?_setLevel_self, Option.some.injEq] at hfound
  subst hfound
  rw [heap_setLevel]
  refine ⟨by simp, ?_, QueueOk.append (hqueue.congr hsame) ?_⟩
  · intro q hq
    rcases List.mem_append.mp hq with hold | hlast'
    · show (Function.update b.heap r o q).isLive = true
      rw [hsame q hold]
      exact hlive q hold
    · rw [List.mem_singleton.mp hlast']
      show (Function.update b.heap r o r).isLive = true
      rw [hself]
      exact hlast
  · show (Function.update b.heap r o r).queueAhead = _
    rw [hself, hahead]
    exact (totalSize_congr fun q hq => congrArg Order.remainingQuantity (hsame q hq)).symm

/-- Resting an order that rests nowhere keeps the invariant. -/
theorem addOrder_ok (h : b.Ok) {r : Ref} (hr : r < b.nextRef) (hnew : b.Unlisted r)
    (hrest : Restable (b.heap r)) (now : ℚ) : (b.addOrder r now).Ok := by
  unfold addOrder
  simp only
  cases hlimit : (b.heap r).limitPrice with
  | none => exact h
  | some limit =>
    simp only
    rcases ensureLevel_spec h (b.heap r).side (b.grid.toTicks limit) with
      ⟨level, hlevel, hexcept, hlive, hqueue, hold⟩
    rw [hlevel]
    simp only
    have hnotin : r ∉ level.orders := fun hmem => by
      rcases hold r hmem with ⟨old, hfound, hmem'⟩
      exact hnew _ _ old hfound hmem'
    have hbelongs : (b.heap r).Belongs b.grid (b.heap r).side (b.grid.toTicks limit) :=
      ⟨rfl, by rw [hlimit]; rfl⟩
    have htouch : Touched b.grid (b.heap r).side (b.grid.toTicks limit) (b.heap r)
        (entered (b.heap r) (b.restingLimit (b.heap r) limit)
          (totalSize b.heap level.orders) now) :=
      ⟨hbelongs, ⟨rfl, congrArg some (restingLimit_ticks _ _)⟩, rfl, rfl, fun hf => hf⟩
    have hjoin := join_ok hexcept hlevel (by simpa using hlive) (by simpa using hqueue)
      (by simpa using hr) hnotin (by simpa using htouch) (by simpa using hrest.filled)
      (entered_isLive hrest _ _ _) (by simp [entered])
    refine hjoin.congr (fun s' => ?_) (by simp [modify, withHeap]) (by simp [modify, withHeap])
      (fun _ _ _ _ _ _ => by simp [modify, withHeap])
    cases (b.heap r).side <;> cases s' <;> simp [setLevel, setSide, side, modify, withHeap]

/-- A new order object changes nothing that rests. -/
theorem alloc_ok (h : b.Ok) (o : Order) : (b.alloc o).Ok := by
  refine h.congr (fun s => by cases s <;> rfl) rfl (Nat.le_succ _) ?_
  intro s t level hlevel r hr
  have hlt := (h.shape.level s t level hlevel).known r hr
  exact Function.update_of_ne hlt.ne ..

/-- A new order object rests nowhere. -/
theorem unlisted_alloc (h : b.Ok) (o : Order) : (b.alloc o).Unlisted b.nextRef := by
  intro s t level hlevel hmem
  have hlevel' : b.level? s t = some level := by cases s <;> exact hlevel
  exact absurd ((h.shape.level s t level hlevel').known _ hmem) (lt_irrefl _)

/-- A new order object joins the book. -/
theorem addNew_ok (h : b.Ok) {o : Order} (ho : Restable o) (now : ℚ) :
    ((b.alloc o).addOrder b.nextRef now).Ok := by
  refine addOrder_ok (alloc_ok h o) (Nat.lt_succ_self _) (unlisted_alloc h o) ?_ now
  show Restable (Function.update b.heap b.nextRef o b.nextRef)
  rwa [Function.update_self]

theorem cancellable_spec {id : String} {r : Ref} {limit : ℚ}
    (h : b.cancellable id = some (r, limit)) :
    b.orders.get? id = some r ∧ (b.heap r).isActive = true ∧
      (b.heap r).limitPrice = some limit := by
  unfold cancellable at h
  rcases Option.bind_eq_some_iff.mp h with ⟨q, hq, hrest⟩
  split at hrest
  · rename_i hactive
    rcases Option.map_eq_some_iff.mp hrest with ⟨l, hl, heq⟩
    cases heq
    exact ⟨hq, hactive, hl⟩
  · cases hrest

/-- Marking an order cancelled touches its own level. -/
theorem cancel_okExcept (h : b.Ok) {id : String} {r : Ref} {limit : ℚ}
    (hfound : b.cancellable id = some (r, limit)) :
    (b.modify r (withStatus .cancelled)).OkExcept (b.heap r).side (b.grid.toTicks limit) := by
  have hbelongs : (b.heap r).Belongs b.grid (b.heap r).side (b.grid.toTicks limit) :=
    ⟨rfl, by rw [(cancellable_spec hfound).2.2]; rfl⟩
  refine (h.except (b.heap r).side (b.grid.toTicks limit)).within (Within.update ?_)
  exact ⟨hbelongs, hbelongs, rfl, rfl, fun hf => hf⟩

/-- `cancel_order` keeps the invariant. -/
theorem cancelOrder_ok (h : b.Ok) (id : String) : (b.cancelOrder id).1.Ok := by
  unfold cancelOrder
  cases hfound : b.cancellable id with
  | none => exact h
  | some found =>
    rcases found with ⟨r, limit⟩
    have hexcept := cancel_okExcept h hfound
    simp only
    cases hl : (b.modify r (withStatus .cancelled)).level? (b.heap r).side
        (b.grid.toTicks limit) with
    | none =>
      refine hexcept.ok ?_
      intro level hlevel
      rw [hlevel] at hl
      cases hl
    | some level =>
      have hshape := hexcept.shape.level _ _ level hl
      exact prune_ok (hexcept.setLevel hl (hshape.sub List.eraseP_sublist))

/-! ## Sweeps -/

/-- What a sweep may do to an order it hits. -/
structure Sweeper.Sound (k : Sweeper) : Prop where
  side : ∀ p q o, (k.hit p q o).side = o.side
  limitPrice : ∀ p q o, (k.hit p q o).limitPrice = o.limitPrice
  owner : ∀ p q o, (k.hit p q o).owner = o.owner
  orderId : ∀ p q o, (k.hit p q o).orderId = o.orderId
  filled : ∀ p q o, 0 ≤ q → 0 ≤ o.filledQuantity → 0 ≤ (k.hit p q o).filledQuantity

theorem Sweeper.Sound.touched {k : Sweeper} (hk : k.Sound) {grid : TickGrid} {o : Order}
    (ho : o.Belongs grid s t) (price : ℚ) {quantity : ℚ} (hq : 0 ≤ quantity) :
    Touched grid s t o (k.hit price quantity o) where
  belongs := ho
  stays := ⟨(hk.side ..).trans ho.1, by rw [hk.limitPrice]; exact ho.2⟩
  owner := hk.owner ..
  orderId := hk.orderId ..
  filled := hk.filled _ _ _ hq

theorem aggressorSweep_sound (skipPaper : Bool) (timestamp : ℚ) :
    (aggressorSweep skipPaper timestamp).Sound where
  side := fun _ _ _ => rfl
  limitPrice := fun _ _ _ => rfl
  owner := fun _ _ _ => rfl
  orderId := fun _ _ _ => rfl
  filled := fun _ _ _ hq hf => add_nonneg hf hq

theorem printSweep_sound (timestamp : ℚ) : (printSweep timestamp).Sound where
  side := fun _ _ o => by simp only [printSweep]; cases o.owner <;> rfl
  limitPrice := fun _ _ o => by simp only [printSweep]; cases o.owner <;> rfl
  owner := fun _ _ o => by
    simp only [printSweep]
    cases ho : o.owner <;> simp [Order.recordFill, ho]
  orderId := fun _ _ o => by simp only [printSweep]; cases o.owner <;> rfl
  filled := fun _ _ o hq hf => by
    simp only [printSweep]
    cases o.owner with
    | market => exact hf
    | paper => exact add_nonneg hf hq

/-- The loop over a level changes orders of that level only. -/
theorem walkLevel_within {k : Sweeper} (hk : k.Sound) {grid : TickGrid} (price : ℚ)
    {orders : List Ref} {heap : Heap} (remaining : ℚ)
    (h : ∀ r ∈ orders, (heap r).Belongs grid s t) :
    Within grid s t heap (walkLevel k price orders heap remaining).heap := by
  induction orders generalizing heap remaining with
  | nil => exact Within.refl
  | cons r rest ih =>
    have hrest : ∀ q ∈ rest, (heap q).Belongs grid s t :=
      fun q hq => h q (List.mem_cons_of_mem r hq)
    simp only [walkLevel]
    split
    · exact Within.refl
    · split
      · exact ih remaining hrest
      · split
        · exact ih remaining hrest
        · rename_i hqty
          have hpos : 0 ≤ min remaining (heap r).remainingQuantity :=
            (eps_pos.trans (not_le.mp hqty)).le
          have hw := Within.update (r := r)
            (hk.touched (h r (List.mem_cons_self ..)) price hpos)
          have hrun := ih (remaining - min remaining (heap r).remainingQuantity)
            fun q hq => hw.belongs (hrest q hq)
          split
          · exact hw.trans hrun
          · exact hw.trans hrun

/-- A sweep over levels keeps the invariant. -/
theorem walk_ok {k : Sweeper} (hk : k.Sound) (passive : TradeSide) (beyond : ℤ → Bool)
    (ticks : List ℤ) (h : b.Ok) (remaining : ℚ) :
    (walk k passive beyond ticks b remaining).book.Ok := by
  induction ticks generalizing b remaining with
  | nil => exact h
  | cons t rest ih =>
    simp only [walk]
    split
    · exact h
    · cases hl : b.level? passive t with
      | none => exact h
      | some level =>
        have hw := walkLevel_within hk level.price remaining
          (h.shape.level passive t level hl).belongs
        exact ih (prune_ok ((h.except passive t).within hw)) _

/-- `consume_liquidity` keeps the invariant. -/
theorem consumeLiquidity_ok (h : b.Ok) (aggressor : TradeSide) (quantity timestamp : ℚ)
    (limitPrice : Option ℚ) (skipPaper : Bool) :
    (b.consumeLiquidity aggressor quantity timestamp limitPrice skipPaper).1.Ok := by
  have hwalk := walk_ok (aggressorSweep_sound skipPaper timestamp) aggressor.opposite
    (b.beyondLimit aggressor limitPrice) (b.bestFirst aggressor) h quantity
  simp only [consumeLiquidity]
  split
  · exact hwalk
  · exact hwalk.congr (fun s => by cases s <;> rfl) rfl le_rfl fun _ _ _ _ _ _ => rfl

/-! ## Feed events -/

theorem Ok.lastTrade (h : b.Ok) (price size : Option ℚ) :
    { b with lastTradePrice := price, lastTradeSize := size : OrderBook }.Ok :=
  h.congr (fun s => by cases s <;> rfl) rfl le_rfl fun _ _ _ _ _ _ => rfl

theorem Ok.lastEvent (h : b.Ok) (timestamp : ℚ) :
    { b with lastEventTime := timestamp : OrderBook }.Ok :=
  h.congr (fun s => by cases s <;> rfl) rfl le_rfl fun _ _ _ _ _ _ => rfl

theorem insertFeed_ok (h : b.Ok) (event : BookEvent) (uuid : HexId) {quantity : ℚ}
    (hq : eps < quantity) (limit : ℚ) : (b.insertFeed event uuid quantity limit).Ok := by
  refine addNew_ok h ⟨?_, ?_, ?_⟩ _
  · simpa [feedOrder, Order.new, Order.remainingQuantity] using hq
  · simp [feedOrder, Order.new]
  · simp [feedOrder, Order.new]

theorem applyAdd_ok (h : b.Ok) (event : BookEvent) (uuid : HexId) :
    (b.applyAdd event uuid).Ok := by
  unfold applyAdd
  split
  · rename_i hsize
    exact insertFeed_ok h event uuid hsize _
  · exact h

/-- Rewriting one order of the excepted level. -/
theorem OkExcept.modify {level : LevelQueue} (h : b.OkExcept s t)
    (hlevel : b.level? s t = some level) {r : Ref} (hr : r ∈ level.orders)
    {f : Order → Order} (hf : ∀ o, (f o).side = o.side ∧ (f o).limitPrice = o.limitPrice ∧
      (f o).owner = o.owner ∧ (f o).orderId = o.orderId ∧
        (f o).filledQuantity = o.filledQuantity) :
    (b.modify r f).OkExcept s t := by
  have hbelongs := (h.shape.level s t level hlevel).belongs r hr
  rcases hf (b.heap r) with ⟨hside, hlimit, howner, hid, hfilled⟩
  refine h.within (Within.update ⟨hbelongs, ⟨?_, ?_⟩, howner, hid, ?_⟩)
  · exact hside.trans hbelongs.1
  · rw [hlimit]
    exact hbelongs.2
  · exact fun hnn => hfilled.symm ▸ hnn

theorem knownIn_mem {event : BookEvent} {level : LevelQueue} {r : Ref}
    (h : b.knownIn event level = some r) :
    r ∈ level.orders ∧ (b.heap r).owner = .market := by
  unfold knownIn at h
  have := Option.filter_eq_some_iff.mp h
  simp only [isMarket, Bool.and_eq_true, decide_eq_true_eq] at this
  exact ⟨this.2.2, this.2.1⟩

theorem changeKnown_okExcept (h : b.Ok) {event : BookEvent} {t : ℤ} {level : LevelQueue}
    {r : Ref} (hlevel : b.level? event.side t = some level)
    (hr : b.knownIn event level = some r) :
    (b.changeKnown event t level r).OkExcept event.side t := by
  rcases knownIn_mem hr with ⟨hmem, hmarket⟩
  have hcancel := (h.except event.side t).modify hlevel hmem (f := cancelSize event.size)
    fun o => ⟨rfl, rfl, rfl, rfl, rfl⟩
  have hresize := (h.except event.side t).modify hlevel hmem (f := resize event.size)
    fun o => ⟨rfl, rfl, rfl, rfl, rfl⟩
  unfold changeKnown
  split
  · exact hcancel
  · split
    · exact hresize
    · have hshape := hresize.shape.level _ _ level (by simpa using hlevel)
      refine hresize.setLevel (by simpa using hlevel) ?_
      have hsub := hshape.sub
        (List.eraseP_sublist (p := fun q => (b.heap q).orderId = (b.heap r).orderId))
      refine ⟨hsub.ticks, hsub.price, ?_, ?_, ?_, ?_⟩
      · intro q hq
        rcases List.mem_append.mp hq with hq | hq
        · exact hsub.known q hq
        · exact List.mem_singleton.mp hq ▸ hshape.known r hmem
      · intro q hq
        rcases List.mem_append.mp hq with hq | hq
        · exact hsub.belongs q hq
        · exact List.mem_singleton.mp hq ▸ hshape.belongs r hmem
      · intro q hq
        rcases List.mem_append.mp hq with hq | hq
        · exact hsub.filled q hq
        · exact List.mem_singleton.mp hq ▸ hshape.filled r hmem
      · -- the order that moves to the back is no paper order
        have hnotpaper : isPaper (b.modify r (resize event.size)).heap r = false := by
          simp [isPaper, OrderBook.modify, resize, hmarket]
        show ((removeId b.heap (b.heap r).orderId level.orders ++ [r]).filter _).Nodup
        rw [List.filter_append, List.filter_cons_of_neg (by simp [hnotpaper]),
          List.filter_nil, List.append_nil]
        exact hsub.paper_nodup

/-- Shrinking orders of the excepted level. -/
theorem foldl_shrink_okExcept {level : LevelQueue} (share : ℚ) {refs : List Ref}
    (h : b.OkExcept s t) (hlevel : b.level? s t = some level)
    (hrefs : ∀ r ∈ refs, r ∈ level.orders) :
    (refs.foldl (fun b r => b.modify r (shrink share)) b).OkExcept s t := by
  induction refs generalizing b with
  | nil => exact h
  | cons r rest ih =>
    rw [List.foldl_cons]
    refine ih ?_ (by simpa using hlevel) fun q hq => hrefs q (List.mem_cons_of_mem r hq)
    exact h.modify hlevel (hrefs r (List.mem_cons_self ..)) fun o =>
      ⟨rfl, rfl, rfl, rfl, rfl⟩

theorem reduceMarket_okExcept {level : LevelQueue} (h : b.OkExcept s t)
    (hlevel : b.level? s t = some level) (amount : ℚ) :
    (b.reduceMarket level amount).OkExcept s t := by
  unfold reduceMarket
  simp only
  split
  · exact h
  · exact foldl_shrink_okExcept _ h hlevel fun r hr => List.mem_of_mem_filter hr

theorem changeAggregated_okExcept (h : b.Ok) {event : BookEvent} {t : ℤ}
    {level : LevelQueue} (uuid : HexId) (hlevel : b.level? event.side t = some level) :
    (b.changeAggregated event uuid level).OkExcept event.side t := by
  unfold changeAggregated
  simp only
  split
  · exact reduceMarket_okExcept (h.except event.side t) hlevel _
  · split
    · rename_i htarget
      refine (insertFeed_ok h event uuid ?_ _).except event.side t
      exact lt_sub_iff_add_lt'.mpr htarget
    · exact h.except event.side t

/-- The CANCEL and MODIFY branch keeps the invariant. -/
theorem applyChange_ok (h : b.Ok) (event : BookEvent) (uuid : HexId) :
    (b.applyChange event uuid).Ok := by
  unfold applyChange
  simp only
  cases hlevel : b.level? event.side (b.grid.toTicks event.price) with
  | none =>
    simp only
    split
    · exact applyAdd_ok h event uuid
    · exact h
  | some level =>
    simp only
    cases hknown : b.knownIn event level with
    | none => exact prune_ok (changeAggregated_okExcept h uuid hlevel)
    | some r => exact prune_ok (changeKnown_okExcept h hlevel hknown)

/-- The TRADE branch keeps the invariant. -/
theorem applyTrade_ok (h : b.Ok) (event : BookEvent) : (b.applyTrade event).1.Ok :=
  walk_ok (printSweep_sound event.timestamp) _ _ _ (h.lastTrade _ _) _

/-- `apply_market_event` keeps the invariant. -/
theorem applyMarketEvent_ok (h : b.Ok) (event : BookEvent) (uuid : HexId) :
    (b.applyMarketEvent event uuid).1.Ok := by
  have hlast := h.lastEvent event.timestamp
  unfold applyMarketEvent
  cases event.eventType with
  | add => exact applyAdd_ok hlast event uuid
  | cancel => exact applyChange_ok hlast event uuid
  | modify => exact applyChange_ok hlast event uuid
  | trade => exact applyTrade_ok hlast event

theorem empty_ok (grid : TickGrid) (symbol : String) : (OrderBook.empty grid symbol).Ok := by
  have hnone : ∀ s t, (OrderBook.empty grid symbol).level? s t = none := by
    intro s t
    cases s <;> rfl
  refine ⟨⟨?_, ?_, ?_⟩, ?_⟩
  · intro s
    cases s <;> exact List.Pairwise.nil
  · intro s t
    rw [hnone]
    cases s <;> simp [OrderBook.empty, OrderBook.side]
  · intro s t level hlevel
    rw [hnone] at hlevel
    cases hlevel
  · intro s t level hlevel
    rw [hnone] at hlevel
    cases hlevel

/-! ## Whole runs -/

instance (o : Order) : Decidable (Restable o) :=
  decidable_of_iff (eps < o.remainingQuantity ∧ 0 ≤ o.filledQuantity ∧
    (0 < o.filledQuantity → o.isActive = true))
    ⟨fun h => ⟨h.1, h.2.1, h.2.2⟩, fun h => ⟨h.remaining, h.filled, h.active⟩⟩

/-- An operation on the book. -/
inductive Op
  | addOrder (order : Order) (now : ℚ)
  | cancelOrder (orderId : String)
  | consumeLiquidity (side : TradeSide) (quantity timestamp : ℚ) (limitPrice : Option ℚ)
      (skipPaper : Bool)
  | applyMarketEvent (event : BookEvent) (uuid : HexId)

/-- One operation; `add_order` gets a new object that may rest. -/
def step (b : OrderBook) : Op → Option OrderBook
  | .addOrder order now =>
    if Restable order then some ((b.alloc order).addOrder b.nextRef now) else none
  | .cancelOrder orderId => some (b.cancelOrder orderId).1
  | .consumeLiquidity side quantity timestamp limitPrice skipPaper =>
    some (b.consumeLiquidity side quantity timestamp limitPrice skipPaper).1
  | .applyMarketEvent event uuid => some (b.applyMarketEvent event uuid).1

/-- A book that starts empty. -/
def machine (grid : TickGrid) (symbol : String) : Machine OrderBook Op where
  init := OrderBook.empty grid symbol
  step := step

/-- Every operation keeps the invariant. -/
theorem step_ok {b b' : OrderBook} {op : Op} (hstep : b.step op = some b') (h : b.Ok) :
    b'.Ok := by
  cases op with
  | addOrder order now =>
    simp only [step] at hstep
    split at hstep
    · rename_i hrest
      cases hstep
      exact addNew_ok h hrest now
    · cases hstep
  | cancelOrder orderId =>
    cases hstep
    exact cancelOrder_ok h orderId
  | consumeLiquidity side quantity timestamp limitPrice skipPaper =>
    cases hstep
    exact consumeLiquidity_ok h side quantity timestamp limitPrice skipPaper
  | applyMarketEvent event uuid =>
    cases hstep
    exact applyMarketEvent_ok h event uuid

/-- What the two level indexes and the queues of a book promise. -/
structure Representation (b : OrderBook) : Prop where
  /-- the tick lists are strictly ascending -/
  sorted : ∀ s, (b.side s).ticks.Pairwise (· < ·)
  /-- they hold exactly the keys of the level dictionaries -/
  keys : ∀ s t, t ∈ (b.side s).ticks ↔ t ∈ (b.side s).levels.keys
  /-- no level is empty -/
  nonempty : ∀ s t level, b.level? s t = some level → level.orders ≠ []
  /-- a resting order is active, has size left, and rests at its own side and tick -/
  resting : ∀ s t level, b.level? s t = some level → ∀ r ∈ level.orders,
    (b.heap r).isActive = true ∧ eps < (b.heap r).remainingQuantity ∧ (b.heap r).side = s ∧
      ∃ limit, (b.heap r).limitPrice = some limit ∧ b.grid.toTicks limit = t
  /-- a paper order knows the remaining size of all orders in front of it -/
  queue : ∀ s t level, b.level? s t = some level → ∀ front r back,
    level.orders = front ++ r :: back → (b.heap r).owner = .paper →
      (b.heap r).queueAhead = (front.map fun q => (b.heap q).remainingQuantity).sum

theorem Ok.representation (h : b.Ok) : b.Representation where
  sorted := h.shape.sorted
  keys := fun s t => by
    rw [h.shape.keys, level?, ← not_iff_not, ← Dict.get?_eq_none_iff,
      Option.eq_none_iff_forall_ne_some, not_exists]
  nonempty := fun s t level hlevel => (h.live s t level hlevel).nonempty
  resting := fun s t level hlevel r hr => by
    have hlive := (h.live s t level hlevel).live r hr
    have hbelongs := (h.shape.level s t level hlevel).belongs r hr
    rw [Order.isLive_iff] at hlive
    exact ⟨hlive.2, hlive.1, hbelongs.1, Option.map_eq_some_iff.mp hbelongs.2⟩
  queue := fun s t level hlevel => (h.live s t level hlevel).queue

/-- The representation invariant holds after every sequence of operations. -/
theorem book_representation {grid : TickGrid} {symbol : String} {b : OrderBook}
    (h : (machine grid symbol).Reachable b) : b.Representation := by
  refine Ok.representation ?_
  exact Machine.Reachable.invariant (empty_ok grid symbol) (fun b op b' => step_ok) h

/-- A grid of cents. -/
def cents : TickGrid where
  mantissa := 1
  decimals := 2
  mantissa_pos := Nat.one_pos

/-- Digits for an order without an id. -/
def zeros : HexId where
  text := "0000000000000000"
  length := by decide
  hex := by decide

/-- Two feed orders at 100 with a paper order behind them; an aggregated cancel, and a print
that reaches into the second order. -/
def queueRun : List Op :=
  [.applyMarketEvent ⟨1, .add, .sell, 100, 6, some "a"⟩ zeros,
    .applyMarketEvent ⟨2, .add, .sell, 100, 4, none⟩ zeros,
    .addOrder (Order.new "P00000001" "X" .sell .limit 3 (some 100) none .gtc 2 none .paper) 2,
    .applyMarketEvent ⟨3, .cancel, .sell, 100, 5, none⟩ zeros,
    .applyMarketEvent ⟨4, .trade, .buy, 101, 4, none⟩ zeros]

theorem book_representation_queue :
    ∃ b, (machine cents "X").exec (OrderBook.empty cents "X") queueRun = some b ∧
      (b.heap 2).queueAhead = 1 ∧ b.Representation := by
  have hrun : ((machine cents "X").exec (OrderBook.empty cents "X") queueRun).map
      (fun b => (b.heap 2).queueAhead) = some 1 := by
    decide +kernel
  rcases Option.map_eq_some_iff.mp hrun with ⟨b, hexec, hqueue⟩
  exact ⟨b, hexec, hqueue, book_representation (Machine.reachable_of_exec hexec)⟩

end OrderBook

end QuantumSentinel.Exchange
