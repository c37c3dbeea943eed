import QuantumSentinel.Exchange.BookEffects
import QuantumSentinel.Exchange.Desk

/-!
# Paper exchange: paper orders in the book

How the book stands to the entries of the desk: the tickets are those of the order objects,
and an entry is in the book when its order rests there alive.  Operations on market orders
keep this relation, as long as feed orders and paper orders share no id: those of the feed are
in a set, and those of the exchange are not.

Main results:

- Theorem `PaperSim.frame`: changes of feed orders change no entry.
- Theorem `PaperSim.applyChange`: an ADD, CANCEL or MODIFY changes feed orders only.
- Theorem `PaperSim.consumeLiquidity`: an aggressor passes over paper orders.

Current gaps:

- Feeds that carry the id of a paper order.
-/

namespace QuantumSentinel.Exchange

open Lib

variable {F : String → Prop}

/-- The entries of the desk as a function of references. -/
abbrev Look := Ref → Option Entry

/-- The book and the entries of the paper orders agree, where feed orders have the ids of a set. -/
structure PaperSim (F : String → Prop) (b : OrderBook) (look : Look) : Prop where
  /-- the entries are those of the paper orders -/
  paper : ∀ r, (∃ e, look r = some e) ↔ (b.heap r).owner = .paper
  ticket : ∀ r e, look r = some e → e.ticket = (b.heap r).ticket
  rests : ∀ r e, look r = some e → (e.place = .book ↔ b.Rests r ∧ (b.heap r).isLive = true)
  known : ∀ r e, look r = some e → r < b.nextRef
  /-- paper orders carry other ids, each its own -/
  ids : ∀ r e, look r = some e → ¬F e.ticket.orderId
  unique : ∀ r r' e e', look r = some e → look r' = some e' →
    e'.ticket.orderId = e.ticket.orderId → r' = r
  foreign : ∀ r, r < b.nextRef → (b.heap r).owner = .market → F (b.heap r).orderId
  /-- resting paper orders are found under their ids -/
  indexed : ∀ r e, look r = some e → e.place = .book →
    b.orders.get? e.ticket.orderId = some r
  /-- the index maps an id to an order with the id -/
  index : ∀ id r, b.orders.get? id = some r → (b.heap r).orderId = id ∧ r < b.nextRef
  /-- paper orders in the index rest, or have rested -/
  placed : ∀ id r e, b.orders.get? id = some r → look r = some e →
    e.place = .book ∨ (e.place = .gone ∧ (b.heap r).isActive = false)
  unused : ∀ r, b.nextRef ≤ r → (b.heap r).owner = .market

/-- The queue position is not part of the ticket. -/
theorem ticket_of_sansQueue {o o' : Order} (h : o'.sansQueue = o.sansQueue) :
    o'.ticket = o.ticket := by
  have hticket : o'.sansQueue.ticket = o.sansQueue.ticket := congrArg Order.ticket h
  exact hticket

namespace PaperSim

variable {b : OrderBook} {look : Look} {s : TradeSide} {t : ℤ}

theorem owner_paper (h : PaperSim F b look) {r : Ref} {e : Entry} (hr : look r = some e) :
    (b.heap r).owner = .paper :=
  (h.paper r).mp ⟨e, hr⟩

theorem orderId_eq (h : PaperSim F b look) {r : Ref} {e : Entry} (hr : look r = some e) :
    (b.heap r).orderId = e.ticket.orderId :=
  (congrArg Ticket.orderId (h.ticket r e hr)).symm

/-- The id of a paper order belongs to one order. -/
theorem eq_of_id (h : PaperSim F b look) {r q : Ref} {e : Entry} (hr : look r = some e)
    (hq : q < b.nextRef) (hid : (b.heap q).orderId = (b.heap r).orderId) : q = r := by
  rw [h.orderId_eq hr] at hid
  cases howner : (b.heap q).owner with
  | market => exact absurd (hid ▸ h.foreign q hq howner) (h.ids r e hr)
  | paper =>
    rcases (h.paper q).mpr howner with ⟨e', he'⟩
    exact h.unique r q e e' hr he' ((h.orderId_eq he').symm.trans hid)

/-- An order that is not in the book by its entry is in no queue. -/
theorem not_rests (h : PaperSim F b look) (hok : b.Ok) {r : Ref} {e : Entry}
    (hr : look r = some e) (hplace : e.place ≠ .book) : ¬b.Rests r := by
  rintro ⟨s, t, hmem⟩
  exact hplace ((h.rests r e hr).mpr ⟨⟨s, t, hmem⟩, hok.isLive hmem⟩)

end PaperSim

/-! ## Changes of market orders -/

/-- Nothing about paper orders changed: feed orders came, changed or went. -/
structure PaperFrame (F : String → Prop) (b b' : OrderBook) : Prop where
  nextRef : b.nextRef ≤ b'.nextRef
  owner : ∀ r, (b'.heap r).owner = (b.heap r).owner
  orderId : ∀ r, r < b.nextRef → (b'.heap r).orderId = (b.heap r).orderId
  foreign : ∀ r, b.nextRef ≤ r → r < b'.nextRef → F (b'.heap r).orderId
  sans : ∀ r, (b.heap r).owner = .paper → (b'.heap r).sansQueue = (b.heap r).sansQueue
  rests : ∀ r, (b.heap r).owner = .paper → (b.heap r).isLive = true →
    (b'.Rests r ↔ b.Rests r)
  kept : ∀ id, ¬F id → b'.orders.get? id = b.orders.get? id
  index : ∀ id r, b'.orders.get? id = some r → b.orders.get? id = some r ∨
    ((b'.heap r).orderId = id ∧ r < b'.nextRef ∧ (b'.heap r).owner = .market)

namespace PaperFrame

variable {b b' b'' : OrderBook} {look : Look} {s : TradeSide} {t : ℤ}

theorem refl (F : String → Prop) (b : OrderBook) : PaperFrame F b b where
  nextRef := le_rfl
  owner := fun _ => rfl
  orderId := fun _ _ => rfl
  foreign := fun _ hle hlt => absurd hlt (not_lt.mpr hle)
  sans := fun _ _ => rfl
  rests := fun _ _ _ => Iff.rfl
  kept := fun _ _ => rfl
  index := fun _ _ hget => Or.inl hget

theorem trans (h : PaperFrame F b b') (h' : PaperFrame F b' b'') : PaperFrame F b b'' where
  nextRef := h.nextRef.trans h'.nextRef
  owner := fun r => (h'.owner r).trans (h.owner r)
  orderId := fun r hr =>
    (h'.orderId r (hr.trans_le h.nextRef)).trans (h.orderId r hr)
  foreign := fun r hle hlt => by
    by_cases hmid : r < b'.nextRef
    · rw [h'.orderId r hmid]
      exact h.foreign r hle hmid
    · exact h'.foreign r (not_lt.mp hmid) hlt
  sans := fun r hr => (h'.sans r ((h.owner r).trans hr)).trans (h.sans r hr)
  rests := fun r hr hlive => by
    have hlive' : (b'.heap r).isLive = true :=
      (isLive_of_sansQueue (h.sans r hr)).trans hlive
    exact (h'.rests r ((h.owner r).trans hr) hlive').trans (h.rests r hr hlive)
  kept := fun id hid => (h'.kept id hid).trans (h.kept id hid)
  index := fun id r hget => by
    rcases h'.index id r hget with hget' | hnew
    · rcases h.index id r hget' with hget'' | ⟨hid, hlt, howner⟩
      · exact Or.inl hget''
      · exact Or.inr ⟨(h'.orderId r hlt).trans hid, hlt.trans_le h'.nextRef,
          (h'.owner r).trans howner⟩
    · exact Or.inr hnew

/-- Changing the heap at market orders. -/
theorem withHeap {heap : Heap}
    (hpaper : ∀ r, (b.heap r).owner = .paper → (heap r).sansQueue = (b.heap r).sansQueue)
    (howner : ∀ r, (heap r).owner = (b.heap r).owner)
    (hid : ∀ r, (heap r).orderId = (b.heap r).orderId) :
    PaperFrame F b (b.withHeap heap) where
  nextRef := le_rfl
  owner := howner
  orderId := fun r _ => hid r
  foreign := fun _ hle hlt => absurd hlt (not_lt.mpr hle)
  sans := hpaper
  rests := fun r _ _ => by simp only [OrderBook.Rests, OrderBook.queue_withHeap]
  kept := fun _ _ => rfl
  index := fun _ _ hget => Or.inl hget

/-- Replacing a queue in which the live paper orders stay. -/
theorem setLevel {level level' : LevelQueue} (hlevel : b.level? s t = some level)
    (hsame : ∀ r, (b.heap r).owner = .paper → (b.heap r).isLive = true →
      (r ∈ level'.orders ↔ r ∈ level.orders)) :
    PaperFrame F b (b.setLevel s t level') where
  nextRef := by rw [OrderBook.nextRef_setLevel]
  owner := fun r => by rw [OrderBook.heap_setLevel]
  orderId := fun r _ => by rw [OrderBook.heap_setLevel]
  foreign := fun r hle hlt => by
    rw [OrderBook.nextRef_setLevel] at hlt
    exact absurd hlt (not_lt.mpr hle)
  sans := fun r _ => by rw [OrderBook.heap_setLevel]
  rests := fun r hr hlive => by
    have hmem : ∀ s' t', r ∈ (b.setLevel s t level').queue s' t' ↔ r ∈ b.queue s' t' := by
      intro s' t'
      rw [OrderBook.queue_setLevel]
      split
      · rename_i heq
        cases heq
        rw [OrderBook.queue_of_level hlevel]
        exact hsame r hr hlive
      · rfl
    simp only [OrderBook.Rests, hmem]
  kept := fun id _ => by rw [OrderBook.orders_setLevel]
  index := fun id r hget => by
    rw [OrderBook.orders_setLevel] at hget
    exact Or.inl hget

/-- A prune forgets ids of the feed. -/
theorem prune (hshape : b.Shape)
    (hforeign : ∀ r, r < b.nextRef → (b.heap r).owner = .market → F (b.heap r).orderId)
    (s : TradeSide) (t : ℤ) : PaperFrame F b (b.prune s t) := by
  have hsans := fun r => OrderBook.heap_prune_sansQueue (b := b) (s := s) (t := t) r
  have hget : ∀ id, (b.prune s t).orders.get? id = b.orders.get? id ∨
      ((b.prune s t).orders.get? id = none ∧ F id) := by
    intro id
    rw [OrderBook.orders_prune, OrderBook.forgetDead_get?]
    split
    · rename_i hdead
      rcases hdead with ⟨r, hr, -, hmarket, rfl⟩
      rcases OrderBook.level_of_mem_queue hr with ⟨level, hlevel, hmem⟩
      exact Or.inr ⟨rfl, hforeign r ((hshape.level s t level hlevel).known r hmem) hmarket⟩
    · exact Or.inl rfl
  exact
    { nextRef := by rw [OrderBook.nextRef_prune]
      owner := fun r => (fields_of_sansQueue (hsans r)).2.2.1
      orderId := fun r _ => (fields_of_sansQueue (hsans r)).2.2.2.2.2.1
      foreign := fun r hle hlt => by
        rw [OrderBook.nextRef_prune] at hlt
        exact absurd hlt (not_lt.mpr hle)
      sans := fun r _ => hsans r
      rests := fun r _ hlive => by
        have hmem : ∀ s' t', r ∈ (b.prune s t).queue s' t' ↔ r ∈ b.queue s' t' := by
          intro s' t'
          rw [OrderBook.queue_prune]
          split
          · rename_i heq
            cases heq
            simp [hlive]
          · rfl
        simp only [OrderBook.Rests, hmem]
      kept := fun id hid => by
        rcases hget id with hsame | ⟨-, hfeed⟩
        · exact hsame
        · exact absurd hfeed hid
      index := fun id r hr => by
        rcases hget id with hsame | ⟨hnone, -⟩
        · exact Or.inl (hsame.symm.trans hr)
        · rw [hnone] at hr
          cases hr }

/-- Fields of the book that neither levels nor orders depend on. -/
theorem congr (hside : ∀ s, b'.side s = b.side s) (hheap : b'.heap = b.heap)
    (hnext : b'.nextRef = b.nextRef) (horders : b'.orders = b.orders) :
    PaperFrame F b b' := by
  have hlevel : ∀ s t, b'.level? s t = b.level? s t := fun s t => by
    rw [OrderBook.level?, OrderBook.level?, hside]
  exact
    { nextRef := hnext.symm.le
      owner := fun r => by rw [hheap]
      orderId := fun r _ => by rw [hheap]
      foreign := fun r hle hlt => absurd (hnext ▸ hlt) (not_lt.mpr hle)
      sans := fun r _ => by rw [hheap]
      rests := fun r _ _ => by
        simp only [OrderBook.Rests, OrderBook.queue, hlevel]
      kept := fun id _ => by rw [horders]
      index := fun id r hget => Or.inl (by rwa [horders] at hget) }

/-- Rewriting one feed order. -/
theorem modifyMarket {r : Ref} (hr : (b.heap r).owner = .market)
    {f : Order → Order} (howner : ∀ o, (f o).owner = o.owner)
    (hid : ∀ o, (f o).orderId = o.orderId) : PaperFrame F b (b.modify r f) := by
  refine withHeap ?_ ?_ ?_
  · intro q hq
    have hne : q ≠ r := fun heq => by
      rw [heq, hr] at hq
      cases hq
    rw [Function.update_of_ne hne]
  · intro q
    by_cases hq : q = r
    · subst hq
      rw [Function.update_self, howner]
    · rw [Function.update_of_ne hq]
  · intro q
    by_cases hq : q = r
    · subst hq
      rw [Function.update_self, hid]
    · rw [Function.update_of_ne hq]

end PaperFrame

namespace PaperSim

variable {b b' : OrderBook} {look : Look} {s : TradeSide} {t : ℤ}

/-- Changes of feed orders change no entry. -/
theorem frame (h : PaperSim F b look) (hf : PaperFrame F b b') : PaperSim F b' look where
  paper := fun r => by rw [h.paper r, hf.owner r]
  ticket := fun r e hr => by
    rw [h.ticket r e hr]
    exact (ticket_of_sansQueue (hf.sans r (h.owner_paper hr))).symm
  rests := fun r e hr => by
    have howner := h.owner_paper hr
    rw [h.rests r e hr, isLive_of_sansQueue (hf.sans r howner)]
    constructor
    · exact fun hlive => ⟨(hf.rests r howner hlive.2).mpr hlive.1, hlive.2⟩
    · exact fun hlive => ⟨(hf.rests r howner hlive.2).mp hlive.1, hlive.2⟩
  known := fun r e hr => (h.known r e hr).trans_le hf.nextRef
  ids := h.ids
  unique := h.unique
  foreign := fun r hr hmarket => by
    by_cases hold : r < b.nextRef
    · rw [hf.orderId r hold]
      exact h.foreign r hold ((hf.owner r).symm.trans hmarket)
    · exact hf.foreign r (not_lt.mp hold) hr
  indexed := fun r e hr hplace => by
    rw [hf.kept _ (h.ids r e hr)]
    exact h.indexed r e hr hplace
  index := fun id r hget => by
    rcases hf.index id r hget with hold | ⟨hid, hlt, -⟩
    · rcases h.index id r hold with ⟨hid, hlt⟩
      exact ⟨(hf.orderId r hlt).trans hid, hlt.trans_le hf.nextRef⟩
    · exact ⟨hid, hlt⟩
  placed := fun id r e hget hr => by
    have howner := h.owner_paper hr
    rcases hf.index id r hget with hold | ⟨-, -, hmarket⟩
    · rw [(fields_of_sansQueue (hf.sans r howner)).2.1]
      exact h.placed id r e hold hr
    · rw [hf.owner r, howner] at hmarket
      cases hmarket
  unused := fun r hr => (hf.owner r).trans (h.unused r (hf.nextRef.trans hr))

end PaperSim

/-! ## Operations on feed orders -/

namespace PaperSim

variable {b b' : OrderBook} {look : Look} {s : TradeSide} {t : ℤ}

theorem pruneFrame (h : PaperSim F b look) (hshape : b.Shape) (s : TradeSide) (t : ℤ) :
    PaperFrame F b (b.prune s t) :=
  PaperFrame.prune hshape h.foreign s t

/-- A new feed order at the back of its level. -/
theorem insertFeed (h : PaperSim F b look) {event : BookEvent} {uuid : HexId}
    (hevent : F (event.idOr uuid)) (quantity limit : ℚ) :
    PaperFrame F b (b.insertFeed event uuid quantity limit) := by
  have hself : (b.alloc (b.feedOrder event uuid quantity limit)).heap b.nextRef =
      b.feedOrder event uuid quantity limit := Function.update_self ..
  have hlimit : ((b.alloc (b.feedOrder event uuid quantity limit)).heap
      b.nextRef).limitPrice = some limit := by
    rw [hself]
    rfl
  have hheap : ∀ r, r ≠ b.nextRef →
      (b.insertFeed event uuid quantity limit).heap r = b.heap r := by
    intro r hr
    rw [OrderBook.insertFeed, OrderBook.heap_addOrder _ hlimit, Function.update_of_ne hr]
    exact Function.update_of_ne hr ..
  have hnew : ((b.insertFeed event uuid quantity limit).heap b.nextRef).owner = .market ∧
      ((b.insertFeed event uuid quantity limit).heap b.nextRef).orderId =
        event.idOr uuid := by
    rw [OrderBook.insertFeed, OrderBook.heap_addOrder _ hlimit, Function.update_self, hself]
    exact ⟨rfl, rfl⟩
  have horders : (b.insertFeed event uuid quantity limit).orders =
      b.orders.set (event.idOr uuid) b.nextRef := by
    rw [OrderBook.insertFeed, OrderBook.orders_addOrder _ hlimit, hself]
    rfl
  have hnext : (b.insertFeed event uuid quantity limit).nextRef = b.nextRef + 1 :=
    OrderBook.nextRef_addOrder ..
  exact
    { nextRef := hnext ▸ Nat.le_succ _
      owner := fun r => by
        by_cases hr : r = b.nextRef
        · rw [hr, hnew.1, h.unused _ le_rfl]
        · rw [hheap r hr]
      orderId := fun r hr => by rw [hheap r hr.ne]
      foreign := fun r hle hlt => by
        have hr : r = b.nextRef := by
          rw [hnext] at hlt
          exact le_antisymm (Nat.lt_succ_iff.mp hlt) hle
        rw [hr, hnew.2]
        exact hevent
      sans := fun r hr => by
        have hne : r ≠ b.nextRef := fun heq => by
          rw [heq, h.unused _ le_rfl] at hr
          cases hr
        rw [hheap r hne]
      rests := fun r hr _ => by
        have hne : r ≠ b.nextRef := fun heq => by
          rw [heq, h.unused _ le_rfl] at hr
          cases hr
        have hmem : ∀ s t, r ∈ (b.insertFeed event uuid quantity limit).queue s t ↔
            r ∈ b.queue s t := by
          intro s t
          rw [OrderBook.insertFeed, OrderBook.queue_addOrder _ hlimit]
          split
          · rename_i heq
            cases heq
            simp [hne]
          · rw [OrderBook.queue_alloc]
        simp only [OrderBook.Rests, hmem]
      kept := fun id hid => by
        rw [horders, Dict.get?_set_ne]
        rintro rfl
        exact hid hevent
      index := fun id r hget => by
        rw [horders, Dict.get?_set] at hget
        split at hget
        · rename_i hid
          cases hget
          exact Or.inr ⟨hnew.2.trans hid.symm, by rw [hnext]; exact Nat.lt_succ_self _, hnew.1⟩
        · exact Or.inl hget }

theorem applyAdd (h : PaperSim F b look) {event : BookEvent} {uuid : HexId}
    (hevent : F (event.idOr uuid)) : PaperFrame F b (b.applyAdd event uuid) := by
  unfold OrderBook.applyAdd
  split
  · exact h.insertFeed hevent _ _
  · exact PaperFrame.refl F b

/-- An order whose id is another one stays when an id is removed. -/
theorem mem_removeId_of_ne {heap : Heap} {id : String} {orders : List Ref} {q : Ref}
    (hne : (heap q).orderId ≠ id) : q ∈ removeId heap id orders ↔ q ∈ orders :=
  List.mem_eraseP_of_neg (by simpa using hne)

/-- A known feed order that changes or moves to the back. -/
theorem changeKnown (h : PaperSim F b look) (hok : b.Ok) {event : BookEvent}
    {level : LevelQueue} {r : Ref} (hlevel : b.level? event.side t = some level)
    (hr : b.knownIn event level = some r) :
    PaperFrame F b (b.changeKnown event t level r) := by
  rcases OrderBook.knownIn_mem hr with ⟨hmem, hmarket⟩
  have hcancel : PaperFrame F b (b.modify r (OrderBook.cancelSize event.size)) :=
    PaperFrame.modifyMarket hmarket (fun _ => rfl) fun _ => rfl
  have hresize : PaperFrame F b (b.modify r (OrderBook.resize event.size)) :=
    PaperFrame.modifyMarket hmarket (fun _ => rfl) fun _ => rfl
  have hlt : r < b.nextRef := (hok.shape.level _ _ level hlevel).known r hmem
  unfold OrderBook.changeKnown
  split
  · exact hcancel
  · split
    · exact hresize
    · refine hresize.trans (PaperFrame.setLevel (by simpa using hlevel) ?_)
      intro q hq _
      have hqpaper : (b.heap q).owner = .paper := (hresize.owner q).symm.trans hq
      rcases (h.paper q).mpr hqpaper with ⟨e, he⟩
      have hne : (b.heap q).orderId ≠ (b.heap r).orderId := fun hsame =>
        h.ids q e he ((h.orderId_eq he).symm.trans hsame ▸ h.foreign r hlt hmarket)
      have hqr : q ≠ r := fun heq => hne (by rw [heq])
      simp [mem_removeId_of_ne hne, hqr]

theorem reduceMarket (level : LevelQueue) (amount : ℚ) :
    PaperFrame F b (b.reduceMarket level amount) := by
  have hfold : ∀ (share : ℚ) (refs : List Ref) (b : OrderBook),
      (∀ r ∈ refs, (b.heap r).owner = .market) →
        PaperFrame F b (refs.foldl (fun b r => b.modify r (OrderBook.shrink share)) b) := by
    intro share refs
    induction refs with
    | nil => exact fun b _ => PaperFrame.refl F b
    | cons r rest ih =>
      intro b hmarket
      have hstep : PaperFrame F b (b.modify r (OrderBook.shrink share)) :=
        PaperFrame.modifyMarket (hmarket r (List.mem_cons_self ..)) (fun _ => rfl)
          fun _ => rfl
      refine hstep.trans (ih _ fun q hq => ?_)
      rw [hstep.owner q]
      exact hmarket q (List.mem_cons_of_mem r hq)
  unfold OrderBook.reduceMarket
  simp only
  split
  · exact PaperFrame.refl F b
  · refine hfold _ _ b fun r hr => ?_
    have hmarket := List.of_mem_filter hr
    simp only [isMarket, Bool.and_eq_true, decide_eq_true_eq] at hmarket
    exact hmarket.1

theorem changeAggregated (h : PaperSim F b look) {event : BookEvent} {uuid : HexId}
    (hevent : F (event.idOr uuid)) (level : LevelQueue) :
    PaperFrame F b (b.changeAggregated event uuid level) := by
  unfold OrderBook.changeAggregated
  simp only
  split
  · exact reduceMarket level _
  · split
    · exact h.insertFeed hevent _ _
    · exact PaperFrame.refl F b

/-- The CANCEL and MODIFY branch changes feed orders only. -/
theorem applyChange (h : PaperSim F b look) (hok : b.Ok) {event : BookEvent} {uuid : HexId}
    (hevent : F (event.idOr uuid)) : PaperFrame F b (b.applyChange event uuid) := by
  unfold OrderBook.applyChange
  simp only
  cases hlevel : b.level? event.side (b.grid.toTicks event.price) with
  | none =>
    simp only
    split
    · exact h.applyAdd hevent
    · exact PaperFrame.refl F b
  | some level =>
    simp only
    cases hknown : b.knownIn event level with
    | some r =>
      have hframe := h.changeKnown hok hlevel hknown
      have hexcept := OrderBook.changeKnown_okExcept hok hlevel hknown
      exact hframe.trans ((h.frame hframe).pruneFrame hexcept.shape _ _)
    | none =>
      have hframe := h.changeAggregated hevent level
      have hexcept := OrderBook.changeAggregated_okExcept hok uuid hlevel
      exact hframe.trans ((h.frame hframe).pruneFrame hexcept.shape _ _)

/-! ## Aggressors pass over paper orders -/

theorem walkLevel_skips {k : OrderBook.Sweeper}
    (hskips : ∀ o : Order, o.owner = .paper → k.skips o = true) (price : ℚ)
    (orders : List Ref) (heap : Heap) (remaining : ℚ) {r : Ref}
    (hr : (heap r).owner = .paper) :
    (OrderBook.walkLevel k price orders heap remaining).heap r = heap r := by
  induction orders generalizing heap remaining with
  | nil => rfl
  | cons q rest ih =>
    simp only [OrderBook.walkLevel]
    split
    · rfl
    · split
      · exact ih heap remaining hr
      · rename_i hnotskip
        have hne : r ≠ q := fun heq => by
          subst heq
          rw [hskips _ hr] at hnotskip
          cases hnotskip rfl
        split
        · exact ih heap remaining hr
        · have hsame : Function.update heap q (k.hit price
              (min remaining (heap q).remainingQuantity) (heap q)) r = heap r :=
            Function.update_of_ne hne ..
          have hih := ih (Function.update heap q (k.hit price
              (min remaining (heap q).remainingQuantity) (heap q)))
            (remaining - min remaining (heap q).remainingQuantity) (by rw [hsame]; exact hr)
          rw [hsame] at hih
          split
          · exact hih
          · exact hih

theorem walkFrame {k : OrderBook.Sweeper} (hk : k.Sound)
    (hskips : ∀ o : Order, o.owner = .paper → k.skips o = true) (passive : TradeSide)
    (beyond : ℤ → Bool) (ticks : List ℤ) (h : PaperSim F b look) (hok : b.Ok)
    (remaining : ℚ) :
    PaperFrame F b (OrderBook.walk k passive beyond ticks b remaining).book := by
  induction ticks generalizing b remaining with
  | nil => exact PaperFrame.refl F b
  | cons t rest ih =>
    simp only [OrderBook.walk]
    split
    · exact PaperFrame.refl F b
    · cases hl : b.level? passive t with
      | none => exact PaperFrame.refl F b
      | some level =>
        have hw := OrderBook.walkLevel_within hk level.price remaining
          (hok.shape.level passive t level hl).belongs
        have hframe : PaperFrame F b (b.withHeap
            (OrderBook.walkLevel k level.price level.orders b.heap remaining).heap) :=
          PaperFrame.withHeap
            (fun r hr => by rw [walkLevel_skips hskips _ _ _ _ hr]) hw.owner hw.orderId
        have hexcept := (hok.except passive t).within hw
        have hprune := (h.frame hframe).pruneFrame hexcept.shape passive t
        exact (hframe.trans hprune).trans
          (ih ((h.frame hframe).frame hprune) (OrderBook.prune_ok hexcept) _)

/-- An aggressor that skips paper orders changes feed orders only. -/
theorem consumeLiquidity (h : PaperSim F b look) (hok : b.Ok) (aggressor : TradeSide)
    (quantity timestamp : ℚ) (limitPrice : Option ℚ) :
    PaperFrame F b (b.consumeLiquidity aggressor quantity timestamp limitPrice true).1 := by
  have hwalk := walkFrame (OrderBook.aggressorSweep_sound true timestamp)
    (fun o ho => by simp [OrderBook.aggressorSweep, ho]) aggressor.opposite
    (b.beyondLimit aggressor limitPrice) (b.bestFirst aggressor) h hok quantity
  simp only [OrderBook.consumeLiquidity]
  split
  · exact hwalk
  · exact hwalk.trans (PaperFrame.congr (fun s => by cases s <;> rfl) rfl rfl rfl)

end PaperSim

end QuantumSentinel.Exchange
