import QuantumSentinel.Exchange.PaperOrders

/-!
# Paper exchange: changes of paper orders

The operations that change a paper order, each as a change of its entry: rewriting an order
that is not in the book, resting one, cancelling one that rests, and the hits of a print.

Main results:

- Theorem `PaperSim.rest`: a resting order is an entry in the book.
- Theorem `PaperSim.cancelOrder`: a cancel takes out the order with the id.
- Theorem `PaperSim.applyTrade`: a print is a sequence of hits of resting paper orders.
-/

namespace QuantumSentinel.Exchange

open Lib

variable {F : String → Prop}

/-- What a lookup finds after one change. -/
theorem look_update {look : Look} {r q : Ref} {e e' : Entry}
    (h : Function.update look r (some e') q = some e) :
    (q = r ∧ e = e') ∨ (q ≠ r ∧ look q = some e) := by
  by_cases hq : q = r
  · subst hq
    rw [Function.update_self, Option.some.injEq] at h
    exact Or.inl ⟨rfl, h.symm⟩
  · rw [Function.update_of_ne hq] at h
    exact Or.inr ⟨hq, h⟩

/-- An order with size left after a fill is active. -/
theorem isActive_recordFill (price quantity timestamp : ℚ) (o : Order)
    (h : eps < (o.recordFill price quantity timestamp).remainingQuantity) :
    (o.recordFill price quantity timestamp).isActive = true := by
  have hstatus : (o.recordFill price quantity timestamp).status = .partiallyFilled := by
    rw [recordFill_remaining, Order.remainingQuantity, sub_sub] at h
    rw [Order.recordFill, Order.statusAfterFill, if_neg (not_le.mpr h)]
  rw [Order.isActive, hstatus]

/-- Taking an order out of the level being changed keeps the rest. -/
theorem OrderBook.OkExcept.removeId {b : OrderBook} {s : TradeSide} {t : ℤ}
    {level : LevelQueue} (h : b.OkExcept s t) (hlevel : b.level? s t = some level)
    (id : String) :
    (b.setLevel s t { level with orders := removeId b.heap id level.orders }).OkExcept s t :=
  h.setLevel hlevel ((h.shape.level s t level hlevel).sub List.eraseP_sublist)

/-! ## One order -/

namespace PaperSim

variable {b : OrderBook} {look : Look} {r : Ref} {e e' : Entry}
  {f : Order → Order}

/-- One paper order changes, and its entry with it. -/
theorem change (h : PaperSim F b look) (hr : look r = some e)
    (howner : (f (b.heap r)).owner = .paper) (hticket : e'.ticket = (f (b.heap r)).ticket)
    (hid : e'.ticket.orderId = e.ticket.orderId)
    (hrests : e'.place = .book ↔ b.Rests r ∧ (f (b.heap r)).isLive = true)
    (hbook : e'.place = .book → e.place = .book)
    (hplaced : (∃ id, b.orders.get? id = some r) →
      e'.place = .book ∨ (e'.place = .gone ∧ (f (b.heap r)).isActive = false)) :
    PaperSim F (b.modify r f) (Function.update look r (some e')) where
  paper := fun q => by
    by_cases hq : q = r
    · subst hq
      simp [howner]
    · rw [Function.update_of_ne hq, OrderBook.heap_modify_ne f hq]
      exact h.paper q
  ticket := fun q eq hlook => by
    rcases look_update hlook with ⟨rfl, rfl⟩ | ⟨hne, hold⟩
    · rw [OrderBook.heap_modify_self]
      exact hticket
    · rw [OrderBook.heap_modify_ne f hne]
      exact h.ticket q eq hold
  rests := fun q eq hlook => by
    rw [OrderBook.rests_modify]
    rcases look_update hlook with ⟨rfl, rfl⟩ | ⟨hne, hold⟩
    · rw [OrderBook.heap_modify_self]
      exact hrests
    · rw [OrderBook.heap_modify_ne f hne]
      exact h.rests q eq hold
  known := fun q eq hlook => by
    rcases look_update hlook with ⟨rfl, -⟩ | ⟨-, hold⟩
    · exact h.known q e hr
    · exact h.known q eq hold
  ids := fun q eq hlook => by
    rcases look_update hlook with ⟨rfl, rfl⟩ | ⟨-, hold⟩
    · rw [hid]
      exact h.ids q e hr
    · exact h.ids q eq hold
  unique := fun p q ep eq hp hq hsame => by
    rcases look_update hp with ⟨rfl, rfl⟩ | ⟨-, hpold⟩
    · rcases look_update hq with ⟨rfl, -⟩ | ⟨-, hqold⟩
      · rfl
      · exact h.unique p q e eq hr hqold (hsame.trans hid)
    · rcases look_update hq with ⟨rfl, rfl⟩ | ⟨-, hqold⟩
      · exact h.unique p q ep e hpold hr (hid.symm.trans hsame)
      · exact h.unique p q ep eq hpold hqold hsame
  foreign := fun q hlt hmarket => by
    by_cases hq : q = r
    · subst hq
      rw [OrderBook.heap_modify_self, howner] at hmarket
      cases hmarket
    · rw [OrderBook.heap_modify_ne f hq] at hmarket ⊢
      exact h.foreign q hlt hmarket
  indexed := fun q eq hlook hplace => by
    rcases look_update hlook with ⟨rfl, rfl⟩ | ⟨-, hold⟩
    · rw [hid]
      exact h.indexed q e hr (hbook hplace)
    · exact h.indexed q eq hold hplace
  index := fun id q hget => by
    rcases h.index id q hget with ⟨hname, hlt⟩
    refine ⟨?_, hlt⟩
    by_cases hq : q = r
    · subst hq
      have hticketId : (f (b.heap q)).orderId = e'.ticket.orderId := by
        rw [hticket]
        rfl
      rw [OrderBook.heap_modify_self, hticketId, hid, ← h.orderId_eq hr]
      exact hname
    · rw [OrderBook.heap_modify_ne f hq]
      exact hname
  placed := fun id q eq hget hlook => by
    rcases look_update hlook with ⟨rfl, rfl⟩ | ⟨hne, hold⟩
    · rw [OrderBook.heap_modify_self]
      exact hplaced ⟨id, hget⟩
    · rw [OrderBook.heap_modify_ne f hne]
      exact h.placed id q eq hget hold
  unused := fun q hq => by
    have hne : q ≠ r := fun heq => absurd (heq ▸ h.known r e hr) (not_lt.mpr hq)
    rw [OrderBook.heap_modify_ne f hne]
    exact h.unused q hq

/-- An order on its way or waiting as a stop has not been in the index. -/
theorem not_indexed (h : PaperSim F b look) (hr : look r = some e)
    (hplace : e.place = .flying ∨ e.place = .stop) : ¬∃ id, b.orders.get? id = some r := by
  rintro ⟨id, hget⟩
  rcases h.placed id r e hget hr with hbook | ⟨hgone, -⟩
  · rcases hplace with hp | hp <;> rw [hp] at hbook <;> cases hbook
  · rcases hplace with hp | hp <;> rw [hp] at hgone <;> cases hgone

/-- An order that never rested changes and stays out of the book. -/
theorem modify (h : PaperSim F b look) (hok : b.Ok) (hr : look r = some e)
    (hplace : e.place = .flying ∨ e.place = .stop)
    (howner : ∀ o, (f o).owner = o.owner) (hid : ∀ o, (f o).orderId = o.orderId)
    (hticket : e'.ticket = (f (b.heap r)).ticket) (hplace' : e'.place ≠ .book) :
    PaperSim F (b.modify r f) (Function.update look r (some e')) := by
  have hnot : e.place ≠ .book := by
    rcases hplace with hp | hp <;> rw [hp] <;> exact fun hf => by cases hf
  refine h.change hr ((howner _).trans (h.owner_paper hr)) hticket ?_ ?_ ?_ ?_
  · have hname : e'.ticket.orderId = (f (b.heap r)).orderId := congrArg Ticket.orderId hticket
    rw [hname, hid, h.orderId_eq hr]
  · exact iff_of_false hplace' fun hf => h.not_rests hok hr hnot hf.1
  · exact fun hf => absurd hf hplace'
  · exact fun hf => absurd hf (h.not_indexed hr hplace)

/-- An order that becomes inactive is gone. -/
theorem retire (h : PaperSim F b look) (hr : look r = some e)
    (howner : ∀ o, (f o).owner = o.owner) (hid : ∀ o, (f o).orderId = o.orderId)
    (hinactive : (f (b.heap r)).isActive = false)
    (hticket : e'.ticket = (f (b.heap r)).ticket) (hgone : e'.place = .gone) :
    PaperSim F (b.modify r f) (Function.update look r (some e')) := by
  have hnot : e'.place ≠ .book := by
    rw [hgone]
    exact fun hf => by cases hf
  refine h.change hr ((howner _).trans (h.owner_paper hr)) hticket ?_ ?_ ?_ ?_
  · have hname : e'.ticket.orderId = (f (b.heap r)).orderId := congrArg Ticket.orderId hticket
    rw [hname, hid, h.orderId_eq hr]
  · refine iff_of_false hnot fun hf => ?_
    have hlive := hf.2
    rw [Order.isLive, hinactive, Bool.and_false] at hlive
    cases hlive
  · exact fun hf => absurd hf hnot
  · exact fun _ => Or.inr ⟨hgone, hinactive⟩

/-- The order object of an entry that is in no queue can be written anew; only its place
changes. -/
theorem relabel (h : PaperSim F b look) (hok : b.Ok) (hr : look r = some e)
    (hplace : e.place = .flying ∨ e.place = .stop) (hticket : e'.ticket = e.ticket)
    (hplace' : e'.place ≠ .book) : PaperSim F b (Function.update look r (some e')) := by
  have hmodify := h.modify (f := fun o => o) hok hr hplace (fun _ => rfl) (fun _ => rfl)
    (hticket.trans (h.ticket r e hr)) hplace'
  rwa [OrderBook.modify, Function.update_eq_self] at hmodify

/-- A hit of a resting order: filled up it is gone, else it stays. -/
theorem hit (h : PaperSim F b look) (hr : look r = some e) (hbook : e.place = .book)
    (price quantity timestamp : ℚ) :
    PaperSim F (b.modify r (Order.recordFill price quantity timestamp))
      (Function.update look r (some (e.hit ⟨price, quantity⟩))) := by
  have hticket : (e.hit ⟨price, quantity⟩).ticket =
      ((b.heap r).recordFill price quantity timestamp).ticket := by
    rw [Entry.hit, h.ticket r e hr]
    rfl
  have hremaining : (e.ticket.fill ⟨price, quantity⟩).remaining =
      ((b.heap r).recordFill price quantity timestamp).remainingQuantity := by
    rw [h.ticket r e hr]
    rfl
  have hrests := ((h.rests r e hr).mp hbook).1
  by_cases hdone : (e.ticket.fill ⟨price, quantity⟩).remaining ≤ eps
  · have hgone : (e.hit ⟨price, quantity⟩).place = .gone := if_pos hdone
    have hfilled := (recordFill_status price quantity timestamp (b.heap r)).mpr
      (hremaining ▸ hdone)
    refine h.retire hr (fun _ => rfl) (fun _ => rfl) ?_ hticket hgone
    rw [Order.isActive, hfilled]
  · have hstays : (e.hit ⟨price, quantity⟩).place = .book := if_neg hdone
    rw [hremaining, not_le] at hdone
    have hlive : ((b.heap r).recordFill price quantity timestamp).isLive = true := by
      rw [Order.isLive, isActive_recordFill _ _ _ _ hdone, Bool.and_true]
      exact decide_eq_true hdone
    refine h.change hr (h.owner_paper hr) hticket rfl ?_ (fun _ => hbook) fun _ => Or.inl hstays
    exact iff_of_true hstays ⟨hrests, hlive⟩

/-- An order that never rested joins the book. -/
theorem rest {g : Entry} (h : PaperSim F b look) (hr : look r = some e) {limit : ℚ}
    (hlimit : (b.heap r).limitPrice = some limit)
    (hrestable : OrderBook.Restable (b.heap r)) (now : ℚ) (hticket : g.ticket = e.ticket.rested)
    (hbook : g.place = .book) :
    PaperSim F (b.addOrder r now) (Function.update look r (some g)) := by
  have howner := h.owner_paper hr
  have hheap := OrderBook.heap_addOrder now hlimit
  have hself : (b.addOrder r now).heap r =
      OrderBook.entered (b.heap r) (b.restingLimit (b.heap r) limit)
        (totalSize b.heap (b.queue (b.heap r).side (b.grid.toTicks limit))) now := by
    rw [hheap, Function.update_self]
  have hother : ∀ q, q ≠ r → (b.addOrder r now).heap q = b.heap q := fun q hq => by
    rw [hheap, Function.update_of_ne hq]
  have horders := OrderBook.orders_addOrder now hlimit
  have hname : g.ticket.orderId = (b.heap r).orderId := by
    rw [hticket, h.orderId_eq hr]
    rfl
  have hsame : ∀ q, ((b.addOrder r now).heap q).owner = (b.heap q).owner ∧
      ((b.addOrder r now).heap q).orderId = (b.heap q).orderId := by
    intro q
    by_cases hq : q = r
    · rw [hq, hself]
      exact ⟨rfl, rfl⟩
    · rw [hother q hq]
      exact ⟨rfl, rfl⟩
  have hmem : ∀ q, q ≠ r → ((b.addOrder r now).Rests q ↔ b.Rests q) := by
    intro q hq
    have hqueue : ∀ s t, q ∈ (b.addOrder r now).queue s t ↔ q ∈ b.queue s t := by
      intro s t
      rw [OrderBook.queue_addOrder now hlimit]
      split
      · rename_i heq
        cases heq
        simp [hq]
      · rfl
    simp only [OrderBook.Rests, hqueue]
  exact
    { paper := fun q => by
        rw [(hsame q).1, ← h.paper q]
        by_cases hq : q = r
        · subst hq
          simp [hr]
        · rw [Function.update_of_ne hq]
      ticket := fun q eq hlook => by
        rcases look_update hlook with ⟨rfl, rfl⟩ | ⟨hne, hold⟩
        · have hresting : b.restingLimit (b.heap q) limit = limit := by
            simp [OrderBook.restingLimit, howner]
          rw [hself, hticket, h.ticket q e hr, hresting]
          simp [Ticket.rested, Ticket.withStatus, Order.ticket, OrderBook.entered, hlimit]
        · rw [hother q hne]
          exact h.ticket q eq hold
      rests := fun q eq hlook => by
        rcases look_update hlook with ⟨rfl, rfl⟩ | ⟨hne, hold⟩
        · refine iff_of_true hbook ⟨⟨(b.heap q).side, b.grid.toTicks limit, ?_⟩, ?_⟩
          · rw [OrderBook.queue_addOrder now hlimit, if_pos rfl]
            exact List.mem_append_right _ (List.mem_singleton_self q)
          · rw [hself]
            exact OrderBook.entered_isLive hrestable ..
        · rw [hother q hne, hmem q hne]
          exact h.rests q eq hold
      known := fun q eq hlook => by
        rw [OrderBook.nextRef_addOrder]
        rcases look_update hlook with ⟨rfl, -⟩ | ⟨-, hold⟩
        · exact h.known q e hr
        · exact h.known q eq hold
      ids := fun q eq hlook => by
        rcases look_update hlook with ⟨rfl, rfl⟩ | ⟨-, hold⟩
        · rw [hname, h.orderId_eq hr]
          exact h.ids q e hr
        · exact h.ids q eq hold
      unique := fun p q ep eq hp hq hid => by
        rw [h.orderId_eq hr] at hname
        rcases look_update hp with ⟨rfl, rfl⟩ | ⟨-, hpold⟩
        · rcases look_update hq with ⟨rfl, -⟩ | ⟨-, hqold⟩
          · rfl
          · exact h.unique p q e eq hr hqold (hid.trans hname)
        · rcases look_update hq with ⟨rfl, rfl⟩ | ⟨-, hqold⟩
          · exact h.unique p q ep e hpold hr (hname.symm.trans hid)
          · exact h.unique p q ep eq hpold hqold hid
      foreign := fun q hlt hmarket => by
        rw [OrderBook.nextRef_addOrder] at hlt
        rw [(hsame q).1] at hmarket
        rw [(hsame q).2]
        exact h.foreign q hlt hmarket
      indexed := fun q eq hlook hplace => by
        rcases look_update hlook with ⟨rfl, rfl⟩ | ⟨hne, hold⟩
        · rw [horders, hname, Dict.get?_set_self]
        · have hids : eq.ticket.orderId ≠ (b.heap r).orderId := fun heq => by
            rw [h.orderId_eq hr] at heq
            exact hne (h.unique r q e eq hr hold heq)
          rw [horders, Dict.get?_set_ne _ _ hids]
          exact h.indexed q eq hold hplace
      index := fun id q hget => by
        rw [OrderBook.nextRef_addOrder, (hsame q).2]
        rw [horders, Dict.get?_set] at hget
        split at hget
        · rename_i hid
          cases hget
          exact ⟨hid.symm, h.known r e hr⟩
        · exact h.index id q hget
      placed := fun id q eq hget hlook => by
        rcases look_update hlook with ⟨rfl, rfl⟩ | ⟨hne, hold⟩
        · exact Or.inl hbook
        · rw [horders, Dict.get?_set] at hget
          rw [hother q hne]
          split at hget
          · cases hget
            exact absurd rfl hne
          · exact h.placed id q eq hget hold
      unused := fun q hq => by
        rw [OrderBook.nextRef_addOrder] at hq
        rw [(hsame q).1]
        exact h.unused q hq }

/-! ## Cancelling -/

/-- An active paper order of the index is in the book. -/
theorem placed_active (h : PaperSim F b look) {id : String} (hget : b.orders.get? id = some r)
    (hr : look r = some e) (hactive : (b.heap r).isActive = true) : e.place = .book := by
  rcases h.placed id r e hget hr with hbook | ⟨-, hinactive⟩
  · exact hbook
  · rw [hactive] at hinactive
    cases hinactive

/-- Taking an order out of its level by its id keeps the live paper orders. -/
theorem removeFrame (h : PaperSim F b look) {s : TradeSide} {t : ℤ} {level : LevelQueue}
    {id : String} (hlevel : b.level? s t = some level) (hget : b.orders.get? id = some r)
    (hdead : (b.heap r).owner = .paper → (b.heap r).isLive = false) :
    PaperFrame F b (b.setLevel s t { level with orders := removeId b.heap id level.orders }) := by
  refine PaperFrame.setLevel hlevel fun q hq hlive => ?_
  rcases h.index id r hget with ⟨hname, hlt⟩
  apply mem_removeId_of_ne
  intro hqid
  rcases (h.paper q).mpr hq with ⟨eq, hlook⟩
  have hrq := h.eq_of_id hlook hlt (hname.trans hqid.symm)
  subst hrq
  rw [hdead hq] at hlive
  cases hlive

/-- A cancel that finds a paper order takes it out of the book. -/
theorem cancelOrder (h : PaperSim F b look) (hok : b.Ok) {id : String} {limit : ℚ}
    (hfound : b.cancellable id = some (r, limit)) (hr : look r = some e) :
    (∀ id', ¬F id' → (b.cancelOrder id).1.orders.get? id' = b.orders.get? id') ∧
      PaperSim F (b.cancelOrder id).1 (Function.update look r
        (some { e with ticket := e.ticket.withStatus .cancelled, place := .gone })) := by
  rcases OrderBook.cancellable_spec hfound with ⟨hget, -, -⟩
  have hmarked : PaperSim F (b.modify r (withStatus .cancelled)) (Function.update look r
      (some { e with ticket := e.ticket.withStatus .cancelled, place := .gone })) := by
    refine h.retire hr (fun _ => rfl) (fun _ => rfl) rfl ?_ rfl
    rw [h.ticket r e hr]
    rfl
  have hdead : ((b.modify r (withStatus .cancelled)).heap r).isLive = false := by
    rw [OrderBook.heap_modify_self, Order.isLive]
    simp [withStatus, Order.isActive]
  have hexcept := OrderBook.cancel_okExcept hok hfound
  simp only [OrderBook.cancelOrder, hfound]
  cases hl : (b.modify r (withStatus .cancelled)).level? (b.heap r).side
      (b.grid.toTicks limit) with
  | none => exact ⟨fun _ _ => rfl, hmarked⟩
  | some level =>
    have hremove := hmarked.removeFrame hl hget fun _ => hdead
    have hprune := (hmarked.frame hremove).pruneFrame (hexcept.removeId hl id).shape
      (b.heap r).side (b.grid.toTicks limit)
    exact ⟨(hremove.trans hprune).kept, (hmarked.frame hremove).frame hprune⟩

/-- A cancel that finds no paper order changes feed orders only. -/
theorem cancelFrame (h : PaperSim F b look) (hok : b.Ok) {id : String}
    (hmarket : ∀ r limit, b.cancellable id = some (r, limit) → (b.heap r).owner = .market) :
    PaperFrame F b (b.cancelOrder id).1 := by
  cases hfound : b.cancellable id with
  | none =>
    simp only [OrderBook.cancelOrder, hfound]
    exact PaperFrame.refl F b
  | some found =>
    rcases found with ⟨r, limit⟩
    have howner := hmarket r limit hfound
    rcases OrderBook.cancellable_spec hfound with ⟨hget, -, -⟩
    have hmodify : PaperFrame F b (b.modify r (withStatus .cancelled)) :=
      PaperFrame.modifyMarket howner (fun _ => rfl) fun _ => rfl
    have hexcept := OrderBook.cancel_okExcept hok hfound
    simp only [OrderBook.cancelOrder, hfound]
    cases hl : (b.modify r (withStatus .cancelled)).level? (b.heap r).side
        (b.grid.toTicks limit) with
    | none => exact hmodify
    | some level =>
      have hremove := (h.frame hmodify).removeFrame hl hget fun hpaper => by
        rw [hmodify.owner r, howner] at hpaper
        cases hpaper
      exact (hmodify.trans hremove).trans
        (((h.frame hmodify).frame hremove).pruneFrame (hexcept.removeId hl id).shape _ _)

end PaperSim

/-! ## Prints -/

/-- The hits of a print with a remaining size: each takes all that is left of the print or
all that is left of the order. -/
inductive Prints (grid : TickGrid) :
    ℚ → Look → List (Ref × Hit) → ℚ → Look → Prop
  | nil (remaining : ℚ) (look : Look) : Prints grid remaining look [] remaining look
  | pass {remaining next last : ℚ} {look look' : Look} {hits : List (Ref × Hit)}
      (hle : next ≤ remaining) (rest : Prints grid next look hits last look') :
      Prints grid remaining look hits last look'
  | hit {remaining last : ℚ} {look look' : Look} {hits : List (Ref × Hit)} {r : Ref}
      {e : Entry} {h : Hit} {t : ℤ} (hr : look r = some e) (hbook : e.place = .book)
      (hquantity : h.quantity = min remaining e.ticket.remaining) (hsize : eps < h.quantity)
      (hprice : h.price = grid.fromTicks t)
      (hlimit : e.ticket.limitPrice.map grid.toTicks = some t)
      (rest : Prints grid (remaining - h.quantity)
        (Function.update look r (some (e.hit h))) hits last look') :
      Prints grid remaining look ((r, h) :: hits) last look'

namespace Prints

variable {grid : TickGrid} {remaining next last : ℚ} {look look' look'' : Look}
  {hits hits' : List (Ref × Hit)} {r : Ref} {e : Entry}

theorem append (h : Prints grid remaining look hits next look')
    (h' : Prints grid next look' hits' last look'') :
    Prints grid remaining look (hits ++ hits') last look'' := by
  induction h with
  | nil => exact h'
  | pass hle _ ih => exact pass hle (ih h')
  | hit hr hbook hquantity hsize hprice hlimit _ ih =>
    exact hit hr hbook hquantity hsize hprice hlimit (ih h')

/-- Nothing is hit when nothing is left of the print. -/
theorem eq_of_exhausted (h : Prints grid remaining look hits last look')
    (hle : remaining ≤ eps) : hits = [] ∧ look' = look := by
  induction h with
  | nil => exact ⟨rfl, rfl⟩
  | pass hnext _ ih => exact ih (hnext.trans hle)
  | hit _ _ hquantity hsize _ _ _ _ =>
    rw [hquantity] at hsize
    exact absurd (hsize.trans_le ((min_le_left _ _).trans hle)) (lt_irrefl _)

/-- An order that is not in the book is not hit. -/
theorem eq_of_not_book (h : Prints grid remaining look hits last look') (hr : look r = some e)
    (hplace : e.place ≠ .book) : look' r = some e ∧ ∀ hit, (r, hit) ∉ hits := by
  induction h with
  | nil => exact ⟨hr, fun _ => List.not_mem_nil⟩
  | pass _ _ ih => exact ih hr
  | @hit _ _ look _ _ q _ _ _ hq hbook _ _ _ _ _ ih =>
    have hne : r ≠ q := by
      intro heq
      rw [heq, hq, Option.some.injEq] at hr
      exact hplace (hr ▸ hbook)
    rcases ih (by rw [Function.update_of_ne hne]; exact hr) with ⟨hlook, hnot⟩
    refine ⟨hlook, fun hit hmem => ?_⟩
    rcases List.mem_cons.mp hmem with heq | hlater
    · exact hne (congrArg Prod.fst heq)
    · exact hnot hit hlater

/-- A hit uses up the print or the order, so that the order is not hit again. -/
theorem eq_of_hit {h : Hit} (hquantity : h.quantity = min remaining e.ticket.remaining)
    (hrest : Prints grid (remaining - h.quantity)
      (Function.update look r (some (e.hit h))) hits last look') :
    look' r = some (e.hit h) ∧ ∀ hit, (r, hit) ∉ hits := by
  have hself : Function.update look r (some (e.hit h)) r = some (e.hit h) :=
    Function.update_self ..
  by_cases hle : remaining ≤ e.ticket.remaining
  · rw [min_eq_left hle] at hquantity
    rcases hrest.eq_of_exhausted (by rw [hquantity, sub_self]; exact eps_pos.le) with
      ⟨rfl, rfl⟩
    exact ⟨hself, fun _ => List.not_mem_nil⟩
  · rw [min_eq_right (not_le.mp hle).le] at hquantity
    refine hrest.eq_of_not_book hself ?_
    have hzero : (e.ticket.fill h).remaining = 0 := by
      rw [Ticket.remaining] at hquantity ⊢
      simp only [Ticket.fill]
      linarith
    rw [Entry.hit, if_pos (by rw [hzero]; exact eps_pos.le)]
    exact fun hf => by cases hf

/-- The entry of an order that was hit is the old one after the hit. -/
theorem settled (h : Prints grid remaining look hits last look') {hit : Hit}
    (hmem : (r, hit) ∈ hits) : ∃ e, look r = some e ∧ look' r = some (e.hit hit) := by
  induction h with
  | nil => cases hmem
  | pass _ _ ih => exact ih hmem
  | hit hlook _ hquantity _ _ _ hrest ih =>
    rcases eq_of_hit hquantity hrest with ⟨hfinal, hnot⟩
    rcases List.mem_cons.mp hmem with heq | hlater
    · cases heq
      exact ⟨_, hlook, hfinal⟩
    · rcases ih hlater with ⟨e', he', hlast⟩
      rcases look_update he' with ⟨rfl, -⟩ | ⟨-, hold⟩
      · exact absurd hlater (hnot _)
      · exact ⟨e', hold, hlast⟩

end Prints

/-- What a hit and the report of its fill have in common. -/
def hitKey (heap : Heap) (p : Ref × Hit) : String × ℚ × ℚ :=
  ((heap p.1).orderId, p.2.price, p.2.quantity)

/-- What the report of a fill and its hit have in common. -/
def Fill.key (f : Fill) : String × ℚ × ℚ :=
  (f.orderId, f.fillPrice, f.fillQuantity)

theorem hitKey_congr {heap heap' : Heap} (h : ∀ r, (heap' r).orderId = (heap r).orderId) :
    hitKey heap' = hitKey heap := by
  funext p
  rw [hitKey, hitKey, h]

theorem hitKey_modify {b : OrderBook} {r : Ref} {f : Order → Order}
    (h : (f (b.heap r)).orderId = (b.heap r).orderId) :
    hitKey (b.modify r f).heap = hitKey b.heap := by
  apply hitKey_congr
  intro q
  by_cases hq : q = r
  · rw [hq, OrderBook.heap_modify_self, h]
  · rw [OrderBook.heap_modify_ne f hq]

/-- Orders of one level that the loop over it has not reached; those with size left are
active. -/
structure Walkable (b : OrderBook) (s : TradeSide) (t : ℤ) (orders : List Ref) : Prop where
  rests : ∀ r ∈ orders, b.Rests r
  belongs : ∀ r ∈ orders, (b.heap r).Belongs b.grid s t
  active : ∀ r ∈ orders, eps < (b.heap r).remainingQuantity → (b.heap r).isActive = true

namespace Walkable

variable {b : OrderBook} {s : TradeSide} {t : ℤ} {r : Ref} {orders : List Ref}

theorem of_level (hok : b.Ok) {level : LevelQueue} (hlevel : b.level? s t = some level) :
    Walkable b s t level.orders where
  rests := fun r hr => ⟨s, t, by rwa [OrderBook.queue_of_level hlevel]⟩
  belongs := (hok.shape.level s t level hlevel).belongs
  active := fun r hr _ => by
    have hlive := (hok.live s t level hlevel).live r hr
    rw [Order.isLive, Bool.and_eq_true] at hlive
    exact hlive.2

theorem tail (h : Walkable b s t (r :: orders)) : Walkable b s t orders where
  rests := fun q hq => h.rests q (List.mem_cons_of_mem r hq)
  belongs := fun q hq => h.belongs q (List.mem_cons_of_mem r hq)
  active := fun q hq => h.active q (List.mem_cons_of_mem r hq)

/-- A hit leaves the orders behind it walkable. -/
theorem modify (h : Walkable b s t orders) {f : Order → Order}
    (hside : ∀ o, (f o).side = o.side) (hlimit : ∀ o, (f o).limitPrice = o.limitPrice)
    (hactive : r ∈ orders → eps < (f (b.heap r)).remainingQuantity →
      (f (b.heap r)).isActive = true) : Walkable (b.modify r f) s t orders where
  rests := fun q hq => (OrderBook.rests_modify r q f).mpr (h.rests q hq)
  belongs := fun q hq => by
    by_cases heq : q = r
    · subst heq
      rw [OrderBook.heap_modify_self, Order.Belongs, hside, hlimit]
      exact h.belongs q hq
    · rw [OrderBook.heap_modify_ne f heq]
      exact h.belongs q hq
  active := fun q hq => by
    by_cases heq : q = r
    · subst heq
      rw [OrderBook.heap_modify_self]
      exact hactive hq
    · rw [OrderBook.heap_modify_ne f heq]
      exact h.active q hq

end Walkable

/-- What a print does to a feed order. -/
def shrunk (quantity : ℚ) (o : Order) : Order :=
  { o with quantity := o.quantity - quantity }

theorem remaining_shrunk (quantity : ℚ) (o : Order) :
    (shrunk quantity o).remainingQuantity = o.remainingQuantity - quantity := by
  simp only [shrunk, Order.remainingQuantity]
  ring

namespace PaperSim

variable {b : OrderBook} {look : Look} {s : TradeSide} {t : ℤ}

/-- The loop of a print over one level hits resting paper orders and shrinks feed orders. -/
theorem printLevel (h : PaperSim F b look) (timestamp : ℚ) {orders : List Ref}
    (hwalk : Walkable b s t orders) (remaining : ℚ) :
    ∃ hits look', Prints b.grid remaining look hits
        (OrderBook.walkLevel (OrderBook.printSweep timestamp) (b.grid.fromTicks t) orders
          b.heap remaining).remaining look' ∧
      PaperSim F (b.withHeap (OrderBook.walkLevel (OrderBook.printSweep timestamp)
        (b.grid.fromTicks t) orders b.heap remaining).heap) look' ∧
      (OrderBook.walkLevel (OrderBook.printSweep timestamp) (b.grid.fromTicks t) orders
        b.heap remaining).fills.map Fill.key = hits.map (hitKey b.heap) := by
  induction orders generalizing b look remaining with
  | nil => exact ⟨[], look, Prints.nil .., h, rfl⟩
  | cons r rest ih =>
    have hmem : r ∈ r :: rest := List.mem_cons_self ..
    simp only [OrderBook.walkLevel]
    split
    · exact ⟨[], look, Prints.nil .., h, rfl⟩
    · split
      · exact ih h hwalk.tail remaining
      · split
        · exact ih h hwalk.tail remaining
        · rename_i hsize
          rw [not_le] at hsize
          cases howner : (b.heap r).owner with
          | market =>
            have hhit : (OrderBook.printSweep timestamp).hit (b.grid.fromTicks t)
                (min remaining (b.heap r).remainingQuantity) (b.heap r) =
                  shrunk (min remaining (b.heap r).remainingQuantity) (b.heap r) := by
              simp [OrderBook.printSweep, howner, shrunk]
            have hreports : (OrderBook.printSweep timestamp).reports
                (shrunk (min remaining (b.heap r).remainingQuantity) (b.heap r)) =
                  false := by
              simp [OrderBook.printSweep, howner, shrunk]
            have hframe : PaperFrame F b (b.modify r
                (shrunk (min remaining (b.heap r).remainingQuantity))) :=
              PaperFrame.modifyMarket howner (fun _ => rfl) fun _ => rfl
            have hnext : Walkable (b.modify r
                (shrunk (min remaining (b.heap r).remainingQuantity))) s t rest := by
              refine hwalk.tail.modify (fun _ => rfl) (fun _ => rfl) fun _ hlt => ?_
              rw [remaining_shrunk] at hlt
              exact hwalk.active r hmem (hlt.trans_le (by linarith [eps_pos]))
            rcases ih (h.frame hframe) hnext
              (remaining - min remaining (b.heap r).remainingQuantity) with
              ⟨hits, look', hprints, hsim, hkeys⟩
            rw [hhit, hreports]
            rw [hitKey_modify rfl] at hkeys
            exact ⟨hits, look', Prints.pass (by linarith [eps_pos]) hprints, hsim, hkeys⟩
          | paper =>
            rcases (h.paper r).mpr howner with ⟨e, hr⟩
            have hhit : (OrderBook.printSweep timestamp).hit (b.grid.fromTicks t)
                (min remaining (b.heap r).remainingQuantity) (b.heap r) =
                  (b.heap r).recordFill (b.grid.fromTicks t)
                    (min remaining (b.heap r).remainingQuantity) timestamp := by
              simp [OrderBook.printSweep, howner]
            have hreports : (OrderBook.printSweep timestamp).reports
                ((b.heap r).recordFill (b.grid.fromTicks t)
                  (min remaining (b.heap r).remainingQuantity) timestamp) = true := by
              simp [OrderBook.printSweep, Order.recordFill, howner]
            have hlt : eps < (b.heap r).remainingQuantity :=
              hsize.trans_le (min_le_right _ _)
            have hbook : e.place = .book := by
              refine (h.rests r e hr).mpr ⟨hwalk.rests r hmem, ?_⟩
              rw [Order.isLive, hwalk.active r hmem hlt, Bool.and_true]
              exact decide_eq_true hlt
            have hnext : Walkable (b.modify r (Order.recordFill (b.grid.fromTicks t)
                (min remaining (b.heap r).remainingQuantity) timestamp)) s t rest :=
              hwalk.tail.modify (fun _ => rfl) (fun _ => rfl) fun _ =>
                isActive_recordFill _ _ _ _
            rcases ih (h.hit hr hbook (b.grid.fromTicks t)
                (min remaining (b.heap r).remainingQuantity) timestamp) hnext
              (remaining - min remaining (b.heap r).remainingQuantity) with
              ⟨hits, look', hprints, hsim, hkeys⟩
            rw [hhit, hreports]
            rw [hitKey_modify rfl] at hkeys
            refine ⟨(r, ⟨b.grid.fromTicks t,
              min remaining (b.heap r).remainingQuantity⟩) :: hits, look',
              Prints.hit hr hbook ?_ hsize rfl ?_ hprints, hsim, ?_⟩
            · rw [h.ticket r e hr]
              rfl
            · rw [h.ticket r e hr]
              exact (hwalk.belongs r hmem).2
            · exact congrArg _ hkeys

/-- The loop of a print over the levels in its path. -/
theorem printWalk (h : PaperSim F b look) (hok : b.Ok) (timestamp : ℚ) (passive : TradeSide)
    (ticks : List ℤ) (remaining : ℚ) :
    ∃ hits last look', Prints b.grid remaining look hits last look' ∧
      PaperSim F (OrderBook.walk (OrderBook.printSweep timestamp) passive (fun _ => false)
        ticks b remaining).book look' ∧
      (OrderBook.walk (OrderBook.printSweep timestamp) passive (fun _ => false) ticks b
        remaining).fills.map Fill.key = hits.map (hitKey b.heap) ∧
      ∀ id, ¬F id → (OrderBook.walk (OrderBook.printSweep timestamp) passive (fun _ => false)
        ticks b remaining).book.orders.get? id = b.orders.get? id := by
  induction ticks generalizing b look remaining with
  | nil => exact ⟨[], remaining, look, Prints.nil .., h, rfl, fun _ _ => rfl⟩
  | cons t rest ih =>
    simp only [OrderBook.walk]
    split
    · exact ⟨[], remaining, look, Prints.nil .., h, rfl, fun _ _ => rfl⟩
    · cases hl : b.level? passive t with
      | none => exact ⟨[], remaining, look, Prints.nil .., h, rfl, fun _ _ => rfl⟩
      | some level =>
        have hshape := hok.shape.level passive t level hl
        have hw := OrderBook.walkLevel_within (OrderBook.printSweep_sound timestamp)
          level.price remaining hshape.belongs
        have hexcept := (hok.except passive t).within hw
        rcases h.printLevel timestamp (Walkable.of_level hok hl) remaining with
          ⟨hits, mid, hprints, hsim, hkeys⟩
        rw [← hshape.price] at hprints hsim hkeys
        have hprune := hsim.pruneFrame hexcept.shape passive t
        rcases ih (hsim.frame hprune) (OrderBook.prune_ok hexcept)
          (OrderBook.walkLevel (OrderBook.printSweep timestamp) level.price level.orders
            b.heap remaining).remaining with
          ⟨later, last, look', hprints', hsim', hkeys', hkept⟩
        have hids : ∀ r, (((b.withHeap (OrderBook.walkLevel
            (OrderBook.printSweep timestamp) level.price level.orders b.heap
              remaining).heap).prune passive t).heap r).orderId = (b.heap r).orderId := by
          intro r
          rw [← hw.orderId r]
          exact (fields_of_sansQueue (OrderBook.heap_prune_sansQueue r)).2.2.2.2.2.1
        rw [OrderBook.grid_prune] at hprints'
        rw [hitKey_congr hids] at hkeys'
        refine ⟨hits ++ later, last, look', hprints.append hprints', hsim', ?_, ?_⟩
        · simp only [List.map_append]
          rw [hkeys]
          exact congrArg _ hkeys'
        · exact fun id hid => (hkept id hid).trans (hprune.kept id hid)

/-- A print hits resting paper orders, and reports these hits. -/
theorem applyTrade (h : PaperSim F b look) (hok : b.Ok) (event : BookEvent) :
    ∃ hits last look', Prints b.grid event.size look hits last look' ∧
      PaperSim F (b.applyTrade event).1 look' ∧
      (b.applyTrade event).2.map Fill.key = hits.map (hitKey b.heap) ∧
      ∀ id, ¬F id → (b.applyTrade event).1.orders.get? id = b.orders.get? id := by
  have hframe : PaperFrame F b
      { b with
        lastTradePrice := some (b.grid.fromTicks (b.grid.toTicks event.price))
        lastTradeSize := some event.size } :=
    PaperFrame.congr (fun s => by cases s <;> rfl) rfl rfl rfl
  exact (h.frame hframe).printWalk (hok.lastTrade _ _) event.timestamp event.side.opposite
    (b.tradePath event) event.size

end PaperSim

end QuantumSentinel.Exchange
