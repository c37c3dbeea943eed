import QuantumSentinel.Exchange.PaperExchange

/-!
# Paper exchange: the desk

What the exchange is for, without books and events: a desk keeps the tickets of the orders
it was given, each in one place, and a record of executions from which cash and position
follow.  Its actions are the steps in the life of one order.  Everything the exchange
guarantees about orders and money is an invariant of the desk.

Main results:

- Definition `Desk.Step`: the actions, each with the conditions under which it happens.
- Theorem `filled_fillAll` and `Fits.size_le`: a sweep fills what it takes.
- Theorem `PaperPosition.applyFill_quantity`: the position after a fill.
-/

namespace QuantumSentinel.Exchange

open Lib

/-! ## Tickets -/

/-- What counts of an order for its life and for the account. -/
structure Ticket where
  orderId : String
  side : TradeSide
  orderType : OrderType
  quantity : ℚ
  limitPrice : Option ℚ
  stopPrice : Option ℚ
  expiresAt : Option ℚ
  activeAt : Option ℚ
  status : OrderStatus
  filled : ℚ
  avgPrice : ℚ
deriving DecidableEq, Repr

/-- The ticket of an order. -/
def Order.ticket (o : Order) : Ticket where
  orderId := o.orderId
  side := o.side
  orderType := o.orderType
  quantity := o.quantity
  limitPrice := o.limitPrice
  stopPrice := o.stopPrice
  expiresAt := o.expiresAt
  activeAt := o.activeAt
  status := o.status
  filled := o.filledQuantity
  avgPrice := o.avgFillPrice

/-- Size that changes hands at a price. -/
structure Hit where
  price : ℚ
  quantity : ℚ
deriving DecidableEq, Repr

/-- The record of one execution of an order. -/
structure Execution where
  orderId : String
  side : TradeSide
  price : ℚ
  quantity : ℚ
  /-- the order is FILLED by it -/
  completes : Bool
deriving DecidableEq, Repr

/-- The order type an order executes as. -/
def OrderType.executed : OrderType → OrderType
  | .market | .stop => .market
  | .limit | .stopLimit => .limit

namespace Ticket

/-- The size that is not filled. -/
def remaining (t : Ticket) : ℚ :=
  t.quantity - t.filled

/-- The price a limit or stop order commits cash at. -/
def commitPrice (t : Ticket) : ℚ :=
  (t.limitPrice.or t.stopPrice).getD 0

/-- The ticket after an execution. -/
def fill (t : Ticket) (h : Hit) : Ticket :=
  let filled := t.filled + h.quantity
  { t with
    filled := filled
    avgPrice := (t.avgPrice * t.filled + h.price * h.quantity) / filled
    status := Order.statusAfterFill t.quantity filled }

/-- The ticket after a sequence of executions. -/
def fillAll (t : Ticket) (hits : List Hit) : Ticket :=
  hits.foldl fill t

/-- The record of the execution that led to a ticket. -/
def execution (t : Ticket) (h : Hit) : Execution where
  orderId := t.orderId
  side := t.side
  price := h.price
  quantity := h.quantity
  completes := t.status = .filled

/-- The records of a sequence of executions. -/
def executions (t : Ticket) : List Hit → List Execution
  | [] => []
  | h :: rest => (t.fill h).execution h :: (t.fill h).executions rest

/-- The ticket with another status. -/
def withStatus (t : Ticket) (status : OrderStatus) : Ticket :=
  { t with status := status }

/-- Whether the expiry of the ticket has passed; zero is no expiry. -/
def isExpired (now : ℚ) (t : Ticket) : Bool :=
  t.expiresAt.any fun expiresAt => expiresAt ≠ 0 && decide (expiresAt ≤ now)

/-- The ticket of an order that starts to execute. -/
def started (t : Ticket) : Ticket :=
  { t with status := .accepted, orderType := t.orderType.executed }

end Ticket

/-- The sizes taken one after another each exceed the tolerance and fit what remains. -/
def Fits : ℚ → List Hit → Prop
  | _, [] => True
  | remaining, h :: rest =>
    eps < h.quantity ∧ h.quantity ≤ remaining ∧ Fits (remaining - h.quantity) rest

/-- The size of a sequence of executions. -/
def hitSize (hits : List Hit) : ℚ :=
  (hits.map Hit.quantity).sum

/-- The money that a sequence of executions moves. -/
def hitCost (hits : List Hit) : ℚ :=
  (hits.map fun h => h.price * h.quantity).sum

/-! ## Entries -/

/-- Where an order is. -/
inductive Place
  /-- in flight -/
  | flying
  /-- in the list of untriggered stops -/
  | stop
  /-- in a level of the book -/
  | book
  /-- nowhere -/
  | gone
deriving DecidableEq, Repr

/-- A ticket, where its order is, and the estimate noted for a market buy. -/
structure Entry where
  ticket : Ticket
  place : Place
  estimate : ℚ
deriving DecidableEq, Repr

namespace Entry

/-- The cash a working buy order commits. -/
def commitment (e : Entry) : ℚ :=
  if e.ticket.orderType = .market then e.estimate
  else e.ticket.remaining * e.ticket.commitPrice

/-- What the entry adds to the committed cash. -/
def committed (e : Entry) : ℚ :=
  if e.ticket.side = .buy ∧ e.ticket.status.isWorking = true then e.commitment else 0

/-- What the entry adds to the shares committed to sells. -/
def reserved (e : Entry) : ℚ :=
  if e.ticket.side = .sell ∧ e.ticket.status.isWorking = true then e.ticket.remaining else 0

/-- The entry after an execution of a resting order. -/
def hit (e : Entry) (h : Hit) : Entry :=
  { e with
    ticket := e.ticket.fill h
    place := if (e.ticket.fill h).remaining ≤ eps then .gone else .book }

end Entry

/-- How an execution as aggressor ends. -/
inductive Ending
  /-- nothing is left -/
  | done
  /-- the remainder is cancelled, or the order rejected -/
  | closed (status : OrderStatus)
  /-- the remainder rests in the book -/
  | rests
deriving DecidableEq, Repr

/-- The status of an order that comes to rest. -/
def Ticket.rested (t : Ticket) : Ticket :=
  t.withStatus (if t.filled ≤ 0 then .queued else t.status)

/-- The entry after an execution as aggressor. -/
def Entry.ended (e : Entry) (t : Ticket) : Ending → Entry
  | .done => { e with ticket := t, place := .gone }
  | .closed status => { e with ticket := t.withStatus status, place := .gone }
  | .rests => { e with ticket := t.rested, place := .book }

/-- Whether an execution can end so: a remainder is closed or rests, or nothing is left. -/
def Ticket.mayEnd (t : Ticket) (hits : List Hit) : Ending → Prop
  | .done => t.remaining ≤ eps ∧ (hits = [] → t.orderType = .limit)
  | .closed status =>
    (status = .cancelled ∨ (status = .rejected ∧ hits = [])) ∧
      (eps < t.remaining ∨ (hits = [] ∧ status = .rejected))
  | .rests => eps < t.remaining ∧ t.orderType = .limit ∧ t.limitPrice.isSome = true

/-- An order about to execute as aggressor: its ticket, the estimated cost of a market buy
of its size on the book it meets, and the cash committed to it. -/
structure Attempt where
  ticket : Ticket
  bound : Option ℚ
  committed : ℚ
deriving DecidableEq, Repr

/-! ## The desk -/

/-- The position quantity after a fill: it snaps to zero when the rest of a closed position
is below the tolerance. -/
def nextQuantity (quantity : ℚ) (side : TradeSide) (fillQty : ℚ) : ℚ :=
  let signedQty := PaperPosition.signed side fillQty
  let next := quantity + signedQty
  if ((0 < quantity ∧ signedQty < 0) ∨ (quantity < 0 ∧ 0 < signedQty)) ∧
      |signedQty| ≤ |quantity| ∧ |next| < PaperPosition.flatBelow then 0
  else next

/-- What an execution does to cash. -/
def Execution.cashFlow (f : Execution) : ℚ :=
  match f.side with
  | .buy => -f.price * f.quantity
  | .sell => f.price * f.quantity

/-- The position after a sequence of executions. -/
def positionAfter (quantity : ℚ) (fills : List Execution) : ℚ :=
  fills.foldl (fun quantity f => nextQuantity quantity f.side f.quantity) quantity

/-- The tickets of a run, under the references of their orders, and its executions. -/
structure Desk where
  entries : Dict Ref Entry
  fills : List Execution

namespace Desk

/-- A desk without orders. -/
def empty : Desk where
  entries := Dict.empty
  fills := []

variable (config : ExchangeConfig) (d : Desk)

/-- The cash of the account. -/
def cash : ℚ :=
  config.initialCash + (d.fills.map Execution.cashFlow).sum

/-- The position of the account. -/
def position : ℚ :=
  positionAfter 0 d.fills

/-- The cash that working buy orders commit. -/
def committed : ℚ :=
  (d.entries.items.map fun p => p.2.committed).sum

/-- The shares that working sell orders commit. -/
def reserved : ℚ :=
  (d.entries.items.map fun p => p.2.reserved).sum

/-- The cost the check of a buy order compares with the available cash. -/
def checkedCost (t : Ticket) (estimate : Option ℚ) : Option ℚ :=
  if t.orderType = .market then estimate else some (t.quantity * t.commitPrice)

/-- The pre-trade check. -/
def Admits (t : Ticket) (estimate : Option ℚ) : Prop :=
  match t.side with
  | .buy => ∀ cost ∈ checkedCost t estimate,
      cost ≤ d.cash config - d.committed + PaperExchange.cashTolerance
  | .sell => t.quantity ≤ d.position - d.reserved + eps

/-- Replace or add an entry. -/
def put (r : Ref) (e : Entry) : Desk :=
  { d with entries := d.entries.set r e }

/-- Add executions to the record. -/
def withFills (fills : List Execution) : Desk :=
  { d with fills := d.fills ++ fills }

/-- No order has the id yet. -/
def FreshId (id : String) : Prop :=
  ∀ p ∈ d.entries.items, p.2.ticket.orderId ≠ id

end Desk

/-- A step in the life of an order. -/
inductive Act
  /-- the pre-trade check passed and the order is on its way -/
  | record (r : Ref) (ticket : Ticket) (estimate : Option ℚ)
  /-- the pre-trade check refused the order -/
  | decline (r : Ref) (ticket : Ticket)
  /-- a working order is cancelled, expired or rejected -/
  | close (r : Ref) (status : OrderStatus)
  /-- an order that arrived waits for its trigger -/
  | park (r : Ref)
  /-- an order that arrived or was triggered executes as aggressor -/
  | execute (r : Ref) (attempt : Attempt) (hits : List Hit) (ending : Ending)
  /-- a resting order is hit by a print -/
  | passive (r : Ref) (h : Hit)

namespace Act

/-- The executions an action brings. -/
def hits : Act → List Hit
  | .execute _ _ hits _ => hits
  | .passive _ h => [h]
  | _ => []

/-- The order an action is about. -/
def ref : Act → Ref
  | .record r _ _ | .decline r _ | .close r _ | .park r | .execute r _ _ _ | .passive r _ => r

end Act

namespace Desk

variable (config : ExchangeConfig)

/-- The price of a limit order lies within the tick of its limit. -/
def WithinLimit (t : Ticket) (h : Hit) : Prop :=
  ∀ limit ∈ t.limitPrice,
    match t.side with
    | .buy => h.price ≤ config.grid.fromTicks (config.grid.toTicks limit)
    | .sell => config.grid.fromTicks (config.grid.toTicks limit) ≤ h.price

/-- Whether an order can start to execute where it is. -/
def Startable (e : Entry) : Prop :=
  (e.place = .flying ∧ 0 < e.ticket.quantity ∧
      (e.ticket.orderType = .market ∨ (e.ticket.orderType = .limit ∧
        e.ticket.limitPrice.isSome = true))) ∨
    e.place = .stop

/-- What an action does to the entry of its order, and the executions it records. -/
inductive Moves (e : Entry) : Act → Entry → List Execution → Prop
  | close {r : Ref} {status : OrderStatus} (hplace : e.place ≠ .gone)
      (hstatus : status = .cancelled ∨ status = .expired ∨ status = .rejected) :
      Moves e (.close r status)
        { e with ticket := e.ticket.withStatus status, place := .gone } []
  | park {r : Ref} (hplace : e.place = .flying) (hquantity : 0 < e.ticket.quantity)
      (htype : e.ticket.orderType = .stop ∨ (e.ticket.orderType = .stopLimit ∧
        e.ticket.limitPrice.isSome = true)) :
      Moves e (.park r) { e with ticket := e.ticket.withStatus .accepted, place := .stop } []
  | execute {r : Ref} {attempt : Attempt} {hits : List Hit} {ending : Ending}
      (hstart : Startable e) (hticket : attempt.ticket = e.ticket)
      (hcommitted : attempt.committed = e.commitment) (hfits : Fits e.ticket.remaining hits)
      (hlimit : e.ticket.orderType.executed = .limit →
        ∀ h ∈ hits, WithinLimit config e.ticket h)
      (hend : (e.ticket.started.fillAll hits).mayEnd hits ending) :
      Moves e (.execute r attempt hits ending)
        (e.ended (e.ticket.started.fillAll hits) ending) (e.ticket.started.executions hits)
  | passive {r : Ref} {h : Hit} (hplace : e.place = .book)
      (hfits : Fits e.ticket.remaining [h]) (hlimit : WithinLimit config e.ticket h) :
      Moves e (.passive r h) (e.hit h) [(e.ticket.fill h).execution h]

/-- One action of the desk. -/
inductive Step (d : Desk) : Act → Desk → Prop
  | record {r : Ref} {t : Ticket} {estimate : Option ℚ} (hnew : d.entries.get? r = none)
      (hid : d.FreshId t.orderId) (hstatus : t.status = .submitted) (hfilled : t.filled = 0)
      (hadmits : d.Admits config t estimate) :
      Step d (.record r t estimate) (d.put r ⟨t, .flying, estimate.getD 0⟩)
  | decline {r : Ref} {t : Ticket} (hnew : d.entries.get? r = none)
      (hid : d.FreshId t.orderId) (hstatus : t.status = .rejected) (hfilled : t.filled = 0) :
      Step d (.decline r t) (d.put r ⟨t, .gone, 0⟩)
  | move {act : Act} {e e' : Entry} {fills : List Execution}
      (hentry : d.entries.get? act.ref = some e) (hmoves : Moves config e act e' fills) :
      Step d act ((d.put act.ref e').withFills fills)

end Desk

/-! ## Fills -/

section Fills

variable {t : Ticket} {h : Hit} {hits : List Hit} {remaining : ℚ}

/-- Two states of one order: its terms are the same. -/
structure SameTerms (t t' : Ticket) : Prop where
  orderId : t'.orderId = t.orderId
  side : t'.side = t.side
  orderType : t'.orderType = t.orderType
  quantity : t'.quantity = t.quantity
  limitPrice : t'.limitPrice = t.limitPrice
  stopPrice : t'.stopPrice = t.stopPrice
  expiresAt : t'.expiresAt = t.expiresAt
  activeAt : t'.activeAt = t.activeAt

/-- Executions do not change the terms of an order. -/
theorem sameTerms_fillAll (t : Ticket) (hits : List Hit) : SameTerms t (t.fillAll hits) := by
  induction hits generalizing t with
  | nil => exact ⟨rfl, rfl, rfl, rfl, rfl, rfl, rfl, rfl⟩
  | cons h rest ih =>
    have hrest := ih (t.fill h)
    exact ⟨hrest.orderId, hrest.side, hrest.orderType, hrest.quantity, hrest.limitPrice,
      hrest.stopPrice, hrest.expiresAt, hrest.activeAt⟩

@[simp]
theorem hitSize_nil : hitSize [] = 0 :=
  rfl

@[simp]
theorem hitSize_cons (h : Hit) (hits : List Hit) :
    hitSize (h :: hits) = h.quantity + hitSize hits := by
  simp [hitSize]

@[simp]
theorem hitCost_nil : hitCost [] = 0 :=
  rfl

@[simp]
theorem hitCost_cons (h : Hit) (hits : List Hit) :
    hitCost (h :: hits) = h.price * h.quantity + hitCost hits := by
  simp [hitCost]

/-- A sweep fills what it takes. -/
theorem filled_fillAll (t : Ticket) (hits : List Hit) :
    (t.fillAll hits).filled = t.filled + hitSize hits := by
  induction hits generalizing t with
  | nil => simp [Ticket.fillAll]
  | cons h rest ih =>
    have hrest := ih (t.fill h)
    rw [Ticket.fillAll, List.foldl_cons]
    rw [Ticket.fillAll] at hrest
    rw [hrest, hitSize_cons, Ticket.fill]
    ring

/-- After at least one execution the status says whether anything remains. -/
theorem status_fillAll (hne : hits ≠ []) :
    (t.fillAll hits).status = Order.statusAfterFill t.quantity (t.fillAll hits).filled := by
  induction hits generalizing t with
  | nil => exact absurd rfl hne
  | cons h rest ih =>
    cases rest with
    | nil => rfl
    | cons h' rest' => exact ih (by simp)

theorem Fits.pos (hfits : Fits remaining hits) (hmem : h ∈ hits) : eps < h.quantity := by
  induction hits generalizing remaining with
  | nil => cases hmem
  | cons h' rest ih =>
    rcases List.mem_cons.mp hmem with rfl | hrest
    · exact hfits.1
    · exact ih hfits.2.2 hrest

theorem Fits.size_nonneg (hfits : Fits remaining hits) : 0 ≤ hitSize hits := by
  unfold hitSize
  apply List.sum_nonneg
  intro q hq
  rcases List.mem_map.mp hq with ⟨h, hmem, rfl⟩
  exact (eps_pos.trans (hfits.pos hmem)).le

/-- What is taken fits what remains. -/
theorem Fits.size_le (hfits : Fits remaining hits) (hne : hits ≠ []) :
    hitSize hits ≤ remaining := by
  induction hits generalizing remaining with
  | nil => exact absurd rfl hne
  | cons h rest ih =>
    rcases hfits with ⟨-, hle, hrest⟩
    rw [hitSize_cons]
    cases rest with
    | nil => simpa using hle
    | cons h' rest' =>
      have hsize := ih hrest (by simp)
      linarith

/-- A nonempty sweep takes more than the tolerance. -/
theorem Fits.eps_lt_size (hfits : Fits remaining hits) (hne : hits ≠ []) :
    eps < hitSize hits := by
  cases hits with
  | nil => exact absurd rfl hne
  | cons h rest =>
    have hrest := hfits.2.2.size_nonneg
    rw [hitSize_cons]
    linarith [hfits.1]

end Fills

/-! ## Records of executions -/

section Records

variable (t : Ticket) (hits : List Hit)

theorem execution_orderId (f : Execution) (hf : f ∈ t.executions hits) :
    f.orderId = t.orderId := by
  induction hits generalizing t with
  | nil => cases hf
  | cons h rest ih =>
    rcases List.mem_cons.mp hf with rfl | hmem
    · rfl
    · exact ih (t.fill h) hmem

theorem executions_quantity :
    ((t.executions hits).map Execution.quantity).sum = hitSize hits := by
  induction hits generalizing t with
  | nil => rfl
  | cons h rest ih =>
    rw [Ticket.executions, List.map_cons, List.sum_cons, ih, hitSize_cons]
    rfl

end Records

/-! ## Positions -/

theorem flatBelow_pos : 0 < PaperPosition.flatBelow := by
  norm_num [PaperPosition.flatBelow]

namespace PaperPosition

theorem closeFill_quantity (p : PaperPosition) (price signedQty : ℚ) :
    (p.closeFill price signedQty).quantity =
      if 0 < |signedQty| - min |signedQty| |p.quantity| then
        if 0 < signedQty then |signedQty| - min |signedQty| |p.quantity|
        else -(|signedQty| - min |signedQty| |p.quantity|)
      else if |p.quantity + signedQty| < flatBelow then 0
      else p.quantity + signedQty := by
  simp only [closeFill]
  split
  · rfl
  · split <;> rfl

theorem openFill_quantity (p : PaperPosition) (price quantity signedQty : ℚ) :
    (p.openFill price quantity signedQty).quantity = p.quantity + signedQty := by
  simp only [openFill]
  split <;> rfl

/-- The position quantity after a fill of the source's position object. -/
theorem applyFill_quantity (p : PaperPosition) (price quantity : ℚ) (side : TradeSide) :
    (p.applyFill price quantity side).quantity = nextQuantity p.quantity side quantity := by
  unfold applyFill nextQuantity
  simp only
  by_cases hclose : (0 < p.quantity ∧ signed side quantity < 0) ∨
      (p.quantity < 0 ∧ 0 < signed side quantity)
  · rw [if_pos hclose, closeFill_quantity]
    by_cases hle : |signed side quantity| ≤ |p.quantity|
    · rw [min_eq_left hle, sub_self, if_neg (lt_irrefl _)]
      by_cases hflat : |p.quantity + signed side quantity| < flatBelow
      · rw [if_pos hflat, if_pos ⟨hclose, hle, hflat⟩]
      · rw [if_neg hflat, if_neg fun h => hflat h.2.2]
    · have hlt := not_le.mp hle
      have hcross : ¬(((0 < p.quantity ∧ signed side quantity < 0) ∨
          (p.quantity < 0 ∧ 0 < signed side quantity)) ∧
            |signed side quantity| ≤ |p.quantity| ∧
              |p.quantity + signed side quantity| < flatBelow) := fun h => hle h.2.1
      rw [min_eq_right hlt.le, if_pos (by linarith), if_neg hcross]
      rcases hclose with ⟨hp, hs⟩ | ⟨hp, hs⟩
      · rw [abs_of_pos hp, abs_of_neg hs, if_neg hs.le.not_gt]
        ring
      · rw [abs_of_neg hp, abs_of_pos hs, if_pos hs]
        ring
  · rw [if_neg hclose, if_neg fun h => hclose h.1, openFill_quantity]

end PaperPosition

end QuantumSentinel.Exchange
