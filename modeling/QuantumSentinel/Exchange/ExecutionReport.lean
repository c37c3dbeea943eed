import QuantumSentinel.Exchange.DeskInvariants
import QuantumSentinel.Exchange.Expiry
import QuantumSentinel.Lib.Rounding

/-!
# Paper exchange: the execution report

`execution_analytics.py` explains what an execution cost by the mids at its decision and at
its arrival.  `record_fill` keeps the average price of an order as the fills come in, and the
fills themselves are logged elsewhere, from the events of the engine; the report joins the two.

Main results:

- Definition `computeImplementationShortfall` and `PaperExchange.buildExecutionReport`:
  the implementation shortfall of an order and of the report.
- Theorem `Desk.reconciled_invariant`: every order has the money of its executions.
- Theorem `PaperExchange.execution_report_reconciles`: the report in runs whose feed carries
  no id that they issue.

Current gaps:

- Execution metrics, queue analytics and adverse selection are left out of the report.
-/

namespace QuantumSentinel.Exchange

open Lib

variable {F : String → Prop}

/-! ## The money of an order -/

section Fills

variable {t : Ticket} {hits : List Hit} {remaining : ℚ}

/-- What an execution pays for. -/
def Execution.cost (f : Execution) : ℚ :=
  f.price * f.quantity

/-- A sweep brings the average price of an order to what it paid. -/
theorem average_fillAll (hfits : Fits remaining hits) (hfilled : 0 ≤ t.filled) :
    (t.fillAll hits).avgPrice * (t.fillAll hits).filled = t.avgPrice * t.filled + hitCost hits := by
  induction hits generalizing t remaining with
  | nil => exact (add_zero _).symm
  | cons h rest ih =>
    have hpos : 0 < t.filled + h.quantity :=
      add_pos_of_nonneg_of_pos hfilled (eps_pos.trans hfits.1)
    have hrest := ih (t := t.fill h) hfits.2.2 hpos.le
    have hone : (t.fill h).avgPrice * (t.fill h).filled =
        t.avgPrice * t.filled + h.price * h.quantity :=
      div_mul_cancel₀ _ hpos.ne'
    rw [hone] at hrest
    rw [hitCost_cons, ← add_assoc]
    exact hrest

/-- The executions of a sweep cost what it moves. -/
theorem executions_cost (t : Ticket) (hits : List Hit) :
    ((t.executions hits).map Execution.cost).sum = hitCost hits := by
  induction hits generalizing t with
  | nil => rfl
  | cons h rest ih =>
    rw [Ticket.executions, List.map_cons, List.sum_cons, ih, hitCost_cons]
    rfl

/-- Every execution of a sweep has a size. -/
theorem executions_pos (hfits : Fits remaining hits) {f : Execution} (hf : f ∈ t.executions hits) :
    0 < f.quantity := by
  induction hits generalizing t remaining with
  | nil => cases hf
  | cons h rest ih =>
    rcases List.mem_cons.mp hf with rfl | hmem
    · exact eps_pos.trans hfits.1
    · exact ih hfits.2.2 hmem

end Fills

/-- What the executions of a move do to the money of its order. -/
structure Settles (e e' : Entry) (fills : List Execution) : Prop where
  orderId : ∀ f ∈ fills, f.orderId = e.ticket.orderId
  pos : ∀ f ∈ fills, 0 < f.quantity
  filled : e'.ticket.filled = e.ticket.filled + (fills.map Execution.quantity).sum
  average : e'.ticket.avgPrice * e'.ticket.filled =
    e.ticket.avgPrice * e.ticket.filled + (fills.map Execution.cost).sum

/-- Every move settles its executions. -/
theorem Desk.Moves.settles {config : ExchangeConfig} {e e' : Entry} {act : Act}
    {fills : List Execution} (h : Desk.Moves config e act e' fills)
    (hfilled : 0 ≤ e.ticket.filled) : Settles e e' fills := by
  have hnone : ∀ e' : Entry, e'.ticket.filled = e.ticket.filled →
      e'.ticket.avgPrice = e.ticket.avgPrice → Settles e e' [] := fun e' hsame haverage =>
    ⟨fun f hf => (by cases hf), fun f hf => (by cases hf), hsame.trans (add_zero _).symm,
      by rw [hsame, haverage]; exact (add_zero _).symm⟩
  cases h with
  | close => exact hnone _ rfl rfl
  | park => exact hnone _ rfl rfl
  | @execute _ _ hits ending _ _ _ hfits =>
    have hended : ∀ e' : Entry,
        e'.ticket.filled = (e.ticket.started.fillAll hits).filled →
        e'.ticket.avgPrice = (e.ticket.started.fillAll hits).avgPrice →
        Settles e e' (e.ticket.started.executions hits) := by
      intro e' hsame haverage
      refine ⟨execution_orderId e.ticket.started hits, fun f => executions_pos hfits, ?_, ?_⟩
      · rw [hsame, filled_fillAll, executions_quantity]
        rfl
      · rw [hsame, haverage, average_fillAll (t := e.ticket.started) hfits hfilled,
          executions_cost]
        rfl
    cases ending with
    | done => exact hended _ rfl rfl
    | closed => exact hended _ rfl rfl
    | rests => exact hended _ rfl rfl
  | @passive _ hit _ hfits =>
    have haverage := average_fillAll hfits hfilled
    refine ⟨fun f hf => ?_, fun f hf => ?_, ?_, ?_⟩
    · rw [List.mem_singleton.mp hf]
      rfl
    · rw [List.mem_singleton.mp hf]
      exact eps_pos.trans hfits.1
    · rw [List.map_singleton, List.sum_singleton]
      rfl
    · rw [hitCost_cons, hitCost_nil, add_zero] at haverage
      rw [List.map_singleton, List.sum_singleton]
      exact haverage

/-! ## The money of the desk -/

namespace Desk

variable {config : ExchangeConfig} {G : PaperExchange → OrderRequest → Prop} {d : Desk} {r : Ref}
  {e : Entry}

/-- The executions of an order. -/
def executionsOf (d : Desk) (id : String) : List Execution :=
  d.fills.filter fun f => f.orderId = id

/-- Every order has the money of its executions. -/
structure Reconciled (d : Desk) : Prop where
  unique : ∀ r q e f, d.entries.get? r = some e → d.entries.get? q = some f →
    e.ticket.orderId = f.ticket.orderId → r = q
  known : ∀ f ∈ d.fills, ∃ r e, d.entries.get? r = some e ∧ e.ticket.orderId = f.orderId
  pos : ∀ f ∈ d.fills, 0 < f.quantity
  filled : ∀ r e, d.entries.get? r = some e →
    e.ticket.filled = ((d.executionsOf e.ticket.orderId).map Execution.quantity).sum
  average : ∀ r e, d.entries.get? r = some e → e.ticket.avgPrice * e.ticket.filled =
    ((d.executionsOf e.ticket.orderId).map Execution.cost).sum

/-- What an order has filled is not negative. -/
theorem Reconciled.filled_nonneg (h : d.Reconciled) (hr : d.entries.get? r = some e) :
    0 ≤ e.ticket.filled := by
  rw [h.filled r e hr]
  refine List.sum_nonneg fun q hq => ?_
  obtain ⟨f, hf, rfl⟩ := List.mem_map.mp hq
  exact (h.pos f (List.mem_of_mem_filter hf)).le

/-- An order has filled when it has executions. -/
theorem Reconciled.filled_pos_iff (h : d.Reconciled) (hr : d.entries.get? r = some e) :
    0 < e.ticket.filled ↔ d.executionsOf e.ticket.orderId ≠ [] := by
  rw [h.filled r e hr]
  have hpos : ∀ f ∈ d.executionsOf e.ticket.orderId, 0 < f.quantity := fun f hf =>
    h.pos f (List.mem_of_mem_filter hf)
  cases hfills : d.executionsOf e.ticket.orderId with
  | nil => exact iff_of_false (lt_irrefl _) fun hne => hne rfl
  | cons f rest =>
    rw [hfills] at hpos
    refine iff_of_true ?_ (List.cons_ne_nil _ _)
    rw [List.map_cons, List.sum_cons]
    refine add_pos_of_pos_of_nonneg (hpos f (List.mem_cons_self ..)) (List.sum_nonneg ?_)
    intro q hq
    obtain ⟨g, hg, rfl⟩ := List.mem_map.mp hq
    exact (hpos g (List.mem_cons_of_mem _ hg)).le

/-- The executions of one order are those it had and the new ones, or those it had. -/
theorem executionsOf_withFills (d : Desk) {fills : List Execution} {id id' : String}
    (hfills : ∀ f ∈ fills, f.orderId = id) :
    (d.withFills fills).executionsOf id' =
      d.executionsOf id' ++ if id = id' then fills else [] := by
  refine (List.filter_append ..).trans (congrArg (d.executionsOf id' ++ ·) ?_)
  split
  · rename_i hsame
    exact List.filter_eq_self.mpr fun f hf => decide_eq_true ((hfills f hf).trans hsame)
  · rename_i hother
    exact List.filter_eq_nil_iff.mpr fun f hf hid =>
      hother ((hfills f hf).symm.trans (of_decide_eq_true hid))

/-- A move keeps the money reconciled. -/
theorem Reconciled.move (h : d.Reconciled) {act : Act} {d' : Desk}
    (hstep : MoveStep config d act d') : d'.Reconciled := by
  cases hstep with
  | @move e e' fills hentry hmoves =>
    have hsettles := hmoves.settles (h.filled_nonneg hentry)
    have hid : e'.ticket.orderId = e.ticket.orderId := hmoves.terms.orderId
    have hlook : ((d.put act.ref e').withFills fills).entries.get? =
        Function.update d.entries.get? act.ref (some e') := d.get?_put act.ref e'
    have hexecutions : ∀ id, ((d.put act.ref e').withFills fills).executionsOf id =
        d.executionsOf id ++ if e.ticket.orderId = id then fills else [] := fun id =>
      (d.put act.ref e').executionsOf_withFills hsettles.orderId
    -- every entry stands for one that had the same id
    have hbefore : ∀ q f, Function.update d.entries.get? act.ref (some e') q = some f →
        ∃ g, d.entries.get? q = some g ∧ g.ticket.orderId = f.ticket.orderId := by
      intro q f hq
      rcases look_update hq with ⟨rfl, rfl⟩ | ⟨-, hold⟩
      · exact ⟨e, hentry, hid.symm⟩
      · exact ⟨f, hold, rfl⟩
    have hother : ∀ q f, d.entries.get? q = some f → q ≠ act.ref →
        e.ticket.orderId ≠ f.ticket.orderId := fun q f hq hne hsame =>
      hne (h.unique act.ref q e f hentry hq hsame).symm
    refine ⟨fun p q f g hp hq hsame => ?_, fun f hf => ?_, fun f hf => ?_, fun q f hq => ?_,
      fun q f hq => ?_⟩
    · rw [hlook] at hp hq
      obtain ⟨f', hf', hf⟩ := hbefore p f hp
      obtain ⟨g', hg', hg⟩ := hbefore q g hq
      exact h.unique p q f' g' hf' hg' (hf.trans (hsame.trans hg.symm))
    · rw [hlook]
      rcases List.mem_append.mp hf with hold | hnew
      · obtain ⟨q, g, hg, hgid⟩ := h.known f hold
        by_cases hq : q = act.ref
        · subst hq
          rw [hentry] at hg
          cases hg
          exact ⟨_, e', Function.update_self .., hid.trans hgid⟩
        · exact ⟨q, g, (Function.update_of_ne hq ..).trans hg, hgid⟩
      · exact ⟨_, e', Function.update_self .., hid.trans (hsettles.orderId f hnew).symm⟩
    · rcases List.mem_append.mp hf with hold | hnew
      · exact h.pos f hold
      · exact hsettles.pos f hnew
    · rw [hlook] at hq
      rw [hexecutions]
      rcases look_update hq with ⟨-, rfl⟩ | ⟨hne, hold⟩
      · rw [if_pos hid.symm, List.map_append, List.sum_append, hid, ← h.filled _ e hentry]
        exact hsettles.filled
      · rw [if_neg (hother q f hold hne), List.append_nil]
        exact h.filled q f hold
    · rw [hlook] at hq
      rw [hexecutions]
      rcases look_update hq with ⟨-, rfl⟩ | ⟨hne, hold⟩
      · rw [if_pos hid.symm, List.map_append, List.sum_append, hid, ← h.average _ e hentry]
        exact hsettles.average
      · rw [if_neg (hother q f hold hne), List.append_nil]
        exact h.average q f hold

/-- A new order has no money and no executions. -/
theorem Reconciled.enter (h : d.Reconciled) (hnew : d.entries.get? r = none)
    (hid : ∀ q f, d.entries.get? q = some f → f.ticket.orderId ≠ e.ticket.orderId)
    (hfilled : e.ticket.filled = 0) : (d.put r e).Reconciled := by
  have hold : ∀ q f, d.entries.get? q = some f → q ≠ r := by
    rintro q f hq rfl
    rw [hnew] at hq
    cases hq
  have hnone : d.executionsOf e.ticket.orderId = [] :=
    List.filter_eq_nil_iff.mpr fun f hf hsame => by
      obtain ⟨q, g, hg, hgid⟩ := h.known f hf
      exact hid q g hg (hgid.trans (of_decide_eq_true hsame))
  refine ⟨fun p q f g hp hq hsame => ?_, fun f hf => ?_, h.pos, fun q f hq => ?_, fun q f hq => ?_⟩
  · rw [d.get?_put] at hp hq
    rcases look_update hp with ⟨rfl, rfl⟩ | ⟨-, hp'⟩
    · rcases look_update hq with ⟨rfl, rfl⟩ | ⟨-, hq'⟩
      · rfl
      · exact absurd hsame.symm (hid q g hq')
    · rcases look_update hq with ⟨rfl, rfl⟩ | ⟨-, hq'⟩
      · exact absurd hsame (hid p f hp')
      · exact h.unique p q f g hp' hq' hsame
  · obtain ⟨q, g, hg, hgid⟩ := h.known f hf
    refine ⟨q, g, ?_, hgid⟩
    rw [d.get?_put, Function.update_of_ne (hold q g hg)]
    exact hg
  · rw [d.get?_put] at hq
    rcases look_update hq with ⟨-, rfl⟩ | ⟨-, hq⟩
    · rw [show (d.put r f).executionsOf f.ticket.orderId = [] from hnone, hfilled]
      rfl
    · exact h.filled q f hq
  · rw [d.get?_put] at hq
    rcases look_update hq with ⟨-, rfl⟩ | ⟨-, hq⟩
    · rw [show (d.put r f).executionsOf f.ticket.orderId = [] from hnone, hfilled, mul_zero]
      rfl
    · exact h.average q f hq

open PaperExchange in
/-- In every run every order has the money of its executions. -/
theorem reconciled_invariant (config : ExchangeConfig)
    (G : PaperExchange → OrderRequest → Prop) : DeskInvariant F config G Reconciled where
  move := fun _ hstep h => h.move hstep
  sent := fun hx _ _ h => h.enter (get?_nextRef hx.reflects)
    (fun _ _ hq => orderId_fresh hx.reflects hq) rfl
  refused := fun hx _ h => h.enter (get?_nextRef hx.reflects)
    (fun _ _ hq => orderId_fresh hx.reflects hq) rfl

end Desk

/-! ## Implementation shortfall -/

/-- What `compute_implementation_shortfall` returns. -/
structure ShortfallRow where
  decisionPrice : ℚ
  arrivalPrice : ℚ
  executionVwap : ℚ
  side : TradeSide
  quantity : ℚ
  delayCost : ℚ
  spreadCost : ℚ
  marketImpact : ℚ
  fees : ℚ
  totalIs : ℚ
  totalIsBps : ℚ
deriving DecidableEq, Repr

/-- What a side pays when the price rises. -/
def TradeSide.sign : TradeSide → ℚ
  | .buy => 1
  | .sell => -1

/-- Numbers as they are, in place of `round`. -/
def unrounded (q : ℚ) (_ : ℕ) : ℚ :=
  q

/-- `compute_implementation_shortfall`, with its `round`. -/
def computeImplementationShortfall (round : ℚ → ℕ → ℚ)
    (decisionPrice arrivalPrice executionVwap : ℚ) (side : TradeSide)
    (quantity spread fees : ℚ) : ShortfallRow :=
  let delayCost := side.sign * (arrivalPrice - decisionPrice) * quantity
  let spreadCost := spread * quantity
  let marketImpact := side.sign * (executionVwap - arrivalPrice) * quantity
  let totalIs := delayCost + spreadCost + marketImpact + fees
  let notional := decisionPrice * quantity
  let totalIsBps := if 0 < notional then totalIs / notional * 10000 else 0
  { decisionPrice := round decisionPrice 6
    arrivalPrice := round arrivalPrice 6
    executionVwap := round executionVwap 6
    side := side
    quantity := quantity
    delayCost := round delayCost 4
    spreadCost := round spreadCost 4
    marketImpact := round marketImpact 4
    fees := round fees 4
    totalIs := round totalIs 4
    totalIsBps := round totalIsBps 2 }

/-- What the loop of `build_execution_report` over the orders has summed up. -/
structure ShortfallTotals where
  rows : List (String × ShortfallRow)
  totalIs : ℚ
  notional : ℚ

/-- The `implementation_shortfall` part of the report. -/
structure ShortfallReport where
  orders : List (String × ShortfallRow)
  totalIs : ℚ
  totalIsBps : ℚ

namespace PaperExchange

variable (round : ℚ → ℕ → ℚ) (x : PaperExchange)

/-- The mids at the decision and at the arrival of an order, when both are known. -/
def mids (o : Order) : Option (ℚ × ℚ) :=
  (x.decisionMid.get? o.orderId).join.bind fun decision =>
    (x.arrivalMid.get? o.orderId).join.map fun arrival => (decision, arrival)

/-- One order in the loop of `build_execution_report`. -/
def reportOrder (totals : ShortfallTotals) (r : Ref) : ShortfallTotals :=
  let o := x.order r
  let qty := o.filledQuantity
  match x.mids o with
  | none => totals
  | some (decision, arrival) =>
    if qty ≤ 0 then totals
    else
      let row := computeImplementationShortfall round decision arrival o.avgFillPrice o.side qty
        0 0
      { rows := totals.rows ++ [(o.orderId, row)]
        totalIs := totals.totalIs + row.totalIs
        notional := totals.notional + decision * qty }

/-- `build_execution_report`, as far as it is about implementation shortfall. -/
def buildExecutionReport : ShortfallReport :=
  let totals := x.orderHistory.foldl (x.reportOrder round) ⟨[], 0, 0⟩
  { orders := totals.rows
    totalIs := round totals.totalIs 4
    totalIsBps :=
      if totals.notional = 0 then 0 else round (totals.totalIs / totals.notional * 10000) 2 }

/-! ## What is to reconcile -/

/-- The entries of the fill history that belong to an order. -/
def fillsOf (o : Order) : List Fill :=
  x.fillHistory.filter fun f => f.orderId = o.orderId

/-- What the fills of an order cost beyond the mid at its decision. -/
def shortfallOf (o : Order) (decision : ℚ) : ℚ :=
  ((x.fillsOf o).map fun f => o.side.sign * (f.fillPrice - decision) * f.fillQuantity).sum

/-- Whether an order has an execution. -/
def Executed (r : Ref) : Prop :=
  0 < (x.order r).filledQuantity

instance (r : Ref) : Decidable (x.Executed r) :=
  inferInstanceAs (Decidable (_ < _))

/-- What the fills of an order with an execution and both mids cost beyond its decision mid. -/
def reportedShortfall (r : Ref) : Option ℚ :=
  if x.Executed r then (x.mids (x.order r)).map fun m => x.shortfallOf (x.order r) m.1 else none

/-- The report reconciles with the fills. -/
structure Reconciles : Prop where
  /-- an order has an execution when the history has one of its fills -/
  recorded : ∀ r ∈ x.orderHistory, x.Executed r ↔ x.fillsOf (x.order r) ≠ []
  average : ∀ r ∈ x.orderHistory, x.Executed r →
    (x.order r).avgFillPrice * (x.order r).filledQuantity =
      ((x.fillsOf (x.order r)).map fun f => f.fillPrice * f.fillQuantity).sum
  /-- the arrival mid does not matter -/
  shortfall : ∀ r ∈ x.orderHistory, x.Executed r → ∀ decision arrival,
    (computeImplementationShortfall unrounded decision arrival (x.order r).avgFillPrice
      (x.order r).side (x.order r).filledQuantity 0 0).totalIs =
        x.shortfallOf (x.order r) decision
  total : (x.buildExecutionReport unrounded).totalIs =
    (x.orderHistory.filterMap x.reportedShortfall).sum

variable {x : PaperExchange} {flights : List Ref} {d : Desk} {r : Ref} {e : Entry}
  {config : ExchangeConfig}

/-! ## The report of a run -/

/-- The fills of an order in the history are its executions. -/
theorem fillsOf_trades (h : Mirrors F x flights d) (o : Order) :
    (x.fillsOf o).map Fill.trade = (d.executionsOf o.orderId).map Execution.trade := by
  have hfilter := congrArg
    (List.filter fun t : String × Option TradeSide × ℚ × ℚ => t.1 = o.orderId) h.fills
  rw [List.filter_map, List.filter_map] at hfilter
  exact hfilter

/-- What an order has filled, paid for it, and how many fills it has. -/
theorem money_of_mirrors (h : Mirrors F x flights d) (hd : d.Reconciled)
    (hr : d.entries.get? r = some e) :
    (x.order r).filledQuantity = ((x.fillsOf (x.order r)).map Fill.fillQuantity).sum ∧
      (x.order r).avgFillPrice * (x.order r).filledQuantity =
        ((x.fillsOf (x.order r)).map fun f => f.fillPrice * f.fillQuantity).sum ∧
      (x.Executed r ↔ x.fillsOf (x.order r) ≠ []) := by
  have hticket : e.ticket = (x.order r).ticket := h.engine.book.sim.ticket r e hr
  have hid : e.ticket.orderId = (x.order r).orderId := congrArg Ticket.orderId hticket
  have hfilled : e.ticket.filled = (x.order r).filledQuantity := congrArg Ticket.filled hticket
  have haverage : e.ticket.avgPrice = (x.order r).avgFillPrice := congrArg Ticket.avgPrice hticket
  have htrades := fillsOf_trades h (x.order r)
  have hsize := congrArg (List.map fun t : String × Option TradeSide × ℚ × ℚ => t.2.2.2) htrades
  have hcost := congrArg
    (List.map fun t : String × Option TradeSide × ℚ × ℚ => t.2.2.1 * t.2.2.2) htrades
  rw [List.map_map, List.map_map] at hsize hcost
  refine ⟨?_, ?_, ?_⟩
  · rw [← hfilled, hd.filled r e hr, hid]
    exact congrArg List.sum hsize.symm
  · rw [← hfilled, ← haverage, hd.average r e hr, hid]
    exact congrArg List.sum hcost.symm
  · have hempty : d.executionsOf (x.order r).orderId ≠ [] ↔ x.fillsOf (x.order r) ≠ [] := by
      rw [Ne, Ne, ← List.map_eq_nil_iff (f := Execution.trade), ← htrades, List.map_eq_nil_iff]
    rw [Executed, ← hfilled, hd.filled_pos_iff hr, hid, hempty]

/-- The shortfall of fills, from their money. -/
theorem sum_shortfall (sign decision : ℚ) (fills : List Fill) :
    (fills.map fun f => sign * (f.fillPrice - decision) * f.fillQuantity).sum =
      sign * ((fills.map fun f => f.fillPrice * f.fillQuantity).sum -
        decision * (fills.map Fill.fillQuantity).sum) := by
  induction fills with
  | nil => simp
  | cons f rest ih =>
    simp only [List.map_cons, List.sum_cons, ih]
    ring

/-- The arrival mid cancels: delay and impact together are what was paid beyond the decision. -/
theorem totalIs_eq (decision arrival vwap : ℚ) (side : TradeSide) (quantity : ℚ) :
    (computeImplementationShortfall unrounded decision arrival vwap side quantity 0 0).totalIs =
      side.sign * (vwap * quantity - decision * quantity) := by
  simp only [computeImplementationShortfall, unrounded]
  ring

/-- What the loop sums up. -/
theorem foldl_reportOrder (hshort : ∀ r ∈ x.orderHistory, x.Executed r → ∀ decision arrival,
      (computeImplementationShortfall unrounded decision arrival (x.order r).avgFillPrice
        (x.order r).side (x.order r).filledQuantity 0 0).totalIs =
          x.shortfallOf (x.order r) decision)
    (orders : List Ref) (horders : ∀ r ∈ orders, r ∈ x.orderHistory) (totals : ShortfallTotals) :
    (orders.foldl (x.reportOrder unrounded) totals).totalIs =
      totals.totalIs + (orders.filterMap x.reportedShortfall).sum := by
  induction orders generalizing totals with
  | nil => exact (add_zero _).symm
  | cons r rest ih =>
    have hrest := ih (fun q hq => horders q (List.mem_cons_of_mem _ hq))
      (x.reportOrder unrounded totals r)
    rw [List.foldl_cons, hrest]
    cases hmids : x.mids (x.order r) with
    | none =>
      have hnone : x.reportedShortfall r = none := by
        rw [reportedShortfall, hmids]
        split <;> rfl
      rw [List.filterMap_cons_none hnone, reportOrder]
      simp only [hmids]
    | some m =>
      by_cases hexecuted : x.Executed r
      · have hsome : x.reportedShortfall r = some (x.shortfallOf (x.order r) m.1) := by
          rw [reportedShortfall, if_pos hexecuted, hmids]
          rfl
        rw [List.filterMap_cons_some hsome, List.sum_cons, ← add_assoc,
          ← hshort r (horders r (List.mem_cons_self ..)) hexecuted m.1 m.2, reportOrder]
        simp only [hmids, if_neg (not_le.mpr hexecuted)]
      · have hnone : x.reportedShortfall r = none := if_neg hexecuted
        rw [List.filterMap_cons_none hnone, reportOrder]
        simp only [hmids, if_pos (not_lt.mp hexecuted)]

/-- A report over a reconciled desk reconciles. -/
theorem reconciles_of_mirrors (h : Mirrors F x flights d) (hd : d.Reconciled) : x.Reconciles := by
  have hmoney : ∀ r ∈ x.orderHistory, _ := fun r hr =>
    money_of_mirrors h hd ((mem_orderHistory h).mp hr).choose_spec
  have hshort : ∀ r ∈ x.orderHistory, x.Executed r → ∀ decision arrival,
      (computeImplementationShortfall unrounded decision arrival (x.order r).avgFillPrice
        (x.order r).side (x.order r).filledQuantity 0 0).totalIs =
          x.shortfallOf (x.order r) decision := by
    intro r hr _ decision arrival
    obtain ⟨hfilled, haverage, -⟩ := hmoney r hr
    rw [totalIs_eq, shortfallOf, sum_shortfall, ← haverage, ← hfilled]
  refine ⟨fun r hr => (hmoney r hr).2.2, fun r hr _ => (hmoney r hr).2.1, hshort, ?_⟩
  exact (foldl_reportOrder hshort x.orderHistory (fun _ hr => hr) ⟨[], 0, 0⟩).trans (zero_add _)

/-- In every run whose feed has ids of its own the report reconciles with the fills. -/
theorem execution_report_reconciles
    (hx : (machine config).ReachableUnder (Guarded F fun _ _ => True) x) : x.Reconciles := by
  have hempty : Desk.empty.Reconciled :=
    ⟨fun r q e f hr => (by cases hr), fun f hf => (by cases hf), fun f hf => (by cases hf),
      fun r e hr => (by cases hr), fun r e hr => (by cases hr)⟩
  obtain ⟨d, hrecords, hd⟩ := (Desk.reconciled_invariant config _).reachable hempty hx
  exact reconciles_of_mirrors hrecords.reflects hd

/-- An order that takes two feed orders, and one that rests and is hit by a print. -/
def takerAndMaker : List Op :=
  [.onMarketEvent ⟨1, .add, .buy, 98, 10, some "m1"⟩ OrderBook.zeros,
    .onMarketEvent ⟨1, .add, .sell, 100, 10, some "m2"⟩ OrderBook.zeros,
    .onMarketEvent ⟨1, .add, .sell, 102, 10, some "m3"⟩ OrderBook.zeros,
    .submitOrder ⟨.buy, 15, .market, none, none, .gtc, none⟩,
    .submitOrder ⟨.sell, 5, .limit, some 103, none, .gtc, none⟩,
    .onMarketEvent ⟨2, .trade, .buy, 103, 10, none⟩ OrderBook.zeros]

/-- The sell is filled above the mid at its decision, which saves what it gains. -/
theorem execution_report_reconciles_two :
    ∃ x, (machine instant).execUnder (Guarded (· ∉ ["P00000001", "P00000002"]) fun _ _ => True)
        (empty instant) takerAndMaker = some x ∧
      (x.fillHistory.map fun f => (f.orderId, f.fillPrice, f.fillQuantity)) =
        [("P00000001", 100, 10), ("P00000001", 102, 5), ("P00000002", 103, 5)] ∧
      (x.buildExecutionReport unrounded).totalIs = 10 ∧ x.Reconciles := by
  have hrun : ((machine instant).execUnder
      (Guarded (· ∉ ["P00000001", "P00000002"]) fun _ _ => True) (empty instant)
      takerAndMaker).map (fun x =>
        (x.fillHistory.map fun f => (f.orderId, f.fillPrice, f.fillQuantity),
          (x.buildExecutionReport unrounded).totalIs)) =
        some ([("P00000001", 100, 10), ("P00000001", 102, 5), ("P00000002", 103, 5)], 10) := by
    decide +kernel
  obtain ⟨x, hexec, hx⟩ := Option.map_eq_some_iff.mp hrun
  obtain ⟨hfills, htotal⟩ := Prod.mk.inj hx
  exact ⟨x, hexec, hfills, htotal,
    execution_report_reconciles (Machine.reachableUnder_of_execUnder hexec)⟩

/-- A resting order whose id the feed takes for an order of its own and then cancels. -/
def forgottenId : List Op :=
  [.submitOrder ⟨.buy, 10, .limit, some 100, none, .gtc, none⟩,
    .onMarketEvent ⟨1, .add, .buy, 99, 5, some "P00000001"⟩ OrderBook.zeros,
    .onMarketEvent ⟨2, .cancel, .buy, 99, 5, some "P00000001"⟩ OrderBook.zeros,
    .onMarketEvent ⟨3, .trade, .sell, 100, 10, none⟩ OrderBook.zeros]

/-- The order is filled, and the history has no fill of it. -/
theorem unreported_fill :
    ∃ x, (machine instant).exec (empty instant) forgottenId = some x ∧ x.orderHistory = [0] ∧
      (x.order 0).filledQuantity = 10 ∧ (x.order 0).avgFillPrice = 100 ∧ x.fillHistory = [] ∧
        ¬x.Reconciles := by
  have hrun : ((machine instant).exec (empty instant) forgottenId).map (fun x => (x.orderHistory,
      (x.order 0).filledQuantity, (x.order 0).avgFillPrice, x.fillHistory)) =
        some ([0], 10, 100, []) := by
    decide +kernel
  obtain ⟨x, hexec, hx⟩ := Option.map_eq_some_iff.mp hrun
  simp only [Prod.mk.injEq] at hx
  obtain ⟨hhistory, hfilled, haverage, hnone⟩ := hx
  refine ⟨x, hexec, hhistory, hfilled, haverage, hnone, fun h => ?_⟩
  have hmoney := h.average 0 (by rw [hhistory]; exact List.mem_singleton_self 0)
    (by rw [Executed, hfilled]; norm_num)
  rw [fillsOf, hnone, hfilled, haverage] at hmoney
  norm_num at hmoney

end PaperExchange

end QuantumSentinel.Exchange
