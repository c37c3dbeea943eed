import QuantumSentinel.Exchange.DeskInvariants

/-!
# Paper exchange: short sales

A sell has to be covered by `sellable_quantity`, the position without what the working sells
can still take.  Orders of a negative quantity are recorded like others, and while such a sell is
in flight it adds to the sellable quantity what no execution will bring.  Besides, the check allows
a tolerance, and the position snaps to flat when a sell leaves less than `1e-10`.

Main results:

- Definition `Balance`: what working sells can still take is covered.
- Theorem `Desk.covered_invariant`: every move keeps the balance of the desk.
- Theorem `PaperExchange.never_short`: the position in runs whose sells are soundly covered.
-/

namespace QuantumSentinel.Exchange

open Lib

variable {F : String → Prop}

/-! ## Balance -/

/-- What is owed is covered by the position and a tolerance, which the snap to flat may use up only
when nothing else is held. -/
def Balance (tolerance position owed : ℚ) : Prop :=
  owed ≤ position + tolerance - PaperPosition.flatBelow ∨
    (owed ≤ tolerance ∧ owed ≤ position + tolerance)

namespace Balance

variable {tolerance tolerance' position owed owed' quantity remaining : ℚ} {t : Ticket}
  {hits : List Hit}

/-- A larger tolerance covers more, and less is easier to cover. -/
theorem mono (h : Balance tolerance position owed) (htolerance : tolerance ≤ tolerance')
    (howed : owed' ≤ owed) : Balance tolerance' position owed' := by
  rcases h with hfull | ⟨hsmall, hcovered⟩
  · exact Or.inl (by linarith)
  · exact Or.inr ⟨by linarith, by linarith⟩

theorem covered (h : Balance tolerance position owed) : owed ≤ position + tolerance := by
  rcases h with hfull | ⟨-, hcovered⟩
  · linarith [flatBelow_pos]
  · exact hcovered

/-- A buy covers what the position did. -/
theorem buy (h : Balance tolerance position owed) (hpos : 0 < quantity) :
    Balance tolerance (nextQuantity position .buy quantity) owed := by
  have hmore : position ≤ nextQuantity position .buy quantity := by
    unfold nextQuantity
    dsimp only [PaperPosition.signed]
    split
    · rename_i hsnap
      rcases hsnap.1 with ⟨-, hneg⟩ | ⟨hshort, -⟩
      · exact absurd hneg (not_lt.mpr hpos.le)
      · exact hshort.le
    · linarith
  rcases h with hfull | ⟨hsmall, hcovered⟩
  · exact Or.inl (by linarith)
  · exact Or.inr ⟨hsmall, by linarith⟩

/-- A sell takes from the position what is no longer owed. -/
theorem sell (h : Balance tolerance position owed) (hpos : 0 < quantity) :
    Balance tolerance (nextQuantity position .sell quantity) (owed - quantity) := by
  unfold nextQuantity
  dsimp only [PaperPosition.signed]
  split
  · rename_i hsnap
    -- the position is flat, and what is left of it is lost
    have hleft := (abs_lt.mp hsnap.2.2).2
    rcases h with hfull | ⟨hsmall, -⟩
    · exact Or.inr ⟨by linarith, by linarith⟩
    · exact Or.inr ⟨by linarith, by linarith⟩
  · rcases h with hfull | ⟨hsmall, hcovered⟩
    · exact Or.inl (by linarith)
    · exact Or.inr ⟨by linarith, by linarith⟩

/-- The executions of a buy cover what the position did. -/
theorem buys (h : Balance tolerance position owed) (hside : t.side = .buy)
    (hfits : Fits remaining hits) :
    Balance tolerance (positionAfter position (t.executions hits)) owed := by
  induction hits generalizing t position remaining with
  | nil => exact h
  | cons hit rest ih =>
    have hnext := h.buy (eps_pos.trans hfits.1)
    rw [← hside] at hnext
    exact ih hnext hside hfits.2.2

/-- The executions of a sell take from the position what is no longer owed. -/
theorem sells (h : Balance tolerance position owed) (hside : t.side = .sell)
    (hfits : Fits remaining hits) :
    Balance tolerance (positionAfter position (t.executions hits)) (owed - hitSize hits) := by
  induction hits generalizing t position owed remaining with
  | nil => exact h.mono le_rfl (sub_zero owed).le
  | cons hit rest ih =>
    have hnext := h.sell (eps_pos.trans hfits.1)
    rw [← hside] at hnext
    rw [hitSize_cons, ← sub_sub]
    exact ih hnext hside hfits.2.2

end Balance

/-! ## The balance of the desk -/

namespace Entry

/-- What a working sell can still take from the position. -/
def owed (e : Entry) : ℚ :=
  if e.ticket.side = .sell ∧ e.ticket.status.isWorking = true then max e.ticket.remaining 0 else 0

/-- The tolerance for a sell. -/
def tolerance (e : Entry) : ℚ :=
  if e.ticket.side = .sell then eps else 0

theorem owed_nonneg (e : Entry) : 0 ≤ e.owed := by
  unfold owed
  split
  · exact le_max_right _ _
  · exact le_rfl

theorem tolerance_nonneg (e : Entry) : 0 ≤ e.tolerance := by
  unfold tolerance
  split
  · exact eps_pos.le
  · exact le_rfl

theorem owed_of_buy {e : Entry} (hside : e.ticket.side = .buy) : e.owed = 0 :=
  if_neg fun hsell => by rw [hside] at hsell; cases hsell.1

/-- What the executions of a sell take is no longer owed. -/
theorem owed_of_trades {e e' : Entry} {fills : List Execution} {t : Ticket} {hits : List Hit}
    (h : Trades e e' fills t hits) (hterms : SameOrder e.ticket e'.ticket)
    (hworks : e.ticket.status.isWorking = true) (hside : e.ticket.side = .sell) :
    e'.owed ≤ e.owed - hitSize hits := by
  have hleft : e'.ticket.remaining = e.ticket.remaining - hitSize hits := by
    rw [Ticket.remaining, hterms.quantity, h.filled, Ticket.remaining]
    ring
  have howed : e.owed = max e.ticket.remaining 0 := if_pos ⟨hside, hworks⟩
  have htaken : hits = [] ∨ 0 ≤ e.ticket.remaining - hitSize hits := by
    by_cases hnone : hits = []
    · exact Or.inl hnone
    · exact Or.inr (sub_nonneg.mpr (h.fits.size_le hnone))
  rw [howed]
  unfold owed
  rw [hleft]
  rcases htaken with rfl | hnonneg
  · rw [hitSize_nil, sub_zero, sub_zero]
    split
    · exact le_rfl
    · exact le_max_right _ _
  · have hless : e.ticket.remaining - hitSize hits ≤ max e.ticket.remaining 0 - hitSize hits :=
      sub_le_sub_right (le_max_left _ _) _
    split
    · exact (max_eq_left hnonneg).trans_le hless
    · exact hnonneg.trans hless

end Entry

namespace Desk

variable {config : ExchangeConfig} {d d' : Desk} {r : Ref} {e : Entry}

/-- What the working sells can still take. -/
def owed (d : Desk) : ℚ :=
  (d.entries.items.map fun p => p.2.owed).sum

/-- The tolerance for all sells. -/
def tolerance (d : Desk) : ℚ :=
  (d.entries.items.map fun p => p.2.tolerance).sum

/-- The working sells are covered. -/
def Covered (d : Desk) : Prop :=
  Balance d.tolerance d.position d.owed

theorem owed_nonneg (d : Desk) : 0 ≤ d.owed := by
  refine List.sum_nonneg fun q hq => ?_
  obtain ⟨p, -, rfl⟩ := List.mem_map.mp hq
  exact p.2.owed_nonneg

/-- A move keeps the working sells covered. -/
theorem Covered.move (h : d.Covered) (hplaced : AllPlaced d.entries.get?) {act : Act}
    (hstep : MoveStep config d act d') : d'.Covered := by
  cases hstep with
  | @move e e' fills hentry hmoves =>
    obtain ⟨t, hits, htrades⟩ := hmoves.trades
    have hworks := (hplaced _ _ hentry).working hmoves.not_gone
    have hposition : ((d.put act.ref e').withFills fills).position =
        positionAfter d.position (t.executions hits) := by
      rw [← htrades.eq]
      exact List.foldl_append ..
    have howed : ((d.put act.ref e').withFills fills).owed = d.owed - e.owed + e'.owed :=
      d.sum_put_old Entry.owed e' hentry
    have htolerance : ((d.put act.ref e').withFills fills).tolerance = d.tolerance := by
      have hsame : e'.tolerance = e.tolerance := by
        rw [Entry.tolerance, Entry.tolerance, hmoves.terms.side]
      refine (d.sum_put_old Entry.tolerance e' hentry).trans ?_
      rw [hsame]
      exact sub_add_cancel _ _
    rw [Covered, htolerance, hposition, howed]
    cases hside : e.ticket.side with
    | buy =>
      rw [Entry.owed_of_buy hside, Entry.owed_of_buy (hmoves.terms.side.trans hside), sub_zero,
        add_zero]
      exact Balance.buys h (htrades.side.trans hside) htrades.fits
    | sell =>
      have hless := Entry.owed_of_trades htrades hmoves.terms hworks hside
      have hsold := Balance.sells h (htrades.side.trans hside) htrades.fits
      exact hsold.mono le_rfl (by linarith)

/-- A new order is covered, if it can take anything. -/
theorem Covered.enter (h : d.Covered) (hnew : d.entries.get? r = none)
    (hcovered : e.owed = 0 ∨ Balance (d.tolerance + e.tolerance) d.position (d.owed + e.owed)) :
    (d.put r e).Covered := by
  have howed : (d.put r e).owed = d.owed + e.owed := d.sum_put_new Entry.owed e hnew
  have htolerance : (d.put r e).tolerance = d.tolerance + e.tolerance :=
    d.sum_put_new Entry.tolerance e hnew
  have hposition : (d.put r e).position = d.position := rfl
  rw [Covered, howed, htolerance, hposition]
  rcases hcovered with hnone | hbalance
  · rw [hnone, add_zero]
    exact h.mono (le_add_of_nonneg_right e.tolerance_nonneg) le_rfl
  · exact hbalance

end Desk

namespace PaperExchange

variable {x : PaperExchange} {flights : List Ref} {d : Desk} {request : OrderRequest}
  {config : ExchangeConfig}

/-! ## Sound submissions -/

/-- An accepted sell meets no working sell of less than nothing, and needs the tolerance of the
check only when it is not the first sell. -/
def SoundSell (x : PaperExchange) (request : OrderRequest) : Prop :=
  request.side = .sell → 0 < request.quantity →
    x.pretradeRejectReason (x.requestedOrder request) = none →
      (∀ r ∈ x.working .sell, 0 ≤ (x.order r).remainingQuantity) ∧
        (request.quantity ≤ x.sellableQuantity ∨ ∃ r ∈ x.orderHistory, (x.order r).side = .sell)

/-- The number of sell orders on record. -/
def sellOrders (x : PaperExchange) : ℕ :=
  x.orderHistory.countP fun r => (x.order r).side = .sell

/-- The position is never short by more than the tolerance for every sell order. -/
def NotShort (x : PaperExchange) : Prop :=
  -(x.sellOrders * eps) ≤ x.positionQuantity

instance (x : PaperExchange) : Decidable x.NotShort :=
  inferInstanceAs (Decidable (_ ≤ _))

instance (x : PaperExchange) (request : OrderRequest) : Decidable (x.SoundSell request) :=
  inferInstanceAs (Decidable (_ → _ → _ → _))

/-- Without working sells of less than nothing, the shares held back are those owed. -/
theorem owed_eq_reserved (h : Mirrors F x flights d)
    (hworking : ∀ r ∈ x.working .sell, 0 ≤ (x.order r).remainingQuantity) :
    d.owed = d.reserved := by
  refine congrArg List.sum (List.map_congr_left fun p hp => ?_)
  have hentry : d.entries.get? p.1 = some p.2 := Dict.get?_eq_some_iff.mpr hp
  have hticket : p.2.ticket = (x.order p.1).ticket := h.engine.book.sim.ticket _ _ hentry
  rw [Entry.owed, Entry.reserved]
  split
  · rename_i hsell
    rw [hticket] at hsell ⊢
    have hmem : p.1 ∈ x.working .sell := by
      refine List.mem_filter.mpr ⟨(mem_orderHistory h).mpr ⟨p.2, hentry⟩, ?_⟩
      rw [Bool.and_eq_true, decide_eq_true_eq]
      exact hsell
    exact max_eq_left (hworking p.1 hmem)
  · rfl

/-- The tolerance of the desk is that of the sell orders on record. -/
theorem tolerance_eq (h : Mirrors F x flights d) : d.tolerance = x.sellOrders * eps := by
  have hentry : ∀ p ∈ d.entries.items, p.2.tolerance =
      if decide ((x.order p.1).side = .sell) = true then eps else 0 := by
    intro p hp
    have hentry : d.entries.get? p.1 = some p.2 := Dict.get?_eq_some_iff.mpr hp
    have hticket : p.2.ticket = (x.order p.1).ticket := h.engine.book.sim.ticket _ _ hentry
    rw [Entry.tolerance, hticket]
    simp only [decide_eq_true_eq]
    rfl
  have hsum := sum_filter_keys (P := fun r => decide ((x.order r).side = .sell))
    (f := fun _ => eps) (g := Entry.tolerance) hentry
  rw [Desk.tolerance, ← hsum, sellOrders, h.history, List.countP_eq_length_filter,
    List.map_const', List.sum_replicate, nsmul_eq_mul]
  rfl

/-- What the check of a sell compares. -/
theorem sellable_of_pretrade (hside : request.side = .sell)
    (hpass : x.pretradeRejectReason (x.requestedOrder request) = none) :
    request.quantity ≤ x.sellableQuantity + eps := by
  have hcase : (x.requestedOrder request).side = .sell := hside
  simp only [pretradeRejectReason, hcase] at hpass
  by_contra hover
  have hless : x.sellableQuantity + eps < (x.requestedOrder request).quantity := not_le.mp hover
  rw [if_pos hless] at hpass
  cases hpass

end PaperExchange

open PaperExchange in
/-- In runs whose sells are soundly covered, the working sells stay covered. -/
theorem Desk.covered_invariant (config : ExchangeConfig) :
    DeskInvariant F config SoundSell Desk.Covered where
  move := fun hplaced hstep h => h.move hplaced hstep
  sent := by
    intro x d request hx hsound hpass h
    refine h.enter (get?_nextRef hx.reflects) ?_
    by_cases hsell : request.side = .sell ∧ 0 < request.quantity
    · obtain ⟨hside, hpos⟩ := hsell
      obtain ⟨hworking, hcheck⟩ := hsound hside hpos hpass
      have howed : (x.sentEntry request).owed = request.quantity := by
        have hremaining : (x.sentEntry request).ticket.remaining = request.quantity := sub_zero _
        have hworks : (x.sentEntry request).ticket.side = .sell ∧
            (x.sentEntry request).ticket.status.isWorking = true := ⟨hside, rfl⟩
        rw [Entry.owed, if_pos hworks, hremaining]
        exact max_eq_left hpos.le
      have htolerance : (x.sentEntry request).tolerance = eps := if_pos hside
      have hsellable : x.sellableQuantity = d.position - d.owed := by
        rw [owed_eq_reserved hx.reflects hworking]
        exact sellableQuantity_eq hx.reflects
      have hflat : PaperPosition.flatBelow ≤ eps := by
        norm_num [PaperPosition.flatBelow, eps]
      have hold : (x.sellOrders : ℚ) * eps = d.tolerance := (tolerance_eq hx.reflects).symm
      rw [howed, htolerance]
      refine Or.inr (Or.inl ?_)
      rcases hcheck with hcheck | ⟨r, hr, hrsell⟩
      · have hnonneg : 0 ≤ d.tolerance := by
          rw [← hold]
          exact mul_nonneg (Nat.cast_nonneg _) eps_pos.le
        linarith
      · have hone : eps ≤ d.tolerance := by
          have hcount : 1 ≤ x.sellOrders :=
            List.countP_pos_iff.mpr ⟨r, hr, decide_eq_true hrsell⟩
          rw [← hold]
          exact le_mul_of_one_le_left eps_pos.le (Nat.one_le_cast.mpr hcount)
        have hadmits := sellable_of_pretrade hside hpass
        linarith
    · refine Or.inl ?_
      unfold Entry.owed
      split
      · rename_i hworks
        have hremaining : (x.sentEntry request).ticket.remaining = request.quantity := sub_zero _
        rw [hremaining]
        exact max_eq_right (not_lt.mp fun hpos => hsell ⟨hworks.1, hpos⟩)
      · rfl
  refused := by
    intro x d request hx _ h
    exact h.enter (get?_nextRef hx.reflects) (Or.inl (if_neg fun hworks => by cases hworks.2))

namespace PaperExchange

variable {x : PaperExchange} {config : ExchangeConfig}

/-! ## Runs -/

/-- The position is not short when the accepted sells are soundly covered and the feed has ids of
its own. -/
theorem never_short (hx : (machine config).ReachableUnder (Guarded F SoundSell) x) :
    x.NotShort := by
  have hempty : Desk.empty.Covered := Or.inr ⟨le_rfl, (add_zero _).ge⟩
  obtain ⟨d, hrecords, hcovered⟩ := (Desk.covered_invariant config).reachable hempty hx
  rw [NotShort, ← tolerance_eq hrecords.reflects, hrecords.reflects.position]
  linarith [hcovered.covered, d.owed_nonneg]

/-- A purchase that is sold again. -/
def roundTrip : List Op :=
  [.onMarketEvent ⟨1, .add, .sell, 100, 10, some "m1"⟩ OrderBook.zeros,
    .onMarketEvent ⟨1, .add, .buy, 99, 50, some "m2"⟩ OrderBook.zeros,
    .submitOrder ⟨.buy, 10, .market, none, none, .gtc, none⟩,
    .submitOrder ⟨.sell, 4, .market, none, none, .gtc, none⟩,
    .submitOrder ⟨.sell, 6, .limit, some 101, none, .gtc, none⟩]

theorem never_short_roundTrip :
    ∃ x, (machine instant).execUnder (Guarded (· ∈ ["m1", "m2"]) SoundSell) (empty instant)
        roundTrip = some x ∧
      x.sellOrders = 2 ∧ x.positionQuantity = 6 ∧ x.NotShort := by
  have hrun : ((machine instant).execUnder (Guarded (· ∈ ["m1", "m2"]) SoundSell) (empty instant)
      roundTrip).map (fun x => (x.sellOrders, x.positionQuantity)) = some (2, 6) := by
    decide +kernel
  obtain ⟨x, hexec, hx⟩ := Option.map_eq_some_iff.mp hrun
  obtain ⟨hsells, hposition⟩ := Prod.mk.inj hx
  exact ⟨x, hexec, hsells, hposition,
    never_short (Machine.reachableUnder_of_execUnder hexec)⟩

/-- A sell of less than nothing in flight, and behind it a sell of what nobody holds. -/
def soldUnheld : List Op :=
  [.onMarketEvent ⟨1, .add, .buy, 100, 50, some "m1"⟩ OrderBook.zeros,
    .submitOrder ⟨.sell, -10, .market, none, none, .gtc, none⟩,
    .submitOrder ⟨.sell, 10, .market, none, none, .gtc, none⟩,
    .advanceTo 3]

/-- A sell of the position and the tolerance, which meets the position but for a rest that snaps to
flat, and then more. -/
def soldPastFlat : List Op :=
  [.onMarketEvent ⟨1, .add, .sell, 100, 10, some "m1"⟩ OrderBook.zeros,
    .submitOrder ⟨.buy, 10, .market, none, none, .gtc, none⟩,
    .onMarketEvent ⟨2, .add, .buy, 99, 10 - PaperPosition.flatBelow / 2, some "m2"⟩ OrderBook.zeros,
    .onMarketEvent ⟨2, .add, .buy, 98, 10, some "m3"⟩ OrderBook.zeros,
    .submitOrder ⟨.sell, 10 + eps, .market, none, none, .gtc, none⟩]

/-- A resting buy whose id the feed gives to an order of the other side. -/
def boughtAsSold : List Op :=
  [.submitOrder ⟨.buy, 10, .limit, some 99, none, .gtc, none⟩,
    .onMarketEvent ⟨1, .add, .sell, 105, 5, some "P00000001"⟩ OrderBook.zeros,
    .onMarketEvent ⟨2, .trade, .sell, 99, 10, none⟩ OrderBook.zeros]

/-- Each of them is short: by ten shares, by more than the tolerance of its one sell, and by ten
shares that were bought. -/
theorem short_positions :
    (∃ x, (machine oneSecond).exec (empty oneSecond) soldUnheld = some x ∧ x.sellOrders = 2 ∧
      x.positionQuantity = -10 ∧ ¬x.NotShort) ∧
    (∃ x, (machine instant).exec (empty instant) soldPastFlat = some x ∧ x.sellOrders = 1 ∧
      x.positionQuantity = -(eps + PaperPosition.flatBelow / 2) ∧ ¬x.NotShort) ∧
    ∃ x, (machine instant).exec (empty instant) boughtAsSold = some x ∧ x.sellOrders = 0 ∧
      x.positionQuantity = -10 ∧ ¬x.NotShort := by
  have hreport : ∀ {config : ExchangeConfig} {ops : List Op} {sells : ℕ} {position : ℚ},
      ((machine config).exec (empty config) ops).map (fun x => (x.sellOrders, x.positionQuantity,
        decide x.NotShort)) = some (sells, position, false) →
      ∃ x, (machine config).exec (empty config) ops = some x ∧ x.sellOrders = sells ∧
        x.positionQuantity = position ∧ ¬x.NotShort := by
    intro config ops sells position hrun
    obtain ⟨x, hexec, hx⟩ := Option.map_eq_some_iff.mp hrun
    simp only [Prod.mk.injEq, decide_eq_false_iff_not] at hx
    exact ⟨x, hexec, hx⟩
  refine ⟨hreport ?_, hreport ?_, hreport ?_⟩
  · decide +kernel
  · decide +kernel
  · decide +kernel

end PaperExchange

end QuantumSentinel.Exchange
