import Mathlib.Algebra.Order.BigOperators.Group.List
import QuantumSentinel.Broker.Effects

/-!
# Paper broker: the ledger invariant

Whatever the processes do and in whichever order their transactions commit, the account
row agrees with the orders: the reserved cash is the sum of the reservations of the open
buys, the cash is the opening cash less the filled buys plus the filled sells, and the
reserved cash stays between zero and the cash.

Main results:

- Theorem `Effect.ledgerOk`: every effect keeps the account row in agreement.
- Theorem `Effect.terminal`: a terminal status never changes.
- Theorem `paper_ledger_invariant`: the guarantees of the ledger together.
-/

namespace QuantumSentinel.Broker

open Lib

/-! ## Totals over the orders -/

/-- The reservation an order holds: what it reserved when placed, while a buy is open. -/
def openReservation (placed : OrderId → ℤ) (item : OrderId × Trade) : ℤ :=
  if item.2.side = .buy ∧ item.2.status.isOpen = true then placed item.1 else 0

/-- The notional of a filled order of one side. -/
def filledNotional (side : Side) (item : OrderId × Trade) : ℤ :=
  if item.2.side = side ∧ item.2.status = .filled then
    notionalMicros item.2.quantity (item.2.filledPrice.getD 0)
  else 0

namespace BrokerState

variable (s : BrokerState)

/-- The reservations of the open buy orders. -/
def openReservations : ℤ :=
  (s.ledger.trades.items.map (openReservation s.placedReserve)).sum

/-- The notionals of the filled orders of one side. -/
def filledTotal (side : Side) : ℤ :=
  (s.ledger.trades.items.map (filledNotional side)).sum

end BrokerState

/-- The account row agrees with the orders. -/
structure LedgerOk (opening : ℤ) (s : BrokerState) : Prop where
  reserved_nonneg : 0 ≤ s.ledger.account.reservedMicros
  reserved_le : s.ledger.account.reservedMicros ≤ s.ledger.account.cashMicros
  cash_eq : s.ledger.account.cashMicros =
    opening - s.filledTotal .buy + s.filledTotal .sell
  reserved_eq : s.ledger.account.reservedMicros = s.openReservations
  settled_nodup : s.settled.Nodup
  settled_iff : ∀ id row, s.trade? id = some row →
    (id ∈ s.settled ↔ row.status.isOpen = false)
  settled_known : ∀ id ∈ s.settled, (s.trade? id).isSome

theorem openReservation_nonneg {s : BrokerState} (hs : SystemOk s) {item : OrderId × Trade}
    (hmem : item ∈ s.ledger.trades.items) : 0 ≤ openReservation s.placedReserve item := by
  unfold openReservation
  split
  · exact (hs.rows item.1 item.2 (Dict.get?_eq_some_iff.mpr hmem)).reserve_nonneg
  · exact le_rfl

/-- The reservation of one open buy is covered by the reserved cash. -/
theorem LedgerOk.placed_le {opening : ℤ} {s : BrokerState} (hs : LedgerOk opening s)
    (hsys : SystemOk s) {id : OrderId} {row : Trade} (hrow : s.trade? id = some row)
    (hopen : row.status.isOpen = true) :
    s.placedReserve id ≤ s.ledger.account.reservedMicros := by
  cases hside : row.side with
  | sell =>
    rw [(hsys.rows id row hrow).reserve_sell hside]
    exact hs.reserved_nonneg
  | buy =>
    have hterm : openReservation s.placedReserve (id, row) = s.placedReserve id :=
      if_pos ⟨hside, hopen⟩
    have hmem : (id, row) ∈ s.ledger.trades.items := Dict.get?_eq_some_iff.mp hrow
    rw [hs.reserved_eq, ← hterm]
    refine List.single_le_sum ?_ _ (List.mem_map_of_mem hmem)
    intro x hx
    rcases List.mem_map.mp hx with ⟨item, hitem, rfl⟩
    exact openReservation_nonneg hsys hitem

/-! ## The totals after each effect -/

section Assignment

variable {s s' : BrokerState} {id : OrderId} {old new : Trade}

/-- The reservations after the row of an order was rewritten. -/
theorem openReservations_of_set (hold : s.trade? id = some old)
    (htrades : s'.ledger.trades = s.ledger.trades.set id new)
    (hplaced : s'.placedReserve = s.placedReserve) :
    s'.openReservations = s.openReservations - openReservation s.placedReserve (id, old) +
      openReservation s.placedReserve (id, new) := by
  unfold BrokerState.openReservations
  rw [htrades, hplaced]
  exact Dict.sum_set_old _ new hold

/-- The filled notionals after the row of an order was rewritten. -/
theorem filledTotal_of_set (side : Side) (hold : s.trade? id = some old)
    (htrades : s'.ledger.trades = s.ledger.trades.set id new) :
    s'.filledTotal side =
      s.filledTotal side - filledNotional side (id, old) + filledNotional side (id, new) := by
  unfold BrokerState.filledTotal
  rw [htrades]
  exact Dict.sum_set_old _ new hold

/-- The reservations after a new order was inserted. -/
theorem openReservations_of_insert {reserve : ℤ} (hfresh : s.trade? id = none)
    (htrades : s'.ledger.trades = s.ledger.trades.set id new)
    (hplaced : s'.placedReserve = fun k => if k = id then reserve else s.placedReserve k) :
    s'.openReservations =
      s.openReservations + openReservation s'.placedReserve (id, new) := by
  unfold BrokerState.openReservations
  rw [htrades, Dict.sum_set_new _ new hfresh]
  congr 2
  refine List.map_congr_left ?_
  intro item hitem
  have hne : item.1 ≠ id := by
    rintro rfl
    rw [BrokerState.trade?, Dict.get?_eq_some_iff.mpr hitem] at hfresh
    cases hfresh
  simp only [openReservation, hplaced, if_neg hne]

/-- The filled notionals after a new order was inserted. -/
theorem filledTotal_of_insert (side : Side) (hfresh : s.trade? id = none)
    (htrades : s'.ledger.trades = s.ledger.trades.set id new) :
    s'.filledTotal side = s.filledTotal side + filledNotional side (id, new) := by
  unfold BrokerState.filledTotal
  rw [htrades]
  exact Dict.sum_set_new _ new hfresh

end Assignment

/-- Orders that are not filled have no filled notional. -/
theorem filledNotional_of_ne {side : Side} {item : OrderId × Trade}
    (h : item.2.status ≠ .filled) : filledNotional side item = 0 :=
  if_neg fun hand => h hand.2

theorem TradeStatus.ne_filled_of_isOpen {status : TradeStatus} (h : status.isOpen = true) :
    status ≠ .filled := by
  rintro rfl
  cases h

section Effects

variable {opening : ℤ} {s s' : BrokerState} {id : OrderId} {row row' : Trade}

/-- The history after an effect that settles no order. -/
theorem LedgerOk.settled_kept (hs : LedgerOk opening s)
    (htrades : s'.ledger.trades = s.ledger.trades.set id row')
    (hsettled : s'.settled = s.settled)
    (hrow : id ∈ s.settled ↔ row'.status.isOpen = false) :
    s'.settled.Nodup ∧
      (∀ k new, s'.trade? k = some new → (k ∈ s'.settled ↔ new.status.isOpen = false)) ∧
      ∀ k ∈ s'.settled, (s'.trade? k).isSome := by
  rw [hsettled]
  refine ⟨hs.settled_nodup, fun k new hnew => ?_, fun k hk => ?_⟩
  · rw [trade?_of_set _ htrades] at hnew
    by_cases hkid : k = id
    · rw [if_pos hkid] at hnew
      cases hnew
      rw [hkid]
      exact hrow
    · rw [if_neg hkid] at hnew
      exact hs.settled_iff k new hnew
  · rw [trade?_of_set _ htrades]
    split
    · rfl
    · exact hs.settled_known k hk

/-- The history after an order has been settled. -/
theorem LedgerOk.settled_cons (hs : LedgerOk opening s) (found : s.trade? id = some row)
    (wasOpen : row.status.isOpen = true)
    (htrades : s'.ledger.trades = s.ledger.trades.set id row')
    (hclosed : row'.status.isOpen = false) (hsettled : s'.settled = id :: s.settled) :
    s'.settled.Nodup ∧
      (∀ k new, s'.trade? k = some new → (k ∈ s'.settled ↔ new.status.isOpen = false)) ∧
      ∀ k ∈ s'.settled, (s'.trade? k).isSome := by
  have hnot : id ∉ s.settled := by
    intro hmem
    have hstatus := (hs.settled_iff id row found).mp hmem
    rw [wasOpen] at hstatus
    cases hstatus
  refine ⟨?_, ?_, ?_⟩
  · rw [hsettled]
    exact List.nodup_cons.mpr ⟨hnot, hs.settled_nodup⟩
  · intro k new hnew
    rw [trade?_of_set _ htrades] at hnew
    rw [hsettled, List.mem_cons]
    by_cases hk : k = id
    · rw [if_pos hk] at hnew
      cases hnew
      exact ⟨fun _ => hclosed, fun _ => Or.inl hk⟩
    · rw [if_neg hk] at hnew
      rw [← hs.settled_iff k new hnew]
      exact ⟨fun h => h.resolve_left hk, Or.inr⟩
  · intro k hk
    rw [trade?_of_set _ htrades]
    by_cases hkid : k = id
    · rw [if_pos hkid]
      rfl
    · rw [if_neg hkid]
      rw [hsettled] at hk
      exact hs.settled_known k ((List.mem_cons.mp hk).resolve_left hkid)

/-- A step that leaves the ledger alone. -/
theorem LedgerOk.quiet (hs : LedgerOk opening s) (ledger : s'.ledger = s.ledger)
    (placed : s'.placedReserve = s.placedReserve) (settled : s'.settled = s.settled) :
    LedgerOk opening s' := by
  have htotal : ∀ side, s'.filledTotal side = s.filledTotal side := fun side => by
    rw [BrokerState.filledTotal, ledger, BrokerState.filledTotal]
  have htrade : ∀ id, s'.trade? id = s.trade? id := fun id => by
    rw [BrokerState.trade?, ledger, BrokerState.trade?]
  have hopen : s'.openReservations = s.openReservations := by
    rw [BrokerState.openReservations, ledger, placed, BrokerState.openReservations]
  constructor
  case reserved_nonneg => exact ledger ▸ hs.reserved_nonneg
  case reserved_le => exact ledger ▸ hs.reserved_le
  case cash_eq => rw [ledger, htotal, htotal, hs.cash_eq]
  case reserved_eq => rw [ledger, hopen, hs.reserved_eq]
  case settled_nodup => exact settled ▸ hs.settled_nodup
  case settled_iff =>
    intro id row hrow
    rw [settled]
    exact hs.settled_iff id row ((htrade id).symm.trans hrow)
  case settled_known =>
    intro id hid
    rw [htrade]
    exact hs.settled_known id (settled ▸ hid)

/-- A placed order reserves what is available. -/
theorem LedgerOk.placed (hs : LedgerOk opening s) {reserve : ℤ} (fresh : s.trade? id = none)
    (pending : row.status = .pending) (ok : RowOk s' id row)
    (available : reserve ≤ s.ledger.account.cashMicros - s.ledger.account.reservedMicros ∨
      reserve = 0)
    (htrades : s'.ledger.trades = s.ledger.trades.set id row)
    (hcash : s'.ledger.account.cashMicros = s.ledger.account.cashMicros)
    (hreserved : s'.ledger.account.reservedMicros = s.ledger.account.reservedMicros + reserve)
    (placed : s'.placedReserve = fun k => if k = id then reserve else s.placedReserve k)
    (settled : s'.settled = s.settled) : LedgerOk opening s' := by
  have hbuy := filledTotal_of_insert .buy fresh htrades
  have hsell := filledTotal_of_insert .sell fresh htrades
  have hopen := openReservations_of_insert fresh htrades placed
  have hisOpen : row.status.isOpen = true := pending ▸ rfl
  rw [filledNotional_of_ne (TradeStatus.ne_filled_of_isOpen hisOpen), add_zero] at hbuy hsell
  have hreserve : s'.placedReserve id = reserve := by
    rw [placed]
    exact if_pos rfl
  have hterm : openReservation s'.placedReserve (id, row) = reserve := by
    unfold openReservation
    cases hside : row.side with
    | buy =>
      rw [if_pos ⟨rfl, hisOpen⟩]
      exact hreserve
    | sell =>
      rw [if_neg (by simp), ← hreserve]
      exact (ok.reserve_sell hside).symm
  have hnonneg : 0 ≤ reserve := hreserve ▸ ok.reserve_nonneg
  have hunknown : id ∈ s.settled ↔ row.status.isOpen = false := by
    refine iff_of_false (fun hmem => ?_) (by rw [hisOpen]; exact Bool.noConfusion)
    have hknown := hs.settled_known id hmem
    rw [fresh] at hknown
    cases hknown
  rcases hs.settled_kept htrades settled hunknown with ⟨hnodup, hiff, hknown⟩
  rcases hs with ⟨hpos, hle, hcashEq, hreservedEq, -⟩
  refine ⟨?_, ?_, ?_, ?_, hnodup, hiff, hknown⟩ <;> omega

/-- A row that is rewritten with the same openness and the same fill. -/
theorem LedgerOk.relabelled (hs : LedgerOk opening s) (found : s.trade? id = some row)
    (same : SameOrder row row')
    (status : row'.status = row.status ∨
      (row.status = .pending ∧ row'.status = .accepted ∧ row.orderType ≠ .market))
    (price : row'.filledPrice = row.filledPrice)
    (ledger : s'.ledger = { s.ledger with trades := s.ledger.trades.set id row' })
    (placed : s'.placedReserve = s.placedReserve) (settled : s'.settled = s.settled) :
    LedgerOk opening s' := by
  have htrades := congrArg Ledger.trades ledger
  have hisOpen : row'.status.isOpen = row.status.isOpen := by
    rcases status with heq | ⟨hp, ha, -⟩
    · rw [heq]
    · rw [hp, ha]
      rfl
  have hfilled : row'.status = .filled ↔ row.status = .filled := by
    rcases status with heq | ⟨hp, ha, -⟩
    · rw [heq]
    · rw [hp, ha]
      simp
  have hterm : openReservation s.placedReserve (id, row') =
      openReservation s.placedReserve (id, row) := by
    simp only [openReservation, same.side, hisOpen]
  have hnotional : ∀ side, filledNotional side (id, row') = filledNotional side (id, row) := by
    intro side
    simp only [filledNotional, same.side, same.quantity, price, hfilled]
  have hopen := openReservations_of_set found htrades placed
  have hbuy := filledTotal_of_set .buy found htrades
  have hsell := filledTotal_of_set .sell found htrades
  rw [hterm, sub_add_cancel] at hopen
  rw [hnotional, sub_add_cancel] at hbuy hsell
  have haccount : s'.ledger.account = s.ledger.account := by rw [ledger]
  have hsettled : id ∈ s.settled ↔ row'.status.isOpen = false := by
    rw [hisOpen]
    exact hs.settled_iff id row found
  rcases hs.settled_kept htrades settled hsettled with ⟨hnodup, hiff, hknown⟩
  refine ⟨?_, ?_, ?_, ?_, hnodup, hiff, hknown⟩
  · exact haccount ▸ hs.reserved_nonneg
  · exact haccount ▸ hs.reserved_le
  · rw [haccount, hbuy, hsell, hs.cash_eq]
  · rw [haccount, hopen, hs.reserved_eq]

/-- A closed order gives back its reservation. -/
theorem LedgerOk.closed (hs : LedgerOk opening s) (hsys : SystemOk s) {toStatus : TradeStatus}
    (found : s.trade? id = some row) (wasOpen : row.status.isOpen = true)
    (terminal : toStatus.isOpen = false) (unfilled : toStatus ≠ .filled)
    (ledger : s'.ledger =
      { account :=
          if 0 < s.placedReserve id then
            { s.ledger.account with
              reservedMicros := released s.ledger.account (s.placedReserve id) }
          else s.ledger.account
        trades := s.ledger.trades.set id { row with status := toStatus } })
    (placed : s'.placedReserve = s.placedReserve) (settled : s'.settled = id :: s.settled) :
    LedgerOk opening s' := by
  have htrades := congrArg Ledger.trades ledger
  have hrowOk := hsys.rows id row found
  have hcovered := hs.placed_le hsys found wasOpen
  have hopen := openReservations_of_set found htrades placed
  have hbuy := filledTotal_of_set .buy found htrades
  have hsell := filledTotal_of_set .sell found htrades
  rw [filledNotional_of_ne (TradeStatus.ne_filled_of_isOpen wasOpen),
    filledNotional_of_ne unfilled, sub_zero, add_zero] at hbuy hsell
  have hafter : openReservation s.placedReserve (id, { row with status := toStatus }) = 0 :=
    if_neg (by simp [terminal])
  have hbefore : openReservation s.placedReserve (id, row) = s.placedReserve id := by
    unfold openReservation
    cases hside : row.side with
    | buy => exact if_pos ⟨rfl, wasOpen⟩
    | sell =>
      rw [if_neg (by simp)]
      exact (hrowOk.reserve_sell hside).symm
  rw [hafter, hbefore, add_zero] at hopen
  have hnonneg := hrowOk.reserve_nonneg
  have haccount : s'.ledger.account.cashMicros = s.ledger.account.cashMicros ∧
      s'.ledger.account.reservedMicros =
        s.ledger.account.reservedMicros - s.placedReserve id := by
    rw [ledger]
    by_cases hpos : 0 < s.placedReserve id
    · simp only [if_pos hpos, released_of_le hcovered, and_self]
    · simp only [if_neg hpos, true_and]
      omega
  rcases hs.settled_cons found wasOpen htrades terminal settled with
    ⟨hnodup, hiff, hknown⟩
  rcases hs with ⟨hpos, hle, hcashEq, hreservedEq, -⟩
  refine ⟨?_, ?_, ?_, ?_, hnodup, hiff, hknown⟩ <;> omega

/-- A filled order is paid for, or pays, and gives back its reservation. -/
theorem LedgerOk.filled (hs : LedgerOk opening s) (hsys : SystemOk s) {price : ℚ} {now : Time}
    (found : s.trade? id = some row) (wasOpen : row.status.isOpen = true) (hprice : 0 ≤ price)
    (trades : s'.ledger.trades = s.ledger.trades.set id
      { row with status := .filled, filledPrice := some price, filledAt := some now })
    (account : (row.side = .buy ∧
        released s.ledger.account (s.placedReserve id) ≤
          s.ledger.account.cashMicros - notionalMicros row.quantity price ∧
        s'.ledger.account =
          { cashMicros := s.ledger.account.cashMicros - notionalMicros row.quantity price
            reservedMicros := released s.ledger.account (s.placedReserve id) }) ∨
      (row.side = .sell ∧ s'.ledger.account =
        { s.ledger.account with
          cashMicros := s.ledger.account.cashMicros + notionalMicros row.quantity price }))
    (placed : s'.placedReserve = s.placedReserve) (settled : s'.settled = id :: s.settled) :
    LedgerOk opening s' := by
  have hrowOk := hsys.rows id row found
  have hcovered := hs.placed_le hsys found wasOpen
  have hopen := openReservations_of_set found trades placed
  have hbuy := filledTotal_of_set .buy found trades
  have hsell := filledTotal_of_set .sell found trades
  rw [filledNotional_of_ne (TradeStatus.ne_filled_of_isOpen wasOpen), sub_zero] at hbuy hsell
  have hcost := notionalMicros_nonneg hrowOk.quantity_pos.le hprice
  have hafter : openReservation s.placedReserve (id,
      { row with status := .filled, filledPrice := some price, filledAt := some now }) = 0 :=
    if_neg (by simp [TradeStatus.isOpen])
  rw [hafter, add_zero] at hopen
  rcases hs.settled_cons found wasOpen trades rfl settled with ⟨hnodup, hiff, hknown⟩
  rcases hs with ⟨hpos, hle, hcashEq, hreservedEq, -⟩
  rcases account with ⟨hside, hpays, haccount⟩ | ⟨hside, haccount⟩
  · have hbefore : openReservation s.placedReserve (id, row) = s.placedReserve id :=
      if_pos ⟨hside, wasOpen⟩
    simp only [filledNotional, hside, Option.getD_some, and_self, if_true, reduceCtorEq,
      false_and, if_false, add_zero] at hbuy hsell
    rw [hbefore] at hopen
    rw [released_of_le hcovered] at hpays haccount
    have hcash := congrArg Account.cashMicros haccount
    have hreserved := congrArg Account.reservedMicros haccount
    simp only at hcash hreserved
    refine ⟨?_, ?_, ?_, ?_, hnodup, hiff, hknown⟩ <;> omega
  · have hbefore : openReservation s.placedReserve (id, row) = 0 := if_neg (by simp [hside])
    simp only [filledNotional, hside, Option.getD_some, and_self, if_true, reduceCtorEq,
      false_and, if_false, add_zero] at hbuy hsell
    rw [hbefore] at hopen
    have hcash := congrArg Account.cashMicros haccount
    have hreserved := congrArg Account.reservedMicros haccount
    simp only at hcash hreserved
    refine ⟨?_, ?_, ?_, ?_, hnodup, hiff, hknown⟩ <;> omega

end Effects

/-- Every effect keeps the account row in agreement with the orders. -/
theorem Effect.ledgerOk {opening : ℤ} {s s' : BrokerState} (h : Effect s s')
    (hsys : SystemOk s) (hs : LedgerOk opening s) : LedgerOk opening s' := by
  cases h with
  | quiet ledger placed settled => exact hs.quiet ledger placed settled
  | placed fresh pending ok available ledger placed settled =>
    refine hs.placed fresh pending ok available (congrArg Ledger.trades ledger) ?_ ?_ placed settled
    · rw [ledger]
    · rw [ledger]
  | relabelled found same status price ledger placed settled =>
    exact hs.relabelled found same status price ledger placed settled
  | closed found wasOpen terminal unfilled ledger placed settled =>
    exact hs.closed hsys found wasOpen terminal unfilled ledger placed settled
  | filled found wasOpen nonneg trades account placed settled =>
    exact hs.filled hsys found wasOpen nonneg trades account placed settled

/-! ## Runs -/

theorem systemOk_fresh (initialDollars : ℚ) : SystemOk (freshBroker initialDollars) where
  rows := by simp [freshBroker, BrokerState.trade?]
  tasks := by simp [freshBroker]

theorem ledgerOk_fresh (initialDollars : ℚ) :
    LedgerOk (openingCash initialDollars) (freshBroker initialDollars) where
  reserved_nonneg := by simp [freshBroker, openAccount, openingCash]
  reserved_le := by simp [freshBroker, openAccount, openingCash]
  cash_eq := by simp [freshBroker, openAccount, BrokerState.filledTotal]
  reserved_eq := by simp [freshBroker, openAccount, openingCash, BrokerState.openReservations]
  settled_nodup := by simp [freshBroker]
  settled_iff := by simp [freshBroker, BrokerState.trade?]
  settled_known := by simp [freshBroker]

/-- Rows, tasks and account row agree in every reachable state. -/
theorem ledgerOk_reachable {initialDollars : ℚ} {s : BrokerState}
    (hs : (broker initialDollars).Reachable s) :
    SystemOk s ∧ LedgerOk (openingCash initialDollars) s :=
  Machine.Reachable.invariant
    (I := fun s => SystemOk s ∧ LedgerOk (openingCash initialDollars) s)
    ⟨systemOk_fresh initialDollars, ledgerOk_fresh initialDollars⟩
    (fun _ _ _ h hi =>
      ⟨systemOk_step hi.1 h, (step_effect hi.1 h).ledgerOk hi.1 hi.2⟩) hs

/-- A terminal status never changes. -/
theorem Effect.terminal {s s' : BrokerState} (h : Effect s s') {id : OrderId} {row : Trade}
    (hrow : s.trade? id = some row) (hterminal : row.status.isOpen = false) :
    ∃ row', s'.trade? id = some row' ∧ row'.status = row.status := by
  rcases h.row id with ⟨hsame, -⟩ | ⟨hnone, -⟩ | ⟨old, new, hold, hnew, -, -, hstatus⟩
  · exact ⟨row, hsame.trans hrow, rfl⟩
  · rw [hrow] at hnone
    cases hnone
  · rw [hrow] at hold
    cases hold
    rcases hstatus with hkept | ⟨hopen, -⟩
    · exact ⟨new, hnew, hkept⟩
    · rw [hterminal] at hopen
      cases hopen

/-- A terminal status never changes along a run. -/
theorem terminal_run {initialDollars : ℚ} {s s' : BrokerState} {as : List Action}
    (hs : SystemOk s) {id : OrderId} {row : Trade} (hrow : s.trade? id = some row)
    (hterminal : row.status.isOpen = false)
    (hrun : (broker initialDollars).Run Machine.anyAction s as s') :
    ∃ row', s'.trade? id = some row' ∧ row'.status = row.status := by
  induction hrun generalizing row with
  | nil => exact ⟨row, hrow, rfl⟩
  | cons _ hstep _ ih =>
    rcases (step_effect hs hstep).terminal hrow hterminal with ⟨row₁, hrow₁, hstatus₁⟩
    rcases ih (systemOk_step hs hstep) hrow₁ (by rw [hstatus₁]; exact hterminal) with
      ⟨row', hrow', hstatus'⟩
    exact ⟨row', hrow', hstatus'.trans hstatus₁⟩

/-- The paper ledger, over every interleaving of placements, cancels, expiries and fills
of a freshly opened account: the reserved cash stays between zero and the cash, both are
exactly what the orders say, every order is settled at most once, and a terminal status
never changes. -/
theorem paper_ledger_invariant (initialDollars : ℚ) {s : BrokerState}
    (hs : (broker initialDollars).Reachable s) :
    (0 ≤ s.ledger.account.reservedMicros ∧
        s.ledger.account.reservedMicros ≤ s.ledger.account.cashMicros) ∧
      s.ledger.account.cashMicros =
        openingCash initialDollars - s.filledTotal .buy + s.filledTotal .sell ∧
      s.ledger.account.reservedMicros = s.openReservations ∧
      (s.settled.Nodup ∧ ∀ id row, s.trade? id = some row →
        (id ∈ s.settled ↔ row.status.isOpen = false)) ∧
      ∀ id row, s.trade? id = some row → row.status.isOpen = false →
        ∀ as s', (broker initialDollars).Run Machine.anyAction s as s' →
          ∃ row', s'.trade? id = some row' ∧ row'.status = row.status := by
  rcases ledgerOk_reachable hs with ⟨hsys, hledger⟩
  refine ⟨⟨hledger.reserved_nonneg, hledger.reserved_le⟩, hledger.cash_eq,
    hledger.reserved_eq, ⟨hledger.settled_nodup, hledger.settled_iff⟩, ?_⟩
  intro id row hrow hterminal as s' hrun
  exact terminal_run hsys hrow hterminal hrun

/-- A limit order for two shares at ten dollars. -/
def sampleRequest : OrderRequest where
  asset := "AAPL"
  side := .buy
  quantity := 2
  orderType := .limit
  limitPrice := some 10
  stopPrice := none
  timeInForce := .day
  quantity_pos := by norm_num
  quantity_le := by norm_num
  limit_pos := by simp
  stop_pos := by simp
  limit_present := by simp
  stop_present := by simp

/-- The order is placed at a market price of nine dollars and fills there: what was
reserved at the limit is given back and the fill is paid. -/
theorem paper_ledger_invariant_filled :
    ∃ s, (broker 100).Reachable s ∧ s.ledger.account = ⟨82000000, 0⟩ ∧
      s.ledger.account.cashMicros =
        openingCash 100 - s.filledTotal .buy + s.filledTotal .sell := by
  have hexec : (((broker 100).exec (freshBroker 100)
      [.place "order-01" sampleRequest 9 false 0,
        .run (.placing "order-01" (sampleRequest.trade 0) 20000000 9 false) 1]).map
          fun s => s.ledger.account) = some ⟨82000000, 0⟩ := by decide +kernel
  rcases Option.map_eq_some_iff.mp hexec with ⟨s, hs, haccount⟩
  have hreach := Machine.reachable_of_exec hs
  exact ⟨s, hreach, haccount, (paper_ledger_invariant 100 hreach).2.1⟩

end QuantumSentinel.Broker
