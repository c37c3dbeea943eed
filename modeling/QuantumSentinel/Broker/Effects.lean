import QuantumSentinel.Broker.Machine

/-!
# Paper broker: what a step does to the tables

Every step has one of five effects on the committed tables, because the tasks in progress
carry the amounts of their orders: what a close or a fill releases is what the placement
of that order has reserved, whoever makes it and however late.

Main results:

- Theorem `step_effect`: what one step does to the tables.
- Theorem `Effect.later`: orders are never deleted, and their terms stay.
- Theorem `systemOk_step`: tasks keep carrying the amounts of their orders.
-/

namespace QuantumSentinel.Broker

open Lib

/-! ## The effect of each transaction -/

/-- Every row is well formed and every task carries the amounts of its order. -/
structure SystemOk (s : BrokerState) : Prop where
  rows : ∀ id row, s.trade? id = some row → RowOk s id row
  tasks : ∀ task ∈ s.tasks, TaskOk s task

/-- A close that gives back what the order has reserved. -/
theorem close_effect {s : BrokerState} (task : Task) {id : OrderId} {row : Trade}
    {toStatus : TradeStatus} {reserved : ℤ} (hrow : s.trade? id = some row)
    (hreserved : reserved = s.placedReserve id) (hterminal : toStatus.isOpen = false)
    (hunfilled : toStatus ≠ .filled) : Effect s (s.close task id toStatus reserved) := by
  subst hreserved
  unfold BrokerState.close closeOrder
  cases hopen : row.status.isOpen with
  | true =>
    have hmatch : s.ledger.trades.matchesWhere id isOpen = true :=
      Dict.matchesWhere_iff.mpr ⟨row, hrow, hopen⟩
    rw [if_pos hmatch, Dict.updateWhere_of_matches _ hrow hopen]
    exact Effect.closed hrow hopen hterminal hunfilled rfl rfl rfl
  | false =>
    have hmatch : s.ledger.trades.matchesWhere id isOpen = false := by
      simp only [Dict.matchesWhere, show s.ledger.trades.get? id = some row from hrow]
      exact hopen
    rw [if_neg (by simp [hmatch])]
    exact Effect.quiet rfl rfl rfl

/-- A fill at a nonnegative price, for the reservation of the order. -/
theorem fill_effect {s : BrokerState} (task : Task) {id : OrderId} {trade row : Trade}
    {price : ℚ} {reserved : ℤ} (now : Time) (hrow : s.trade? id = some row)
    (hsame : SameOrder trade row) (hreserved : reserved = s.placedReserve id)
    (hprice : 0 ≤ price) : Effect s (s.fill task id trade price reserved now) := by
  subst hreserved
  have hside := hsame.side
  have hquantity := hsame.quantity
  unfold BrokerState.fill fillOrder
  cases hopen : row.status.isOpen with
  | false =>
    have hmatch : s.ledger.trades.matchesWhere id isOpen = false := by
      simp only [Dict.matchesWhere, show s.ledger.trades.get? id = some row from hrow]
      exact hopen
    rw [if_neg (by simp [hmatch])]
    exact Effect.quiet rfl rfl rfl
  | true =>
    have hmatch : s.ledger.trades.matchesWhere id isOpen = true :=
      Dict.matchesWhere_iff.mpr ⟨row, hrow, hopen⟩
    rw [if_pos hmatch, Dict.updateWhere_of_matches _ hrow hopen]
    cases hbuy : trade.side with
    | buy =>
      simp only
      by_cases hcash : released s.ledger.account (s.placedReserve id) ≤
          s.ledger.account.cashMicros - notionalMicros trade.quantity price
      · rw [if_pos hcash]
        rw [← hquantity] at hcash
        refine Effect.filled hrow hopen hprice rfl (Or.inl ⟨hside.trans hbuy, hcash, ?_⟩)
          rfl rfl
        simp [BrokerState.settle, hquantity]
      · rw [if_neg hcash]
        exact Effect.quiet rfl rfl rfl
    | sell =>
      simp only
      by_cases hheld : heldExcluding s.ledger id trade.asset < trade.quantity
      · rw [if_pos hheld]
        exact Effect.quiet rfl rfl rfl
      · rw [if_neg hheld]
        refine Effect.filled hrow hopen hprice rfl (Or.inr ⟨hside.trans hbuy, ?_⟩) rfl rfl
        simp [BrokerState.settle, hquantity]

/-- Accepting an order that is not a market order. -/
theorem accept_effect {s : BrokerState} (tasks : List Task) {id : OrderId} {row : Trade}
    (hrow : s.trade? id = some row) (hmarket : row.orderType ≠ .market) :
    Effect s { s with tasks := tasks, ledger := acceptOrder s.ledger id } := by
  by_cases hpending : row.status = .pending
  · have hupdate : acceptOrder s.ledger id =
        { s.ledger with trades := s.ledger.trades.set id { row with status := .accepted } } := by
      unfold acceptOrder
      rw [Dict.updateWhere_of_matches _ hrow (by simpa using hpending)]
    have hsame : SameOrder row { row with status := .accepted } :=
      ⟨rfl, rfl, rfl, rfl, rfl, Or.inl rfl⟩
    exact Effect.relabelled hrow hsame (Or.inr ⟨hpending, rfl, hmarket⟩) rfl hupdate rfl rfl
  · have hmatch : s.ledger.trades.matchesWhere id
        (fun row => decide (row.status = .pending)) = false := by
      simp only [Dict.matchesWhere, show s.ledger.trades.get? id = some row from hrow]
      simpa using hpending
    refine Effect.quiet ?_ rfl rfl
    simp only [acceptOrder, Dict.updateWhere_of_not_matches _ hmatch]

/-- Turning a stop-limit order into a limit order, under any further guard. -/
theorem convert_effect {s : BrokerState} (tasks : List Task) {id : OrderId} {trade row : Trade}
    (guard : Trade → Bool) (hrow : s.trade? id = some row) (hsame : SameOrder trade row)
    (hstop : trade.orderType = .stopLimit) :
    Effect s { s with
      tasks := tasks
      ledger := { s.ledger with
        trades := s.ledger.trades.updateWhere id guard
          fun row => { row with orderType := .limit } } } := by
  have htype : row.orderType = .limit ∨ row.orderType = .stopLimit := by
    rcases hsame.orderType with h | ⟨_, h⟩
    · exact Or.inr (h.trans hstop)
    · exact Or.inl h
  cases hguard : guard row with
  | true =>
    have hsame' : SameOrder row { row with orderType := .limit } := by
      refine ⟨rfl, rfl, rfl, rfl, rfl, ?_⟩
      rcases htype with h | h
      · exact Or.inl h.symm
      · exact Or.inr ⟨h, rfl⟩
    rw [Dict.updateWhere_of_matches _ hrow hguard]
    exact Effect.relabelled hrow hsame' (Or.inl rfl) rfl rfl rfl rfl
  | false =>
    have hmatch : s.ledger.trades.matchesWhere id guard = false := by
      simp only [Dict.matchesWhere, show s.ledger.trades.get? id = some row from hrow]
      exact hguard
    rw [Dict.updateWhere_of_not_matches _ hmatch]
    exact Effect.quiet rfl rfl rfl

/-- The reservation a sweep or a cancel releases is the one made at placement. -/
theorem RowOk.reserved_of_same {s : BrokerState} {id : OrderId} {trade row : Trade}
    (hrow : RowOk s id row) (hsame : SameOrder trade row)
    (hmarket : trade.orderType ≠ .market) :
    tradeReservationMicros trade = s.placedReserve id := by
  rw [← hsame.tradeReservationMicros_eq]
  exact hrow.reserve_eq (mt hsame.market_iff.mp hmarket)

/-- A market order on a live quote always fills at once. -/
theorem simulateFill_market (side : Side) (limitPrice stopPrice : Option ℚ) (lastPrice : ℚ) :
    simulateFill side .market limitPrice stopPrice lastPrice = some lastPrice :=
  rfl

/-- The next transaction of a task, in one of the five cases. -/
theorem runTask_effect {s : BrokerState} (hs : SystemOk s) {task : Task} (now : Time)
    (htask : TaskOk s task) : Effect s (runTask s task now) := by
  cases task with
  | placing id trade reserve lastPrice quoteStale =>
    rcases htask with ⟨⟨row, hrow, hsame⟩, hreserve, hlast, hstale⟩
    have hrowOk := hs.rows id row hrow
    unfold runTask
    simp only
    split
    · rename_i price hfill
      split at hfill
      · cases hfill
      · refine fill_effect _ now hrow hsame hreserve ?_
        refine simulateFill_nonneg hlast.le ?_ hfill
        intro p hp
        exact (hrowOk.limit_pos p (by rw [hsame.limitPrice]; exact hp)).le
    · rename_i hrest
      have hmarket : trade.orderType ≠ .market := by
        intro hm
        split at hrest
        · rename_i hq
          exact hstale hq hm
        · rw [hm, simulateFill_market] at hrest
          cases hrest
      split
      · exact close_effect _ hrow hreserve rfl (by simp)
      · split
        · rename_i hconvert
          simp only [Bool.and_eq_true, decide_eq_true_eq] at hconvert
          exact convert_effect _ (fun _ => true) hrow hsame hconvert.1.2
        · exact accept_effect _ hrow (mt hsame.market_iff.mp hmarket)
  | resting id =>
    rcases htask with ⟨row, hrow, hmarket⟩
    exact accept_effect _ hrow hmarket
  | rejecting id reserve =>
    rcases htask with ⟨⟨row, hrow⟩, hreserve⟩
    exact close_effect _ hrow hreserve rfl (by simp)
  | cancelling id trade =>
    rcases htask with ⟨⟨row, hrow, hsame⟩, hmarket⟩
    exact close_effect _ hrow ((hs.rows id row hrow).reserved_of_same hsame hmarket) rfl
      (by simp)
  | sweeping id trade lastPrice =>
    rcases htask with ⟨⟨row, hrow, hsame⟩, hmarket, hlast⟩
    have hrowOk := hs.rows id row hrow
    unfold runTask
    simp only
    split
    · rename_i price hprice
      refine fill_effect _ now hrow hsame (hrowOk.reserved_of_same hsame hmarket) ?_
      refine sweepPrice_nonneg hlast.le ?_ hprice
      intro p hp
      exact (hrowOk.limit_pos p (by rw [hsame.limitPrice]; exact hp)).le
    · split
      · rename_i hconvert
        have hstop : trade.orderType = .stopLimit := by
          unfold sweepConverts at hconvert
          split at hconvert
          · assumption
          · cases hconvert
        exact convert_effect _ _ hrow hsame hstop
      · exact Effect.quiet rfl rfl rfl

/-- The reservation of a request is well formed. -/
theorem OrderRequest.rowOk {s : BrokerState} {id : OrderId} (req : OrderRequest)
    {lastPrice : ℚ} (now : Time) (hlast : 0 < lastPrice)
    (hplaced : s.placedReserve id = req.reserve lastPrice) : RowOk s id (req.trade now) where
  quantity_pos := req.quantity_pos
  limit_pos := req.limit_pos
  reserve_nonneg := by
    rw [hplaced]
    refine reservationMicros_nonneg req.quantity_pos.le ?_ ?_ ?_
    · exact fun p hp => (req.limit_pos p hp).le
    · exact fun p hp => (req.stop_pos p hp).le
    · rintro p hp
      cases hp
      exact hlast.le
  reserve_sell := by
    intro hsell
    rw [hplaced, OrderRequest.reserve, show req.side = .sell from hsell]
    rfl
  reserve_eq := by
    intro hmarket
    have htype : (req.trade now).orderType = req.orderType := rfl
    rw [hplaced, tradeReservationMicros, if_neg hmarket, OrderRequest.reserve]
    unfold reservationMicros reservationReference
    cases hot : req.orderType with
    | market => exact absurd hot hmarket
    | limit => simp only [OrderRequest.trade, hot]
    | stop => simp only [OrderRequest.trade, hot]
    | stopLimit => simp only [OrderRequest.trade, hot]
  market_not_accepted := by
    intro _ haccepted
    cases haccepted

/-- What one step does to the tables. -/
theorem step_effect {s s' : BrokerState} {a : Action} (hs : SystemOk s)
    (h : step s a = some s') : Effect s s' := by
  cases a with
  | place id req lastPrice quoteStale now =>
    simp only [step] at h
    split at h
    · cases h
    rename_i hquote
    have hlast : 0 < lastPrice := not_le.mp fun hle => hquote (Or.inl hle)
    split at h
    · cases h
      exact Effect.quiet rfl rfl rfl
    rename_i ledger hplace
    cases h
    unfold place at hplace
    split at hplace
    · cases hplace
    rename_i account hreserve
    split at hplace
    · cases hplace
    rename_i hfresh
    cases hplace
    have hnone : s.trade? id = none := by
      simpa [BrokerState.trade?] using hfresh
    have hrow : RowOk _ id (req.trade now) := req.rowOk (s := {
        s with placedReserve := fun k => if k = id then req.reserve lastPrice
          else s.placedReserve k }) now hlast (if_pos rfl)
    have hnonneg : 0 ≤ req.reserve lastPrice := by
      have hr := hrow.reserve_nonneg
      simpa using hr
    have haccount : account = { s.ledger.account with
          reservedMicros := s.ledger.account.reservedMicros + req.reserve lastPrice } ∧
        (req.reserve lastPrice ≤
          s.ledger.account.cashMicros - s.ledger.account.reservedMicros ∨
            req.reserve lastPrice = 0) := by
      unfold tryReserve at hreserve
      split at hreserve
      · rename_i hle
        have hzero : req.reserve lastPrice = 0 := le_antisymm hle hnonneg
        cases hreserve
        exact ⟨by simp [hzero], Or.inr hzero⟩
      · split at hreserve
        · rename_i hcash
          cases hreserve
          exact ⟨rfl, Or.inl hcash⟩
        · cases hreserve
    rcases haccount with ⟨rfl, havailable⟩
    exact Effect.placed hnone rfl ⟨hrow.quantity_pos, hrow.limit_pos, hrow.reserve_nonneg,
      hrow.reserve_sell, hrow.reserve_eq, hrow.market_not_accepted⟩ havailable rfl rfl rfl
  | run task now =>
    simp only [step] at h
    split at h
    · rename_i hmem
      cases h
      exact runTask_effect hs now (hs.tasks task hmem)
    · cases h
  | cancel id =>
    simp only [step] at h
    repeat' split at h
    all_goals cases h
    all_goals exact Effect.quiet rfl rfl rfl
  | sweep asset lastPrice =>
    simp only [step] at h
    split at h <;> cases h
    exact Effect.quiet rfl rfl rfl
  | refresh task =>
    simp only [step] at h
    split at h
    · rcases Option.map_eq_some_iff.mp h with ⟨task', _, rfl⟩
      exact Effect.quiet rfl rfl rfl
    · cases h
  | crash task =>
    cases h
    exact Effect.quiet rfl rfl rfl

/-! ## Rows and tasks -/

/-- The row of an order under an assignment to the table. -/
theorem trade?_of_set {s s' : BrokerState} {k : OrderId} {new : Trade} (id : OrderId)
    (h : s'.ledger.trades = s.ledger.trades.set k new) :
    s'.trade? id = if id = k then some new else s.trade? id := by
  unfold BrokerState.trade?
  rw [h, Dict.get?_set]

/-- What an effect may do to the row of an order: nothing, or it inserts it, or it rewrites it as
the same order, whose status changes only while it is open. -/
def RowEffect (s s' : BrokerState) (id : OrderId) : Prop :=
  (s'.trade? id = s.trade? id ∧ s'.placedReserve id = s.placedReserve id) ∨
  (s.trade? id = none ∧ ∃ row, s'.trade? id = some row ∧ RowOk s' id row) ∨
  ∃ old new, s.trade? id = some old ∧ s'.trade? id = some new ∧ SameOrder old new ∧
    s'.placedReserve id = s.placedReserve id ∧ (new.status = old.status ∨
      old.status.isOpen = true ∧ (new.status = .accepted → old.orderType ≠ .market))

theorem Effect.row {s s' : BrokerState} (h : Effect s s') (id : OrderId) : RowEffect s s' id := by
  have hset : ∀ {k old new}, s'.ledger.trades = s.ledger.trades.set k new →
      s.trade? k = some old → SameOrder old new → s'.placedReserve = s.placedReserve →
        (new.status = old.status ∨
          old.status.isOpen = true ∧ (new.status = .accepted → old.orderType ≠ .market)) →
          RowEffect s s' id := by
    intro k old new htrades hfound hsame hplaced hstatus
    have htrade := trade?_of_set id htrades
    by_cases hid : id = k
    · subst hid
      rw [if_pos rfl] at htrade
      exact Or.inr (Or.inr ⟨old, new, hfound, htrade, hsame, congrFun hplaced id, hstatus⟩)
    · rw [if_neg hid] at htrade
      exact Or.inl ⟨htrade, congrFun hplaced id⟩
  cases h with
  | quiet ledger placed settled =>
    refine Or.inl ⟨?_, congrFun placed id⟩
    rw [BrokerState.trade?, BrokerState.trade?, ledger]
  | @placed k trade reserve fresh pending ok available ledger placed settled =>
    have htrade := trade?_of_set id (congrArg Ledger.trades ledger)
    by_cases hid : id = k
    · subst hid
      rw [if_pos rfl] at htrade
      exact Or.inr (Or.inl ⟨fresh, trade, htrade, ok⟩)
    · rw [if_neg hid] at htrade
      exact Or.inl ⟨htrade, (congrFun placed id).trans (if_neg hid)⟩
  | relabelled found same status price ledger placed settled =>
    refine hset (congrArg Ledger.trades ledger) found same placed ?_
    rcases status with hkept | ⟨hpending, -, hmarket⟩
    · exact Or.inl hkept
    · exact Or.inr ⟨hpending ▸ rfl, fun _ => hmarket⟩
  | closed found wasOpen terminal unfilled ledger placed settled =>
    refine hset (congrArg Ledger.trades ledger) found ⟨rfl, rfl, rfl, rfl, rfl, Or.inl rfl⟩ placed ?_
    refine Or.inr ⟨wasOpen, ?_⟩
    rintro rfl
    cases terminal
  | filled found wasOpen nonneg trades account placed settled =>
    refine hset trades found ⟨rfl, rfl, rfl, rfl, rfl, Or.inl rfl⟩ placed ?_
    exact Or.inr ⟨wasOpen, fun haccepted => by cases haccepted⟩

/-- Orders are never deleted; their terms and their reservation stay. -/
theorem Effect.later {s s' : BrokerState} (h : Effect s s') {id : OrderId} {row : Trade}
    (hrow : s.trade? id = some row) :
    ∃ row', s'.trade? id = some row' ∧ SameOrder row row' ∧
      s'.placedReserve id = s.placedReserve id := by
  rcases h.row id with ⟨hsame, hplaced⟩ | ⟨hnone, -⟩ | ⟨old, new, hold, hnew, hsame, hplaced, -⟩
  · exact ⟨row, hsame.trans hrow, SameOrder.refl row, hplaced⟩
  · rw [hrow] at hnone
    cases hnone
  · rw [hrow] at hold
    cases hold
    exact ⟨new, hnew, hsame, hplaced⟩

/-- A rewrite that keeps the order and does not accept a market order keeps a row well
formed. -/
theorem RowOk.of_same {s s' : BrokerState} {id : OrderId} {row row' : Trade}
    (h : RowOk s id row) (hsame : SameOrder row row')
    (hplaced : s'.placedReserve id = s.placedReserve id)
    (haccepted : row'.status = .accepted → row.status = .accepted ∨ row.orderType ≠ .market) :
    RowOk s' id row' where
  quantity_pos := by
    rw [hsame.quantity]
    exact h.quantity_pos
  limit_pos := by
    rw [hsame.limitPrice]
    exact h.limit_pos
  reserve_nonneg := by
    rw [hplaced]
    exact h.reserve_nonneg
  reserve_sell := by
    rw [hplaced, hsame.side]
    exact h.reserve_sell
  reserve_eq := by
    intro hmarket
    rw [hplaced, hsame.tradeReservationMicros_eq]
    exact h.reserve_eq (mt hsame.market_iff.mpr hmarket)
  market_not_accepted := by
    intro hmarket hstatus
    have hold := hsame.market_iff.mp hmarket
    rcases haccepted hstatus with hrow | hne
    · exact h.market_not_accepted hold hrow
    · exact hne hold

/-- An effect keeps every row well formed. -/
theorem Effect.rowOk {s s' : BrokerState} (h : Effect s s')
    (hs : ∀ id row, s.trade? id = some row → RowOk s id row) (id : OrderId) (row : Trade)
    (hrow : s'.trade? id = some row) : RowOk s' id row := by
  rcases h.row id with ⟨hsame, hplaced⟩ | ⟨-, new, hnew, hok⟩ |
    ⟨old, new, hold, hnew, hsame, hplaced, hstatus⟩
  · exact (hs id row (hsame ▸ hrow)).of_same (SameOrder.refl row) hplaced Or.inl
  · rw [hrow] at hnew
    cases hnew
    exact hok
  · rw [hrow] at hnew
    cases hnew
    refine (hs id old hold).of_same hsame hplaced fun haccepted => ?_
    rcases hstatus with hkept | ⟨-, hmarket⟩
    · exact Or.inl (hkept ▸ haccepted)
    · exact Or.inr (hmarket haccepted)

/-- An effect keeps every task in agreement with its order. -/
theorem Effect.taskOk {s s' : BrokerState} (h : Effect s s') {task : Task}
    (htask : TaskOk s task) : TaskOk s' task := by
  cases task with
  | placing id trade reserve lastPrice quoteStale =>
    rcases htask with ⟨⟨row, hrow, hsame⟩, hreserve, hlast, hstale⟩
    rcases h.later hrow with ⟨row', hrow', hsame', hplaced⟩
    exact ⟨⟨row', hrow', hsame.trans hsame'⟩, hreserve.trans hplaced.symm, hlast, hstale⟩
  | resting id =>
    rcases htask with ⟨row, hrow, hmarket⟩
    rcases h.later hrow with ⟨row', hrow', hsame', _⟩
    exact ⟨row', hrow', mt hsame'.market_iff.mp hmarket⟩
  | rejecting id reserve =>
    rcases htask with ⟨⟨row, hrow⟩, hreserve⟩
    rcases h.later hrow with ⟨row', hrow', _, hplaced⟩
    exact ⟨⟨row', hrow'⟩, hreserve.trans hplaced.symm⟩
  | cancelling id trade =>
    rcases htask with ⟨⟨row, hrow, hsame⟩, hmarket⟩
    rcases h.later hrow with ⟨row', hrow', hsame', _⟩
    exact ⟨⟨row', hrow', hsame.trans hsame'⟩, hmarket⟩
  | sweeping id trade lastPrice =>
    rcases htask with ⟨⟨row, hrow, hsame⟩, hmarket, hlast⟩
    rcases h.later hrow with ⟨row', hrow', hsame', _⟩
    exact ⟨⟨row', hrow', hsame.trans hsame'⟩, hmarket, hlast⟩

/-- The tasks a close leaves are tasks there were. -/
theorem close_tasks {s : BrokerState} {task t : Task} {id : OrderId} {toStatus : TradeStatus}
    {reserved : ℤ} (ht : t ∈ (s.close task id toStatus reserved).tasks) : t ∈ s.tasks := by
  unfold BrokerState.close at ht
  split at ht
  · exact List.mem_of_mem_erase ht
  · exact List.mem_of_mem_erase ht

/-- The tasks a fill leaves: those there were, and the close of a refused fill. -/
theorem fill_tasks {s : BrokerState} {task t : Task} {id : OrderId} {trade row : Trade}
    {price : ℚ} {reserved : ℤ} {now : Time} (hrow : s.trade? id = some row)
    (hreserved : reserved = s.placedReserve id)
    (ht : t ∈ (s.fill task id trade price reserved now).tasks) :
    t ∈ s.tasks ∨ TaskOk (s.fill task id trade price reserved now) t := by
  unfold BrokerState.fill at ht ⊢
  cases hfill : fillOrder s.ledger id trade price reserved now with
  | notOpen =>
    rw [hfill] at ht
    exact Or.inl (List.mem_of_mem_erase ht)
  | refused why =>
    rw [hfill] at ht
    rcases List.mem_cons.mp ht with rfl | hold
    · exact Or.inr ⟨⟨row, hrow⟩, hreserved⟩
    · exact Or.inl (List.mem_of_mem_erase hold)
  | filled ledger =>
    rw [hfill] at ht
    exact Or.inl (List.mem_of_mem_erase ht)

/-- The tasks a transaction leaves: those there were, and its continuation. -/
theorem runTask_tasks {s : BrokerState} (hs : SystemOk s) {task t : Task} {now : Time}
    (htask : TaskOk s task) (ht : t ∈ (runTask s task now).tasks) :
    t ∈ s.tasks ∨ TaskOk (runTask s task now) t := by
  cases task with
  | placing id trade reserve lastPrice quoteStale =>
    rcases htask with ⟨⟨row, hrow, hsame⟩, hreserve, _, _⟩
    unfold runTask at ht ⊢
    simp only at ht ⊢
    split at ht
    · exact fill_tasks hrow hreserve ht
    · split at ht
      · exact Or.inl (close_tasks ht)
      · rename_i hioc
        split at ht
        · rename_i hconvert
          rw [if_neg hioc, if_pos hconvert]
          rcases List.mem_cons.mp ht with rfl | hold
          · right
            refine ⟨{ row with orderType := .limit }, ?_, by simp⟩
            exact Dict.get?_updateWhere_of_matches _ hrow rfl
          · exact Or.inl (List.mem_of_mem_erase hold)
        · exact Or.inl (List.mem_of_mem_erase ht)
  | resting id => exact Or.inl (List.mem_of_mem_erase ht)
  | rejecting id reserve => exact Or.inl (close_tasks ht)
  | cancelling id trade => exact Or.inl (close_tasks ht)
  | sweeping id trade lastPrice =>
    rcases htask with ⟨⟨row, hrow, hsame⟩, hmarket, _⟩
    unfold runTask at ht ⊢
    simp only at ht ⊢
    split at ht
    · exact fill_tasks hrow ((hs.rows id row hrow).reserved_of_same hsame hmarket) ht
    · split at ht <;> exact Or.inl (List.mem_of_mem_erase ht)

/-- A row read in status ACCEPTED belongs to no market order. -/
theorem RowOk.not_market {s : BrokerState} {id : OrderId} {row : Trade} (h : RowOk s id row)
    (haccepted : row.status = .accepted) : row.orderType ≠ .market :=
  fun hmarket => h.market_not_accepted hmarket haccepted

/-- The tasks after a step: those there were, or new ones in agreement with their order. -/
theorem step_tasks {s s' : BrokerState} {a : Action} (hs : SystemOk s)
    (h : step s a = some s') {t : Task} (ht : t ∈ s'.tasks) : t ∈ s.tasks ∨ TaskOk s' t := by
  cases a with
  | place id req lastPrice quoteStale now =>
    simp only [step] at h
    split at h
    · cases h
    rename_i hquote
    split at h
    · cases h
      exact Or.inl ht
    rename_i ledger hplace
    cases h
    rcases List.mem_cons.mp ht with rfl | hold
    · right
      refine ⟨⟨req.trade now, ?_, SameOrder.refl _⟩, (if_pos rfl).symm, ?_, ?_⟩
      · unfold place at hplace
        split at hplace
        · cases hplace
        split at hplace
        · cases hplace
        cases hplace
        exact Dict.get?_set_self _ _ _
      · exact not_le.mp fun hle => hquote (Or.inl hle)
      · exact fun hstale hmarket => hquote (Or.inr ⟨hstale, hmarket⟩)
    · exact Or.inl hold
  | cancel id =>
    simp only [step] at h
    split at h
    · cases h
      exact Or.inl ht
    rename_i trade hrow
    split at h
    · rename_i haccepted
      cases h
      rcases List.mem_cons.mp ht with rfl | hold
      · exact Or.inr ⟨⟨trade, hrow, SameOrder.refl trade⟩,
          (hs.rows id trade hrow).not_market haccepted⟩
      · exact Or.inl hold
    · cases h
      exact Or.inl ht
  | sweep asset lastPrice =>
    simp only [step] at h
    split at h
    · cases h
    rename_i hlast
    cases h
    rcases List.mem_append.mp ht with hold | hnew
    · exact Or.inl hold
    · right
      rcases List.mem_map.mp hnew with ⟨item, hitem, rfl⟩
      rcases List.mem_filter.mp hitem with ⟨hmem, hcond⟩
      simp only [Bool.and_eq_true, decide_eq_true_eq] at hcond
      have hrow : s.trade? item.1 = some item.2 := Dict.get?_eq_some_iff.mpr hmem
      exact ⟨⟨item.2, hrow, SameOrder.refl _⟩,
        (hs.rows item.1 item.2 hrow).not_market hcond.1.1, not_le.mp hlast⟩
  | refresh task =>
    simp only [step] at h
    split at h
    · rename_i hmem
      rcases Option.map_eq_some_iff.mp h with ⟨task', hread, rfl⟩
      rcases List.mem_cons.mp ht with rfl | hold
      · right
        have htask := hs.tasks task hmem
        cases task with
        | placing | resting | rejecting => cases hread
        | cancelling id trade =>
          rcases htask with ⟨⟨row, hrow, hsame⟩, hmarket⟩
          rcases Option.map_eq_some_iff.mp hread with ⟨row', hrow', rfl⟩
          rw [hrow] at hrow'
          cases hrow'
          exact ⟨⟨row, hrow, SameOrder.refl row⟩, mt hsame.market_iff.mp hmarket⟩
        | sweeping id trade lastPrice =>
          rcases htask with ⟨⟨row, hrow, hsame⟩, hmarket, hlast⟩
          rcases Option.map_eq_some_iff.mp hread with ⟨row', hrow', rfl⟩
          rw [hrow] at hrow'
          cases hrow'
          exact ⟨⟨row, hrow, SameOrder.refl row⟩, mt hsame.market_iff.mp hmarket, hlast⟩
      · exact Or.inl (List.mem_of_mem_erase hold)
    · cases h
  | run task now =>
    simp only [step] at h
    split at h
    · rename_i hmem
      cases h
      exact runTask_tasks hs (hs.tasks task hmem) ht
    · cases h
  | crash task =>
    cases h
    exact Or.inl (List.mem_of_mem_erase ht)

/-- A step keeps rows and tasks well formed. -/
theorem systemOk_step {s s' : BrokerState} {a : Action} (hs : SystemOk s)
    (h : step s a = some s') : SystemOk s' := by
  have heffect := step_effect hs h
  refine ⟨heffect.rowOk hs.rows, ?_⟩
  intro task htask
  rcases step_tasks hs h htask with hold | hnew
  · exact heffect.taskOk (hs.tasks task hold)
  · exact hnew

end QuantumSentinel.Broker
