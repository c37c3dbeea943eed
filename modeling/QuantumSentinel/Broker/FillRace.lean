import QuantumSentinel.Lib.Transition
import QuantumSentinel.Broker.Positions

/-!
# Paper broker: concurrent fills

Concurrent `fill_order` calls of one user, statement by statement, at READ COMMITTED:
a call reads the clock, marks its trade FILLED with that timestamp (an uncommitted write
that locks the row), takes the lock of the account row, checks the cash of a buy or the
holding of a sell against the committed rows, and commits or rolls back.  The account
lock orders the commits, but the timestamps were read before it was taken, so a sell can
be checked against a buy that the fold will place after it.

Main results:

- Theorem `fillsOk_step`: what every statement preserves when sells are checked
  against earlier buys only.
- Theorem `sells_covered`: in such runs no sell is ever cut to the holding.
- Theorem `sells_not_covered`: a run that sells more than was bought.
-/

namespace QuantumSentinel.Broker

open Lib

/-- Where a `fill_order` call stands. -/
inductive FillStage
  /-- the clock is read; the compare-and-set comes next -/
  | stamped
  /-- the trade is marked FILLED, uncommitted; the account lock comes next -/
  | marked
  /-- the account row is locked; the check comes next -/
  | locked
  /-- the check passed; the commit comes next -/
  | checked
  /-- the check failed and the transaction is rolled back; `close_order` comes next -/
  | refused
deriving DecidableEq, Repr

/-- A `fill_order` call in progress. -/
structure FillCall where
  id : OrderId
  trade : Trade
  price : ℚ
  reserved : ℤ
  filledAt : Time
  stage : FillStage
deriving DecidableEq, Repr

/-- Whether the call holds the lock of its trade row. -/
def FillCall.holdsTrade (call : FillCall) : Bool :=
  call.stage = .marked || call.stage = .locked || call.stage = .checked

/-- Whether the call holds the lock of the account row. -/
def FillCall.holdsAccount (call : FillCall) : Bool :=
  call.stage = .locked || call.stage = .checked

/-- The committed tables, the clock and the calls in progress. -/
structure FillState where
  account : Account
  trades : Dict OrderId Trade
  clock : Time
  calls : Dict Nat FillCall

/-- One statement of a call, its start or its loss, or a tick of the clock. -/
inductive FillAction
  | tick (now : Time)
  | start (n : Nat) (id : OrderId) (price : ℚ) (reserved : ℤ)
  | mark (n : Nat)
  | lock (n : Nat)
  | check (n : Nat) (rows : List Trade)
  | commit (n : Nat)
  | reject (n : Nat)
  | abort (n : Nat)

/-- The committed filled trades of an asset. -/
def filledOf (trades : Dict OrderId Trade) (asset : String) : List Trade :=
  trades.values.filter fun t => t.asset = asset && decide (t.status = .filled)

/-- A result of the query: the given rows in `filled_at` order.  The database orders
rows with equal timestamps as it likes. -/
def InFillOrder (committed rows : List Trade) : Prop :=
  rows.Perm committed ∧ rows.Pairwise fun a b => a.filledAt.getD 0 ≤ b.filledAt.getD 0

instance (committed rows : List Trade) : Decidable (InFillOrder committed rows) :=
  inferInstanceAs (Decidable (_ ∧ _))

/-- The row a fill commits. -/
def FillCall.filledRow (call : FillCall) (row : Trade) : Trade :=
  { row with
    status := .filled, filledPrice := some call.price, filledAt := some call.filledAt }

/-- Whether `fill_order` may settle: a buy needs the cash, a sell the holding folded
from the rows its query returned. -/
def FillCall.passes (call : FillCall) (account : Account) (rows : List Trade) : Bool :=
  match call.trade.side with
  | .buy =>
    released account call.reserved ≤
      account.cashMicros - notionalMicros call.trade.quantity call.price
  | .sell => call.trade.quantity ≤ rows.foldl foldHolding 0

/-- The account row a fill commits. -/
def FillCall.settle (call : FillCall) (account : Account) : Account :=
  let cost := notionalMicros call.trade.quantity call.price
  match call.trade.side with
  | .buy =>
    { cashMicros := account.cashMicros - cost
      reservedMicros := released account call.reserved }
  | .sell => { account with cashMicros := account.cashMicros + cost }

/-- Whether no other call holds the lock of a trade row. -/
def tradeFree (calls : Dict Nat FillCall) (id : OrderId) : Bool :=
  calls.values.all fun call => !(call.holdsTrade && decide (call.id = id))

/-- Whether no call holds the lock of the account row. -/
def accountFree (calls : Dict Nat FillCall) : Bool :=
  calls.values.all fun call => !call.holdsAccount

namespace FillState

variable (s : FillState)

/-- Move a call to another stage. -/
def restage (n : Nat) (call : FillCall) (stage : FillStage) : FillState :=
  { s with calls := s.calls.set n { call with stage := stage } }

/-- End a call. -/
def ended (n : Nat) : FillState :=
  { s with calls := s.calls.erase n }

end FillState

/-- The call under a number, when it stands at a stage. -/
def callAt (s : FillState) (n : Nat) (stage : FillStage) : Option FillCall :=
  (s.calls.get? n).filter fun call => call.stage = stage

/-- One step of the system. -/
def fillStep (s : FillState) : FillAction → Option FillState
  | .tick now => if s.clock ≤ now then some { s with clock := now } else none
  | .start n id price reserved =>
    match s.calls.get? n, s.trades.get? id with
    | none, some trade =>
      some { s with
        calls := s.calls.set n ⟨id, trade, price, reserved, s.clock, .stamped⟩ }
    | _, _ => none
  | .mark n =>
    (callAt s n .stamped).bind fun call =>
      if tradeFree s.calls call.id then
        -- the compare-and-set sees the committed row
        if s.trades.matchesWhere call.id isOpen then some (s.restage n call .marked)
        else some (s.ended n)
      else none
  | .lock n =>
    (callAt s n .marked).bind fun call =>
      if accountFree s.calls then some (s.restage n call .locked) else none
  | .check n rows =>
    (callAt s n .locked).bind fun call =>
      if InFillOrder (filledOf (s.trades.erase call.id) call.trade.asset) rows then
        some (s.restage n call (if call.passes s.account rows then .checked else .refused))
      else none
  | .commit n =>
    (callAt s n .checked).map fun call =>
      { s.ended n with
        account := call.settle s.account
        trades := s.trades.updateWhere call.id (fun _ => true) call.filledRow }
  | .reject n =>
    (callAt s n .refused).bind fun call =>
      if tradeFree s.calls call.id && accountFree s.calls then
        match closeOrder ⟨s.account, s.trades⟩ call.id .rejected call.reserved with
        | none => some (s.ended n)
        | some ledger =>
          some { s.ended n with account := ledger.account, trades := ledger.trades }
      else none
  | .abort n => some (s.ended n)

/-- Any set of resting orders of a user, and no call yet. -/
def fills (account : Account) (orders : Dict OrderId Trade) : Machine FillState FillAction where
  init := { account := account, trades := orders, clock := 0, calls := Dict.empty }
  step := fillStep

/-! ## Statements of the guarantee -/

/-- The filled quantity of one side. -/
def quantityOf (side : Side) (rows : List Trade) : ℚ :=
  ((rows.filter fun t => t.side = side).map Trade.quantity).sum

/-- The guarantee for one asset: the sells do not exceed the buys, no order of the query
result cuts a sell, and the holding and the rebuilt position are what was bought and not
sold. -/
structure SellsCovered (s : FillState) (asset : String) : Prop where
  sold_le : quantityOf .sell (filledOf s.trades asset) ≤
    quantityOf .buy (filledOf s.trades asset)
  noClamp : ∀ rows, InFillOrder (filledOf s.trades asset) rows → NoClamp 0 rows
  held : ∀ rows, InFillOrder (filledOf s.trades asset) rows →
    rows.foldl foldHolding 0 =
      quantityOf .buy (filledOf s.trades asset) - quantityOf .sell (filledOf s.trades asset)
  rebuilt : ∀ rows, InFillOrder (filledOf s.trades asset) rows →
    (rows.foldl rebuildStep Book.flat).quantity =
      quantityOf .buy (filledOf s.trades asset) - quantityOf .sell (filledOf s.trades asset)

/-- When a sell checks the holding, every committed buy of the asset was stamped before
it. -/
def StampedInOrder (s : FillState) : FillAction → Prop
  | .check n _ => ∀ call ∈ callAt s n .locked, call.trade.side = .sell →
      ∀ t ∈ filledOf s.trades call.trade.asset, t.side = .buy →
        t.filledAt.getD 0 < call.filledAt
  | _ => True

instance (s : FillState) (a : FillAction) : Decidable (StampedInOrder s a) :=
  match a with
  | .check n _ =>
    inferInstanceAs (Decidable (∀ call ∈ callAt s n .locked, call.trade.side = .sell →
      ∀ t ∈ filledOf s.trades call.trade.asset, t.side = .buy →
        t.filledAt.getD 0 < call.filledAt))
  | .tick _ | .start _ _ _ _ | .mark _ | .lock _ | .commit _ | .reject _ | .abort _ =>
    inferInstanceAs (Decidable True)

/-! ## Lookups and locks -/

theorem callAt_eq_some {s : FillState} {n : Nat} {stage : FillStage} {call : FillCall} :
    callAt s n stage = some call ↔ s.calls.get? n = some call ∧ call.stage = stage := by
  simp [callAt, Option.filter_eq_some_iff]

/-- A free trade row is locked by no call. -/
theorem not_holdsTrade_of_free {calls : Dict Nat FillCall} {id : OrderId}
    (h : tradeFree calls id = true) {n : Nat} {call : FillCall}
    (hcall : calls.get? n = some call) (hholds : call.holdsTrade = true) : call.id ≠ id := by
  intro hid
  have hmem : call ∈ calls.values :=
    List.mem_map_of_mem (f := Prod.snd) (Dict.get?_eq_some_iff.mp hcall)
  have hfree := List.all_eq_true.mp h call hmem
  simp [hholds, hid] at hfree

/-- A free account row is locked by no call. -/
theorem not_holdsAccount_of_free {calls : Dict Nat FillCall} (h : accountFree calls = true)
    {n : Nat} {call : FillCall} (hcall : calls.get? n = some call) :
    call.holdsAccount = false := by
  have hmem : call ∈ calls.values :=
    List.mem_map_of_mem (f := Prod.snd) (Dict.get?_eq_some_iff.mp hcall)
  simpa using List.all_eq_true.mp h call hmem

/-! ## The invariant -/

/-- The trade a call was started with is the trade in the table. -/
structure SameTerms (trade row : Trade) : Prop where
  asset : row.asset = trade.asset
  side : row.side = trade.side
  quantity : row.quantity = trade.quantity

/-- What a passed check of a sell guarantees up to its commit: the committed trades cover
it, and it belongs after every committed buy. -/
def Covered (trades : Dict OrderId Trade) (call : FillCall) : Prop :=
  call.trade.quantity ≤ ((filledOf trades call.trade.asset).map signedQuantity).sum ∧
    ∀ t ∈ filledOf trades call.trade.asset, t.side = .buy →
      t.filledAt.getD 0 < call.filledAt

/-- What holds in every state of a run whose sells are checked in stamp order. -/
structure FillsOk (s : FillState) : Prop where
  quantity : ∀ id row, s.trades.get? id = some row → 0 ≤ row.quantity
  row : ∀ n call, s.calls.get? n = some call →
    ∃ row, s.trades.get? call.id = some row ∧ SameTerms call.trade row ∧
      (call.holdsTrade = true → row.status.isOpen = true)
  tradeLock : ∀ n call n' call', s.calls.get? n = some call → s.calls.get? n' = some call' →
    call.holdsTrade = true → call'.holdsTrade = true → call.id = call'.id → n = n'
  accountLock : ∀ n call n' call', s.calls.get? n = some call → s.calls.get? n' = some call' →
    call.holdsAccount = true → call'.holdsAccount = true → n = n'
  covered : ∀ n call, s.calls.get? n = some call → call.stage = .checked →
    call.trade.side = .sell → Covered s.trades call
  noClamp : ∀ asset rows, InFillOrder (filledOf s.trades asset) rows → NoClamp 0 rows

/-- Ending a call keeps the invariant. -/
theorem FillsOk.ended {s : FillState} (hs : FillsOk s) (n : Nat) : FillsOk (s.ended n) := by
  have hsub : ∀ m call, (s.ended n).calls.get? m = some call → s.calls.get? m = some call := by
    intro m call hcall
    have hcall' : (s.calls.erase n).get? m = some call := hcall
    rw [Dict.get?_erase] at hcall'
    split at hcall'
    · cases hcall'
    · exact hcall'
  refine ⟨hs.quantity, ?_, ?_, ?_, ?_, hs.noClamp⟩
  · intro m call hcall
    exact hs.row m call (hsub m call hcall)
  · intro m call m' call' hcall hcall'
    exact hs.tradeLock m call m' call' (hsub m call hcall) (hsub m' call' hcall')
  · intro m call m' call' hcall hcall'
    exact hs.accountLock m call m' call' (hsub m call hcall) (hsub m' call' hcall')
  · intro m call hcall
    exact hs.covered m call (hsub m call hcall)

/-- Moving a call to another stage keeps the invariant, when a lock it takes is free. -/
theorem FillsOk.restage {s : FillState} (hs : FillsOk s) {n : Nat} {call : FillCall}
    {stage : FillStage} (hcall : s.calls.get? n = some call)
    (htrade : ({ call with stage := stage } : FillCall).holdsTrade = true →
      call.holdsTrade = true ∨
        (tradeFree s.calls call.id = true ∧ s.trades.matchesWhere call.id isOpen = true))
    (haccount : ({ call with stage := stage } : FillCall).holdsAccount = true →
      call.holdsAccount = true ∨ accountFree s.calls = true)
    (hcovered : stage = .checked → call.trade.side = .sell → Covered s.trades call) :
    FillsOk (s.restage n call stage) := by
  have hget : ∀ m c, (s.restage n call stage).calls.get? m = some c →
      (m = n ∧ c = { call with stage := stage }) ∨ (m ≠ n ∧ s.calls.get? m = some c) := by
    intro m c hc
    have hc' : (s.calls.set n { call with stage := stage }).get? m = some c := hc
    rw [Dict.get?_set] at hc'
    by_cases hm : m = n
    · rw [if_pos hm] at hc'
      cases hc'
      exact Or.inl ⟨hm, rfl⟩
    · rw [if_neg hm] at hc'
      exact Or.inr ⟨hm, hc'⟩
  have htrade_other : ∀ m c, m ≠ n → s.calls.get? m = some c → c.holdsTrade = true →
      ({ call with stage := stage } : FillCall).holdsTrade = true → c.id ≠ call.id := by
    intro m c hm hc hholds hnew hid
    rcases htrade hnew with hold | ⟨hfree, _⟩
    · exact hm (hs.tradeLock m c n call hc hcall hholds hold hid)
    · exact not_holdsTrade_of_free hfree hc hholds hid
  have haccount_other : ∀ m c, m ≠ n → s.calls.get? m = some c → c.holdsAccount = true →
      ({ call with stage := stage } : FillCall).holdsAccount = true → False := by
    intro m c hm hc hholds hnew
    rcases haccount hnew with hold | hfree
    · exact hm (hs.accountLock m c n call hc hcall hholds hold)
    · rw [not_holdsAccount_of_free hfree hc] at hholds
      cases hholds
  refine ⟨hs.quantity, ?_, ?_, ?_, ?_, hs.noClamp⟩
  · intro m c hc
    rcases hget m c hc with ⟨_, rfl⟩ | ⟨_, hold⟩
    · rcases hs.row n call hcall with ⟨row, hrow, hterms, hopen⟩
      refine ⟨row, hrow, hterms, fun hnew => ?_⟩
      rcases htrade hnew with hold | ⟨_, hmatch⟩
      · exact hopen hold
      · rcases Dict.matchesWhere_iff.mp hmatch with ⟨row', hrow', hopen'⟩
        rw [hrow] at hrow'
        cases hrow'
        exact hopen'
    · exact hs.row m c hold
  · intro m c m' c' hc hc' hholds hholds' hid
    rcases hget m c hc with ⟨rfl, rfl⟩ | ⟨hm, hold⟩ <;>
      rcases hget m' c' hc' with ⟨rfl, rfl⟩ | ⟨hm', hold'⟩
    · rfl
    · exact absurd hid.symm (htrade_other m' c' hm' hold' hholds' hholds)
    · exact absurd hid (htrade_other m c hm hold hholds hholds')
    · exact hs.tradeLock m c m' c' hold hold' hholds hholds' hid
  · intro m c m' c' hc hc' hholds hholds'
    rcases hget m c hc with ⟨rfl, rfl⟩ | ⟨hm, hold⟩ <;>
      rcases hget m' c' hc' with ⟨rfl, rfl⟩ | ⟨hm', hold'⟩
    · rfl
    · exact (haccount_other m' c' hm' hold' hholds' hholds).elim
    · exact (haccount_other m c hm hold hholds hholds').elim
    · exact hs.accountLock m c m' c' hold hold' hholds hholds'
  · intro m c hc hstage hsell
    rcases hget m c hc with ⟨_, rfl⟩ | ⟨_, hold⟩
    · exact hcovered hstage hsell
    · exact hs.covered m c hold hstage hsell

/-! ## The committed trades -/

/-- Whether a row is a filled trade of an asset. -/
def isFilledOf (asset : String) (t : Trade) : Bool :=
  t.asset = asset && decide (t.status = .filled)

theorem isFilledOf_open {asset : String} {row : Trade} (h : row.status.isOpen = true) :
    isFilledOf asset row = false := by
  have hne : row.status ≠ .filled := by
    intro hfilled
    rw [hfilled] at h
    cases h
  simp only [isFilledOf, decide_eq_false hne, Bool.and_false]

/-- Every committed filled trade is in the table. -/
theorem mem_filledOf {trades : Dict OrderId Trade} {asset : String} {t : Trade}
    (h : t ∈ filledOf trades asset) : ∃ id, trades.get? id = some t := by
  rcases List.mem_map.mp (List.mem_of_mem_filter h) with ⟨item, hitem, rfl⟩
  exact ⟨item.1, Dict.get?_eq_some_iff.mpr hitem⟩

/-- The holding before a sell commits, over any result of the query. -/
theorem FillsOk.fold_eq {s : FillState} (hs : FillsOk s) {asset : String} {rows : List Trade}
    (h : InFillOrder (filledOf s.trades asset) rows) :
    rows.foldl foldHolding 0 = ((filledOf s.trades asset).map signedQuantity).sum := by
  rw [foldHolding_eq_of_noClamp (hs.noClamp asset rows h), zero_add]
  exact (h.1.map signedQuantity).sum_eq

/-- One more committed trade leaves no sell cut, when the trade is a buy or a covered
sell. -/
theorem noClamp_committed {committed rows : List Trade} {trade : Trade}
    (hnoClamp : ∀ rows, InFillOrder committed rows → NoClamp 0 rows)
    (hquantity : ∀ t ∈ committed, 0 ≤ t.quantity) (hnonneg : 0 ≤ trade.quantity)
    (hcovered : trade.side = .sell →
      trade.quantity ≤ (committed.map signedQuantity).sum ∧
        ∀ t ∈ committed, t.side = .buy → t.filledAt.getD 0 < trade.filledAt.getD 0)
    (h : InFillOrder (trade :: committed) rows) : NoClamp 0 rows := by
  rcases h with ⟨hperm, hsorted⟩
  have hmem : trade ∈ rows := hperm.mem_iff.mpr (List.mem_cons_self ..)
  rcases List.append_of_mem hmem with ⟨l₁, l₂, rfl⟩
  have hrest : (l₁ ++ l₂).Perm committed :=
    (List.perm_cons trade).mp (List.perm_middle.symm.trans hperm)
  have hsub : (l₁ ++ l₂).Sublist (l₁ ++ trade :: l₂) :=
    List.Sublist.append (List.Sublist.refl l₁) (List.sublist_cons_self trade l₂)
  have hold : NoClamp 0 (l₁ ++ l₂) := hnoClamp _ ⟨hrest, hsorted.sublist hsub⟩
  cases hside : trade.side with
  | buy => exact noClamp_insert_buy hside hnonneg hold
  | sell =>
    rcases hcovered hside with ⟨hle, hstamps⟩
    refine noClamp_insert_sell hside hnonneg ?_ hold ?_
    · intro t ht
      have htc : t ∈ committed := hrest.mem_iff.mp (List.mem_append_right l₁ ht)
      refine ⟨?_, hquantity t htc⟩
      have hafter : trade.filledAt.getD 0 ≤ t.filledAt.getD 0 :=
        (List.pairwise_cons.mp (List.pairwise_append.mp hsorted).2.1).1 t ht
      cases htside : t.side with
      | sell => rfl
      | buy =>
        have hbefore := hstamps t htc htside
        exact absurd hafter (not_le.mpr hbefore)
    · rw [(hrest.map signedQuantity).sum_eq]
      exact hle

/-- A commit adds one trade to the filled trades of its asset and leaves the others. -/
theorem filledOf_commit {s : FillState} {call : FillCall} {row : Trade}
    (hrow : s.trades.get? call.id = some row) (hopen : row.status.isOpen = true)
    (asset : String) :
    (row.asset = asset ∧ (filledOf (s.trades.set call.id (call.filledRow row)) asset).Perm
        (call.filledRow row :: filledOf s.trades asset)) ∨
      filledOf (s.trades.set call.id (call.filledRow row)) asset = filledOf s.trades asset := by
  by_cases hasset : row.asset = asset
  · refine Or.inl ⟨hasset, ?_⟩
    exact Dict.filter_values_set_perm (p := isFilledOf asset) hrow (isFilledOf_open hopen)
      (by simp [isFilledOf, FillCall.filledRow, hasset])
  · right
    exact Dict.filter_values_set (p := isFilledOf asset) hrow (isFilledOf_open hopen)
      (by simp [isFilledOf, FillCall.filledRow, hasset])

/-- The commit of a checked call keeps the invariant. -/
theorem FillsOk.commit {s : FillState} (hs : FillsOk s) {n : Nat} {call : FillCall}
    (hcall : s.calls.get? n = some call) (hstage : call.stage = .checked)
    (account : Account) :
    FillsOk { s.ended n with
      account := account
      trades := s.trades.updateWhere call.id (fun _ => true) call.filledRow } := by
  rcases hs.row n call hcall with ⟨row, hrow, hterms, hopen⟩
  have hholds : call.holdsTrade = true := by simp [FillCall.holdsTrade, hstage]
  have hholdsAccount : call.holdsAccount = true := by simp [FillCall.holdsAccount, hstage]
  have hrowOpen := hopen hholds
  have hother : ∀ m c, (s.calls.erase n).get? m = some c → m ≠ n ∧ s.calls.get? m = some c := by
    intro m c hc
    rw [Dict.get?_erase] at hc
    by_cases hm : m = n
    · rw [if_pos hm] at hc
      cases hc
    · rw [if_neg hm] at hc
      exact ⟨hm, hc⟩
  rw [Dict.updateWhere_of_matches _ hrow rfl]
  have hended := hs.ended n
  refine ⟨?_, ?_, hended.tradeLock, hended.accountLock, ?_, ?_⟩
  · intro id t ht
    rw [Dict.get?_set] at ht
    split at ht
    · cases ht
      exact hs.quantity call.id row hrow
    · exact hs.quantity id t ht
  · intro m c hc
    rcases hother m c hc with ⟨hm, hold⟩
    rcases hs.row m c hold with ⟨row', hrow', hterms', hopen'⟩
    by_cases hid : c.id = call.id
    · have hfree : c.holdsTrade ≠ true := fun hc' =>
        hm (hs.tradeLock m c n call hold hcall hc' hholds hid)
      rw [hid, hrow] at hrow'
      cases hrow'
      refine ⟨call.filledRow row, ?_, ⟨hterms'.asset, hterms'.side, hterms'.quantity⟩,
        fun hc' => absurd hc' hfree⟩
      rw [hid, Dict.get?_set_self]
    · refine ⟨row', ?_, hterms', hopen'⟩
      rw [Dict.get?_set_ne _ _ hid]
      exact hrow'
  · intro m c hc hcstage hsell
    rcases hother m c hc with ⟨hm, hold⟩
    have hcaccount : c.holdsAccount = true := by simp [FillCall.holdsAccount, hcstage]
    exact absurd (hs.accountLock m c n call hold hcall hcaccount hholdsAccount) hm
  · intro asset rows hrows
    rcases filledOf_commit hrow hrowOpen asset with ⟨hasset, hperm⟩ | heq
    · have hnewOrder : InFillOrder (call.filledRow row :: filledOf s.trades asset) rows :=
        ⟨hrows.1.trans hperm, hrows.2⟩
      have hnonneg : 0 ≤ (call.filledRow row).quantity := hs.quantity call.id row hrow
      refine noClamp_committed (hs.noClamp asset) ?_ hnonneg ?_ hnewOrder
      · intro t ht
        rcases mem_filledOf ht with ⟨id, hid⟩
        exact hs.quantity id t hid
      · intro hsell
        have hcallSell : call.trade.side = .sell := hterms.side.symm.trans hsell
        have hcovered := hs.covered n call hcall hstage hcallSell
        rw [Covered, ← hterms.asset, hasset, ← hterms.quantity] at hcovered
        exact hcovered
    · rw [heq] at hrows
      exact hs.noClamp asset rows hrows

/-- The close of a refused fill keeps the invariant. -/
theorem FillsOk.reject {s : FillState} (hs : FillsOk s) (n : Nat) {call : FillCall}
    {row : Trade} (hrow : s.trades.get? call.id = some row)
    (hopen : row.status.isOpen = true) (hfree : tradeFree s.calls call.id = true)
    (account : Account) :
    FillsOk { s.ended n with
      account := account
      trades := s.trades.set call.id { row with status := .rejected } } := by
  have hended := hs.ended n
  have hfilled : ∀ asset,
      filledOf (s.trades.set call.id { row with status := .rejected }) asset =
        filledOf s.trades asset := fun asset =>
    Dict.filter_values_set (p := isFilledOf asset) hrow (isFilledOf_open hopen)
      (by simp [isFilledOf])
  refine ⟨?_, ?_, hended.tradeLock, hended.accountLock, ?_, ?_⟩
  · intro id t ht
    rw [Dict.get?_set] at ht
    split at ht
    · cases ht
      exact hs.quantity call.id row hrow
    · exact hs.quantity id t ht
  · intro m c hc
    rcases hended.row m c hc with ⟨row', hrow', hterms', hopen'⟩
    by_cases hid : c.id = call.id
    · have hold : s.calls.get? m = some c := by
        have hc' : (s.calls.erase n).get? m = some c := hc
        rw [Dict.get?_erase] at hc'
        split at hc'
        · cases hc'
        · exact hc'
      have hrow₁ : s.trades.get? c.id = some row' := hrow'
      rw [hid, hrow] at hrow₁
      cases hrow₁
      refine ⟨{ row with status := .rejected }, ?_,
        ⟨hterms'.asset, hterms'.side, hterms'.quantity⟩, ?_⟩
      · rw [hid, Dict.get?_set_self]
      · exact fun hholds => absurd hid (not_holdsTrade_of_free hfree hold hholds)
    · refine ⟨row', ?_, hterms', hopen'⟩
      rw [Dict.get?_set_ne _ _ hid]
      exact hrow'
  · intro m c hc hstage hsell
    have hcovered := hended.covered m c hc hstage hsell
    rw [Covered, hfilled]
    exact hcovered
  · intro asset rows hrows
    rw [hfilled] at hrows
    exact hs.noClamp asset rows hrows

/-- A new call on an order of the table keeps the invariant. -/
theorem FillsOk.start {s : FillState} (hs : FillsOk s) {n : Nat} {id : OrderId}
    {trade : Trade} (price : ℚ) (reserved : ℤ) (hrow : s.trades.get? id = some trade) :
    FillsOk { s with
      calls := s.calls.set n ⟨id, trade, price, reserved, s.clock, .stamped⟩ } := by
  have hget : ∀ m c,
      (s.calls.set n ⟨id, trade, price, reserved, s.clock, .stamped⟩).get? m = some c →
        c = ⟨id, trade, price, reserved, s.clock, .stamped⟩ ∨ s.calls.get? m = some c := by
    intro m c hc
    rw [Dict.get?_set] at hc
    split at hc
    · cases hc
      exact Or.inl rfl
    · exact Or.inr hc
  refine ⟨hs.quantity, ?_, ?_, ?_, ?_, hs.noClamp⟩
  · intro m c hc
    rcases hget m c hc with rfl | hold
    · exact ⟨trade, hrow, ⟨rfl, rfl, rfl⟩, fun hholds => by cases hholds⟩
    · exact hs.row m c hold
  · intro m c m' c' hc hc' hholds hholds'
    rcases hget m c hc with rfl | hold
    · cases hholds
    · rcases hget m' c' hc' with rfl | hold'
      · cases hholds'
      · exact hs.tradeLock m c m' c' hold hold' hholds hholds'
  · intro m c m' c' hc hc' hholds hholds'
    rcases hget m c hc with rfl | hold
    · cases hholds
    · rcases hget m' c' hc' with rfl | hold'
      · cases hholds'
      · exact hs.accountLock m c m' c' hold hold' hholds hholds'
  · intro m c hc hstage
    rcases hget m c hc with rfl | hold
    · cases hstage
    · exact hs.covered m c hold hstage

/-- A passed check of a sell, made in stamp order, covers the sell. -/
theorem FillsOk.covered_of_check {s : FillState} (hs : FillsOk s) {n : Nat} {call : FillCall}
    {rows : List Trade} (hcall : s.calls.get? n = some call) (hstage : call.stage = .locked)
    (hrows : InFillOrder (filledOf (s.trades.erase call.id) call.trade.asset) rows)
    (hpasses : call.passes s.account rows = true) (hsell : call.trade.side = .sell)
    (hstamps : ∀ t ∈ filledOf s.trades call.trade.asset, t.side = .buy →
      t.filledAt.getD 0 < call.filledAt) : Covered s.trades call := by
  rcases hs.row n call hcall with ⟨row, hrow, _, hopen⟩
  have hrowOpen := hopen (by simp [FillCall.holdsTrade, hstage])
  -- the order's own row is not filled yet, so excluding it changes nothing
  have hexclude : filledOf (s.trades.erase call.id) call.trade.asset =
      filledOf s.trades call.trade.asset :=
    Dict.filter_values_erase (p := isFilledOf call.trade.asset) hrow (isFilledOf_open hrowOpen)
  rw [hexclude] at hrows
  have hfold := hs.fold_eq hrows
  simp only [FillCall.passes, hsell, decide_eq_true_eq] at hpasses
  exact ⟨hfold ▸ hpasses, hstamps⟩

/-- Every statement keeps the invariant, when sells are checked in stamp order. -/
theorem fillsOk_step {s s' : FillState} {a : FillAction} (hstamped : StampedInOrder s a)
    (h : fillStep s a = some s') (hs : FillsOk s) : FillsOk s' := by
  cases a with
  | tick now =>
    simp only [fillStep] at h
    split at h
    · cases h
      exact ⟨hs.quantity, hs.row, hs.tradeLock, hs.accountLock, hs.covered, hs.noClamp⟩
    · cases h
  | start n id price reserved =>
    simp only [fillStep] at h
    split at h
    · rename_i trade _ hrow
      cases h
      exact hs.start price reserved hrow
    · cases h
  | mark n =>
    rcases Option.bind_eq_some_iff.mp h with ⟨call, hcall, hnext⟩
    rcases callAt_eq_some.mp hcall with ⟨hget, _⟩
    by_cases hfree : tradeFree s.calls call.id = true
    · rw [if_pos hfree] at hnext
      by_cases hmatch : s.trades.matchesWhere call.id isOpen = true
      · rw [if_pos hmatch] at hnext
        cases hnext
        apply hs.restage hget
        · exact fun _ => Or.inr ⟨hfree, hmatch⟩
        · intro hholds
          cases hholds
        · intro hstage
          cases hstage
      · rw [if_neg hmatch] at hnext
        cases hnext
        exact hs.ended n
    · rw [if_neg hfree] at hnext
      cases hnext
  | lock n =>
    rcases Option.bind_eq_some_iff.mp h with ⟨call, hcall, hnext⟩
    rcases callAt_eq_some.mp hcall with ⟨hget, hstage⟩
    by_cases hfree : accountFree s.calls = true
    · rw [if_pos hfree] at hnext
      cases hnext
      apply hs.restage hget
      · exact fun _ => Or.inl (by simp [FillCall.holdsTrade, hstage])
      · exact fun _ => Or.inr hfree
      · intro hnew
        cases hnew
    · rw [if_neg hfree] at hnext
      cases hnext
  | check n rows =>
    rcases Option.bind_eq_some_iff.mp h with ⟨call, hcall, hnext⟩
    rcases callAt_eq_some.mp hcall with ⟨hget, hstage⟩
    by_cases hrows :
        InFillOrder (filledOf (s.trades.erase call.id) call.trade.asset) rows
    · rw [if_pos hrows] at hnext
      cases hnext
      apply hs.restage hget
      · exact fun _ => Or.inl (by simp [FillCall.holdsTrade, hstage])
      · exact fun _ => Or.inl (by simp [FillCall.holdsAccount, hstage])
      · intro hnew hsell
        by_cases hpasses : call.passes s.account rows = true
        · exact hs.covered_of_check hget hstage hrows hpasses hsell
            (hstamped call hcall hsell)
        · rw [if_neg hpasses] at hnew
          cases hnew
    · rw [if_neg hrows] at hnext
      cases hnext
  | commit n =>
    rcases Option.map_eq_some_iff.mp h with ⟨call, hcall, rfl⟩
    rcases callAt_eq_some.mp hcall with ⟨hget, hstage⟩
    exact hs.commit hget hstage _
  | reject n =>
    rcases Option.bind_eq_some_iff.mp h with ⟨call, hcall, hnext⟩
    rcases callAt_eq_some.mp hcall with ⟨hget, _⟩
    rcases hs.row n call hget with ⟨row, hrow, _, _⟩
    split at hnext
    · rename_i hfree
      simp only [Bool.and_eq_true] at hfree
      unfold closeOrder at hnext
      by_cases hmatch : s.trades.matchesWhere call.id isOpen = true
      · rw [if_pos hmatch] at hnext
        rcases Dict.matchesWhere_iff.mp hmatch with ⟨row', hrow', hopen⟩
        rw [hrow] at hrow'
        cases hrow'
        rw [Dict.updateWhere_of_matches _ hrow hopen] at hnext
        cases hnext
        exact hs.reject n hrow hopen hfree.1 _
      · rw [if_neg hmatch] at hnext
        cases hnext
        exact hs.ended n
    · cases hnext
  | abort n =>
    cases h
    exact hs.ended n

/-! ## Runs -/

/-- Resting orders with nonnegative quantities. -/
def Resting (orders : Dict OrderId Trade) : Prop :=
  ∀ id row, orders.get? id = some row → row.status = .accepted ∧ 0 ≤ row.quantity

theorem fillsOk_init {orders : Dict OrderId Trade} (account : Account) (h : Resting orders) :
    FillsOk (fills account orders).init := by
  have hnone : ∀ asset, filledOf orders asset = [] := by
    intro asset
    refine List.filter_eq_nil_iff.mpr ?_
    intro t ht
    rcases List.mem_map.mp ht with ⟨item, hitem, rfl⟩
    have hstatus := (h item.1 item.2 (Dict.get?_eq_some_iff.mpr hitem)).1
    simp [hstatus]
  refine ⟨fun id row hrow => (h id row hrow).2, ?_, ?_, ?_, ?_, ?_⟩
  · simp [fills]
  · simp [fills]
  · simp [fills]
  · simp [fills]
  · intro asset rows hrows
    have hnil : rows = [] := by
      have hperm := hrows.1
      rw [show filledOf (fills account orders).init.trades asset = [] from hnone asset] at hperm
      exact hperm.eq_nil
    rw [hnil]
    exact trivial

/-- The signed quantities of a list add up to the buys less the sells. -/
theorem sum_signedQuantity (rows : List Trade) :
    (rows.map signedQuantity).sum = quantityOf .buy rows - quantityOf .sell rows := by
  induction rows with
  | nil => simp [quantityOf]
  | cons t rest ih =>
    rw [List.map_cons, List.sum_cons, ih]
    cases hside : t.side with
    | buy =>
      simp [quantityOf, signedQuantity, hside]
      ring
    | sell =>
      simp [quantityOf, signedQuantity, hside]
      ring

theorem foldHolding_nonneg {held : ℚ} {rows : List Trade} (hheld : 0 ≤ held)
    (hrows : ∀ t ∈ rows, 0 ≤ t.quantity) : 0 ≤ rows.foldl foldHolding held := by
  induction rows generalizing held with
  | nil => exact hheld
  | cons t rest ih =>
    rw [List.foldl_cons]
    refine ih ?_ fun t' ht' => hrows t' (List.mem_cons_of_mem t ht')
    have hq := hrows t (List.mem_cons_self ..)
    unfold foldHolding
    cases t.side with
    | buy =>
      simp only
      linarith
    | sell => exact le_max_left _ _

/-- Every list of trades has an order by `filled_at`. -/
theorem exists_inFillOrder (committed : List Trade) : ∃ rows, InFillOrder committed rows := by
  refine ⟨committed.insertionSort fun a b => a.filledAt.getD 0 ≤ b.filledAt.getD 0,
    List.perm_insertionSort _ _, ?_⟩
  have htotal : Std.Total fun a b : Trade => a.filledAt.getD 0 ≤ b.filledAt.getD 0 :=
    ⟨fun a b => le_total _ _⟩
  have htrans : IsTrans Trade fun a b => a.filledAt.getD 0 ≤ b.filledAt.getD 0 :=
    ⟨fun a b c => le_trans⟩
  exact List.pairwise_insertionSort _ _

/-- The guarantee follows from the invariant. -/
theorem FillsOk.sellsCovered {s : FillState} (hs : FillsOk s) (asset : String) :
    SellsCovered s asset := by
  have hheld : ∀ rows, InFillOrder (filledOf s.trades asset) rows →
      rows.foldl foldHolding 0 =
        quantityOf .buy (filledOf s.trades asset) -
          quantityOf .sell (filledOf s.trades asset) := by
    intro rows hrows
    rw [hs.fold_eq hrows, sum_signedQuantity]
  refine ⟨?_, hs.noClamp asset, hheld, ?_⟩
  · rcases exists_inFillOrder (filledOf s.trades asset) with ⟨rows, hrows⟩
    have hnonneg : 0 ≤ rows.foldl foldHolding 0 := by
      refine foldHolding_nonneg le_rfl ?_
      intro t ht
      rcases mem_filledOf (hrows.1.mem_iff.mp ht) with ⟨id, hid⟩
      exact hs.quantity id t hid
    rw [hheld rows hrows] at hnonneg
    linarith
  · intro rows hrows
    rw [foldl_rebuildStep_quantity]
    exact hheld rows hrows

/-- No sell is credited for shares not held, in every run in which each sell checks the
holding against buys stamped before it. -/
theorem sells_covered (account : Account) {orders : Dict OrderId Trade} (h : Resting orders)
    {s : FillState} (hs : (fills account orders).ReachableUnder StampedInOrder s)
    (asset : String) : SellsCovered s asset := by
  have hok : FillsOk s :=
    Machine.ReachableUnder.invariant (I := FillsOk) (fillsOk_init account h)
      (fun _ _ _ hstamped hstep hi => fillsOk_step hstamped hstep hi) hs
  exact hok.sellsCovered asset

/-- A resting market-price order for a hundred shares. -/
def restingOrder (side : Side) : Trade where
  asset := "AAPL"
  side := side
  quantity := 100
  orderType := .limit
  limitPrice := some 10
  stopPrice := none
  timeInForce := .gtc
  status := .accepted
  filledPrice := none
  submittedAt := 0
  filledAt := none

/-- Two sells and a buy of a hundred shares each. -/
def restingOrders : Dict OrderId Trade :=
  ((Dict.empty.set "sell-1" (restingOrder .sell)).set "buy-1" (restingOrder .buy)).set
    "sell-2" (restingOrder .sell)

theorem restingOrders_resting : Resting restingOrders := by
  intro id row hrow
  have hmem := Dict.get?_eq_some_iff.mp hrow
  have hitems : restingOrders.items = [("sell-1", restingOrder .sell),
      ("buy-1", restingOrder .buy), ("sell-2", restingOrder .sell)] := by decide +kernel
  rw [hitems] at hmem
  simp only [List.mem_cons, Prod.mk.injEq, List.not_mem_nil, or_false] at hmem
  rcases hmem with ⟨_, rfl⟩ | ⟨_, rfl⟩ | ⟨_, rfl⟩ <;> exact ⟨rfl, by simp [restingOrder]⟩

/-- An account with a thousand dollars, all of it reserved for the buy. -/
def restingAccount : Account where
  cashMicros := 1000000000
  reservedMicros := 1000000000

/-- The row a resting order becomes when it fills. -/
def filledOrder (side : Side) (filledAt : Time) : Trade :=
  { restingOrder side with
    status := .filled, filledPrice := some 10, filledAt := some filledAt }

/-- A buy and then a sell, each filled before the next call starts. -/
def oneAfterAnother : List FillAction :=
  [.tick 1, .start 0 "buy-1" 10 1000000000, .mark 0, .lock 0, .check 0 [], .commit 0,
    .tick 2, .start 1 "sell-1" 10 0, .mark 1, .lock 1, .check 1 [filledOrder .buy 1],
    .commit 1]

/-- The guarantee for that run: the sell is covered by the buy before it. -/
theorem sells_covered_one_after_another :
    ∃ s, quantityOf .sell (filledOf s.trades "AAPL") = 100 ∧ SellsCovered s "AAPL" := by
  have hexec : (((fills restingAccount restingOrders).execUnder StampedInOrder
      (fills restingAccount restingOrders).init oneAfterAnother).map fun s =>
        quantityOf .sell (filledOf s.trades "AAPL")) = some 100 := by decide +kernel
  rcases Option.map_eq_some_iff.mp hexec with ⟨s, hs, hsold⟩
  exact ⟨s, hsold, sells_covered restingAccount restingOrders_resting
    (Machine.reachableUnder_of_execUnder hs) "AAPL"⟩

/-- The first sell reads the clock before the buy does and is checked after the buy has
committed; folded in stamp order it then meets no shares, and the shares it has sold are
there for the second sell. -/
def stampedBeforeBuy : List FillAction :=
  [.tick 1, .start 0 "sell-1" 10 0, .tick 2, .start 1 "buy-1" 10 1000000000,
    .mark 1, .lock 1, .check 1 [], .commit 1,
    .mark 0, .lock 0, .check 0 [filledOrder .buy 2], .commit 0,
    .tick 3, .start 2 "sell-2" 10 0, .mark 2, .lock 2,
    .check 2 [filledOrder .sell 1, filledOrder .buy 2], .commit 2]

/-- After that run two hundred shares are sold and a hundred bought. -/
theorem sells_not_covered :
    ¬ ∀ s, (fills restingAccount restingOrders).Reachable s → SellsCovered s "AAPL" := by
  intro hall
  have hexec : (((fills restingAccount restingOrders).exec
      (fills restingAccount restingOrders).init stampedBeforeBuy).map fun s =>
        (quantityOf .sell (filledOf s.trades "AAPL"),
          quantityOf .buy (filledOf s.trades "AAPL"))) = some (200, 100) := by decide +kernel
  rcases Option.map_eq_some_iff.mp hexec with ⟨s, hs, hsold⟩
  simp only [Prod.mk.injEq] at hsold
  have hle := (hall s (Machine.reachable_of_exec hs)).sold_le
  rw [hsold.1, hsold.2] at hle
  norm_num at hle

end QuantumSentinel.Broker
