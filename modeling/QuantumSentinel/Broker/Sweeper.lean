import QuantumSentinel.Broker.LimitFills

/-!
# Paper broker: the sweeper of resting orders

`process_open_orders` loads the resting orders that a price can act on, fills those it makes
executable, and turns a triggered stop-limit order into a limit order.  Over a sequence of prices
the orders of an asset do what their types say: a limit fills at the first price that reaches it, a
stop at the first price that reaches its trigger, and a stop-limit at the first price that reaches
its limit, from the first one on that reaches its trigger.

Main results:

- Theorem `processOpenOrders_get?`: what one pass does to each row, when every fill is accepted.
- Theorem `actionable_eq`: the query loads exactly what the loop would act on.
- Theorem `sweeper_realises`: the sweeper realises the semantics of resting orders.

Current gaps:

- One sweeper only; several of them are tasks of the interleaved system.
-/

namespace QuantumSentinel.Broker

open Lib

/-! ## One pass -/

/-- The loop body of `process_open_orders` for one loaded order. -/
def sweepOne (last : ℚ) (now : Time) (ledger : Ledger) (item : OrderId × Trade) : Ledger :=
  let reserved := tradeReservationMicros item.2
  match sweepPrice item.2 last with
  | some price =>
    match fillOrder ledger item.1 item.2 price reserved now with
    | .filled filled => filled
    | .refused _ => (closeOrder ledger item.1 .rejected reserved).getD ledger
    | .notOpen => ledger
  | none => if sweepConverts item.2 last then convertAccepted ledger item.1 else ledger

/-- The query of `process_open_orders` for the orders of an asset. -/
def loadedOrders (ledger : Ledger) (asset : String) (last : ℚ) : List (OrderId × Trade) :=
  (ledger.trades.items.filter fun item =>
    decide (item.2.status = .accepted) && decide (item.2.asset = asset) &&
      actionable last item.2).insertionSort fun a b => a.2.submittedAt ≤ b.2.submittedAt

/-- The orders of one asset, at its price. -/
def sweepAsset (ledger : Ledger) (asset : String) (last : ℚ) (now : Time) : Ledger :=
  (loadedOrders ledger asset last).foldl (sweepOne last now) ledger

/-- What `get_last_price` gives for each asset, or nothing, and the time of a pass. -/
structure MarketTick where
  prices : String → Option ℚ
  now : Time

/-- The assets of the resting orders. -/
def restingAssets (ledger : Ledger) : List String :=
  ((ledger.trades.items.filter fun item => item.2.status = .accepted).map fun item =>
    item.2.asset).dedup

/-- An asset without a price is skipped. -/
def sweepPriced (tick : MarketTick) (ledger : Ledger) (asset : String) : Ledger :=
  match tick.prices asset with
  | none => ledger
  | some last => sweepAsset ledger asset last tick.now

/-- `process_open_orders`. -/
def processOpenOrders (ledger : Ledger) (tick : MarketTick) : Ledger :=
  (restingAssets ledger).foldl (sweepPriced tick) ledger

/-! ## Passes in which every fill is accepted -/

/-- Whether `fill_order` fills the order, if the loop body calls it. -/
def fillAccepted (last : ℚ) (now : Time) (ledger : Ledger) (item : OrderId × Trade) : Bool :=
  match sweepPrice item.2 last with
  | none => true
  | some price =>
    match fillOrder ledger item.1 item.2 price (tradeReservationMicros item.2) now with
    | .filled _ => true
    | _ => false

/-- Every fill of the loop over loaded orders is accepted. -/
def ordersAccepted (last : ℚ) (now : Time) : Ledger → List (OrderId × Trade) → Bool
  | _, [] => true
  | ledger, item :: rest =>
    fillAccepted last now ledger item && ordersAccepted last now (sweepOne last now ledger item) rest

/-- Every fill of the loop over assets is accepted. -/
def assetsAccepted (tick : MarketTick) : Ledger → List String → Bool
  | _, [] => true
  | ledger, asset :: rest =>
    (tick.prices asset).all (fun last =>
      ordersAccepted last tick.now ledger (loadedOrders ledger asset last)) &&
    assetsAccepted tick (sweepPriced tick ledger asset) rest

/-- Every fill of a sequence of passes is accepted. -/
def ticksAccepted : Ledger → List MarketTick → Bool
  | _, [] => true
  | ledger, tick :: rest =>
    assetsAccepted tick ledger (restingAssets ledger) &&
      ticksAccepted (processOpenOrders ledger tick) rest

/-! ## What a pass does to a row -/

/-- A row after its fill. -/
def Trade.filledWith (t : Trade) (price : ℚ) (now : Time) : Trade :=
  { t with status := .filled, filledPrice := some price, filledAt := some now }

/-- What the loop body makes of a loaded row. -/
def actedRow (last : ℚ) (now : Time) (t : Trade) : Trade :=
  match sweepPrice t last with
  | some price => t.filledWith price now
  | none => if sweepConverts t last then { t with orderType := .limit } else t

/-- What a pass at a price makes of a row of the asset. -/
def sweptRow (last : ℚ) (now : Time) (t : Trade) : Trade :=
  if t.status = .accepted ∧ actionable last t = true then actedRow last now t else t

theorem actedRow_asset (last : ℚ) (now : Time) (t : Trade) :
    (actedRow last now t).asset = t.asset := by
  unfold actedRow
  split
  · rfl
  · split <;> rfl

theorem sweptRow_asset (last : ℚ) (now : Time) (t : Trade) :
    (sweptRow last now t).asset = t.asset := by
  unfold sweptRow
  split
  · exact actedRow_asset ..
  · rfl

section Pass

variable {ledger ledger' : Ledger} {id : OrderId} {t : Trade} {last : ℚ} {now : Time}

/-- An accepted fill writes the row. -/
theorem fillOrder_trades {price : ℚ} {reserved : ℤ}
    (h : fillOrder ledger id t price reserved now = .filled ledger') :
    ledger'.trades = ledger.trades.updateWhere id isOpen fun row => row.filledWith price now := by
  simp only [fillOrder] at h
  split at h
  · split at h
    · split at h
      · cases h
        rfl
      · cases h
    · split at h
      · cases h
      · cases h
        rfl
  · cases h

/-- The loop body changes the row it has loaded, and no other. -/
theorem sweepOne_get? (haccepted : fillAccepted last now ledger (id, t) = true)
    (hrow : ledger.trades.get? id = some t) (hstatus : t.status = .accepted) (k : OrderId) :
    (sweepOne last now ledger (id, t)).trades.get? k =
      if k = id then some (actedRow last now t) else ledger.trades.get? k := by
  have hopen : isOpen t = true := by simp [isOpen, hstatus, TradeStatus.isOpen]
  unfold fillAccepted at haccepted
  simp only [sweepOne, actedRow]
  cases hprice : sweepPrice t last with
  | some price =>
    simp only [hprice] at haccepted ⊢
    cases hfill : fillOrder ledger id t price (tradeReservationMicros t) now with
    | notOpen =>
      rw [hfill] at haccepted
      cases haccepted
    | refused why =>
      rw [hfill] at haccepted
      cases haccepted
    | filled ledger' =>
      rw [fillOrder_trades hfill, Dict.get?_updateWhere, hrow, Option.map_some, hopen]
      rfl
  | none =>
    simp only
    split
    · have hguard : decide (t.status = .accepted) = true := decide_eq_true hstatus
      rw [convertAccepted, Dict.get?_updateWhere, hrow, Option.map_some, if_pos hguard]
    · split
      · rename_i heq
        rw [heq, hrow]
      · rfl

/-- The loop over loaded orders. -/
theorem sweepOrders_get? {items : List (OrderId × Trade)}
    (haccepted : ordersAccepted last now ledger items = true)
    (hkeys : (items.map Prod.fst).Nodup)
    (hrows : ∀ item ∈ items, ledger.trades.get? item.1 = some item.2 ∧ item.2.status = .accepted)
    (k : OrderId) :
    (items.foldl (sweepOne last now) ledger).trades.get? k =
      if k ∈ items.map Prod.fst then (ledger.trades.get? k).map (actedRow last now)
      else ledger.trades.get? k := by
  induction items generalizing ledger with
  | nil => rfl
  | cons item rest ih =>
    rw [ordersAccepted, Bool.and_eq_true] at haccepted
    rw [List.map_cons, List.nodup_cons] at hkeys
    obtain ⟨hrow, hstatus⟩ := hrows item (List.mem_cons_self ..)
    have hone := sweepOne_get? haccepted.1 hrow hstatus
    rw [List.foldl_cons, ih haccepted.2 hkeys.2 fun item' hitem' => ?_]
    · by_cases hk : k = item.1
      · have hnot : k ∉ rest.map Prod.fst := hk ▸ hkeys.1
        rw [if_neg hnot, hone, if_pos hk, if_pos (by simp [hk]), hk, hrow, Option.map_some]
      · rw [hone, if_neg hk]
        simp only [List.map_cons, List.mem_cons, hk, false_or]
    · have hne : item'.1 ≠ item.1 := fun heq =>
        hkeys.1 (heq ▸ List.mem_map_of_mem hitem')
      obtain ⟨hrow', hstatus'⟩ := hrows item' (List.mem_cons_of_mem item hitem')
      rw [hone, if_neg hne]
      exact ⟨hrow', hstatus'⟩

theorem mem_loadedOrders {asset : String} {item : OrderId × Trade} :
    item ∈ loadedOrders ledger asset last ↔ ledger.trades.get? item.1 = some item.2 ∧
      item.2.status = .accepted ∧ item.2.asset = asset ∧ actionable last item.2 = true := by
  rw [loadedOrders, List.mem_insertionSort, List.mem_filter, Dict.get?_eq_some_iff]
  simp only [Bool.and_eq_true, decide_eq_true_eq, and_assoc]

/-- A pass over one asset. -/
theorem sweepAsset_get? {asset : String}
    (haccepted : ordersAccepted last now ledger (loadedOrders ledger asset last) = true)
    (k : OrderId) :
    (sweepAsset ledger asset last now).trades.get? k = (ledger.trades.get? k).map fun t =>
      if t.asset = asset then sweptRow last now t else t := by
  have hkeys : ((loadedOrders ledger asset last).map Prod.fst).Nodup := by
    have hperm := (List.perm_insertionSort (fun a b : OrderId × Trade =>
      a.2.submittedAt ≤ b.2.submittedAt) (ledger.trades.items.filter fun item =>
        decide (item.2.status = .accepted) && decide (item.2.asset = asset) &&
          actionable last item.2)).map Prod.fst
    exact hperm.nodup_iff.mpr ((List.filter_sublist.map Prod.fst).nodup ledger.trades.nodup)
  rw [sweepAsset, sweepOrders_get? haccepted hkeys fun item hitem => ?_]
  · cases hrow : ledger.trades.get? k with
    | none => simp
    | some t =>
      have hmem : k ∈ (loadedOrders ledger asset last).map Prod.fst ↔
          t.status = .accepted ∧ t.asset = asset ∧ actionable last t = true := by
        constructor
        · intro hk
          obtain ⟨item, hitem, rfl⟩ := List.mem_map.mp hk
          obtain ⟨hget, hstatus⟩ := mem_loadedOrders.mp hitem
          rw [hrow, Option.some.injEq] at hget
          rw [hget]
          exact hstatus
        · intro h
          exact List.mem_map.mpr ⟨(k, t), mem_loadedOrders.mpr ⟨hrow, h⟩, rfl⟩
      rw [Option.map_some, Option.map_some]
      by_cases hasset : t.asset = asset
      · by_cases hloaded : t.status = .accepted ∧ actionable last t = true
        · rw [if_pos (hmem.mpr ⟨hloaded.1, hasset, hloaded.2⟩), if_pos hasset, sweptRow,
            if_pos hloaded]
        · rw [if_neg fun hk => hloaded ⟨(hmem.mp hk).1, (hmem.mp hk).2.2⟩, if_pos hasset, sweptRow,
            if_neg hloaded]
      · rw [if_neg fun hk => hasset (hmem.mp hk).2.1, if_neg hasset]
  · obtain ⟨hget, hstatus, -⟩ := mem_loadedOrders.mp hitem
    exact ⟨hget, hstatus⟩

/-- What a tick makes of a row, if its asset is swept. -/
def tickRow (tick : MarketTick) (t : Trade) : Trade :=
  (tick.prices t.asset).elim t fun last => sweptRow last tick.now t

theorem tickRow_asset (tick : MarketTick) (t : Trade) : (tickRow tick t).asset = t.asset := by
  unfold tickRow
  cases tick.prices t.asset with
  | none => rfl
  | some last => exact sweptRow_asset ..

theorem sweepPriced_get? {tick : MarketTick} {asset : String}
    (haccepted : (tick.prices asset).all (fun last =>
      ordersAccepted last tick.now ledger (loadedOrders ledger asset last)) = true)
    (k : OrderId) :
    (sweepPriced tick ledger asset).trades.get? k = (ledger.trades.get? k).map fun t =>
      if t.asset = asset then tickRow tick t else t := by
  unfold sweepPriced
  cases hprice : tick.prices asset with
  | none =>
    simp only
    refine Option.map_id'.symm.trans (Option.map_congr fun t ht => ?_)
    split
    · rename_i hasset
      rw [tickRow, hasset, hprice]
      rfl
    · rfl
  | some last =>
    rw [hprice] at haccepted
    simp only
    rw [sweepAsset_get? haccepted k]
    refine Option.map_congr fun t ht => ?_
    split
    · rename_i hasset
      rw [tickRow, hasset, hprice]
      rfl
    · rfl

/-- The loop over assets. -/
theorem sweepAssets_get? {tick : MarketTick} {assets : List String} (hnodup : assets.Nodup)
    (haccepted : assetsAccepted tick ledger assets = true) (k : OrderId) :
    (assets.foldl (sweepPriced tick) ledger).trades.get? k = (ledger.trades.get? k).map fun t =>
      if t.asset ∈ assets then tickRow tick t else t := by
  induction assets generalizing ledger with
  | nil => simp
  | cons asset rest ih =>
    obtain ⟨hnot, hrest⟩ := List.nodup_cons.mp hnodup
    rw [assetsAccepted, Bool.and_eq_true] at haccepted
    rw [List.foldl_cons, ih hrest haccepted.2, sweepPriced_get? haccepted.1, Option.map_map]
    refine Option.map_congr fun t ht => ?_
    by_cases hasset : t.asset = asset
    · have hout : t.asset ∉ rest := hasset ▸ hnot
      simp only [Function.comp_apply, if_pos hasset, tickRow_asset, if_neg hout]
      rw [if_pos (by simp [hasset])]
    · simp [hasset]

/-- A pass of the sweeper acts on every row by itself. -/
theorem processOpenOrders_get? {tick : MarketTick}
    (haccepted : assetsAccepted tick ledger (restingAssets ledger) = true) (k : OrderId) :
    (processOpenOrders ledger tick).trades.get? k =
      (ledger.trades.get? k).map (tickRow tick) := by
  have hnodup : (restingAssets ledger).Nodup := List.nodup_dedup _
  rw [processOpenOrders, sweepAssets_get? hnodup haccepted k]
  refine Option.map_congr fun t ht => ?_
  split
  · rfl
  · rename_i hout
    -- no order of the asset rests
    have hnot : t.status ≠ .accepted := fun hstatus => hout (List.mem_dedup.mpr
      (List.mem_map.mpr ⟨(k, t), List.mem_filter.mpr
        ⟨Dict.get?_eq_some_iff.mp ht, by simpa using hstatus⟩, rfl⟩))
    unfold tickRow sweptRow
    cases tick.prices t.asset with
    | none => rfl
    | some last => exact (if_neg fun h => hnot h.1).symm

end Pass

/-! ## The query -/

/-- Whether the loop body fills or converts an order at a price. -/
def acts (last : ℚ) (t : Trade) : Bool :=
  (sweepPrice t last).isSome || sweepConverts t last

theorem stopReached_eq (side : Side) (last : ℚ) {stop : ℚ} (hstop : 0 < stop) :
    stopReached side last (some stop) = stopTriggered side stop last := by
  cases side with
  | buy => simp [stopReached, stopTriggered, hstop.ne']
  | sell => rfl

theorem simulateFill_stop (side : Side) (limit : Option ℚ) (last : ℚ) {stop : ℚ}
    (hstop : 0 < stop) : simulateFill side .stop limit (some stop) last =
      if stopTriggered side stop last then some last else none := by
  simp only [simulateFill, stopReached_eq side last hstop]

theorem simulateFill_stopLimit (side : Side) (limit last : ℚ) {stop : ℚ} (hstop : 0 < stop) :
    simulateFill side .stopLimit (some limit) (some stop) last =
      if stopTriggered side stop last then
        if limitReached side last limit then some (limitFillPrice last) else none
      else none := by
  rw [simulateFill_stopLimit_eq, simulateFill_limit, stopReached_eq side last hstop]

/-- The query loads exactly the orders that the loop would act on. -/
theorem actionable_eq {t : Trade} (hstop : ∀ p ∈ t.stopPrice, 0 < p) (last : ℚ) :
    actionable last t = acts last t := by
  unfold actionable acts sweepConverts sweepPrice
  cases htype : t.orderType with
  | market => simp
  | limit =>
    cases hlimit : t.limitPrice with
    | none => simp
    | some limit =>
      simp only [checkPendingLimitFill_eq]
      cases limitReached t.side last limit <;> simp
  | stop =>
    cases hprice : t.stopPrice with
    | none => simp
    | some stop =>
      simp only [simulateFill_stop t.side _ last (hstop stop hprice)]
      cases stopTriggered t.side stop last <;> simp
  | stopLimit =>
    cases hprice : t.stopPrice with
    | none => simp
    | some stop =>
      cases hlimit : t.limitPrice with
      | none =>
        simp only [simulateFill, stopReached_eq t.side last (hstop stop hprice)]
        cases stopTriggered t.side stop last <;> simp
      | some limit =>
        simp only [simulateFill_stopLimit t.side limit last (hstop stop hprice)]
        cases stopTriggered t.side stop last <;> simp

/-! ## The semantics of resting orders -/

/-- A limit order fills at the first price that is at or better than its limit. -/
def limitOutcome (t : Trade) (limit : ℚ) (observed : List (ℚ × Time)) : Trade :=
  match observed.find? fun o => limitReached t.side o.1 limit with
  | none => t
  | some o => t.filledWith (limitFillPrice o.1) o.2

/-- A stop order fills at the first price that reaches its trigger. -/
def stopOutcome (t : Trade) (stop : ℚ) (observed : List (ℚ × Time)) : Trade :=
  match observed.find? fun o => stopTriggered t.side stop o.1 with
  | none => t
  | some o => t.filledWith o.1 o.2

/-- A stop-limit order waits for the first price that reaches its trigger, and is a limit order from
that price on. -/
def stopLimitOutcome (t : Trade) (stop limit : ℚ) (observed : List (ℚ × Time)) : Trade :=
  match observed.dropWhile fun o => !stopTriggered t.side stop o.1 with
  | [] => t
  | o :: later =>
    if limitReached t.side o.1 limit then t.filledWith (limitFillPrice o.1) o.2
    else limitOutcome { t with orderType := .limit } limit later

/-- What becomes of a resting order. -/
def outcome (t : Trade) (observed : List (ℚ × Time)) : Trade :=
  match t.orderType, t.limitPrice, t.stopPrice with
  | .limit, some limit, _ => limitOutcome t limit observed
  | .stop, _, some stop => stopOutcome t stop observed
  | .stopLimit, some limit, some stop => stopLimitOutcome t stop limit observed
  | _, _, _ => t

/-- A resting order has the positive prices that its type needs. -/
structure RestingOrder (t : Trade) : Prop where
  accepted : t.status = .accepted
  limit : t.orderType = .limit ∨ t.orderType = .stopLimit → ∃ p, t.limitPrice = some p
  stop : t.orderType = .stop ∨ t.orderType = .stopLimit → ∃ p, t.stopPrice = some p
  notMarket : t.orderType ≠ .market
  limit_pos : ∀ p ∈ t.limitPrice, 0 < p
  stop_pos : ∀ p ∈ t.stopPrice, 0 < p

/-- What a sequence of prices makes of a row. -/
def sweptRows (observed : List (ℚ × Time)) (t : Trade) : Trade :=
  observed.foldl (fun t o => sweptRow o.1 o.2 t) t

/-- An order that does not rest stays as it is. -/
theorem sweptRows_of_not_accepted {t : Trade} (h : t.status ≠ .accepted)
    (observed : List (ℚ × Time)) : sweptRows observed t = t := by
  induction observed with
  | nil => rfl
  | cons o rest ih =>
    have hone : sweptRow o.1 o.2 t = t := if_neg fun hrests => h hrests.1
    rw [sweptRows, List.foldl_cons, hone]
    exact ih

theorem sweptRow_of_not_acts {t : Trade} (hstop : ∀ p ∈ t.stopPrice, 0 < p) {last : ℚ}
    (h : acts last t = false) (now : Time) : sweptRow last now t = t := by
  refine if_neg fun hrests => ?_
  rw [actionable_eq hstop, h] at hrests
  exact Bool.false_ne_true hrests.2

theorem sweptRow_of_acts {t : Trade} (hstop : ∀ p ∈ t.stopPrice, 0 < p)
    (haccepted : t.status = .accepted) {last : ℚ} (h : acts last t = true) (now : Time) :
    sweptRow last now t = actedRow last now t :=
  if_pos ⟨haccepted, (actionable_eq hstop last).trans h⟩

/-- An order that no price converts fills at the first price that makes it executable. -/
theorem sweptRows_of_sweepPrice {t : Trade} (haccepted : t.status = .accepted)
    (hstop : ∀ p ∈ t.stopPrice, 0 < p) (reached : ℚ → Bool) (fillPrice : ℚ → ℚ)
    (hprice : ∀ last, sweepPrice t last = if reached last then some (fillPrice last) else none)
    (hconverts : ∀ last, sweepConverts t last = false) (observed : List (ℚ × Time)) :
    sweptRows observed t = match observed.find? fun o => reached o.1 with
      | none => t
      | some o => t.filledWith (fillPrice o.1) o.2 := by
  induction observed with
  | nil => rfl
  | cons o rest ih =>
    rw [sweptRows, List.foldl_cons, List.find?_cons]
    cases hreached : reached o.1 with
    | true =>
      have hfill : sweepPrice t o.1 = some (fillPrice o.1) := (hprice o.1).trans (if_pos hreached)
      rw [sweptRow_of_acts hstop haccepted (by simp [acts, hfill]), actedRow, hfill]
      exact sweptRows_of_not_accepted (fun h => by cases h) rest
    | false =>
      have hacts : acts o.1 t = false := by simp [acts, hprice, hconverts, hreached]
      rw [sweptRow_of_not_acts hstop hacts]
      exact ih

/-- A limit order fills at the first price that reaches it. -/
theorem sweptRows_limit {t : Trade} (haccepted : t.status = .accepted)
    (htype : t.orderType = .limit) {limit : ℚ} (hlimit : t.limitPrice = some limit)
    (hstop : ∀ p ∈ t.stopPrice, 0 < p) (observed : List (ℚ × Time)) :
    sweptRows observed t = limitOutcome t limit observed := by
  refine sweptRows_of_sweepPrice haccepted hstop (fun last => limitReached t.side last limit)
    limitFillPrice (fun last => ?_) (fun last => ?_) observed
  · simp only [sweepPrice, htype, hlimit, checkPendingLimitFill_eq]
  · simp only [sweepConverts, htype]

/-- A stop order fills at the first price that reaches its trigger. -/
theorem sweptRows_stop {t : Trade} (haccepted : t.status = .accepted)
    (htype : t.orderType = .stop) {stop : ℚ} (hprice : t.stopPrice = some stop)
    (hstop : ∀ p ∈ t.stopPrice, 0 < p) (observed : List (ℚ × Time)) :
    sweptRows observed t = stopOutcome t stop observed := by
  refine sweptRows_of_sweepPrice haccepted hstop (fun last => stopTriggered t.side stop last)
    (fun last => last) (fun last => ?_) (fun last => ?_) observed
  · simp only [sweepPrice, htype, hprice, simulateFill_stop t.side _ last (hstop stop hprice)]
  · simp only [sweepConverts, htype]

/-- A stop-limit order waits for its trigger. -/
theorem sweptRows_stopLimit {t : Trade} (haccepted : t.status = .accepted)
    (htype : t.orderType = .stopLimit) {stop limit : ℚ} (hprice : t.stopPrice = some stop)
    (hlimit : t.limitPrice = some limit) (hstop : ∀ p ∈ t.stopPrice, 0 < p)
    (observed : List (ℚ × Time)) :
    sweptRows observed t = stopLimitOutcome t stop limit observed := by
  induction observed with
  | nil => rfl
  | cons o rest ih =>
    have hfill : sweepPrice t o.1 =
        if stopTriggered t.side stop o.1 then
          if limitReached t.side o.1 limit then some (limitFillPrice o.1) else none
        else none := by
      simp only [sweepPrice, htype, hprice, hlimit,
        simulateFill_stopLimit t.side limit o.1 (hstop stop hprice)]
    rw [sweptRows, List.foldl_cons]
    by_cases htriggered : stopTriggered t.side stop o.1 = true
    · have hdrop : (o :: rest).dropWhile (fun o => !stopTriggered t.side stop o.1) =
          o :: rest := by
        rw [List.dropWhile_cons_of_neg (by simp [htriggered])]
      rw [if_pos htriggered] at hfill
      by_cases hreached : limitReached t.side o.1 limit = true
      · -- executable at its trigger
        rw [if_pos hreached] at hfill
        have hacts : acts o.1 t = true := by simp [acts, hfill]
        rw [sweptRow_of_acts hstop haccepted hacts, actedRow, hfill, stopLimitOutcome, hdrop]
        simp only [if_pos hreached]
        exact sweptRows_of_not_accepted (fun h => by cases h) rest
      · -- a limit order from now on
        rw [if_neg hreached] at hfill
        have hconverts : sweepConverts t o.1 = true := by
          simp [sweepConverts, htype, hprice, hfill, htriggered]
        have hacts : acts o.1 t = true := by simp [acts, hconverts]
        rw [sweptRow_of_acts hstop haccepted hacts, actedRow, hfill, stopLimitOutcome, hdrop]
        simp only [if_pos hconverts, if_neg hreached]
        exact sweptRows_limit (t := { t with orderType := .limit }) haccepted rfl hlimit hstop rest
    · have hdrop : (o :: rest).dropWhile (fun o => !stopTriggered t.side stop o.1) =
          rest.dropWhile (fun o => !stopTriggered t.side stop o.1) := by
        rw [List.dropWhile_cons_of_pos (by simp [htriggered])]
      rw [if_neg htriggered] at hfill
      have hconverts : sweepConverts t o.1 = false := by
        simp [sweepConverts, htype, hprice, htriggered]
      have hacts : acts o.1 t = false := by simp [acts, hfill, hconverts]
      rw [sweptRow_of_not_acts hstop hacts, stopLimitOutcome, hdrop]
      exact ih

theorem RestingOrder.sweptRows_eq {t : Trade} (h : RestingOrder t) (observed : List (ℚ × Time)) :
    sweptRows observed t = outcome t observed := by
  cases htype : t.orderType with
  | market => exact absurd htype h.notMarket
  | limit =>
    obtain ⟨limit, hlimit⟩ := h.limit (Or.inl htype)
    rw [sweptRows_limit h.accepted htype hlimit h.stop_pos]
    simp only [outcome, htype, hlimit]
  | stop =>
    obtain ⟨stop, hstop⟩ := h.stop (Or.inl htype)
    rw [sweptRows_stop h.accepted htype hstop h.stop_pos]
    simp only [outcome, htype, hstop]
  | stopLimit =>
    obtain ⟨limit, hlimit⟩ := h.limit (Or.inr htype)
    obtain ⟨stop, hstop⟩ := h.stop (Or.inr htype)
    rw [sweptRows_stopLimit h.accepted htype hstop hlimit h.stop_pos]
    simp only [outcome, htype, hlimit, hstop]

/-! ## The sweeper over a sequence of prices -/

/-- The prices of an asset that passes observe. -/
def observedPrices (asset : String) (ticks : List MarketTick) : List (ℚ × Time) :=
  ticks.filterMap fun tick => (tick.prices asset).map fun last => (last, tick.now)

/-- Every row sees the prices of its asset. -/
theorem sweeps_get? {ledger : Ledger} {ticks : List MarketTick}
    (haccepted : ticksAccepted ledger ticks = true) (k : OrderId) :
    (ticks.foldl processOpenOrders ledger).trades.get? k =
      (ledger.trades.get? k).map fun t => sweptRows (observedPrices t.asset ticks) t := by
  induction ticks generalizing ledger with
  | nil => exact Option.map_id'.symm
  | cons tick rest ih =>
    rw [ticksAccepted, Bool.and_eq_true] at haccepted
    rw [List.foldl_cons, ih haccepted.2, processOpenOrders_get? haccepted.1, Option.map_map]
    refine Option.map_congr fun t _ => ?_
    rw [Function.comp_apply, tickRow_asset, observedPrices, observedPrices, List.filterMap_cons,
      tickRow]
    cases tick.prices t.asset <;> rfl

/-- The sweeper realises the semantics of resting orders: the query selects exactly the orders on
which the loop would act, and over a sequence of passes each order does what its type says. -/
theorem sweeper_realises {ledger : Ledger} {ticks : List MarketTick}
    (haccepted : ticksAccepted ledger ticks = true) {id : OrderId} {t : Trade}
    (hrow : ledger.trades.get? id = some t) (hresting : RestingOrder t) :
    (∀ t' : Trade, (∀ p ∈ t'.stopPrice, 0 < p) → ∀ last, actionable last t' = acts last t') ∧
      (ticks.foldl processOpenOrders ledger).trades.get? id =
        some (outcome t (observedPrices t.asset ticks)) := by
  refine ⟨fun t' hstop last => actionable_eq hstop last, ?_⟩
  rw [sweeps_get? haccepted, hrow, Option.map_some, hresting.sweptRows_eq]

/-- A resting stop-limit buy. -/
def waiting : Trade where
  asset := "AAPL"
  side := .buy
  quantity := 10
  orderType := .stopLimit
  limitPrice := some 104
  stopPrice := some 105
  timeInForce := .gtc
  status := .accepted
  filledPrice := none
  submittedAt := 0
  filledAt := none

/-- The account with the cash for it. -/
def waitingLedger : Ledger where
  account := ⟨100000000000, 1040000000⟩
  trades := Dict.empty.set "t1" waiting

/-- The price of every asset at a time. -/
def priceAt (last : ℚ) (now : Time) : MarketTick where
  prices := fun _ => some last
  now := now

/-- The price crosses the trigger, comes back below it, and fills the order at its limit. -/
theorem sweeper_realises_waiting :
    outcome waiting (observedPrices "AAPL" [priceAt 103 1, priceAt 106 2, priceAt 104 3]) =
        ({ waiting with orderType := .limit } : Trade).filledWith 104 3 ∧
      (([priceAt 103 1, priceAt 106 2, priceAt 104 3].foldl processOpenOrders
        waitingLedger).trades.get? "t1") =
        some (outcome waiting
          (observedPrices "AAPL" [priceAt 103 1, priceAt 106 2, priceAt 104 3])) := by
  refine ⟨by decide +kernel, (sweeper_realises (by decide +kernel) rfl ?_).2⟩
  exact
    { accepted := rfl
      limit := fun _ => ⟨104, rfl⟩
      stop := fun _ => ⟨105, rfl⟩
      notMarket := by decide
      limit_pos := by decide +kernel
      stop_pos := by decide +kernel }

end QuantumSentinel.Broker
