import Mathlib.Algebra.Order.BigOperators.Group.List
import QuantumSentinel.Broker.Ledger

/-!
# Paper broker: folding the filled trades

The holding of an asset is never stored: `held_quantity` and the positions rebuild
both fold the filled trades in `filled_at` order, and both cut a sell larger than the
holding down to it.  A fold that never cuts a sell ends at the bought quantity less the
sold quantity, whatever the order of trades with equal timestamps.

Main results:

- Theorem `foldHolding_eq_of_noClamp`: a fold without a cut sell counts every share.
- Theorem `noClamp_insert_buy` and `noClamp_insert_sell`: when one more trade
  leaves a fold without cut sells.
- Theorem `rebuildStep_quantity`: the rebuild counts shares as the holding does.
-/

namespace QuantumSentinel.Broker

open Lib

/-! ## The positions rebuild -/

/-- What the rebuild accumulates for one asset. -/
structure Book where
  quantity : ℚ
  cost : ℚ
  realized : ℚ
deriving DecidableEq, Repr

/-- A book without trades. -/
def Book.flat : Book where
  quantity := 0
  cost := 0
  realized := 0

/-- One trade of an asset in `rebuild_positions`. -/
def rebuildStep (book : Book) (trade : Trade) : Book :=
  let price := trade.filledPrice.getD 0
  match trade.side with
  | .buy =>
    { book with
      cost := book.cost + trade.quantity * price
      quantity := book.quantity + trade.quantity }
  | .sell =>
    let avgCost := if book.quantity = 0 then 0 else book.cost / book.quantity
    let sellQuantity := min trade.quantity book.quantity
    let left := book.quantity - sellQuantity
    { quantity := left
      cost := avgCost * max 0 left
      realized := book.realized + (price - avgCost) * sellQuantity }

/-- One row of the query in `rebuild_positions`. -/
def rebuildRow (books : Dict String Book) (trade : Trade) : Dict String Book :=
  books.set trade.asset (rebuildStep ((books.get? trade.asset).getD Book.flat) trade)

/-- The books `rebuild_positions` builds from the rows of its query. -/
def rebuildBooks (rows : List Trade) : Dict String Book :=
  rows.foldl rebuildRow Dict.empty

/-- The trades of one asset. -/
def ofAsset (asset : String) (rows : List Trade) : List Trade :=
  rows.filter fun t => t.asset = asset

/-- The rebuild handles every asset by itself. -/
theorem rebuildBooks_get? (rows : List Trade) (asset : String) :
    ((rebuildBooks rows).get? asset).getD Book.flat =
      (ofAsset asset rows).foldl rebuildStep Book.flat := by
  refine foldl_of_key (fun books asset => (Dict.get? books asset).getD Book.flat)
    Trade.asset (fun books trade => ?_) (fun books trade asset hne => ?_) rows _ asset
  · rw [rebuildRow, Dict.get?_set_self, Option.getD_some]
  · rw [rebuildRow, Dict.get?_set_ne _ _ hne]

/-- The rebuild counts shares as `held_quantity` does. -/
theorem rebuildStep_quantity {book : Book} (trade : Trade) :
    (rebuildStep book trade).quantity = foldHolding book.quantity trade := by
  unfold rebuildStep foldHolding
  cases trade.side with
  | buy => rfl
  | sell =>
    simp only
    rcases le_total trade.quantity book.quantity with hle | hle
    · rw [min_eq_left hle, max_eq_right (by linarith)]
    · rw [min_eq_right hle, max_eq_left (by linarith), sub_self]

/-- The quantity of a rebuilt book is the folded holding. -/
theorem foldl_rebuildStep_quantity (rows : List Trade) (book : Book) :
    (rows.foldl rebuildStep book).quantity = rows.foldl foldHolding book.quantity := by
  induction rows generalizing book with
  | nil => rfl
  | cons trade rest ih =>
    rw [List.foldl_cons, List.foldl_cons, ih, rebuildStep_quantity]

/-! ## Folds that cut no sell -/

/-- What a trade adds to the holding. -/
def signedQuantity (trade : Trade) : ℚ :=
  match trade.side with
  | .buy => trade.quantity
  | .sell => -trade.quantity

/-- No sell of the list exceeds the holding it meets. -/
def NoClamp : ℚ → List Trade → Prop
  | _, [] => True
  | held, trade :: rest =>
    (trade.side = .sell → trade.quantity ≤ held) ∧ NoClamp (foldHolding held trade) rest

/-- A trade that is not cut counts in full. -/
theorem foldHolding_eq {held : ℚ} {trade : Trade}
    (h : trade.side = .sell → trade.quantity ≤ held) :
    foldHolding held trade = held + signedQuantity trade := by
  unfold foldHolding signedQuantity
  cases hside : trade.side with
  | buy => rfl
  | sell =>
    have hle := h hside
    simp only
    rw [max_eq_right (by linarith)]
    ring

/-- A fold without a cut sell counts every share. -/
theorem foldHolding_eq_of_noClamp {held : ℚ} {rows : List Trade} (h : NoClamp held rows) :
    rows.foldl foldHolding held = held + (rows.map signedQuantity).sum := by
  induction rows generalizing held with
  | nil => simp
  | cons trade rest ih =>
    rcases h with ⟨hhead, hrest⟩
    rw [List.foldl_cons, ih hrest, foldHolding_eq hhead, List.map_cons, List.sum_cons]
    ring

theorem noClamp_append {held : ℚ} {l₁ l₂ : List Trade} :
    NoClamp held (l₁ ++ l₂) ↔ NoClamp held l₁ ∧ NoClamp (l₁.foldl foldHolding held) l₂ := by
  induction l₁ generalizing held with
  | nil => simp [NoClamp]
  | cons trade rest ih => simp only [List.cons_append, NoClamp, List.foldl_cons, ih, and_assoc]

theorem foldHolding_mono {held held' : ℚ} (trade : Trade) (h : held ≤ held') :
    foldHolding held trade ≤ foldHolding held' trade := by
  unfold foldHolding
  cases trade.side with
  | buy =>
    simp only
    linarith
  | sell => exact max_le_max le_rfl (by linarith)

/-- A larger holding cuts no more sells. -/
theorem noClamp_mono {held held' : ℚ} {rows : List Trade} (hle : held ≤ held')
    (h : NoClamp held rows) : NoClamp held' rows := by
  induction rows generalizing held held' with
  | nil => exact trivial
  | cons trade rest ih =>
    rcases h with ⟨hhead, hrest⟩
    refine ⟨?_, ih (foldHolding_mono trade hle) hrest⟩
    intro hsell
    have hold := hhead hsell
    linarith

/-- Sells alone are not cut when their total is covered. -/
theorem noClamp_of_sells {held : ℚ} {rows : List Trade}
    (hsells : ∀ t ∈ rows, t.side = .sell ∧ 0 ≤ t.quantity)
    (hcovered : 0 ≤ held + (rows.map signedQuantity).sum) : NoClamp held rows := by
  induction rows generalizing held with
  | nil => exact trivial
  | cons trade rest ih =>
    rcases hsells trade (List.mem_cons_self ..) with ⟨hside, hquantity⟩
    have hrest : ∀ t ∈ rest, t.side = .sell ∧ 0 ≤ t.quantity := fun t ht =>
      hsells t (List.mem_cons_of_mem trade ht)
    have hsum : (rest.map signedQuantity).sum ≤ 0 := by
      refine (List.sum_le_card_nsmul _ 0 ?_).trans_eq (nsmul_zero _)
      intro x hx
      rcases List.mem_map.mp hx with ⟨t, ht, rfl⟩
      rcases hrest t ht with ⟨hts, htq⟩
      simp only [signedQuantity, hts]
      linarith
    have hsigned : signedQuantity trade = -trade.quantity := by
      simp only [signedQuantity, hside]
    rw [List.map_cons, List.sum_cons, hsigned] at hcovered
    have hhead : trade.side = .sell → trade.quantity ≤ held := fun _ => by linarith
    refine ⟨hhead, ih hrest ?_⟩
    rw [foldHolding_eq hhead, hsigned]
    linarith

/-- One more buy, anywhere in the order, cuts no sell. -/
theorem noClamp_insert_buy {held : ℚ} {l₁ l₂ : List Trade} {trade : Trade}
    (hbuy : trade.side = .buy) (hquantity : 0 ≤ trade.quantity)
    (h : NoClamp held (l₁ ++ l₂)) : NoClamp held (l₁ ++ trade :: l₂) := by
  rcases noClamp_append.mp h with ⟨hbefore, hafter⟩
  refine noClamp_append.mpr ⟨hbefore, ?_, ?_⟩
  · intro hsell
    rw [hbuy] at hsell
    cases hsell
  · refine noClamp_mono ?_ hafter
    simp only [foldHolding, hbuy]
    linarith

/-- One more sell cuts nothing when only sells come after it and the whole list still
covers it. -/
theorem noClamp_insert_sell {l₁ l₂ : List Trade} {trade : Trade}
    (hsell : trade.side = .sell) (hquantity : 0 ≤ trade.quantity)
    (hlater : ∀ t ∈ l₂, t.side = .sell ∧ 0 ≤ t.quantity) (h : NoClamp 0 (l₁ ++ l₂))
    (hcovered : trade.quantity ≤ ((l₁ ++ l₂).map signedQuantity).sum) :
    NoClamp 0 (l₁ ++ trade :: l₂) := by
  rcases noClamp_append.mp h with ⟨hbefore, _⟩
  refine noClamp_append.mpr ⟨hbefore, noClamp_of_sells ?_ ?_⟩
  · intro t ht
    rcases List.mem_cons.mp ht with rfl | hmem
    · exact ⟨hsell, hquantity⟩
    · exact hlater t hmem
  · rw [foldHolding_eq_of_noClamp hbefore, List.map_cons, List.sum_cons]
    rw [List.map_append, List.sum_append] at hcovered
    have hsigned : signedQuantity trade = -trade.quantity := by
      simp only [signedQuantity, hsell]
    rw [hsigned]
    linarith

end QuantumSentinel.Broker
