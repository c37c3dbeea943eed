import QuantumSentinel.Broker.Ledger

/-!
# Paper broker: the price of a limit order

`simulate_fill` and `check_pending_limit_fill` fill a limit order that the market has
reached at the market price, and round that price to cents, or to six decimals below one.  The
rounding comes after the comparison with the limit, so it can carry the price over the limit.

Main results:

- Theorem `limitFills_agree`: both functions fill a limit order alike.
- Theorem `limit_kept_iff`: the limits and market prices for which no limit is violated.
-/

namespace QuantumSentinel.Broker

open Lib

/-- A price that reaches the limit is the better one. -/
theorem improvedPrice_eq {side : Side} {last limit : ℚ} (h : limitReached side last limit = true) :
    improvedPrice side last limit = last := by
  cases side with
  | buy => exact min_eq_left (by simpa [limitReached] using h)
  | sell => exact max_eq_left (by simpa [limitReached] using h)

/-- The price at which a limit order fills. -/
def limitFillPrice (last : ℚ) : ℚ :=
  roundDecimals last (if last < 1 then 6 else 2)

theorem checkPendingLimitFill_eq (side : Side) (limit last : ℚ) :
    checkPendingLimitFill side limit last =
      if limitReached side last limit then some (limitFillPrice last) else none := by
  unfold checkPendingLimitFill
  split
  · rename_i h
    rw [improvedPrice_eq h]
    rfl
  · rfl

theorem simulateFill_limit (side : Side) (limit last : ℚ) (stop : Option ℚ) :
    simulateFill side .limit (some limit) stop last =
      if limitReached side last limit then some (limitFillPrice last) else none := by
  simp only [simulateFill]
  split
  · rename_i h
    rw [improvedPrice_eq h]
    rfl
  · rfl

theorem simulateFill_stopLimit_eq (side : Side) (limit last : ℚ) (stop : Option ℚ) :
    simulateFill side .stopLimit (some limit) stop last =
      if stopReached side last stop then simulateFill side .limit (some limit) stop last
      else none :=
  rfl

/-- Immediate and resting execution agree. -/
theorem limitFills_agree (side : Side) (limit last : ℚ) (stop : Option ℚ) :
    simulateFill side .limit (some limit) stop last = checkPendingLimitFill side limit last := by
  rw [simulateFill_limit, checkPendingLimitFill_eq]

/-! ## Fills that keep the limit -/

/-- A fill price keeps a limit: it is positive, and no worse than the limit. -/
def KeepsLimit (side : Side) (limit price : ℚ) : Prop :=
  0 < price ∧
    match side with
    | .buy => price ≤ limit
    | .sell => limit ≤ price

/-- No fill violates the limit, and both functions fill a limit order alike. -/
structure LimitKept (side : Side) (limit last : ℚ) : Prop where
  immediate : ∀ stop price, simulateFill side .limit (some limit) stop last = some price →
    KeepsLimit side limit price
  triggered : ∀ stop price, simulateFill side .stopLimit (some limit) stop last = some price →
    KeepsLimit side limit price
  resting : ∀ price, checkPendingLimitFill side limit last = some price →
    KeepsLimit side limit price
  agree : ∀ stop, simulateFill side .limit (some limit) stop last =
    checkPendingLimitFill side limit last

/-- The market price in units of its last decimal place. -/
def placeUnits (last : ℚ) : ℚ :=
  last * 10 ^ if last < 1 then 6 else 2

/-- The limit in the same units. -/
def limitUnits (limit last : ℚ) : ℚ :=
  limit * 10 ^ if last < 1 then 6 else 2

/-- Rounding the market price does not carry it over the limit: when the limit is reached, the
price lies in the half of its place that is rounded away from the limit, or the limit lies beyond
that place; and a price a buy would pay is more than half a place. -/
def RoundsWithin (side : Side) (limit last : ℚ) : Prop :=
  match side with
  | .buy => last ≤ limit → 1 / 2 < placeUnits last ∧
      (RoundsDown (placeUnits last) ∨ (⌊placeUnits last⌋ : ℚ) + 1 ≤ limitUnits limit last)
  | .sell => limit ≤ last →
      ¬RoundsDown (placeUnits last) ∨ limitUnits limit last ≤ ⌊placeUnits last⌋

theorem limitFillPrice_eq (last : ℚ) :
    limitFillPrice last = roundHalfEven (placeUnits last) / 10 ^ if last < 1 then 6 else 2 :=
  rfl

theorem limitFillPrice_pos (last : ℚ) : 0 < limitFillPrice last ↔ 1 / 2 < placeUnits last := by
  have hscale : (0 : ℚ) < 10 ^ if last < 1 then 6 else 2 := by positivity
  rw [limitFillPrice_eq, div_pos_iff_of_pos_right hscale, Int.cast_pos, roundHalfEven_pos_iff]

theorem limitFillPrice_le {limit last : ℚ} (h : last ≤ limit) : limitFillPrice last ≤ limit ↔
    RoundsDown (placeUnits last) ∨ (⌊placeUnits last⌋ : ℚ) + 1 ≤ limitUnits limit last := by
  have hscale : (0 : ℚ) < 10 ^ if last < 1 then 6 else 2 := by positivity
  rw [limitFillPrice_eq, div_le_iff₀ hscale]
  exact roundHalfEven_le_iff (mul_le_mul_of_nonneg_right h hscale.le)

theorem le_limitFillPrice {limit last : ℚ} (h : limit ≤ last) : limit ≤ limitFillPrice last ↔
    ¬RoundsDown (placeUnits last) ∨ limitUnits limit last ≤ ⌊placeUnits last⌋ := by
  have hscale : (0 : ℚ) < 10 ^ if last < 1 then 6 else 2 := by positivity
  rw [limitFillPrice_eq, le_div_iff₀ hscale]
  exact le_roundHalfEven_iff (mul_le_mul_of_nonneg_right h hscale.le)

/-- A reached limit is kept exactly when the rounding does not cross it. -/
theorem keepsLimit_iff {side : Side} {limit last : ℚ} (hlimit : 0 < limit) :
    (limitReached side last limit = true → KeepsLimit side limit (limitFillPrice last)) ↔
      RoundsWithin side limit last := by
  cases side with
  | buy =>
    simp only [limitReached, decide_eq_true_eq, KeepsLimit, RoundsWithin]
    exact forall_congr' fun h => and_congr (limitFillPrice_pos last) (limitFillPrice_le h)
  | sell =>
    simp only [limitReached, decide_eq_true_eq, KeepsLimit, RoundsWithin]
    refine forall_congr' fun h => ?_
    rw [← le_limitFillPrice h]
    exact and_iff_right_of_imp hlimit.trans_le

/-- No limit is violated exactly when rounding the market price does not carry it over the
limit. -/
theorem limit_kept_iff (side : Side) {limit last : ℚ} (hlimit : 0 < limit) :
    LimitKept side limit last ↔ RoundsWithin side limit last := by
  rw [← keepsLimit_iff hlimit]
  constructor
  · intro h hreached
    refine h.resting _ ?_
    rw [checkPendingLimitFill_eq, if_pos hreached]
  · intro h
    have hfill : ∀ price, (if limitReached side last limit then some (limitFillPrice last)
        else none) = some price → KeepsLimit side limit price := by
      intro price hprice
      split at hprice
      · rename_i hreached
        cases hprice
        exact h hreached
      · cases hprice
    refine ⟨fun stop price hprice => hfill price ?_, fun stop price hprice => hfill price ?_,
      fun price hprice => hfill price ?_, limitFills_agree side limit last⟩
    · rwa [simulateFill_limit] at hprice
    · rw [simulateFill_stopLimit_eq, simulateFill_limit] at hprice
      split at hprice
      · exact hprice
      · cases hprice
    · rwa [checkPendingLimitFill_eq] at hprice

/-- A buy at 10.006 with a limit of 10.01. -/
theorem limit_kept_iff_cent : LimitKept .buy (1001 / 100) (10006 / 1000) := by
  refine (limit_kept_iff .buy (by norm_num)).mpr fun _ => ?_
  have hunits : placeUnits (10006 / 1000) = 5003 / 5 := by norm_num [placeUnits]
  have hfloor : ⌊(5003 / 5 : ℚ)⌋ = 1000 := by norm_num
  rw [hunits, hfloor]
  exact ⟨by norm_num, Or.inr (by norm_num [limitUnits])⟩

/-- A buy with a limit of 10.007 pays 10.01. -/
theorem paid_above_limit :
    checkPendingLimitFill .buy (10007 / 1000) (10006 / 1000) = some (1001 / 100) ∧
      simulateFill .buy .limit (some (10007 / 1000)) none (10006 / 1000) = some (1001 / 100) ∧
      ¬LimitKept .buy (10007 / 1000) (10006 / 1000) := by
  have hfill : checkPendingLimitFill .buy (10007 / 1000) (10006 / 1000) =
      some (1001 / 100) := by
    decide +kernel
  refine ⟨hfill, (limitFills_agree ..).trans hfill, fun h => ?_⟩
  have hkept := (h.resting _ hfill).2
  norm_num at hkept

end QuantumSentinel.Broker
