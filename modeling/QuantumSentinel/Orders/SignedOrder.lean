import QuantumSentinel.Lib.ShortDecimal
import QuantumSentinel.Orders.Idempotency

/-!
# Orders: the text that is signed

The canonical text of an order is JSON, with its numbers as decimal texts of their own.  Those
are stripped of trailing zeros, whole numbers from `1e16` on too, so two prices can have one
text.

Main results:

- Definition `Order.canonical`: the text of `canonical_order`.
- Theorem `canonical_eq_iff`: orders have one text when they differ in confused prices only.
- Theorem `canonical_identifies_iff`: when the text tells an order from another.

Current gaps:

- Texts are upper-cased as ASCII, which the normalised fields are.
-/

namespace QuantumSentinel.Orders

open Lib

/-! ## Orders -/

/-- `side` -/
inductive Side
  | buy
  | sell
deriving DecidableEq, Repr

/-- The name of a side. -/
def Side.text : Side → String
  | .buy => "buy"
  | .sell => "sell"

/-- `order_type` -/
inductive OrderType
  | market
  | limit
  | stop
  | stopLimit
deriving DecidableEq, Repr

/-- The name of a type. -/
def OrderType.text : OrderType → String
  | .market => "market"
  | .limit => "limit"
  | .stop => "stop"
  | .stopLimit => "stop_limit"

/-- `time_in_force` -/
inductive TimeInForce
  | day
  | gtc
  | ioc
deriving DecidableEq, Repr

/-- The name of a time in force. -/
def TimeInForce.text : TimeInForce → String
  | .day => "day"
  | .gtc => "gtc"
  | .ioc => "ioc"

/-- A character of a normalised asset: `[A-Z0-9.\-]`. -/
def isAssetChar (c : Char) : Bool :=
  c.isUpper || c.isDigit || c = '.' || c = '-'

/-- A symbol as `normalized_asset` leaves it. -/
structure Asset where
  text : String
  normalised : text.toList.all isAssetChar = true ∧ 1 ≤ text.length ∧ text.length ≤ 20

theorem Asset.ext_text {a b : Asset} (h : a.text = b.text) : a = b := by
  cases a
  cases b
  cases h
  rfl

/-- The fields of an order that are signed. -/
structure Order where
  orderId : String
  userId : String
  asset : Asset
  side : Side
  quantity : ShortFloat
  orderType : OrderType
  limitPrice : Option ShortFloat
  stopPrice : Option ShortFloat
  timeInForce : TimeInForce
  timestamp : ℤ
  expiresAt : ℤ
  nonce : String

/-! ## The text -/

/-- `str.upper` of an ASCII text. -/
def upper (text : String) : String :=
  String.ofList (text.toList.map Char.toUpper)

/-- `_decimal` of a number that is there. -/
def decimalText (value : ShortFloat) : String :=
  if value.strippedText = [] then "0" else String.ofList value.strippedText

/-- `_decimal` in JSON. -/
def decimalJson : Option ShortFloat → Json
  | none => .null
  | some value => .str (decimalText value)

/-- The object `canonical_order` writes. -/
def Order.signedFields (o : Order) : List (String × Json) :=
  [("protocol", .str "QS-ORDER-V1"), ("order_id", .str o.orderId), ("user_id", .str o.userId),
    ("asset", .str (upper o.asset.text)), ("side", .str (upper o.side.text)),
    ("quantity", decimalJson (some o.quantity)), ("order_type", .str (upper o.orderType.text)),
    ("limit_price", decimalJson o.limitPrice), ("stop_price", decimalJson o.stopPrice),
    ("time_in_force", .str (upper o.timeInForce.text)), ("timestamp", .int o.timestamp),
    ("expires_at", .int o.expiresAt), ("nonce", .str o.nonce)]

/-- `canonical_order` -/
def Order.canonical (o : Order) : String :=
  String.ofList (Json.dumps orderStyle (.obj o.signedFields))

/-! ## Orders with one text -/

/-- Prices with one text: both missing, equal, or confused. -/
inductive PriceAlike : Option ShortFloat → Option ShortFloat → Prop
  | same (price : Option ShortFloat) : PriceAlike price price
  | confused {x y : ShortFloat} (h : x.Confused y) : PriceAlike (some x) (some y)

/-- Orders that agree but for their prices, and whose prices have one text. -/
structure Order.Alike (o o' : Order) : Prop where
  rest : o' = { o with limitPrice := o'.limitPrice, stopPrice := o'.stopPrice }
  limitPrice : PriceAlike o.limitPrice o'.limitPrice
  stopPrice : PriceAlike o.stopPrice o'.stopPrice

/-- `_decimal` tells numbers up to confusion. -/
theorem decimalText_eq_iff {x y : ShortFloat} :
    decimalText x = decimalText y ↔ x = y ∨ x.Confused y := by
  rw [decimalText, decimalText, if_neg x.strippedText_ne_nil, if_neg y.strippedText_ne_nil,
    String.ofList_inj]
  exact ShortFloat.strippedText_eq_iff

/-- The same of prices that may be missing. -/
theorem decimalJson_eq_iff {x y : Option ShortFloat} :
    decimalJson x = decimalJson y ↔ PriceAlike x y := by
  constructor
  · intro h
    cases x with
    | none =>
      cases y with
      | none => exact .same none
      | some y => cases h
    | some x =>
      cases y with
      | none => cases h
      | some y =>
        rcases decimalText_eq_iff.mp (Json.str.inj h) with rfl | hconfused
        · exact .same (some x)
        · exact .confused hconfused
  · rintro (_ | hconfused)
    · rfl
    · exact congrArg Json.str (decimalText_eq_iff.mpr (.inr hconfused))

/-- No character of a normalised symbol is lower case. -/
theorem toUpper_of_isAssetChar {c : Char} (h : isAssetChar c = true) : c.toUpper = c := by
  have hrange : ¬ (97 ≤ c.toNat ∧ c.toNat ≤ 122) := by
    rintro ⟨hlow, hhigh⟩
    have hall : ∀ n < 123, 97 ≤ n → isAssetChar (Char.ofNat n) = false := by decide
    have hchar := hall c.toNat (by omega) hlow
    rw [Char.ofNat_toNat, h] at hchar
    cases hchar
  delta Char.toUpper
  exact dif_neg hrange

/-- A normalised symbol is upper case already. -/
theorem upper_asset (a : Asset) : upper a.text = a.text := by
  have hchars : a.text.toList.map Char.toUpper = a.text.toList := by
    conv_rhs => rw [← List.map_id a.text.toList]
    apply List.map_congr_left
    intro c hc
    exact toUpper_of_isAssetChar (List.all_eq_true.mp a.normalised.1 c hc)
  rw [upper, hchars, String.ofList_toList]

theorem upper_side {s t : Side} (h : upper s.text = upper t.text) : s = t := by
  cases s <;> cases t <;> first | rfl | exact absurd h (by decide)

theorem upper_orderType {s t : OrderType} (h : upper s.text = upper t.text) : s = t := by
  cases s <;> cases t <;> first | rfl | exact absurd h (by decide)

theorem upper_timeInForce {s t : TimeInForce} (h : upper s.text = upper t.text) : s = t := by
  cases s <;> cases t <;> first | rfl | exact absurd h (by decide)

/-- The members of equal objects. -/
theorem signedFields_eq {o o' : Order} (h : o.canonical = o'.canonical) (name : String) :
    (Dict.lookup name o.signedFields).map Json.sorted =
      (Dict.lookup name o'.signedFields).map Json.sorted :=
  Json.get?_of_sorted_eq (by simp [Order.signedFields]) (by simp [Order.signedFields])
    (Json.dumps_injective (String.ofList_injective h)) name

/-- The text of an order tells all but its prices. -/
theorem rest_of_canonical {o o' : Order} (hquantity : o.quantity.value ≤ 1000000)
    (hquantity' : o'.quantity.value ≤ 1000000) (h : o.canonical = o'.canonical) :
    o' = { o with limitPrice := o'.limitPrice, stopPrice := o'.stopPrice } := by
  have htext : ∀ {name s s'}, (Dict.lookup name o.signedFields) = some (.str s) →
      (Dict.lookup name o'.signedFields) = some (.str s') → s = s' := by
    intro name s s' hs hs'
    have hsame := signedFields_eq h name
    rw [hs, hs'] at hsame
    exact Json.str.inj (Option.some.inj hsame)
  have hnumber : ∀ {name n n'}, (Dict.lookup name o.signedFields) = some (.int n) →
      (Dict.lookup name o'.signedFields) = some (.int n') → n = n' := by
    intro name n n' hn hn'
    have hsame := signedFields_eq h name
    rw [hn, hn'] at hsame
    exact Json.int.inj (Option.some.inj hsame)
  have horderId : o.orderId = o'.orderId := @htext "order_id" _ _ rfl rfl
  have huserId : o.userId = o'.userId := @htext "user_id" _ _ rfl rfl
  have hasset : o.asset = o'.asset := by
    have hupper := @htext "asset" _ _ rfl rfl
    rw [upper_asset, upper_asset] at hupper
    exact Asset.ext_text hupper
  have hside : o.side = o'.side := upper_side (@htext "side" _ _ rfl rfl)
  have hamount : o.quantity = o'.quantity := by
    rcases decimalText_eq_iff.mp (@htext "quantity" _ _ rfl rfl) with hsame | hconfused
    · exact hsame
    · exact hconfused.eq_of_small (lt_of_le_of_lt hquantity (by norm_num))
        (lt_of_le_of_lt hquantity' (by norm_num))
  have htype : o.orderType = o'.orderType := upper_orderType (@htext "order_type" _ _ rfl rfl)
  have htif : o.timeInForce = o'.timeInForce :=
    upper_timeInForce (@htext "time_in_force" _ _ rfl rfl)
  have htimestamp : o.timestamp = o'.timestamp := @hnumber "timestamp" _ _ rfl rfl
  have hexpires : o.expiresAt = o'.expiresAt := @hnumber "expires_at" _ _ rfl rfl
  have hnonce : o.nonce = o'.nonce := @htext "nonce" _ _ rfl rfl
  cases o
  cases o'
  rw [Order.mk.injEq]
  exact ⟨horderId.symm, huserId.symm, hasset.symm, hside.symm, hamount.symm, htype.symm, rfl, rfl,
    htif.symm, htimestamp.symm, hexpires.symm, hnonce.symm⟩

/-- A price as JSON has no members to sort. -/
theorem sorted_decimalJson (price : Option ShortFloat) :
    (decimalJson price).sorted = decimalJson price := by
  cases price with
  | none => rfl
  | some x => rfl

/-- The text of an order tells its prices up to confusion. -/
theorem prices_of_canonical {o o' : Order} (h : o.canonical = o'.canonical) :
    PriceAlike o.limitPrice o'.limitPrice ∧ PriceAlike o.stopPrice o'.stopPrice := by
  have hprice : ∀ {name price price'}, Dict.lookup name o.signedFields = some (decimalJson price) →
      Dict.lookup name o'.signedFields = some (decimalJson price') →
        PriceAlike price price' := by
    intro name price price' hp hp'
    have hsame := signedFields_eq h name
    rw [hp, hp', Option.map_some, Option.map_some, sorted_decimalJson, sorted_decimalJson] at hsame
    exact decimalJson_eq_iff.mp (Option.some.inj hsame)
  exact ⟨@hprice "limit_price" _ _ rfl rfl, @hprice "stop_price" _ _ rfl rfl⟩

/-- Orders have one text when they agree but for prices with one text. -/
theorem canonical_eq_iff {o o' : Order} (hquantity : o.quantity.value ≤ 1000000)
    (hquantity' : o'.quantity.value ≤ 1000000) :
    o.canonical = o'.canonical ↔ o.Alike o' := by
  constructor
  · intro h
    rcases prices_of_canonical h with ⟨hlimit, hstop⟩
    exact ⟨rest_of_canonical hquantity hquantity' h, hlimit, hstop⟩
  · rintro ⟨hrest, hlimit, hstop⟩
    have hfields : o'.signedFields = o.signedFields := by
      rw [hrest]
      simp only [Order.signedFields, decimalJson_eq_iff.mpr hlimit, decimalJson_eq_iff.mpr hstop]
    rw [Order.canonical, Order.canonical, hfields]

/-- The text tells an order from another exactly when they do not agree but for prices that are
confused. -/
theorem canonical_identifies_iff (o o' : Order) (hquantity : o.quantity.value ≤ 1000000)
    (hquantity' : o'.quantity.value ≤ 1000000) :
    (o.canonical = o'.canonical → o = o') ↔
      (o.Alike o' → o.limitPrice = o'.limitPrice ∧ o.stopPrice = o'.stopPrice) := by
  rw [canonical_eq_iff hquantity hquantity']
  constructor
  · intro h halike
    rw [h halike]
    exact ⟨rfl, rfl⟩
  · intro h halike
    rcases h halike with ⟨hlimit, hstop⟩
    rw [halike.rest, ← hlimit, ← hstop]

/-- A stop-limit order for a share at 100, with a stop price. -/
def sampleStop (stop : ShortFloat) : Order where
  orderId := "order-0001"
  userId := "alice"
  asset := ⟨"AAPL", by decide⟩
  side := .buy
  quantity := ⟨1, 0, by decide⟩
  orderType := .stopLimit
  limitPrice := some ⟨1, 2, by decide⟩
  stopPrice := some stop
  timeInForce := .gtc
  timestamp := 1700000000
  expiresAt := 1700000120
  nonce := "nonce-0123456789"

theorem sampleStop_quantity (stop : ShortFloat) : (sampleStop stop).quantity.value ≤ 1000000 := by
  norm_num [sampleStop, ShortFloat.value]

/-- Stop prices of 100 and 101 are told apart. -/
theorem canonical_identifies_sample :
    (sampleStop ⟨1, 2, by decide⟩).canonical ≠ (sampleStop ⟨101, 0, by decide⟩).canonical := by
  intro h
  have htold := (canonical_identifies_iff (sampleStop ⟨1, 2, by decide⟩)
    (sampleStop ⟨101, 0, by decide⟩) (sampleStop_quantity _) (sampleStop_quantity _)).mpr
  have hprices : (sampleStop ⟨1, 2, by decide⟩).Alike (sampleStop ⟨101, 0, by decide⟩) → False := by
    rintro ⟨_, _, hstop⟩
    cases hstop with
    | confused hconfused => exact absurd hconfused.1 (by decide)
  have hsame := htold (fun halike => (hprices halike).elim) h
  have hstop := congrArg Order.stopPrice hsame
  revert hstop
  decide

/-- Stop prices of `1.0` and `1e16` have one text. -/
theorem canonical_not_injective :
    ¬ ∀ o o' : Order, o.quantity.value ≤ 1000000 → o'.quantity.value ≤ 1000000 →
      o.canonical = o'.canonical → o = o' := by
  intro hinjective
  have htext : (sampleStop ⟨1, 0, by decide⟩).canonical =
      (sampleStop ⟨1, 16, by decide⟩).canonical := by
    have hstop : decimalText ⟨1, 0, by decide⟩ = decimalText ⟨1, 16, by decide⟩ := by decide
    simp only [Order.canonical, Order.signedFields, sampleStop, decimalJson, hstop]
  have hsame := hinjective _ _ (sampleStop_quantity _) (sampleStop_quantity _) htext
  have hstop := congrArg Order.stopPrice hsame
  revert hstop
  decide

end QuantumSentinel.Orders
