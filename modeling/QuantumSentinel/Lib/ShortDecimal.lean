import Mathlib.Algebra.Order.Field.Power
import Mathlib.Data.List.DropRight
import QuantumSentinel.Lib.IsoTime
import QuantumSentinel.Lib.Json
import QuantumSentinel.Lib.PrefixCode

/-!
# Positional texts of floating-point numbers

A positive floating-point number is given by the digits and the power of ten of its shortest
decimal text, which determine it.  Python writes that text with an exponent when it is long, a
`Decimal` of it is written out again in full, and trailing zeros are stripped: the ones of a
fraction or, where the text had an exponent, those of a whole number.

Main results:

- Definition `ShortFloat.strippedText`: the text without trailing zeros.
- Theorem `strippedText_eq_iff`: which numbers have one such text.
- Theorem `Confused.eq_of_small`: none below `1e16` have.
-/

namespace QuantumSentinel.Lib

/-- A positive floating-point number by its shortest decimal text, whose last digit is not
zero. -/
structure ShortFloat where
  digits : ℕ
  exponent : ℤ
  shortest : digits % 10 ≠ 0
deriving DecidableEq

/-- `decimal.Decimal`, not negative: a coefficient and a power of ten. -/
structure PyDecimal where
  coefficient : ℕ
  exponent : ℤ
deriving DecidableEq

/-- `format(d, "f")` -/
def PyDecimal.positional (d : PyDecimal) : List Char :=
  if 0 ≤ d.exponent then Nat.toDigits 10 (d.coefficient * 10 ^ d.exponent.toNat)
  else
    let places := (-d.exponent).toNat
    Nat.toDigits 10 (d.coefficient / 10 ^ places) ++ '.' :: decimal places d.coefficient

namespace ShortFloat

variable (x : ShortFloat)

/-- The decimal the text stands for. -/
def value : ℚ :=
  x.digits * 10 ^ x.exponent

/-- How many digits stand before the point. -/
def point : ℤ :=
  (Nat.toDigits 10 x.digits).length + x.exponent

/-- A whole number that `str` writes with an exponent. -/
def Long : Prop :=
  0 ≤ x.exponent ∧ 16 < x.point

instance : Decidable x.Long :=
  inferInstanceAs (Decidable (_ ∧ _))

/-- `Decimal(str(x))`: a whole number that is not long is written with `.0`. -/
def toDecimal : PyDecimal :=
  if 0 ≤ x.exponent ∧ x.point ≤ 16 then ⟨x.digits * 10 ^ (x.exponent.toNat + 1), -1⟩
  else ⟨x.digits, x.exponent⟩

/-- `format(Decimal(str(x)), "f").rstrip("0").rstrip(".")` -/
def strippedText : List Char :=
  (x.toDecimal.positional.rdropWhile (· = '0')).rdropWhile (· = '.')

/-- The digits alone are what is left of the text. -/
def Unscaled : Prop :=
  x.Long ∨ x.exponent = 0

/-- Two numbers with one text: both leave the same digits alone. -/
def Confused (x y : ShortFloat) : Prop :=
  x.digits = y.digits ∧ x.Unscaled ∧ y.Unscaled

/-- `1e16` and `1.0`. -/
example : strippedText ⟨1, 16, by decide⟩ = strippedText ⟨1, 0, by decide⟩ := by decide

end ShortFloat

/-! ## Digits -/

/-- The last digit of a number of fixed width. -/
theorem decimal_concat (width n : ℕ) :
    decimal (width + 1) n = decimal width (n / 10) ++ [Nat.digitChar (n % 10)] := by
  induction width with
  | zero => simp [decimal]
  | succ width ih =>
    rw [decimal, ih, decimal, List.cons_append, Nat.div_div_eq_div_mul, pow_succ, mul_comm]

/-- A factor of ten is a zero behind the digits. -/
theorem toDigits_mul_pow {n : ℕ} (hn : 0 < n) (k : ℕ) :
    Nat.toDigits 10 (n * 10 ^ k) = Nat.toDigits 10 n ++ List.replicate k '0' := by
  induction k with
  | zero => simp
  | succ k ih =>
    have hpos : 0 < n * 10 ^ k := by positivity
    have hten : n * 10 ^ (k + 1) = n * 10 ^ k * 10 := by ring
    rw [hten, Nat.toDigits_of_base_le (by decide) (by omega), Nat.mul_div_cancel _ (by decide),
      ih, Nat.mul_mod_left, List.replicate_succ', ← List.append_assoc]
    rfl

/-- A digit that is not zero is not written as one. -/
theorem digitChar_ne_zero {n : ℕ} (hn : n % 10 ≠ 0) : Nat.digitChar (n % 10) ≠ '0' := by
  intro h
  exact hn (digitChar_injective (b := 0) (Nat.mod_lt _ (by decide)) (by decide) h)

/-- The digits of a number end with its last one. -/
theorem toDigits_concat (n : ℕ) :
    ∃ front, Nat.toDigits 10 n = front ++ [Nat.digitChar (n % 10)] := by
  rcases lt_or_ge n 10 with hsmall | hlarge
  · refine ⟨[], ?_⟩
    rw [Nat.toDigits_of_lt_base hsmall, Nat.mod_eq_of_lt hsmall]
    rfl
  · exact ⟨_, Nat.toDigits_of_base_le (by decide) hlarge⟩

theorem point_notMem_toDigits (n : ℕ) : '.' ∉ Nat.toDigits 10 n := by
  intro h
  cases Nat.isDigit_of_mem_toDigits (by decide) (by decide) h

/-- A symbol behind a text that does not end with it is stripped. -/
theorem rstrip_replicate {c : Char} {front : List Char} {last : Char} (hlast : last ≠ c) (k : ℕ) :
    (front ++ [last] ++ List.replicate k c).rdropWhile (· = c) = front ++ [last] := by
  induction k with
  | zero =>
    rw [List.replicate_zero, List.append_nil]
    exact List.rdropWhile_concat_neg _ _ _ (by simpa using hlast)
  | succ k ih =>
    rw [List.replicate_succ', ← List.append_assoc]
    rw [List.rdropWhile_concat_pos _ _ _ (by simp)]
    exact ih

/-- A decimal with places behind the point. -/
theorem positional_places (n places : ℕ) :
    PyDecimal.positional ⟨n, -(places + 1 : ℕ)⟩ =
      Nat.toDigits 10 (n / 10 ^ (places + 1)) ++ '.' :: decimal (places + 1) n := by
  have hneg : ¬ (0 : ℤ) ≤ -(places + 1 : ℕ) := by omega
  have hplaces : (-(-(places + 1 : ℕ) : ℤ)).toNat = places + 1 := by omega
  simp only [PyDecimal.positional, if_neg hneg, hplaces]

/-! ## Stripped texts -/

namespace ShortFloat

variable (x : ShortFloat)

theorem digits_pos : 0 < x.digits := by
  have h := x.shortest
  omega

/-- The whole number a text without a point stands for. -/
def whole : ℕ :=
  if x.Long then x.digits else x.digits * 10 ^ x.exponent.toNat

/-- The text of a whole number has no point. -/
theorem strippedText_whole (h : 0 ≤ x.exponent) :
    x.strippedText = Nat.toDigits 10 x.whole := by
  rcases toDigits_concat x.digits with ⟨front, hfront⟩
  have hzero := digitChar_ne_zero x.shortest
  have hnopoint : ∀ n, (Nat.toDigits 10 n).rdropWhile (· = '.') = Nat.toDigits 10 n := by
    intro n
    rw [List.rdropWhile_eq_self_iff]
    intro hne
    have hmem := List.getLast_mem hne
    simp only [decide_eq_true_eq]
    intro hpoint
    rw [hpoint] at hmem
    exact point_notMem_toDigits n hmem
  by_cases hlong : x.Long
  · -- the zeros of the exponent are stripped
    have hdecimal : x.toDecimal = ⟨x.digits, x.exponent⟩ :=
      if_neg fun hshort => absurd hlong.2 (not_lt.mpr hshort.2)
    rw [strippedText, hdecimal, PyDecimal.positional, if_pos h, whole, if_pos hlong,
      toDigits_mul_pow x.digits_pos, hfront, rstrip_replicate hzero, ← hfront]
    exact hnopoint _
  · -- the zero of the fraction is stripped, and then the point
    have hdecimal : x.toDecimal = ⟨x.digits * 10 ^ (x.exponent.toNat + 1), -1⟩ :=
      if_pos ⟨h, not_lt.mp fun hpoint => hlong ⟨h, hpoint⟩⟩
    have htenth : x.digits * 10 ^ (x.exponent.toNat + 1) / 10 ^ 1 =
        x.digits * 10 ^ x.exponent.toNat := by
      rw [pow_succ, ← mul_assoc, pow_one, Nat.mul_div_cancel _ (by decide)]
    have hlast : decimal 1 (x.digits * 10 ^ (x.exponent.toNat + 1)) = ['0'] := by
      rw [decimal_concat, pow_succ, ← mul_assoc, Nat.mul_mod_left]
      rfl
    have htext : x.toDecimal.positional =
        Nat.toDigits 10 (x.digits * 10 ^ x.exponent.toNat) ++ ['.'] ++
          List.replicate 1 '0' := by
      rw [hdecimal]
      refine (positional_places _ 0).trans ?_
      rw [zero_add, htenth, hlast, List.append_assoc]
      rfl
    rw [strippedText, htext, rstrip_replicate (by decide), whole, if_neg hlong,
      List.rdropWhile_concat_pos _ _ _ (by decide)]
    exact hnopoint _

/-- The text of a number with a fraction is the whole text. -/
theorem strippedText_fraction {places : ℕ} (h : x.exponent = -(places + 1 : ℕ)) :
    x.strippedText = Nat.toDigits 10 (x.digits / 10 ^ (places + 1)) ++
      '.' :: decimal (places + 1) x.digits := by
  have hneg : ¬ 0 ≤ x.exponent := by omega
  have hdecimal : x.toDecimal = ⟨x.digits, x.exponent⟩ :=
    if_neg fun hshort => hneg hshort.1
  have htext : x.toDecimal.positional = (Nat.toDigits 10 (x.digits / 10 ^ (places + 1)) ++
      '.' :: decimal places (x.digits / 10)) ++ [Nat.digitChar (x.digits % 10)] := by
    rw [hdecimal, h, positional_places, decimal_concat, List.append_assoc, List.cons_append]
  have hlast := digitChar_ne_zero x.shortest
  have hdigit : Nat.digitChar (x.digits % 10) ≠ '.' := by
    have hall : ∀ d < 10, Nat.digitChar d ≠ '.' := by decide
    exact hall _ (Nat.mod_lt _ (by decide))
  rw [strippedText, htext, List.rdropWhile_concat_neg _ _ _ (by simp [hlast]),
    List.rdropWhile_concat_neg _ _ _ (by simp [hdigit]), decimal_concat,
    List.append_assoc, List.cons_append]

/-- A factor of ten can be told from the digits before it. -/
theorem mul_pow_inj {m n : ℕ} (hm : m % 10 ≠ 0) (hn : n % 10 ≠ 0) {a b : ℕ}
    (h : m * 10 ^ a = n * 10 ^ b) : m = n ∧ a = b := by
  induction a generalizing b with
  | zero =>
    cases b with
    | zero => exact ⟨by simpa using h, rfl⟩
    | succ b =>
      rw [pow_zero, mul_one, pow_succ, ← mul_assoc] at h
      exact absurd (by rw [h, Nat.mul_mod_left]) hm
  | succ a ih =>
    cases b with
    | zero =>
      rw [pow_zero, mul_one, pow_succ, ← mul_assoc] at h
      exact absurd (by rw [← h, Nat.mul_mod_left]) hn
    | succ b =>
      rw [pow_succ, pow_succ, ← mul_assoc, ← mul_assoc] at h
      rcases ih (Nat.eq_of_mul_eq_mul_right (by decide) h) with ⟨hsame, hexp⟩
      exact ⟨hsame, by rw [hexp]⟩

variable {x} {y : ShortFloat}

theorem ext_of (hdigits : x.digits = y.digits) (hexponent : x.exponent = y.exponent) : x = y := by
  cases x
  cases y
  simp only at hdigits hexponent
  subst hdigits hexponent
  rfl

/-- Whole numbers with one text are equal or confused. -/
theorem eq_or_confused_of_whole (hx : 0 ≤ x.exponent) (hy : 0 ≤ y.exponent)
    (h : x.whole = y.whole) : x = y ∨ x.Confused y := by
  unfold whole at h
  have hlone : ∀ {a b : ShortFloat}, 0 ≤ b.exponent → a.digits = b.digits * 10 ^ b.exponent.toNat →
      a.digits = b.digits ∧ b.exponent = 0 := by
    intro a b hb hab
    have hab' : a.digits * 10 ^ 0 = b.digits * 10 ^ b.exponent.toNat := by
      rw [pow_zero, mul_one, hab]
    rcases mul_pow_inj a.shortest b.shortest hab' with ⟨hsame, hzero⟩
    exact ⟨hsame, by omega⟩
  split at h
  · rename_i hlong
    split at h
    · rename_i hlong'
      exact .inr ⟨h, .inl hlong, .inl hlong'⟩
    · rcases hlone hy h with ⟨hsame, hzero⟩
      exact .inr ⟨hsame, .inl hlong, .inr hzero⟩
  · split at h
    · rename_i hlong'
      rcases hlone hx h.symm with ⟨hsame, hzero⟩
      exact .inr ⟨hsame.symm, .inr hzero, .inl hlong'⟩
    · rcases mul_pow_inj x.shortest y.shortest h with ⟨hsame, hexp⟩
      exact .inl (ext_of hsame (by omega))

/-- The point of a fraction tells its places. -/
theorem eq_of_fraction {places places' : ℕ} (hx : x.exponent = -(places + 1 : ℕ))
    (hy : y.exponent = -(places' + 1 : ℕ))
    (h : Nat.toDigits 10 (x.digits / 10 ^ (places + 1)) ++ '.' :: decimal (places + 1) x.digits =
      Nat.toDigits 10 (y.digits / 10 ^ (places' + 1)) ++
        '.' :: decimal (places' + 1) y.digits) : x = y := by
  have hdigits : ∀ n, ∀ c ∈ Nat.toDigits 10 n, c.isDigit = true :=
    fun n c => Nat.isDigit_of_mem_toDigits (by decide) (by decide)
  have hstop : ∀ rest : List Char, ∀ c ∈ ('.' :: rest).head?, c.isDigit = false := by
    intro rest c hc
    cases hc
    rfl
  rcases word_inj (hdigits _) (hdigits _) (hstop _) (hstop _) h with ⟨hfront, hback⟩
  have hdecimal := (List.cons.inj hback).2
  have hlength := congrArg List.length hdecimal
  rw [length_decimal, length_decimal] at hlength
  have hplaces : places = places' := by omega
  subst hplaces
  have hquotient := toDigits_injective hfront
  have hremainder := decimal_mod hdecimal
  have hsame : x.digits = y.digits := by
    rw [← Nat.div_add_mod x.digits (10 ^ (places + 1)), hquotient, hremainder,
      Nat.div_add_mod]
  exact ext_of hsame (hx.trans hy.symm)

/-- What a number that leaves its digits alone is written as. -/
theorem strippedText_unscaled (h : x.Unscaled) : x.strippedText = Nat.toDigits 10 x.digits := by
  rcases h with hlong | hzero
  · rw [strippedText_whole x hlong.1, whole, if_pos hlong]
  · rw [strippedText_whole x (by omega), whole]
    split
    · rfl
    · rw [hzero, Int.toNat_zero, pow_zero, mul_one]

/-- No text is empty. -/
theorem strippedText_ne_nil (x : ShortFloat) : x.strippedText ≠ [] := by
  rcases lt_or_ge x.exponent 0 with hx | hx
  · have hplaces : x.exponent = -((-1 - x.exponent).toNat + 1 : ℕ) := by omega
    rw [strippedText_fraction x hplaces]
    simp
  · rw [strippedText_whole x hx]
    exact Nat.toDigits_ne_nil

/-- A long number is a large one. -/
theorem le_value_of_long (h : x.Long) : 10 ^ 16 ≤ x.value := by
  rcases h with ⟨hexp, hpoint⟩
  obtain ⟨e, he⟩ : ∃ e : ℕ, x.exponent = e := ⟨x.exponent.toNat, by omega⟩
  rw [point, he] at hpoint
  obtain ⟨k, hk⟩ : ∃ k, (Nat.toDigits 10 x.digits).length = k + 1 := by
    have hlength := List.length_pos_of_ne_nil (Nat.toDigits_ne_nil (n := x.digits) (b := 10))
    exact ⟨(Nat.toDigits 10 x.digits).length - 1, by omega⟩
  have hdigits : 10 ^ k ≤ x.digits := by
    rcases Nat.eq_zero_or_pos k with hzero | hpos
    · rw [hzero, pow_zero]
      exact x.digits_pos
    · by_contra hsmall
      have hle := (Nat.length_toDigits_le_iff (by decide) hpos).mpr (not_le.mp hsmall)
      omega
  have hnat : 10 ^ 16 ≤ x.digits * 10 ^ e :=
    calc 10 ^ 16 ≤ 10 ^ (k + e) := Nat.pow_le_pow_right (by decide) (by omega)
      _ = 10 ^ k * 10 ^ e := pow_add ..
      _ ≤ x.digits * 10 ^ e := Nat.mul_le_mul_right _ hdigits
  rw [value, he, zpow_natCast]
  exact_mod_cast hnat

/-- Small numbers are told by their texts. -/
theorem Confused.eq_of_small (hx : x.value < 10 ^ 16) (hy : y.value < 10 ^ 16)
    (h : x.Confused y) : x = y := by
  have hscale : ∀ {z : ShortFloat}, z.value < 10 ^ 16 → z.Unscaled → z.exponent = 0 := by
    rintro z hz (hlong | hzero)
    · exact absurd (le_value_of_long hlong) (not_le.mpr hz)
    · exact hzero
  rcases h with ⟨hdigits, hux, huy⟩
  exact ext_of hdigits ((hscale hx hux).trans (hscale hy huy).symm)

/-- Numbers have one text when they are equal or confused. -/
theorem strippedText_eq_iff : x.strippedText = y.strippedText ↔ x = y ∨ x.Confused y := by
  constructor
  · intro h
    have hfraction : ∀ {e : ℤ}, e < 0 → ∃ places : ℕ, e = -(places + 1 : ℕ) := by
      intro e he
      exact ⟨(-1 - e).toNat, by omega⟩
    rcases lt_or_ge x.exponent 0 with hx | hx
    · rcases hfraction hx with ⟨places, hplaces⟩
      rcases lt_or_ge y.exponent 0 with hy | hy
      · rcases hfraction hy with ⟨places', hplaces'⟩
        rw [strippedText_fraction x hplaces, strippedText_fraction y hplaces'] at h
        exact .inl (eq_of_fraction hplaces hplaces' h)
      · rw [strippedText_fraction x hplaces, strippedText_whole y hy] at h
        exact absurd (h ▸ by simp) (point_notMem_toDigits y.whole)
    · rcases lt_or_ge y.exponent 0 with hy | hy
      · rcases hfraction hy with ⟨places', hplaces'⟩
        rw [strippedText_fraction y hplaces', strippedText_whole x hx] at h
        exact absurd (h ▸ by simp) (point_notMem_toDigits x.whole)
      · rw [strippedText_whole x hx, strippedText_whole y hy] at h
        exact eq_or_confused_of_whole hx hy (toDigits_injective h)
  · rintro (rfl | ⟨hdigits, hx, hy⟩)
    · rfl
    · rw [strippedText_unscaled hx, strippedText_unscaled hy, hdigits]

end ShortFloat

end QuantumSentinel.Lib
