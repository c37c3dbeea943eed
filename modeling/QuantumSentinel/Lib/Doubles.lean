import Mathlib.Data.Nat.Log
import QuantumSentinel.Lib.Rounding

/-!
# Doubles

Binary64 numbers as the rationals they stand for, beside two infinities and `NaN`.  A result
is the exact one, rounded to the nearest number with ties to the even fraction, and infinite when it
is rounded past the largest number.

Main results:

- Definition `nearest`: the rounding, on all rationals.
- Theorem `nearest_mono`, `nearest_nearest` and `nearest_bounds`: it keeps the order,
  has fixed points, and errs by one part in 2^53, or half the smallest number.
- Definition `Double` and its operations.

Current gaps:

- There is one zero, without a sign.
-/

namespace QuantumSentinel.Lib

/-! ## Significant bits -/

/-- How many bits of a number of units are behind its first 53. -/
def lowBits (units : ℚ) : ℕ :=
  Nat.log2 ⌊units⌋.toNat - 52

/-- A number of units, rounded to 53 bits. -/
def roundUnits (units : ℚ) : ℚ :=
  roundHalfEven (units / 2 ^ lowBits units) * 2 ^ lowBits units

theorem lowBits_mono {p q : ℚ} (h : p ≤ q) : lowBits p ≤ lowBits q := by
  unfold lowBits
  rw [Nat.log2_eq_log_two, Nat.log2_eq_log_two]
  exact Nat.sub_le_sub_right (Nat.log_mono_right (Int.toNat_le_toNat (Int.floor_le_floor h))) 52

/-- The first 53 bits and those behind them are all. -/
theorem lt_two_pow_lowBits (q : ℚ) : q < 2 ^ (lowBits q + 53) := by
  have hfloor : ⌊q⌋.toNat < 2 ^ (lowBits q + 53) :=
    Nat.lt_log2_self.trans_le (Nat.pow_le_pow_right (by decide) (by unfold lowBits; omega))
  have hnext : (⌊q⌋ : ℚ) + 1 ≤ 2 ^ (lowBits q + 53) := by
    have hint : ⌊q⌋ + 1 ≤ ((2 ^ (lowBits q + 53) : ℕ) : ℤ) := by omega
    exact_mod_cast hint
  exact (Int.lt_floor_add_one q).trans_le hnext

/-- A number with bits behind its first 53 starts with a bit that is set. -/
theorem two_pow_lowBits_le {q : ℚ} (h : 0 < lowBits q) : (2 : ℚ) ^ (lowBits q + 52) ≤ q := by
  have hne : ⌊q⌋.toNat ≠ 0 := by
    intro hzero
    rw [lowBits, hzero] at h
    exact absurd h (by decide)
  have hfloor : 2 ^ (lowBits q + 52) ≤ ⌊q⌋.toNat := by
    have hlog : lowBits q + 52 = Nat.log2 ⌊q⌋.toNat := by
      unfold lowBits at h ⊢
      omega
    rw [hlog]
    exact Nat.log2_self_le hne
  have hint : ((2 ^ (lowBits q + 52) : ℕ) : ℤ) ≤ ⌊q⌋ := by omega
  refine le_trans ?_ (Int.floor_le q)
  exact_mod_cast hint

/-- Numbers with nothing behind their first 53 bits are fixed points. -/
theorem roundUnits_of_dvd {m : ℕ} (h : 2 ^ lowBits m ∣ m) : roundUnits m = m := by
  obtain ⟨n, hn⟩ := h
  have hpow : (2 : ℚ) ^ lowBits m ≠ 0 := by positivity
  have hquotient : (m : ℚ) / 2 ^ lowBits m = (n : ℤ) := by
    rw [div_eq_iff hpow, Int.cast_natCast, mul_comm]
    exact_mod_cast hn
  rw [roundUnits, hquotient, roundHalfEven_intCast, ← hquotient, div_mul_cancel₀ _ hpow]

/-- Such are the numbers of at most 53 bits in front of zeros. -/
theorem roundUnits_shifted {k e : ℕ} (hk : k ≤ 2 ^ 53) :
    roundUnits ((k * 2 ^ e : ℕ) : ℚ) = ((k * 2 ^ e : ℕ) : ℚ) := by
  apply roundUnits_of_dvd
  unfold lowBits
  rw [Int.floor_natCast, Int.toNat_natCast]
  rcases hk.lt_or_eq with hlt | rfl
  · refine Dvd.dvd.mul_left (pow_dvd_pow 2 ?_) k
    rcases Nat.eq_zero_or_pos k with rfl | hpos
    · rw [Nat.zero_mul, show Nat.log2 0 = 0 by decide]
      omega
    · have hlog : Nat.log2 (k * 2 ^ e) < 53 + e := by
        rw [Nat.log2_lt (by positivity), pow_add]
        exact Nat.mul_lt_mul_of_pos_right hlt (by positivity)
      omega
  · rw [← pow_add, Nat.log2_two_pow]
    exact pow_dvd_pow 2 (by omega)

/-- Rounding leaves at most 53 bits in front of zeros. -/
theorem exists_roundUnits_eq {q : ℚ} (hq : 0 ≤ q) :
    ∃ k e : ℕ, k ≤ 2 ^ 53 ∧ roundUnits q = ((k * 2 ^ e : ℕ) : ℚ) := by
  have hpow : (0 : ℚ) < 2 ^ lowBits q := by positivity
  have hround : 0 ≤ roundHalfEven (q / 2 ^ lowBits q) := roundHalfEven_nonneg (by positivity)
  have hle : roundHalfEven (q / 2 ^ lowBits q) ≤ 2 ^ 53 := by
    have hlt : q / 2 ^ lowBits q ≤ ((2 ^ 53 : ℤ) : ℚ) := by
      rw [div_le_iff₀ hpow]
      refine (lt_two_pow_lowBits q).le.trans_eq ?_
      push_cast
      ring
    exact (roundHalfEven_mono hlt).trans_eq (roundHalfEven_intCast _)
  refine ⟨(roundHalfEven (q / 2 ^ lowBits q)).toNat, lowBits q, by omega, ?_⟩
  rw [roundUnits]
  push_cast
  rw [← Int.cast_natCast (R := ℚ), Int.toNat_of_nonneg hround]

/-- Rounding keeps the order, also of numbers with different bits. -/
theorem roundUnits_mono {p q : ℚ} (hp : 0 ≤ p) (h : p ≤ q) : roundUnits p ≤ roundUnits q := by
  rcases (lowBits_mono h).eq_or_lt with hsame | hlt
  · unfold roundUnits
    rw [hsame]
    have hround := roundHalfEven_mono (div_le_div_of_nonneg_right h
      (by positivity : (0 : ℚ) ≤ 2 ^ lowBits q))
    exact mul_le_mul_of_nonneg_right (by exact_mod_cast hround) (by positivity)
  · -- a power of two is between them
    have hpower : ∀ {r : ℚ} {n : ℕ}, (0 : ℚ) ≤ r → r ≤ 2 ^ n → n = lowBits r + 53 →
        roundUnits r ≤ 2 ^ n := by
      intro r n hr hle hn
      have hcast : r / 2 ^ lowBits r ≤ ((2 ^ 53 : ℤ) : ℚ) := by
        rw [div_le_iff₀ (by positivity)]
        refine hle.trans_eq ?_
        rw [hn, pow_add]
        push_cast
        ring
      have hround := (roundHalfEven_mono hcast).trans_eq (roundHalfEven_intCast _)
      have hmul : (roundHalfEven (r / 2 ^ lowBits r) : ℚ) ≤ 2 ^ 53 := by exact_mod_cast hround
      rw [roundUnits, hn, pow_add, mul_comm ((2 : ℚ) ^ lowBits r)]
      exact mul_le_mul_of_nonneg_right hmul (by positivity)
    have hlow := hpower hp (lt_two_pow_lowBits p).le rfl
    have hhigh : (2 : ℚ) ^ (lowBits q + 52) ≤ roundUnits q := by
      have hcast : ((2 ^ 52 : ℤ) : ℚ) ≤ q / 2 ^ lowBits q := by
        rw [le_div_iff₀ (by positivity)]
        refine le_trans (le_of_eq ?_) (two_pow_lowBits_le (by omega))
        push_cast
        ring
      have hround := (roundHalfEven_intCast _).symm.trans_le (roundHalfEven_mono hcast)
      have hmul : (2 : ℚ) ^ 52 ≤ roundHalfEven (q / 2 ^ lowBits q) := by exact_mod_cast hround
      rw [roundUnits, pow_add, mul_comm]
      exact mul_le_mul_of_nonneg_right hmul (by positivity)
    exact hlow.trans ((pow_le_pow_right₀ one_le_two (by omega)).trans hhigh)

/-- Rounding errs by half a unit of the last bit. -/
theorem abs_roundUnits_sub_le {q : ℚ} (hq : 0 ≤ q) : |roundUnits q - q| ≤ q / 2 ^ 53 + 1 / 2 := by
  have hpow : (0 : ℚ) < 2 ^ lowBits q := by positivity
  have herror : |roundUnits q - q| ≤ 2 ^ lowBits q / 2 := by
    have hround := abs_sub_roundHalfEven_le (q / 2 ^ lowBits q)
    rw [abs_sub_comm] at hround
    have hfactor : roundUnits q - q =
        (roundHalfEven (q / 2 ^ lowBits q) - q / 2 ^ lowBits q) * 2 ^ lowBits q := by
      rw [roundUnits, sub_mul, div_mul_cancel₀ _ hpow.ne']
    rw [hfactor, abs_mul, abs_of_pos hpow]
    have hmul := mul_le_mul_of_nonneg_right hround hpow.le
    linarith
  refine herror.trans ?_
  rcases Nat.eq_zero_or_pos (lowBits q) with hzero | hpos
  · rw [hzero, pow_zero]
    have hnonneg : 0 ≤ q / 2 ^ 53 := by positivity
    linarith
  · have hle := two_pow_lowBits_le hpos
    rw [pow_add] at hle
    have hdiv : (2 : ℚ) ^ lowBits q / 2 ≤ q / 2 ^ 53 := by
      rw [div_le_div_iff₀ (by norm_num) (by norm_num)]
      linarith
    linarith

/-! ## The nearest double -/

/-- A number, rounded to 53 bits in units of the smallest positive number. -/
def nearest (x : ℚ) : ℚ :=
  if 0 ≤ x then roundUnits (x * 2 ^ 1074) / 2 ^ 1074 else -(roundUnits (-x * 2 ^ 1074) / 2 ^ 1074)

theorem nearest_of_nonneg {x : ℚ} (hx : 0 ≤ x) :
    nearest x = roundUnits (x * 2 ^ 1074) / 2 ^ 1074 :=
  if_pos hx

theorem roundUnits_nonneg {q : ℚ} (hq : 0 ≤ q) : 0 ≤ roundUnits q := by
  obtain ⟨k, e, -, hround⟩ := exists_roundUnits_eq hq
  rw [hround]
  exact Nat.cast_nonneg _

theorem nearest_nonneg {x : ℚ} (hx : 0 ≤ x) : 0 ≤ nearest x := by
  rw [nearest_of_nonneg hx]
  exact div_nonneg (roundUnits_nonneg (by positivity)) (by positivity)

@[simp]
theorem nearest_zero : nearest 0 = 0 := by
  decide +kernel

theorem nearest_neg (x : ℚ) : nearest (-x) = -nearest x := by
  rcases lt_trichotomy x 0 with hneg | rfl | hpos
  · rw [nearest_of_nonneg (by linarith), nearest, if_neg (by linarith), neg_neg]
  · rw [neg_zero, nearest_zero, neg_zero]
  · rw [nearest_of_nonneg hpos.le, nearest, if_neg (by linarith), neg_neg]

/-- The nearest double keeps the order. -/
theorem nearest_mono {x y : ℚ} (h : x ≤ y) : nearest x ≤ nearest y := by
  have hpositive : ∀ {a b : ℚ}, 0 ≤ a → a ≤ b → nearest a ≤ nearest b := by
    intro a b ha hab
    rw [nearest_of_nonneg ha, nearest_of_nonneg (ha.trans hab)]
    exact div_le_div_of_nonneg_right (roundUnits_mono (by positivity)
      (mul_le_mul_of_nonneg_right hab (by positivity))) (by positivity)
  rcases le_total 0 x with hx | hx
  · exact hpositive hx h
  · have hleft := nearest_nonneg (neg_nonneg.mpr hx)
    rw [nearest_neg] at hleft
    rcases le_total 0 y with hy | hy
    · linarith [nearest_nonneg hy]
    · have hflip := hpositive (neg_nonneg.mpr hy) (neg_le_neg h)
      rw [nearest_neg, nearest_neg] at hflip
      linarith

/-- Doubles are fixed points. -/
theorem nearest_nearest (x : ℚ) : nearest (nearest x) = nearest x := by
  have hpositive : ∀ {a : ℚ}, 0 ≤ a → nearest (nearest a) = nearest a := by
    intro a ha
    obtain ⟨k, e, hk, hround⟩ := exists_roundUnits_eq (q := a * 2 ^ 1074) (by positivity)
    rw [nearest_of_nonneg (nearest_nonneg ha), nearest_of_nonneg ha,
      div_mul_cancel₀ _ (by positivity), hround, roundUnits_shifted hk]
  rcases le_total 0 x with hx | hx
  · exact hpositive hx
  · have hflip := hpositive (neg_nonneg.mpr hx)
    rw [nearest_neg, nearest_neg] at hflip
    exact neg_inj.mp hflip

/-- What rounding adds or takes: one part in 2^53, or half the smallest number. -/
theorem nearest_bounds {x : ℚ} (hx : 0 ≤ x) :
    x * (1 - 1 / 2 ^ 53) - 1 / 2 ^ 1075 ≤ nearest x ∧
      nearest x ≤ x * (1 + 1 / 2 ^ 53) + 1 / 2 ^ 1075 := by
  have herror := abs_roundUnits_sub_le (q := x * 2 ^ 1074) (by positivity)
  have hunits : (0 : ℚ) < 2 ^ 1074 := by positivity
  rw [abs_le] at herror
  rw [nearest_of_nonneg hx, div_le_iff₀ hunits, le_div_iff₀ hunits, pow_succ (2 : ℚ) 1074]
  generalize (2 : ℚ) ^ 1074 = unit at *
  have hhalf : 1 / (unit * 2) * unit = 1 / 2 := by
    field_simp
  constructor
  · rw [sub_mul, hhalf]
    linarith [herror.1]
  · rw [add_mul, hhalf]
    linarith [herror.2]

/-- Half the smallest positive number. -/
def tiny : ℚ :=
  1 / 2 ^ 1075

theorem tiny_pos : 0 < tiny := by
  unfold tiny
  positivity

theorem tiny_le : tiny ≤ 1 / 10 ^ 100 := by
  decide +kernel

theorem tiny_eq : 1 / 2 ^ 1075 = tiny :=
  rfl

/-- What rounding adds, in decimals. -/
theorem nearest_le {x : ℚ} (hx : 0 ≤ x) : nearest x ≤ x + x / 10 ^ 15 + tiny := by
  have hround := (nearest_bounds hx).2
  rw [tiny_eq] at hround
  linarith

/-- What rounding takes, in decimals. -/
theorem le_nearest {x : ℚ} (hx : 0 ≤ x) : x - x / 10 ^ 15 - tiny ≤ nearest x := by
  have hround := (nearest_bounds hx).1
  rw [tiny_eq] at hround
  linarith

theorem abs_nearest_le (x : ℚ) : |nearest x| ≤ |x| + |x| / 10 ^ 15 + tiny := by
  rcases le_total 0 x with hx | hx
  · rw [abs_of_nonneg hx, abs_of_nonneg (nearest_nonneg hx)]
    exact nearest_le hx
  · have hneg := neg_nonneg.mpr hx
    rw [← abs_neg, ← nearest_neg, abs_of_nonneg (nearest_nonneg hneg), abs_of_nonpos hx]
    exact nearest_le hneg

/-- Numbers that are not minute are rounded by a part of themselves. -/
theorem nearest_le_of_le {x : ℚ} (hx : 1 / 10 ^ 30 ≤ x) : nearest x ≤ x + 2 * (x / 10 ^ 15) := by
  have hround := nearest_le (le_trans (by norm_num) hx)
  have htiny := tiny_le
  have hminute : (1 : ℚ) / 10 ^ 100 ≤ 1 / 10 ^ 30 / 10 ^ 15 := by norm_num
  linarith

/-! ## Doubles -/

/-- The largest number. -/
def largest : ℚ :=
  2 ^ 1024 - 2 ^ 971

theorem largest_nonneg : 0 ≤ largest := by
  decide +kernel

/-- The largest number is whole. -/
theorem roundDecimals_largest (n : ℕ) : roundDecimals largest n = largest := by
  have hgrid := roundDecimals_of_grid ((2 ^ 1024 - 2 ^ 971) * 10 ^ n) n
  have hpow : (10 : ℚ) ^ n ≠ 0 := by positivity
  rw [Int.cast_mul, Int.cast_pow, Int.cast_ofNat, mul_div_cancel_right₀ _ hpow, Int.cast_sub,
    Int.cast_pow, Int.cast_pow, Int.cast_ofNat] at hgrid
  exact hgrid

/-- A double: a number that is its own nearest, an infinity, or `NaN`. -/
inductive Double
  | finite (value : ℚ) (exact : nearest value = value ∧ |value| ≤ largest)
  | infinite (negative : Bool)
  | nan

namespace Double

/-- An exact result, rounded; it is infinite past the largest number. -/
def ofRat (x : ℚ) : Double :=
  if h : |nearest x| ≤ largest then .finite (nearest x) ⟨nearest_nearest x, h⟩
  else .infinite (decide (x < 0))

/-- Whether a double is below zero. -/
def negative : Double → Bool
  | .finite x _ => decide (x < 0)
  | .infinite s => s
  | .nan => false

/-- Whether a double is zero. -/
def isZero : Double → Bool
  | .finite x _ => decide (x = 0)
  | _ => false

/-- Whether a double is a number, `np.isfinite(x)`. -/
def isFinite : Double → Bool
  | .finite _ _ => true
  | _ => false

/-- The number that a finite double is. -/
def value : Double → ℚ
  | .finite x _ => x
  | _ => 0

theorem nearest_neg_eq {x : ℚ} (h : nearest x = x ∧ |x| ≤ largest) :
    nearest (-x) = -x ∧ |-x| ≤ largest := by
  rw [nearest_neg, h.1, abs_neg]
  exact ⟨rfl, h.2⟩

/-- `-a` -/
def neg : Double → Double
  | .finite x h => .finite (-x) (nearest_neg_eq h)
  | .infinite s => .infinite (!s)
  | .nan => .nan

/-- `a + b` -/
def add : Double → Double → Double
  | .finite x _, .finite y _ => ofRat (x + y)
  | .infinite s, .infinite t => if s = t then .infinite s else .nan
  | .infinite s, .finite _ _ => .infinite s
  | .finite _ _, .infinite t => .infinite t
  | _, _ => .nan

/-- `a * b` -/
def mul (a b : Double) : Double :=
  match a, b with
  | .finite x _, .finite y _ => ofRat (x * y)
  | .nan, _ => .nan
  | _, .nan => .nan
  | a, b => if a.isZero || b.isZero then .nan else .infinite (a.negative != b.negative)

/-- `a / b` of numpy. -/
def div (a b : Double) : Double :=
  match a, b with
  | .finite x _, .finite y _ =>
    if y = 0 then (if x = 0 then .nan else .infinite (decide (x < 0))) else ofRat (x / y)
  | .infinite s, .finite y _ => .infinite (s != decide (y < 0))
  | .finite _ _, .infinite _ => ofRat 0
  | _, _ => .nan

/-- `a < b` -/
def lt : Double → Double → Bool
  | .finite x _, .finite y _ => decide (x < y)
  | .infinite s, .infinite t => s && !t
  | .infinite s, .finite _ _ => s
  | .finite _ _, .infinite t => !t
  | _, _ => false

/-- `a == b` -/
def beq : Double → Double → Bool
  | .finite x _, .finite y _ => decide (x = y)
  | .infinite s, .infinite t => s == t
  | _, _ => false

/-- `abs(a)` -/
def abs (a : Double) : Double :=
  if a.negative then a.neg else a

/-- A function of a number, rounded. -/
def rounded (f : ℚ → ℚ) : Double → Double
  | .finite x _ => ofRat (f x)
  | a => a

/-- A square root, cut off where no rounding sees it. -/
def sqrt (a : Double) : Double :=
  if a.negative then .nan
  else a.rounded fun x => mkRat (Nat.sqrt (x * 4 ^ 1200).floor.toNat) (2 ^ 1200)

instance : Add Double := ⟨add⟩
instance : Sub Double := ⟨fun a b => add a (neg b)⟩
instance : Mul Double := ⟨mul⟩
instance : Div Double := ⟨div⟩
instance : Neg Double := ⟨neg⟩

/-! ## Finite results -/

theorem nearest_value (a : Double) : nearest a.value = a.value := by
  cases a with
  | finite x h => exact h.1
  | infinite s => exact nearest_zero
  | nan => exact nearest_zero

theorem abs_value_le (a : Double) : |a.value| ≤ largest := by
  cases a with
  | finite x h => exact h.2
  | infinite s => simpa [value] using largest_nonneg
  | nan => simpa [value] using largest_nonneg

theorem value_le (a : Double) : a.value ≤ largest :=
  (le_abs_self _).trans a.abs_value_le

/-- What is lost below the smallest number is nothing to any double. -/
theorem tiny_mul_value_le (a : Double) : tiny * a.value ≤ 1 / 10 ^ 15 := by
  refine (mul_le_mul_of_nonneg_left a.value_le tiny_pos.le).trans ?_
  decide +kernel

/-- There is a gap below one. -/
theorem value_le_of_lt_one {a : Double} (h : a.value < 1) : a.value ≤ 1 - 1 / 2 ^ 54 := by
  by_contra hgap
  have hmono := nearest_mono (not_le.mp hgap).le
  have hone : nearest (1 - 1 / 2 ^ 54) = 1 := by
    decide +kernel
  rw [nearest_value, hone] at hmono
  exact absurd h hmono.not_gt

theorem finite_ofRat {x : ℚ} (h : |nearest x| ≤ largest) : (ofRat x).isFinite = true := by
  rw [ofRat, dif_pos h]
  rfl

/-- Nothing between two doubles overflows. -/
theorem finite_between {x : ℚ} {a b : Double} (ha : a.value ≤ x) (hb : x ≤ b.value) :
    (ofRat x).isFinite = true := by
  have hlow := nearest_mono ha
  have hhigh := nearest_mono hb
  rw [nearest_value] at hlow hhigh
  exact finite_ofRat (abs_le.mpr ⟨(neg_le_of_abs_le a.abs_value_le).trans hlow,
    hhigh.trans b.value_le⟩)

theorem finite_ofRat_of_le {x : ℚ} (hx : 0 ≤ x) {b : Double} (hb : x ≤ b.value) :
    (ofRat x).isFinite = true :=
  finite_between (a := .nan) hx hb

theorem finite_ofRat_of_half {x : ℚ} (hx : 0 ≤ x) (h : 2 * x + 1 ≤ largest) :
    (ofRat x).isFinite = true := by
  apply finite_ofRat
  rw [abs_of_nonneg (nearest_nonneg hx)]
  linarith [nearest_le hx, tiny_le]

theorem value_ofRat {x : ℚ} (h : (ofRat x).isFinite = true) : (ofRat x).value = nearest x := by
  unfold ofRat at h ⊢
  split
  · rfl
  · rename_i hlarge
    rw [dif_neg hlarge] at h
    cases h

/-- A finite double is a number. -/
theorem eq_finite {a : Double} (h : a.isFinite = true) : ∃ exact, a = .finite a.value exact := by
  cases a with
  | finite x exact => exact ⟨exact, rfl⟩
  | infinite s => cases h
  | nan => cases h

theorem value_neg {a : Double} (h : a.isFinite = true) : (-a).value = -a.value := by
  obtain ⟨_, ha⟩ := eq_finite h
  rw [ha]
  rfl

theorem add_eq {a b : Double} (ha : a.isFinite = true) (hb : b.isFinite = true) :
    a + b = ofRat (a.value + b.value) := by
  obtain ⟨_, ha⟩ := eq_finite ha
  obtain ⟨_, hb⟩ := eq_finite hb
  rw [ha, hb]
  rfl

theorem sub_eq {a b : Double} (ha : a.isFinite = true) (hb : b.isFinite = true) :
    a - b = ofRat (a.value - b.value) := by
  obtain ⟨_, ha⟩ := eq_finite ha
  obtain ⟨_, hb⟩ := eq_finite hb
  rw [ha, hb, sub_eq_add_neg]
  rfl

theorem mul_eq {a b : Double} (ha : a.isFinite = true) (hb : b.isFinite = true) :
    a * b = ofRat (a.value * b.value) := by
  obtain ⟨_, ha⟩ := eq_finite ha
  obtain ⟨_, hb⟩ := eq_finite hb
  rw [ha, hb]
  rfl

theorem div_eq {a b : Double} (ha : a.isFinite = true) (hb : b.isFinite = true)
    (hzero : b.value ≠ 0) : a / b = ofRat (a.value / b.value) := by
  obtain ⟨_, ha⟩ := eq_finite ha
  obtain ⟨_, hb⟩ := eq_finite hb
  rw [ha, hb]
  exact if_neg hzero

/-- A finite sum is one of finite numbers. -/
theorem finite_add {a b : Double} (h : (a + b).isFinite = true) :
    a.isFinite = true ∧ b.isFinite = true := by
  change (add a b).isFinite = true at h
  cases a with
  | finite x hx => cases b <;> first | exact ⟨rfl, rfl⟩ | cases h
  | infinite s =>
    cases b with
    | finite y hy => cases h
    | infinite t =>
      unfold add at h
      dsimp only at h
      split at h <;> cases h
    | nan => cases h
  | nan => cases b <;> cases h

/-- A finite product is one of finite numbers. -/
theorem finite_mul {a b : Double} (h : (a * b).isFinite = true) :
    a.isFinite = true ∧ b.isFinite = true := by
  change (mul a b).isFinite = true at h
  cases a with
  | finite x hx =>
    cases b with
    | finite y hy => exact ⟨rfl, rfl⟩
    | infinite t =>
      unfold mul at h
      dsimp only at h
      split at h <;> cases h
    | nan => cases h
  | infinite s =>
    cases b with
    | nan => cases h
    | finite y hy | infinite t =>
      unfold mul at h
      dsimp only at h
      split at h <;> cases h
  | nan => cases h

/-- A finite quotient by a number is one of a number. -/
theorem finite_div {a b : Double} (h : (a / b).isFinite = true) (hb : b.isFinite = true) :
    a.isFinite = true := by
  obtain ⟨_, hb⟩ := eq_finite hb
  rw [hb] at h
  cases a with
  | finite x hx => rfl
  | infinite s => cases h
  | nan => cases h

theorem value_add {a b : Double} (h : (a + b).isFinite = true) :
    (a + b).value = nearest (a.value + b.value) := by
  obtain ⟨ha, hb⟩ := finite_add h
  rw [add_eq ha hb] at h ⊢
  exact value_ofRat h

theorem value_mul {a b : Double} (h : (a * b).isFinite = true) :
    (a * b).value = nearest (a.value * b.value) := by
  obtain ⟨ha, hb⟩ := finite_mul h
  rw [mul_eq ha hb] at h ⊢
  exact value_ofRat h

theorem value_div {a b : Double} (h : (a / b).isFinite = true) (hb : b.isFinite = true)
    (hzero : b.value ≠ 0) : (a / b).value = nearest (a.value / b.value) := by
  have ha := finite_div h hb
  rw [div_eq ha hb hzero] at h ⊢
  exact value_ofRat h

/-! ## Numbers that are not negative -/

/-- A number that is not negative. -/
structure Nonneg (a : Double) : Prop where
  finite : a.isFinite = true
  nonneg : 0 ≤ a.value

instance (a : Double) : Decidable a.Nonneg :=
  decidable_of_iff (a.isFinite = true ∧ 0 ≤ a.value) ⟨fun h => ⟨h.1, h.2⟩, fun h => ⟨h.1, h.2⟩⟩

/-- A number, or infinity, between zero and a bound; an infinity exceeds the largest number. -/
def Below (a : Double) (q : ℚ) : Prop :=
  match a with
  | .finite x _ => 0 ≤ x ∧ x ≤ q
  | .infinite s => s = false ∧ largest < q
  | .nan => False

theorem Nonneg.below {a : Double} (h : a.Nonneg) : a.Below a.value := by
  obtain ⟨_, ha⟩ := eq_finite h.finite
  have hnonneg := h.nonneg
  rw [ha] at hnonneg ⊢
  exact ⟨hnonneg, le_rfl⟩

theorem Below.mono {a : Double} {p q : ℚ} (h : a.Below p) (hpq : p ≤ q) : a.Below q := by
  cases a with
  | finite x _ => exact ⟨h.1, h.2.trans hpq⟩
  | infinite s => exact ⟨h.1, h.2.trans_le hpq⟩
  | nan => exact h

/-- What is below a bound that is no larger than the largest number is finite. -/
theorem Below.nonneg {a : Double} {q : ℚ} (h : a.Below q) (hfinite : a.isFinite = true) :
    a.Nonneg ∧ a.value ≤ q := by
  obtain ⟨_, ha⟩ := eq_finite hfinite
  rw [ha] at h ⊢
  exact ⟨⟨rfl, h.1⟩, h.2⟩

theorem Below.finite {a : Double} {q : ℚ} (h : a.Below q) (hq : q ≤ largest) :
    a.isFinite = true := by
  cases a with
  | finite x _ => rfl
  | infinite s => exact absurd h.2 hq.not_gt
  | nan => cases h

theorem below_ofRat {x : ℚ} (hx : 0 ≤ x) : (ofRat x).Below (nearest x) := by
  unfold ofRat
  split
  · exact ⟨nearest_nonneg hx, le_rfl⟩
  · rename_i hlarge
    rw [abs_of_nonneg (nearest_nonneg hx)] at hlarge
    exact ⟨decide_eq_false hx.not_gt, not_le.mp hlarge⟩

theorem Nonneg.ofRat {x : ℚ} (hx : 0 ≤ x) (h : (ofRat x).isFinite = true) : (ofRat x).Nonneg :=
  ⟨h, (value_ofRat h).symm ▸ nearest_nonneg hx⟩

/-- A number reduced by a cost, unless the cost is past the largest number. -/
theorem sub_le_or_infinite {a b : Double} (ha : a.isFinite = true) (hb : b.isFinite = true)
    (hb0 : 0 ≤ b.value) :
    a - b = .infinite true ∨ (a - b).isFinite = true ∧ (a - b).value ≤ a.value := by
  have hle : nearest (a.value - b.value) ≤ a.value :=
    (nearest_mono (sub_le_self _ hb0)).trans_eq a.nearest_value
  rw [sub_eq ha hb]
  by_cases hfinite : |nearest (a.value - b.value)| ≤ largest
  · have hresult := finite_ofRat hfinite
    exact Or.inr ⟨hresult, (value_ofRat hresult).trans_le hle⟩
  · have hneg : a.value - b.value < 0 := by
      by_contra hnonneg
      rw [abs_of_nonneg (nearest_nonneg (not_lt.mp hnonneg))] at hfinite
      exact hfinite (hle.trans a.value_le)
    exact Or.inl (by rw [Double.ofRat, dif_neg hfinite, decide_eq_true hneg])

/-- A payment less a fee that it covers together with the cash. -/
theorem Nonneg.add_sub {cash paid fee : Double} (hcash : cash.Nonneg) (hpaid : paid.Nonneg)
    (hfee : fee.Nonneg) (hcovered : fee.value ≤ cash.value + paid.value)
    (hroom : 2 * (cash.value + paid.value) + 1 ≤ largest) : (cash + (paid - fee)).Nonneg := by
  have hneg := value_neg hfee.finite
  have hdiff : (paid - fee).isFinite = true := by
    rw [sub_eq hpaid.finite hfee.finite]
    exact finite_between (a := -fee) (by linarith [hpaid.nonneg]) (sub_le_self _ hfee.nonneg)
  have hvalue : (paid - fee).value = nearest (paid.value - fee.value) := by
    rw [sub_eq hpaid.finite hfee.finite] at hdiff ⊢
    exact value_ofRat hdiff
  have hlow := nearest_mono (by linarith : -cash.value ≤ paid.value - fee.value)
  have hhigh := (nearest_mono (sub_le_self _ hfee.nonneg)).trans_eq paid.nearest_value
  rw [nearest_neg, cash.nearest_value, ← hvalue] at hlow
  rw [← hvalue] at hhigh
  have hleft : 0 ≤ cash.value + (paid - fee).value := by linarith
  rw [add_eq hcash.finite hdiff]
  exact .ofRat hleft (finite_ofRat_of_half hleft (by linarith))

theorem Nonneg.mul {a b : Double} (ha : a.Nonneg) (hb : b.Nonneg) :
    (a * b).Below (nearest (a.value * b.value)) := by
  rw [mul_eq ha.finite hb.finite]
  exact below_ofRat (mul_nonneg ha.nonneg hb.nonneg)

theorem Nonneg.div {a b : Double} (ha : a.Nonneg) (hb : b.Nonneg) (hpos : 0 < b.value) :
    (a / b).Below (nearest (a.value / b.value)) := by
  rw [div_eq ha.finite hb.finite hpos.ne']
  exact below_ofRat (div_nonneg ha.nonneg hpos.le)

/-- A sum is bounded when an infinity is among its numbers, too. -/
theorem Below.add {a b : Double} {p q : ℚ} (ha : a.Below p) (hb : b.Below q) :
    (a + b).Below (p + q + (p + q) / 10 ^ 15 + tiny) := by
  have hbound : ∀ {x y : ℚ}, 0 ≤ x → 0 ≤ y → x ≤ p → y ≤ q →
      x + y ≤ p + q ∧ 0 ≤ (p + q) / 10 ^ 15 + tiny := by
    intro x y hx hy hxp hyq
    have hsum : 0 ≤ (p + q) / 10 ^ 15 := div_nonneg (by linarith) (by norm_num)
    exact ⟨by linarith, by linarith [tiny_pos]⟩
  cases a with
  | nan => cases ha
  | infinite s =>
    obtain ⟨rfl, hp⟩ := ha
    cases b with
    | nan => cases hb
    | infinite t =>
      obtain ⟨rfl, hq⟩ := hb
      have := hbound largest_nonneg largest_nonneg hp.le hq.le
      exact ⟨rfl, by linarith [largest_nonneg]⟩
    | finite y hy =>
      have := hbound largest_nonneg hb.1 hp.le hb.2
      exact ⟨rfl, by linarith [hb.1, hb.2]⟩
  | finite x hx =>
    cases b with
    | nan => cases hb
    | infinite t =>
      obtain ⟨rfl, hq⟩ := hb
      have := hbound ha.1 largest_nonneg ha.2 hq.le
      exact ⟨rfl, by linarith [ha.1, ha.2]⟩
    | finite y hy =>
      have hsum := (hbound ha.1 hb.1 ha.2 hb.2).1
      have hnonneg : 0 ≤ x + y := add_nonneg ha.1 hb.1
      refine (below_ofRat hnonneg).mono ((nearest_le hnonneg).trans ?_)
      have hpart : (x + y) / 10 ^ 15 ≤ (p + q) / 10 ^ 15 :=
        div_le_div_of_nonneg_right hsum (by norm_num)
      linarith

end Double

end QuantumSentinel.Lib
