import QuantumSentinel.Backtest.Numbers

/-!
# Backtests: computing with exact numbers

The operations of `Exact` on numbers, and what is a number when its parts are.  A result
about exact arithmetic is about inputs that are numbers; `NaN` can still come from a division
by zero or from too few values, and these lemmas say when it does not.

Main results:

- Definition `Exact.IsNumber`: a number, not `NaN`.
- Theorem `Exact.lt_iff`: a comparison that holds is one of numbers.
- Theorems `Exact.IsNumber.std` and `Exact.IsNumber.div`: where `NaN` could appear.

Current gaps:

- Square roots are rounded to fifteen decimals.
-/

namespace QuantumSentinel.Backtest

open Lib

namespace Exact

/-! ## Operations on numbers -/

section Operations

variable (x y : ℚ)

@[simp]
theorem lit_eq : (lit x : Exact) = some x :=
  rfl

@[simp]
theorem add_some : (some x : Exact) + (some y : Exact) = some (x + y) :=
  rfl

@[simp]
theorem sub_some : (some x : Exact) - (some y : Exact) = some (x - y) :=
  rfl

@[simp]
theorem mul_some : (some x : Exact) * (some y : Exact) = some (x * y) :=
  rfl

@[simp]
theorem neg_some : -(some x : Exact) = some (-x) :=
  rfl

theorem div_some {y : ℚ} (h : y ≠ 0) : (some x : Exact) / (some y : Exact) = some (x / y) :=
  if_neg h

@[simp]
theorem abs_some : PyFloat.abs (some x : Exact) = some |x| := by
  change some (if x < 0 then -x else x) = some |x|
  split
  · rename_i h
    rw [abs_of_neg h]
  · rename_i h
    rw [abs_of_nonneg (not_lt.mp h)]

@[simp]
theorem lt_some : PyFloat.lt (some x : Exact) (some y) = decide (x < y) :=
  rfl

@[simp]
theorem le_some : PyFloat.le (some x : Exact) (some y) = decide (x ≤ y) :=
  rfl

@[simp]
theorem pyMax_some : pyMax (some x : Exact) (some y) = some (max x y) := by
  rw [pyMax, lt_some]
  rcases lt_or_ge x y with h | h
  · rw [if_pos (decide_eq_true h), max_eq_right h.le]
  · rw [if_neg (by simpa using h), max_eq_left h]

end Operations

/-- A comparison that holds is one of numbers. -/
theorem lt_iff {a b : Exact} :
    PyFloat.lt a b = true ↔ ∃ x y : ℚ, a = some x ∧ b = some y ∧ x < y := by
  constructor
  · intro h
    cases a with
    | none => cases h
    | some x =>
      cases b with
      | none => cases h
      | some y => exact ⟨x, y, rfl, rfl, of_decide_eq_true h⟩
  · rintro ⟨x, y, rfl, rfl, h⟩
    exact decide_eq_true h

theorem le_iff {a b : Exact} :
    PyFloat.le a b = true ↔ ∃ x y : ℚ, a = some x ∧ b = some y ∧ x ≤ y := by
  constructor
  · intro h
    cases a with
    | none => cases h
    | some x =>
      cases b with
      | none => cases h
      | some y => exact ⟨x, y, rfl, rfl, of_decide_eq_true h⟩
  · rintro ⟨x, y, rfl, rfl, h⟩
    exact decide_eq_true h

theorem lit_pos {x : ℚ} (h : 0 < x) : PyFloat.lt (lit 0 : Exact) (lit x) = true :=
  decide_eq_true h

/-- Sums are associative, whatever is missing. -/
theorem add_assoc (a b c : Exact) : a + b + c = a + (b + c) := by
  cases a with
  | none => rfl
  | some x =>
    cases b with
    | none => rfl
    | some y =>
      cases c with
      | none => rfl
      | some z => exact congrArg some (AddSemigroup.add_assoc x y z)

theorem add_zero (a : Exact) : a + lit 0 = a := by
  cases a with
  | none => rfl
  | some x => exact congrArg some (AddMonoid.add_zero x)

theorem total_start (values : List Exact) (start : Exact) :
    values.foldl (fun sum v => sum.bind fun a => v.map fun b => a + b) start =
      start + PyFloat.sum values := by
  induction values generalizing start with
  | nil => exact (add_zero start).symm
  | cons v values ih =>
    have hhead : PyFloat.sum (v :: values) =
        values.foldl (fun sum v => sum.bind fun a => v.map fun b => a + b) (lit 0 + v) := rfl
    have hzero : lit 0 + v = v := by
      cases v with
      | none => rfl
      | some x => exact congrArg some (AddMonoid.zero_add x)
    rw [hhead, hzero, ih v, ← add_assoc]
    exact ih (start + v)

/-- A sum from its first number on. -/
theorem sum_cons (v : Exact) (values : List Exact) :
    PyFloat.sum (v :: values) = v + PyFloat.sum values := by
  refine (total_start values (lit 0 + v)).trans ?_
  cases v with
  | none => rfl
  | some x => rw [lit_eq, add_some, AddMonoid.zero_add]

theorem sum_eq_zero {values : List Exact} (h : ∀ v ∈ values, v = lit 0) :
    PyFloat.sum values = lit 0 := by
  induction values with
  | nil => rfl
  | cons v values ih =>
    rw [sum_cons, h v List.mem_cons_self, ih fun w hw => h w (List.mem_cons_of_mem _ hw)]
    exact add_zero _

/-! ## Numbers -/

/-- A number, not `NaN`. -/
def IsNumber (a : Exact) : Prop :=
  ∃ x : ℚ, a = some x

theorem isNumber_lit (x : ℚ) : IsNumber (lit x) :=
  ⟨x, rfl⟩

namespace IsNumber

variable {a b : Exact}

theorem add (ha : IsNumber a) (hb : IsNumber b) : IsNumber (a + b) := by
  obtain ⟨x, rfl⟩ := ha
  obtain ⟨y, rfl⟩ := hb
  exact ⟨x + y, rfl⟩

theorem sub (ha : IsNumber a) (hb : IsNumber b) : IsNumber (a - b) := by
  obtain ⟨x, rfl⟩ := ha
  obtain ⟨y, rfl⟩ := hb
  exact ⟨x - y, rfl⟩

theorem mul (ha : IsNumber a) (hb : IsNumber b) : IsNumber (a * b) := by
  obtain ⟨x, rfl⟩ := ha
  obtain ⟨y, rfl⟩ := hb
  exact ⟨x * y, rfl⟩

theorem neg (ha : IsNumber a) : IsNumber (-a) := by
  obtain ⟨x, rfl⟩ := ha
  exact ⟨-x, rfl⟩

theorem abs (ha : IsNumber a) : IsNumber (PyFloat.abs a) := by
  obtain ⟨x, rfl⟩ := ha
  exact ⟨|x|, abs_some x⟩

/-- A quotient by a positive number. -/
theorem div (ha : IsNumber a) (hb : PyFloat.lt (lit 0) b = true) : IsNumber (a / b) := by
  obtain ⟨x, rfl⟩ := ha
  obtain ⟨_, y, h, rfl, hy⟩ := lt_iff.mp hb
  cases h
  exact ⟨x / y, div_some x hy.ne'⟩

theorem pyMax (ha : IsNumber a) (hb : IsNumber b) : IsNumber (Backtest.pyMax a b) := by
  unfold Backtest.pyMax
  split
  · exact hb
  · exact ha

theorem pyMin (ha : IsNumber a) (hb : IsNumber b) : IsNumber (Backtest.pyMin a b) := by
  unfold Backtest.pyMin
  split
  · exact hb
  · exact ha

theorem sqrt (ha : IsNumber a) : IsNumber (PyFloat.sqrt a) := by
  obtain ⟨x, rfl⟩ := ha
  exact ⟨sqrtRat x, rfl⟩

/-- A sum of numbers. -/
theorem sum {values : List Exact} (h : ∀ v ∈ values, IsNumber v) : IsNumber (PyFloat.sum values) := by
  change IsNumber (total values)
  refine foldl_induction (P := IsNumber) (fun s v hv hs => ?_) ⟨0, rfl⟩
  obtain ⟨x, rfl⟩ := hs
  obtain ⟨y, rfl⟩ := h v hv
  exact ⟨x + y, rfl⟩

/-- The deviation of more numbers than degrees of freedom are lost. -/
theorem std {values : List Exact} {ddof : ℕ} (h : ∀ v ∈ values, IsNumber v)
    (hlength : ddof < values.length) : IsNumber (PyFloat.std values ddof) := by
  have hne : values ≠ [] := List.ne_nil_of_length_pos (Nat.zero_lt_of_lt hlength)
  obtain ⟨s, hs⟩ := sum h
  have haverage : average values = some (s / values.length) := by
    rw [average, if_neg hne, show total values = some s from hs]
    rfl
  have hsquares : IsNumber (squares values) := by
    rw [squares, haverage]
    refine sum fun v hv => ?_
    obtain ⟨u, hu, rfl⟩ := List.mem_map.mp hv
    obtain ⟨x, rfl⟩ := h u hu
    exact ⟨_, rfl⟩
  obtain ⟨q, hq⟩ := hsquares
  refine ⟨sqrtRat (q / ((values.length - ddof : ℕ) : ℚ)), ?_⟩
  change (squares values).bind _ = _
  rw [hq, Option.bind_some, if_neg (by omega)]

end IsNumber

/-- A number above a positive literal. -/
theorem lt_pyMax {a : Exact} (ha : IsNumber a) {c : ℚ} (hc : 0 < c) :
    PyFloat.lt (lit 0) (pyMax a (lit c)) = true := by
  obtain ⟨x, rfl⟩ := ha
  rw [lit_eq, lit_eq, pyMax_some, lt_some]
  exact decide_eq_true (lt_max_of_lt_right hc)

/-- What is not at most zero is positive, or no number. -/
theorem lt_of_not_le {a : Exact} (ha : IsNumber a) (h : PyFloat.le a (lit 0) = false) :
    PyFloat.lt (lit 0) a = true := by
  obtain ⟨x, rfl⟩ := ha
  rw [lit_eq, le_some, decide_eq_false_iff_not, not_le] at h
  exact decide_eq_true h

/-- The returns of numbers. -/
theorem isNumber_simpleReturns {prices : List Exact} (h : ∀ v ∈ prices, IsNumber v) :
    ∀ r ∈ simpleReturns prices, IsNumber r := by
  intro r hr
  obtain ⟨i, hi, rfl⟩ := List.mem_iff_getElem.mp hr
  simp only [simpleReturns, List.getElem_zipWith]
  simp only [simpleReturns, List.length_zipWith, List.length_tail] at hi
  obtain ⟨x, hx⟩ := h _ (List.getElem_mem (show i < prices.length by omega))
  obtain ⟨y, hy⟩ := h _ (List.mem_of_mem_tail (List.getElem_mem
    (show i < prices.tail.length by rw [List.length_tail]; omega)))
  rw [hx, hy]
  have hpositive : PyFloat.npMax (some x : Exact) (lit 1e-9) = some (max x 1e-9) := rfl
  rw [hpositive, sub_some, div_some _ (lt_max_of_lt_right (by norm_num)).ne']
  exact ⟨_, rfl⟩

/-! ## Numbers that are not negative -/

namespace Nonneg

end Nonneg

end Exact

end QuantumSentinel.Backtest
