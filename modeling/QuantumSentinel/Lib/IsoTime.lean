import Mathlib.Data.List.Basic
import Mathlib.Data.Nat.Digits.Defs
import Mathlib.Tactic.Ring

/-!
# ISO 8601 timestamps

Calendar times as Python's `datetime.isoformat` writes them, with and without the offset
of a time zone.

Main results:

- Theorem `isoformat_cancel`: the time can be told from a text that starts with it.
- Theorem `offsetText_eq_utc`: only the offset zero is written as the one of UTC.

Current gaps:

- No calendar arithmetic: how a zone moves a time is a parameter.
-/

namespace QuantumSentinel.Lib

/-- A calendar time. -/
structure DateTime where
  year : ℕ
  month : ℕ
  day : ℕ
  hour : ℕ
  minute : ℕ
  second : ℕ
  microsecond : ℕ
  inRange : (0 < year ∧ year < 10000) ∧ (0 < month ∧ month < 13) ∧ (0 < day ∧ day < 32) ∧
    hour < 24 ∧ minute < 60 ∧ second < 60 ∧ microsecond < 1000000
deriving DecidableEq

instance : Inhabited DateTime :=
  ⟨⟨1970, 1, 1, 0, 0, 0, 0, by decide⟩⟩

/-- A number with a fixed number of decimal digits. -/
def decimal : ℕ → ℕ → List Char
  | 0, _ => []
  | width + 1, n => Nat.digitChar (n / 10 ^ width % 10) :: decimal width n

/-- The part of a second, left out when it is zero. -/
def fractionText (microsecond : ℕ) : List Char :=
  if microsecond = 0 then [] else '.' :: decimal 6 microsecond

/-- `datetime.isoformat` of a time without zone. -/
def isoformat (t : DateTime) : List Char :=
  decimal 4 t.year ++ '-' :: (decimal 2 t.month ++ '-' :: (decimal 2 t.day ++ 'T' ::
    (decimal 2 t.hour ++ ':' :: (decimal 2 t.minute ++ ':' :: (decimal 2 t.second ++
      fractionText t.microsecond)))))

/-- What `isoformat` puts behind a time in a zone: the offset, in seconds here. -/
def offsetText (offset : ℤ) : List Char :=
  (if offset < 0 then '-' else '+') :: (decimal 2 (offset.natAbs / 3600) ++ ':' ::
    (decimal 2 (offset.natAbs / 60 % 60) ++
      if offset.natAbs % 60 = 0 then [] else ':' :: decimal 2 (offset.natAbs % 60)))

/-- A time zone: the local time and the offset at an instant given in UTC. -/
structure Zone where
  astimezone : DateTime → DateTime × ℤ
  /-- An offset is less than a day. -/
  bounded : ∀ t, (astimezone t).2.natAbs < 86400
  /-- Without an offset the local time is the one of UTC. -/
  unmoved : ∀ t, (astimezone t).2 = 0 → (astimezone t).1 = t

/-! ## Reading texts back -/

@[simp]
theorem length_decimal (width n : ℕ) : (decimal width n).length = width := by
  induction width with
  | zero => rfl
  | succ width ih => rw [decimal, List.length_cons, ih]

theorem digitChar_injective {a b : ℕ} (ha : a < 10) (hb : b < 10)
    (h : Nat.digitChar a = Nat.digitChar b) : a = b := by
  have hall : ∀ a < 10, ∀ b < 10, Nat.digitChar a = Nat.digitChar b → a = b := by decide
  exact hall a ha b hb h

/-- The digits determine a number modulo the width. -/
theorem decimal_mod {width m n : ℕ} (h : decimal width m = decimal width n) :
    m % 10 ^ width = n % 10 ^ width := by
  induction width with
  | zero => rw [pow_zero, Nat.mod_one, Nat.mod_one]
  | succ width ih =>
    rw [decimal, decimal, List.cons.injEq] at h
    have hdigit := digitChar_injective (Nat.mod_lt _ (by decide)) (Nat.mod_lt _ (by decide)) h.1
    rw [pow_succ, Nat.mod_mul, Nat.mod_mul, ih h.2, hdigit]

/-- A number of fixed width is read back from a text that starts with it. -/
theorem decimal_cancel {width m n : ℕ} {x y : List Char} (hm : m < 10 ^ width)
    (hn : n < 10 ^ width) (h : decimal width m ++ x = decimal width n ++ y) :
    m = n ∧ x = y := by
  have hlength : (decimal width m).length = (decimal width n).length := by
    rw [length_decimal, length_decimal]
  rcases List.append_inj h hlength with ⟨hsame, hrest⟩
  have hmod := decimal_mod hsame
  rw [Nat.mod_eq_of_lt hm, Nat.mod_eq_of_lt hn] at hmod
  exact ⟨hmod, hrest⟩

/-- A number of fixed width and the separator behind it. -/
theorem decimal_cons_cancel {width m n : ℕ} {c : Char} {x y : List Char} (hm : m < 10 ^ width)
    (hn : n < 10 ^ width) (h : decimal width m ++ c :: x = decimal width n ++ c :: y) :
    m = n ∧ x = y := by
  rcases decimal_cancel hm hn h with ⟨hsame, hrest⟩
  exact ⟨hsame, (List.cons.inj hrest).2⟩

/-- The part of a second is read back where no point follows. -/
theorem fractionText_cancel {m n : ℕ} {x y : List Char} (hm : m < 1000000)
    (hn : n < 1000000) (hx : x.head? ≠ some '.') (hy : y.head? ≠ some '.')
    (h : fractionText m ++ x = fractionText n ++ y) : m = n ∧ x = y := by
  unfold fractionText at h
  split at h
  · rename_i hzero
    split at h
    · rename_i hzero'
      exact ⟨hzero.trans hzero'.symm, h⟩
    · rw [List.nil_append] at h
      rw [h] at hx
      exact absurd rfl hx
  · split at h
    · rw [List.nil_append] at h
      rw [← h] at hy
      exact absurd rfl hy
    · exact decimal_cancel (by omega) (by omega) (List.cons.inj h).2

/-- The time can be told from a text that starts with it. -/
theorem isoformat_cancel {t t' : DateTime} {x y : List Char} (hx : x.head? ≠ some '.')
    (hy : y.head? ≠ some '.') (h : isoformat t ++ x = isoformat t' ++ y) : t = t' ∧ x = y := by
  rcases t with ⟨year, month, day, hour, minute, second, microsecond, hrange⟩
  rcases t' with ⟨year', month', day', hour', minute', second', microsecond', hrange'⟩
  simp only [isoformat, List.append_assoc, List.cons_append] at h
  rcases decimal_cons_cancel (by omega) (by omega) h with ⟨rfl, hmonth⟩
  rcases decimal_cons_cancel (by omega) (by omega) hmonth with ⟨rfl, hday⟩
  rcases decimal_cons_cancel (by omega) (by omega) hday with ⟨rfl, hhour⟩
  rcases decimal_cons_cancel (by omega) (by omega) hhour with ⟨rfl, hminute⟩
  rcases decimal_cons_cancel (by omega) (by omega) hminute with ⟨rfl, hsecond⟩
  rcases decimal_cancel (by omega) (by omega) hsecond with ⟨rfl, hfraction⟩
  rcases fractionText_cancel (by omega) (by omega) hx hy hfraction with ⟨rfl, hrest⟩
  exact ⟨rfl, hrest⟩

theorem offsetText_head (offset : ℤ) : (offsetText offset).head? ≠ some '.' := by
  rw [offsetText, List.head?_cons]
  split <;> decide

/-- Only the offset zero is written as the one of UTC. -/
theorem offsetText_eq_utc {offset : ℤ} (hbound : offset.natAbs < 86400)
    (h : offsetText offset = offsetText 0) : offset = 0 := by
  rw [offsetText, offsetText, List.cons.injEq] at h
  rcases decimal_cons_cancel (by omega) (by omega) h.2 with ⟨hhours, hrest⟩
  have hseconds : offset.natAbs % 60 = 0 := by
    by_contra hne
    have hlength := congrArg List.length hrest
    rw [if_neg hne, if_pos (by decide)] at hlength
    simp only [List.length_append, length_decimal, List.length_cons, List.length_nil] at hlength
    omega
  rw [if_pos hseconds, if_pos (by decide), List.append_nil, List.append_nil] at hrest
  have happend : decimal 2 (offset.natAbs / 60 % 60) ++ [] =
      decimal 2 ((0 : ℤ).natAbs / 60 % 60) ++ [] := by rw [hrest]
  have hminutes := (decimal_cancel (by omega) (by omega) happend).1
  omega

end QuantumSentinel.Lib
