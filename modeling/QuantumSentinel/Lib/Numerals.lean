import Mathlib.Data.Nat.Cast.Defs

/-!
# Numerals

A numeral in a field rests on a proof that it is at least two, and the index zero on a proof that
there is an index.  Here these proofs get names, so that a numeral is the same term in every module.
-/

namespace QuantumSentinel.Lib

/-! ## Numbers -/

instance atLeastTwo_two : Nat.AtLeastTwo 2 :=
  ⟨by decide⟩

instance atLeastTwo_three : Nat.AtLeastTwo 3 :=
  ⟨by decide⟩

instance atLeastTwo_four : Nat.AtLeastTwo 4 :=
  ⟨by decide⟩

instance atLeastTwo_five : Nat.AtLeastTwo 5 :=
  ⟨by decide⟩

instance atLeastTwo_nine : Nat.AtLeastTwo 9 :=
  ⟨by decide⟩

instance atLeastTwo_ten : Nat.AtLeastTwo 10 :=
  ⟨by decide⟩

instance atLeastTwo_fifty : Nat.AtLeastTwo 50 :=
  ⟨by decide⟩

instance atLeastTwo_hundred : Nat.AtLeastTwo 100 :=
  ⟨by decide⟩

/-- The trading days of a year. -/
instance atLeastTwo_tradingDays : Nat.AtLeastTwo 252 :=
  ⟨by decide⟩

/-! ## Indices -/

instance (priority := 2000) neZero_two : @NeZero ℕ Zero.ofOfNat0 2 :=
  ⟨by decide⟩

instance (priority := 1500) neZero_succ (n : ℕ) : @NeZero ℕ Zero.ofOfNat0 (n + 1) :=
  ⟨n.succ_ne_zero⟩

end QuantumSentinel.Lib
