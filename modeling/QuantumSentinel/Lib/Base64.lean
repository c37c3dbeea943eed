import QuantumSentinel.Lib.Bytes

/-!
# Base64

Python's `base64.b64encode` and `base64.b64decode`.  Decoding is not strict: it
skips characters outside the alphabet, and stops at a complete padding.

Main results:

- Theorem `b64decode_b64encode`: bytes are read back.
-/

namespace QuantumSentinel.Lib

/-- The character of six bits. -/
def b64Char (n : ℕ) : Char :=
  if n < 26 then Char.ofNat (65 + n)
  else if n < 52 then Char.ofNat (71 + n)
  else if n < 62 then Char.ofNat (n - 4)
  else if n = 62 then '+'
  else '/'

/-- The six bits of a character of the alphabet. -/
def b64Value? (c : Char) : Option ℕ :=
  if c.isUpper then some (c.toNat - 65)
  else if c.isLower then some (c.toNat - 71)
  else if c.isDigit then some (c.toNat + 4)
  else if c = '+' then some 62
  else if c = '/' then some 63
  else none

/-- `base64.b64encode` -/
def b64encode : Bytes → List Char
  | [] => []
  | [a] => [b64Char (a.toNat / 4), b64Char (a.toNat % 4 * 16), '=', '=']
  | [a, b] =>
    [b64Char (a.toNat / 4), b64Char (a.toNat % 4 * 16 + b.toNat / 16),
      b64Char (b.toNat % 16 * 4), '=']
  | a :: b :: c :: rest =>
    b64Char (a.toNat / 4) :: b64Char (a.toNat % 4 * 16 + b.toNat / 16) ::
      b64Char (b.toNat % 16 * 4 + c.toNat / 64) :: b64Char (c.toNat % 64) :: b64encode rest

/-- The decoder inside a group of four: how many characters of the group it has read, the
bits of them it has not put out, and the padding it has seen. -/
def b64decodeFrom (quad left pads : ℕ) : List Char → Option Bytes
  | [] => if quad = 0 then some [] else none
  | c :: rest =>
    if c = '=' then
      if 2 ≤ quad then
        if 4 ≤ quad + (pads + 1) then some [] else b64decodeFrom quad left (pads + 1) rest
      else b64decodeFrom quad left pads rest
    else
      match b64Value? c with
      | none => b64decodeFrom quad left pads rest
      | some n =>
        match quad with
        | 0 => b64decodeFrom 1 n 0 rest
        | 1 =>
          (b64decodeFrom 2 (n % 16) 0 rest).map (UInt8.ofNat (left * 4 + n / 16) :: ·)
        | 2 =>
          (b64decodeFrom 3 (n % 4) 0 rest).map (UInt8.ofNat (left * 16 + n / 4) :: ·)
        | _ => (b64decodeFrom 0 0 0 rest).map (UInt8.ofNat (left * 64 + n) :: ·)

/-- `base64.b64decode` of a text, which has to be ASCII. -/
def b64decode (text : List Char) : Option Bytes :=
  if text.all fun c => c.toNat < 128 then b64decodeFrom 0 0 0 text else none

/-- A character of the alphabet is ASCII, stands for its bits and is no padding. -/
theorem b64Char_spec {n : ℕ} (hn : n < 64) :
    (b64Char n).toNat < 128 ∧ b64Char n ≠ '=' ∧ b64Value? (b64Char n) = some n := by
  have hall : ∀ n < 64, (b64Char n).toNat < 128 ∧ b64Char n ≠ '=' ∧
      b64Value? (b64Char n) = some n := by decide +kernel
  exact hall n hn

/-- One character of the alphabet. -/
theorem b64decodeFrom_char {n : ℕ} (hn : n < 64) (quad left pads : ℕ) (rest : List Char) :
    b64decodeFrom quad left pads (b64Char n :: rest) =
      match quad with
      | 0 => b64decodeFrom 1 n 0 rest
      | 1 => (b64decodeFrom 2 (n % 16) 0 rest).map (UInt8.ofNat (left * 4 + n / 16) :: ·)
      | 2 => (b64decodeFrom 3 (n % 4) 0 rest).map (UInt8.ofNat (left * 16 + n / 4) :: ·)
      | _ => (b64decodeFrom 0 0 0 rest).map (UInt8.ofNat (left * 64 + n) :: ·) := by
  rcases b64Char_spec hn with ⟨_, hpad, hvalue⟩
  rw [b64decodeFrom, if_neg hpad, hvalue]

theorem ofNat_split (a : UInt8) {n : ℕ} (h : n = a.toNat) : UInt8.ofNat n = a := by
  rw [h, UInt8.ofNat_toNat]

/-- Whole groups and the padded one are read back. -/
theorem b64decodeFrom_b64encode (bytes : Bytes) :
    b64decodeFrom 0 0 0 (b64encode bytes) = some bytes := by
  induction bytes using b64encode.induct with
  | case1 => rfl
  | case2 a =>
    have ha := a.toNat_lt
    rw [b64encode, b64decodeFrom_char (by omega)]
    simp only []
    rw [b64decodeFrom_char (by omega)]
    simp only [b64decodeFrom, if_true, Nat.le_refl]
    rw [ofNat_split a (by omega)]
    rfl
  | case3 a b =>
    have ha := a.toNat_lt
    have hb := b.toNat_lt
    rw [b64encode, b64decodeFrom_char (by omega)]
    simp only []
    rw [b64decodeFrom_char (by omega)]
    simp only []
    rw [b64decodeFrom_char (by omega)]
    simp only [b64decodeFrom, if_true]
    rw [ofNat_split a (by omega), ofNat_split b (by omega)]
    rfl
  | case4 a b c rest ih =>
    have ha := a.toNat_lt
    have hb := b.toNat_lt
    have hc := c.toNat_lt
    rw [b64encode, b64decodeFrom_char (by omega)]
    simp only []
    rw [b64decodeFrom_char (by omega)]
    simp only []
    rw [b64decodeFrom_char (by omega)]
    simp only []
    rw [b64decodeFrom_char (by omega)]
    simp only [ih, Option.map_some]
    rw [ofNat_split a (by omega), ofNat_split b (by omega), ofNat_split c (by omega)]

/-- The text is ASCII. -/
theorem b64encode_ascii (bytes : Bytes) : ∀ c ∈ b64encode bytes, c.toNat < 128 := by
  induction bytes using b64encode.induct with
  | case1 => exact fun c hc => absurd hc List.not_mem_nil
  | case2 a =>
    have ha := a.toNat_lt
    intro c hc
    simp only [b64encode, List.mem_cons, List.not_mem_nil, or_false] at hc
    rcases hc with rfl | rfl | rfl | rfl
    · exact (b64Char_spec (by omega)).1
    · exact (b64Char_spec (by omega)).1
    · decide
    · decide
  | case3 a b =>
    have ha := a.toNat_lt
    have hb := b.toNat_lt
    intro c hc
    simp only [b64encode, List.mem_cons, List.not_mem_nil, or_false] at hc
    rcases hc with rfl | rfl | rfl | rfl
    · exact (b64Char_spec (by omega)).1
    · exact (b64Char_spec (by omega)).1
    · exact (b64Char_spec (by omega)).1
    · decide
  | case4 a b d rest ih =>
    have ha := a.toNat_lt
    have hb := b.toNat_lt
    have hd := d.toNat_lt
    intro c hc
    simp only [b64encode, List.mem_cons] at hc
    rcases hc with rfl | rfl | rfl | rfl | hrest
    · exact (b64Char_spec (by omega)).1
    · exact (b64Char_spec (by omega)).1
    · exact (b64Char_spec (by omega)).1
    · exact (b64Char_spec (by omega)).1
    · exact ih c hrest

/-- Bytes are read back. -/
theorem b64decode_b64encode (bytes : Bytes) : b64decode (b64encode bytes) = some bytes := by
  have hascii : (b64encode bytes).all (fun c => c.toNat < 128) = true := by
    rw [List.all_eq_true]
    intro c hc
    exact decide_eq_true (b64encode_ascii bytes c hc)
  rw [b64decode, if_pos hascii, b64decodeFrom_b64encode]

end QuantumSentinel.Lib
