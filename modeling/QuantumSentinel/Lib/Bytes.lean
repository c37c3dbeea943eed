import Mathlib.Data.List.Basic
import Mathlib.Tactic.Positivity
import Mathlib.Tactic.Ring
import Mathlib.Tactic.Zify
import QuantumSentinel.Lib.PrefixCode

/-!
# Byte encodings

Little-endian integers of a fixed width, two's complement for the signed ones, and UTF-8 text.

Main results:

- Theorem `ofLeBytes_leBytes`: an unsigned integer of at most the width is read back.
- Theorem `ofLeInt_leInt`: a signed integer of at most the width is read back.
- Theorem `decodeUtf8_utf8`: text is read back.
- Theorem `utf8_of_decodeUtf8`: bytes that are read as a text are its bytes.
-/

namespace QuantumSentinel.Lib

/-- A byte string. -/
abbrev Bytes := List UInt8

/-! ## Integers -/

/-- The `width` low bytes of a number, the lowest first. -/
def leBytes : ℕ → ℕ → Bytes
  | 0, _ => []
  | width + 1, n => UInt8.ofNat n :: leBytes width (n / 256)

/-- The number little-endian bytes stand for. -/
def ofLeBytes : Bytes → ℕ
  | [] => 0
  | byte :: rest => byte.toNat + 256 * ofLeBytes rest

@[simp]
theorem length_leBytes (width n : ℕ) : (leBytes width n).length = width := by
  induction width generalizing n with
  | zero => rfl
  | succ width ih => rw [leBytes, List.length_cons, ih]

/-- The bytes keep a number modulo the width. -/
theorem ofLeBytes_leBytes_mod (width n : ℕ) : ofLeBytes (leBytes width n) = n % 256 ^ width := by
  induction width generalizing n with
  | zero => rw [leBytes, ofLeBytes, pow_zero, Nat.mod_one]
  | succ width ih =>
    have hbyte : (UInt8.ofNat n).toNat = n % 256 := UInt8.toNat_ofNat'
    rw [leBytes, ofLeBytes, ih, hbyte, pow_succ', Nat.mod_mul]

/-- A number that fits is read back. -/
theorem ofLeBytes_leBytes {width n : ℕ} (h : n < 256 ^ width) :
    ofLeBytes (leBytes width n) = n := by
  rw [ofLeBytes_leBytes_mod, Nat.mod_eq_of_lt h]

/-- Bytes stand for a number that fits. -/
theorem ofLeBytes_lt (bytes : Bytes) : ofLeBytes bytes < 256 ^ bytes.length := by
  induction bytes with
  | nil => exact Nat.one_pos
  | cons byte rest ih =>
    have hbyte : byte.toNat < 256 := byte.toNat_lt
    rw [ofLeBytes, List.length_cons, pow_succ']
    omega

/-- The bytes are the ones the number has. -/
theorem leBytes_ofLeBytes (bytes : Bytes) :
    leBytes bytes.length (ofLeBytes bytes) = bytes := by
  induction bytes with
  | nil => rfl
  | cons byte rest ih =>
    have hbyte : byte.toNat < 256 := byte.toNat_lt
    rw [ofLeBytes, List.length_cons, leBytes]
    congr 1
    · apply UInt8.toNat_inj.mp
      rw [UInt8.toNat_ofNat']
      omega
    · have hdiv : (byte.toNat + 256 * ofLeBytes rest) / 256 = ofLeBytes rest := by omega
      rw [hdiv, ih]

/-- Numbers of one width, one after another. -/
theorem leBytes_prefixFree (width : ℕ) :
    PrefixFree (fun n => n < 256 ^ width) (leBytes width) := by
  refine PrefixFree.of_length width (fun n _ => length_leBytes width n) fun a b ha hb heq => ?_
  have h := congrArg ofLeBytes heq
  rwa [ofLeBytes_leBytes ha, ofLeBytes_leBytes hb] at h

/-- Two's complement. -/
def leInt (width : ℕ) (n : ℤ) : Bytes :=
  leBytes width (n % 256 ^ width).toNat

/-- The integer that two's complement bytes stand for. -/
def ofLeInt (bytes : Bytes) : ℤ :=
  if 2 * ofLeBytes bytes < 256 ^ bytes.length then ofLeBytes bytes
  else (ofLeBytes bytes : ℤ) - 256 ^ bytes.length

@[simp]
theorem length_leInt (width : ℕ) (n : ℤ) : (leInt width n).length = width :=
  length_leBytes ..

/-- An integer that fits is read back. -/
theorem ofLeInt_leInt {width : ℕ} {n : ℤ} (hlow : -256 ^ width ≤ 2 * n)
    (hhigh : 2 * n < 256 ^ width) : ofLeInt (leInt width n) = n := by
  have hpos : (0 : ℤ) < 256 ^ width := by positivity
  have hmod : (n % 256 ^ width).toNat < 256 ^ width := by
    have := Int.emod_lt_of_pos n hpos
    have := Int.emod_nonneg n hpos.ne'
    zify
    omega
  have hcast : (((n % 256 ^ width).toNat : ℕ) : ℤ) = n % 256 ^ width :=
    Int.toNat_of_nonneg (Int.emod_nonneg n hpos.ne')
  rw [ofLeInt, leInt, ofLeBytes_leBytes hmod, length_leBytes, hcast]
  by_cases hn : 0 ≤ n
  · have hsame : n % 256 ^ width = n := Int.emod_eq_of_lt hn (by omega)
    rw [hsame, if_pos]
    zify
    omega
  · have hsame : n % 256 ^ width = n + 256 ^ width := by
      rw [← Int.add_emod_right, Int.emod_eq_of_lt (by omega) (by omega)]
    rw [hsame, if_neg]
    · ring
    · zify
      omega

/-- The bytes are the ones the integer has. -/
theorem leInt_ofLeInt (bytes : Bytes) : leInt bytes.length (ofLeInt bytes) = bytes := by
  have hlt : (ofLeBytes bytes : ℤ) < 256 ^ bytes.length := by exact_mod_cast ofLeBytes_lt bytes
  have hmod : ofLeInt bytes % 256 ^ bytes.length = ofLeBytes bytes := by
    unfold ofLeInt
    split
    · exact Int.emod_eq_of_lt (by omega) hlt
    · rw [Int.sub_emod_right]
      exact Int.emod_eq_of_lt (by omega) hlt
  rw [leInt, hmod, Int.toNat_natCast, leBytes_ofLeBytes]

/-! ## Text -/

/-- The UTF-8 bytes of a text. -/
def utf8 (s : String) : Bytes :=
  s.toList.flatMap String.utf8EncodeChar

/-- The text that bytes encode, if they are valid. -/
def decodeUtf8 (bytes : Bytes) : Option String :=
  bytes.toByteArray.utf8Decode?.map fun chars => String.ofList chars.toList

/-- Text is read back. -/
theorem decodeUtf8_utf8 (s : String) : decodeUtf8 (utf8 s) = some s := by
  have hbytes : (utf8 s).toByteArray = s.toList.utf8Encode := rfl
  rw [decodeUtf8, hbytes, List.utf8Decode?_utf8Encode]
  simp

theorem toByteArray_injective {a b : Bytes} (h : a.toByteArray = b.toByteArray) : a = b := by
  have hdata := congrArg (fun bytes => bytes.data.toList) h
  simpa using hdata

/-- The bytes of a decoded text are the ones that were decoded. -/
theorem utf8_of_decodeUtf8 {bytes : Bytes} {s : String} (h : decodeUtf8 bytes = some s) :
    utf8 s = bytes := by
  rcases Option.map_eq_some_iff.mp h with ⟨chars, hchars, rfl⟩
  have hsome : bytes.toByteArray.utf8Decode?.isSome = true := by
    rw [hchars]
    rfl
  have hget : bytes.toByteArray.utf8Decode?.get hsome = chars := by
    simp only [hchars, Option.get_some]
  have hencode := ByteArray.utf8Encode_get_utf8Decode? (h := hsome)
  rw [hget] at hencode
  apply toByteArray_injective
  rw [utf8, String.toList_ofList, ← hencode]
  rfl

/-- Text with the same bytes is the same. -/
theorem utf8_injective {s t : String} (h : utf8 s = utf8 t) : s = t := by
  have hread := decodeUtf8_utf8 s
  rw [h, decodeUtf8_utf8, Option.some.injEq] at hread
  exact hread.symm

/-- The UTF-8 bytes of some characters. -/
def encodeChars (chars : List Char) : Bytes :=
  chars.flatMap String.utf8EncodeChar

theorem utf8_ofList (chars : List Char) : utf8 (String.ofList chars) = encodeChars chars := by
  rw [utf8, String.toList_ofList, encodeChars]

theorem utf8_append (s t : String) : utf8 (s ++ t) = utf8 s ++ utf8 t := by
  rw [utf8, String.toList_append, List.flatMap_append]
  rfl

theorem encodeChars_injective {l l' : List Char} (h : encodeChars l = encodeChars l') :
    l = l' := by
  rw [← utf8_ofList, ← utf8_ofList] at h
  exact String.ofList_injective (utf8_injective h)

end QuantumSentinel.Lib
