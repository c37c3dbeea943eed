import Mathlib.Data.List.Lex
import Mathlib.Data.String.Basic

/-!
# Texts inside JSON

A text between quotes, as `json.dumps` escapes it and `json.loads` reads it back.  A
Python text may hold surrogates, and the reader joins a high one with a low one behind it; a
text that was read is therefore kept as its UTF-16 code units, where a pair is one character.

Main results:

- Definition `WideText`: a text as it is read back, in the order of its code points.
- Theorem `JsonText.readString_body`: an escaped text is read back.
- Theorem `JsonText.cancel`: an escaped text can be told from what follows its quote.

Current gaps:

- Surrogates that stand unescaped in a text.
-/

namespace QuantumSentinel.Lib

/-! ## Code units -/

/-- The UTF-16 code units of a code point. -/
def codeUnits (c : ℕ) : List UInt16 :=
  if c < 65536 then [.ofNat c]
  else [.ofNat (0xD800 + (c - 65536) / 1024), .ofNat (0xDC00 + (c - 65536) % 1024)]

/-- Whether two code units are a surrogate pair. -/
def IsPair (high low : UInt16) : Prop :=
  (0xD800 ≤ high.toNat ∧ high.toNat < 0xDC00) ∧ 0xDC00 ≤ low.toNat ∧ low.toNat < 0xE000

instance (high low : UInt16) : Decidable (IsPair high low) :=
  inferInstanceAs (Decidable (_ ∧ _))

/-- The code points of some code units. -/
def codePoints : List UInt16 → List ℕ
  | [] => []
  | [unit] => [unit.toNat]
  | high :: low :: rest =>
    if IsPair high low then
      (65536 + 1024 * (high.toNat - 0xD800) + (low.toNat - 0xDC00)) :: codePoints rest
    else high.toNat :: codePoints (low :: rest)

theorem codeUnits_toNat (unit : UInt16) : codeUnits unit.toNat = [unit] := by
  rw [codeUnits, if_pos unit.toNat_lt, UInt16.ofNat_toNat]

theorem toNat_ofNat_unit {n : ℕ} (hn : n < 65536) : (UInt16.ofNat n).toNat = n := by
  rw [UInt16.toNat_ofNat']
  exact Nat.mod_eq_of_lt hn

/-- Code units are those of their code points. -/
theorem flatMap_codePoints (units : List UInt16) :
    (codePoints units).flatMap codeUnits = units := by
  induction units using codePoints.induct with
  | case1 => rfl
  | case2 unit => exact (List.append_nil _).trans (codeUnits_toNat unit)
  | case3 high low rest hpair ih =>
    have hhigh : 0xD800 + (65536 + 1024 * (high.toNat - 0xD800) + (low.toNat - 0xDC00) - 65536) /
        1024 = high.toNat := by
      unfold IsPair at hpair
      omega
    have hlow : 0xDC00 + (65536 + 1024 * (high.toNat - 0xD800) + (low.toNat - 0xDC00) - 65536) %
        1024 = low.toNat := by
      unfold IsPair at hpair
      omega
    rw [codePoints, if_pos hpair, List.flatMap_cons, ih, codeUnits, if_neg (by omega), hhigh, hlow,
      UInt16.ofNat_toNat, UInt16.ofNat_toNat]
    rfl
  | case4 high low rest hpair ih =>
    rw [codePoints, if_neg hpair, List.flatMap_cons, ih, codeUnits_toNat]
    rfl

/-- A character in front of other code units is the first of their code points. -/
theorem codePoints_char (c : Char) (rest : List UInt16) :
    codePoints (codeUnits c.toNat ++ rest) = c.toNat :: codePoints rest := by
  have hvalid : c.toNat < 0xD800 ∨ 0xDFFF < c.toNat ∧ c.toNat < 1114112 := c.valid
  by_cases hplane : c.toNat < 65536
  · have hunit := toNat_ofNat_unit hplane
    rw [codeUnits, if_pos hplane, List.singleton_append]
    cases rest with
    | nil => rw [codePoints, codePoints, hunit]
    | cons low rest =>
      rw [codePoints, if_neg, hunit]
      unfold IsPair
      omega
  · have hhigh := @toNat_ofNat_unit (0xD800 + (c.toNat - 65536) / 1024) (by omega)
    have hlow := @toNat_ofNat_unit (0xDC00 + (c.toNat - 65536) % 1024) (by omega)
    have hpair : IsPair (.ofNat (0xD800 + (c.toNat - 65536) / 1024))
        (.ofNat (0xDC00 + (c.toNat - 65536) % 1024)) := by
      unfold IsPair
      omega
    rw [codeUnits, if_neg hplane, List.cons_append, List.singleton_append, codePoints, if_pos hpair,
      hhigh, hlow, List.cons.injEq]
    exact ⟨by omega, rfl⟩

/-- A Python text as `json.loads` gives it back. -/
structure WideText where
  units : List UInt16
deriving DecidableEq

namespace WideText

theorem codePoints_injective : Function.Injective fun s : WideText => codePoints s.units := by
  rintro ⟨units⟩ ⟨units'⟩ h
  have hunits := congrArg (List.flatMap codeUnits) h
  simp only [flatMap_codePoints] at hunits
  rw [hunits]

/-- Texts are ordered by their code points. -/
instance : LinearOrder WideText :=
  LinearOrder.lift' (fun s => codePoints s.units) codePoints_injective

end WideText

/-! ## Escaping -/

/-- One hexadecimal digit. -/
def hexDigit (d : ℕ) : Char :=
  if d < 10 then Char.ofNat (48 + d) else Char.ofNat (87 + d)

/-- An escaped code unit. -/
def escapeUnit (n : ℕ) : List Char :=
  ['\\', 'u', hexDigit (n / 4096), hexDigit (n / 256 % 16), hexDigit (n / 16 % 16),
    hexDigit (n % 16)]

/-- A character inside a string. -/
def escape (ensureAscii : Bool) (c : Char) : List Char :=
  if c = '"' then ['\\', '"']
  else if c = '\\' then ['\\', '\\']
  else if c = '\n' then ['\\', 'n']
  else if c = '\r' then ['\\', 'r']
  else if c = '\t' then ['\\', 't']
  else if c = '\x0c' then ['\\', 'f']
  else if c = '\x08' then ['\\', 'b']
  else if c.toNat < 32 then escapeUnit c.toNat
  else if ensureAscii = false ∨ c.toNat < 127 then [c]
  else (codeUnits c.toNat).flatMap fun unit => escapeUnit unit.toNat

/-- A code unit inside a string of ASCII characters. -/
def escapeWide (unit : UInt16) : List Char :=
  if unit.toNat < 127 then escape true (Char.ofNat unit.toNat) else escapeUnit unit.toNat

/-! ## Reading -/

/-- The value of a hexadecimal digit. -/
def readHex (c : Char) : Option ℕ :=
  if c.isDigit then some (c.toNat - 48)
  else if 'a' ≤ c ∧ c ≤ 'f' then some (c.toNat - 87)
  else if 'A' ≤ c ∧ c ≤ 'F' then some (c.toNat - 55)
  else none

/-- A code unit of four digits. -/
def readUnit : List Char → Option (UInt16 × List Char)
  | a :: b :: c :: d :: rest => do
      let a ← readHex a
      let b ← readHex b
      let c ← readHex c
      let d ← readHex d
      some (.ofNat (4096 * a + 256 * b + 16 * c + d), rest)
  | _ => none

/-- What stands behind a backslash. -/
def readEscape : List Char → Option (UInt16 × List Char)
  | '"' :: rest => some (34, rest)
  | '\\' :: rest => some (92, rest)
  | '/' :: rest => some (47, rest)
  | 'b' :: rest => some (8, rest)
  | 'f' :: rest => some (12, rest)
  | 'n' :: rest => some (10, rest)
  | 'r' :: rest => some (13, rest)
  | 't' :: rest => some (9, rest)
  | 'u' :: rest => readUnit rest
  | _ => none

/-- What stands for the next code units of a string. -/
def readChar : List Char → Option (List UInt16 × List Char)
  | '\\' :: rest => (readEscape rest).map fun read => ([read.1], read.2)
  | c :: rest => if c.toNat < 32 then none else some (codeUnits c.toNat, rest)
  | [] => none

/-- The code units up to the quote. -/
def readChars : ℕ → List Char → Option (List UInt16 × List Char)
  | 0, _ => none
  | _ + 1, '"' :: rest => some ([], rest)
  | fuel + 1, text => do
      let (units, rest) ← readChar text
      let (more, rest) ← readChars fuel rest
      some (units ++ more, rest)

/-- The string behind a quote. -/
def readString (text : List Char) : Option (WideText × List Char) := do
  let (units, rest) ← readChars (text.length + 1) text
  some (⟨units⟩, rest)

/-! ## Reading back -/

/-- Escaped code units: every piece is read in one step and does not look like the end. -/
inductive Escapes : List Char → List UInt16 → Prop
  | nil : Escapes [] []
  | cons {c : Char} {tail text : List Char} {units more : List UInt16} (quote : c ≠ '"')
      (reads : ∀ rest, readChar (c :: tail ++ rest) = some (units, rest))
      (later : Escapes text more) : Escapes (c :: tail ++ text) (units ++ more)

namespace Escapes

theorem single {c : Char} {tail : List Char} {units : List UInt16} (quote : c ≠ '"')
    (reads : ∀ rest, readChar (c :: tail ++ rest) = some (units, rest)) :
    Escapes (c :: tail) units := by
  have hall := Escapes.cons quote reads .nil
  rwa [List.append_nil, List.append_nil] at hall

theorem append {text text' : List Char} {units units' : List UInt16} (h : Escapes text units)
    (h' : Escapes text' units') : Escapes (text ++ text') (units ++ units') := by
  induction h with
  | nil => exact h'
  | cons quote reads _ ih =>
    rw [List.append_assoc, List.append_assoc]
    exact .cons quote reads ih

theorem flatMap {α : Type} {text : α → List Char} {units : α → List UInt16}
    (h : ∀ a, Escapes (text a) (units a)) (as : List α) :
    Escapes (as.flatMap text) (as.flatMap units) := by
  induction as with
  | nil => exact .nil
  | cons a rest ih =>
    rw [List.flatMap_cons, List.flatMap_cons]
    exact (h a).append ih

/-- Escaped code units are read back up to the quote. -/
theorem readChars {text : List Char} {units : List UInt16} (h : Escapes text units)
    (rest : List Char) {fuel : ℕ} (hfuel : text.length < fuel) :
    readChars fuel (text ++ '"' :: rest) = some (units, rest) := by
  induction h generalizing fuel with
  | nil =>
    obtain ⟨fuel, rfl⟩ := Nat.exists_eq_succ_of_ne_zero (Nat.ne_of_gt hfuel)
    rfl
  | @cons c tail text units more quote reads _ ih =>
    obtain ⟨fuel, rfl⟩ := Nat.exists_eq_succ_of_ne_zero (Nat.ne_of_gt (Nat.zero_lt_of_lt hfuel))
    have hmore := @ih fuel (by rw [List.length_append, List.length_cons] at hfuel; omega)
    have hpiece := reads (text ++ '"' :: rest)
    rw [List.append_assoc]
    rw [List.cons_append] at hpiece ⊢
    rw [Lib.readChars]
    · exact Option.bind_eq_some_iff.mpr ⟨_, hpiece, Option.bind_eq_some_iff.mpr ⟨_, hmore, rfl⟩⟩
    · exact fun _ heq => quote (List.cons.inj heq).1

end Escapes

/-- A digit is read back. -/
theorem readHex_hexDigit {d : ℕ} (hd : d < 16) : readHex (hexDigit d) = some d := by
  have hall : ∀ d < 16, readHex (hexDigit d) = some d := by decide
  exact hall d hd

/-- An escaped code unit is read back. -/
theorem escapes_unit {n : ℕ} (hn : n < 65536) : Escapes (escapeUnit n) [.ofNat n] := by
  have hsum : 4096 * (n / 4096) + 256 * (n / 256 % 16) + 16 * (n / 16 % 16) + n % 16 = n := by
    omega
  refine .single (by decide) fun rest => ?_
  simp only [List.cons_append, List.nil_append, readChar, readEscape]
  rw [readUnit, readHex_hexDigit (by omega), readHex_hexDigit (by omega),
    readHex_hexDigit (by omega), readHex_hexDigit (by omega)]
  simp only [Option.bind_eq_bind, Option.bind_some, hsum, Option.map_some]

/-- What stands for a character is read back. -/
theorem escapes_escape (ensureAscii : Bool) (c : Char) :
    Escapes (escape ensureAscii c) (codeUnits c.toNat) := by
  unfold escape
  by_cases hquote : c = '"'
  · rw [if_pos hquote, hquote]
    exact .single (by decide) fun _ => rfl
  by_cases hslash : c = '\\'
  · rw [if_neg hquote, if_pos hslash, hslash]
    exact .single (by decide) fun _ => rfl
  rw [if_neg hquote, if_neg hslash]
  split
  · subst_vars
    exact .single (by decide) fun _ => rfl
  split
  · subst_vars
    exact .single (by decide) fun _ => rfl
  split
  · subst_vars
    exact .single (by decide) fun _ => rfl
  split
  · subst_vars
    exact .single (by decide) fun _ => rfl
  split
  · subst_vars
    exact .single (by decide) fun _ => rfl
  split
  · rw [codeUnits, if_pos (by omega)]
    exact escapes_unit (by omega)
  · rename_i hcontrol
    split
    · -- the character itself, which is no backslash
      refine .single hquote fun rest => ?_
      rw [List.singleton_append, readChar, if_neg hcontrol]
      exact hslash
    · have hflat := Escapes.flatMap (fun unit : UInt16 => escapes_unit unit.toNat_lt)
        (codeUnits c.toNat)
      simpa only [UInt16.ofNat_toNat, List.flatMap_singleton'] using hflat

theorem escapes_escapeWide (unit : UInt16) : Escapes (escapeWide unit) [unit] := by
  unfold escapeWide
  split
  · rename_i hascii
    have hall : ∀ n < 127, (Char.ofNat n).toNat = n := by decide
    have hchar := escapes_escape true (Char.ofNat unit.toNat)
    rwa [hall _ hascii, codeUnits_toNat] at hchar
  · have hunit := escapes_unit unit.toNat_lt
    rwa [UInt16.ofNat_toNat] at hunit

/-! ## Texts -/

/-- A type of texts that `json.dumps` takes. -/
class JsonText (T : Type) where
  /-- what stands between the quotes, with `ensure_ascii` or without -/
  body : Bool → T → List Char
  /-- the text as it is read back -/
  wide : T → WideText
  escapes : ∀ ensureAscii s, Escapes (body ensureAscii s) (wide s).units
  wide_injective : Function.Injective wide

/-- A text of Unicode characters. -/
instance : JsonText String where
  body ensureAscii s := s.toList.flatMap (escape ensureAscii)
  wide s := ⟨s.toList.flatMap fun c => codeUnits c.toNat⟩
  escapes ensureAscii s := Escapes.flatMap (escapes_escape ensureAscii) s.toList
  wide_injective := by
    have hread : ∀ cs : List Char,
        codePoints (cs.flatMap fun c => codeUnits c.toNat) = cs.map Char.toNat := by
      intro cs
      induction cs with
      | nil => rfl
      | cons c rest ih => rw [List.flatMap_cons, codePoints_char, ih, List.map_cons]
    intro s t h
    have hcodes := congrArg (fun w : WideText => codePoints w.units) h
    simp only [hread] at hcodes
    exact String.toList_inj.mp
      (List.map_injective_iff.mpr (fun _ _ hchar => Char.toNat_inj.mp hchar) hcodes)

/-- A text that may hold surrogates; it is only written with `ensure_ascii`. -/
instance : JsonText WideText where
  body _ s := s.units.flatMap escapeWide
  wide s := s
  escapes _ s := by
    have hflat := Escapes.flatMap escapes_escapeWide s.units
    rwa [List.flatMap_singleton'] at hflat
  wide_injective := Function.injective_id

namespace JsonText

variable {T : Type} [JsonText T] (ensureAscii : Bool)

@[simp]
theorem wide_inj {s t : T} : wide s = wide t ↔ s = t :=
  wide_injective.eq_iff

/-- An escaped text is read back. -/
theorem readString_body (s : T) (rest : List Char) :
    readString (body ensureAscii s ++ '"' :: rest) = some (wide s, rest) := by
  have hfuel : (body ensureAscii s).length < (body ensureAscii s ++ '"' :: rest).length + 1 := by
    rw [List.length_append]
    omega
  have hread := (escapes ensureAscii s).readChars rest hfuel
  exact Option.bind_eq_some_iff.mpr ⟨_, hread, rfl⟩

/-- An escaped text can be told from what follows its quote. -/
theorem cancel {s t : T} {x y : List Char}
    (h : body ensureAscii s ++ '"' :: x = body ensureAscii t ++ '"' :: y) : s = t ∧ x = y := by
  have hread := readString_body ensureAscii s x
  rw [h, readString_body, Option.some.injEq, Prod.mk.injEq] at hread
  exact ⟨(wide_injective hread.1).symm, hread.2.symm⟩

end JsonText

end QuantumSentinel.Lib
