import QuantumSentinel.Lib.Bytes
import QuantumSentinel.Lib.Dict
import QuantumSentinel.Lib.Json
import QuantumSentinel.Lib.PrefixCode

/-!
# Hashes without collisions

A hash function given by its digests on some bytes, and continued without collisions.  It
stands for SHA-256 where a theorem about collision-free hashes is applied to known bytes.

Main results:

- Theorem `hexdigest_injective`: a digest is told by its text.
- Theorem `Digests.hash_injective`: no two byte strings have one hash.
-/

namespace QuantumSentinel.Lib

/-- The hexadecimal text of a digest of 32 bytes. -/
def hexdigest (n : ℕ) : String :=
  String.ofList ((leBytes 32 n).reverse.flatMap fun b =>
    [hexDigit (b.toNat / 16), hexDigit (b.toNat % 16)])

theorem length_hexdigest (n : ℕ) : (hexdigest n).toList.length = 64 := by
  have hpairs : ∀ digest : Bytes, (digest.flatMap fun b =>
      [hexDigit (b.toNat / 16), hexDigit (b.toNat % 16)]).length = 2 * digest.length := by
    intro digest
    induction digest with
    | nil => rfl
    | cons b rest ih =>
      rw [List.flatMap_cons, List.length_append, ih, List.length_cons]
      simp only [List.length_cons, List.length_nil]
      omega
  rw [hexdigest, String.toList_ofList, hpairs, List.length_reverse, length_leBytes]

theorem hexdigest_injective {m n : ℕ} (hm : m < 2 ^ 256) (hn : n < 2 ^ 256)
    (h : hexdigest m = hexdigest n) : m = n := by
  have hbyte : PrefixFree (fun _ : UInt8 => True) fun b =>
      [hexDigit (b.toNat / 16), hexDigit (b.toNat % 16)] := by
    refine PrefixFree.of_length 2 (fun _ _ => rfl) fun a b _ _ hab => ?_
    have ha := a.toNat_lt
    have hb := b.toNat_lt
    rw [List.cons.injEq, List.cons.injEq] at hab
    have hhigh := congrArg readHex hab.1
    have hlow := congrArg readHex hab.2.1
    rw [readHex_hexDigit (by omega), readHex_hexDigit (by omega), Option.some.injEq] at hhigh hlow
    exact UInt8.toNat_inj.mp (by omega)
  have hbytes := hbyte.flatMap (fun _ _ => trivial) (fun _ _ => trivial)
    (by rw [List.length_reverse, List.length_reverse, length_leBytes, length_leBytes])
    (congrArg (· ++ []) (String.ofList_injective h))
  have hread := congrArg ofLeBytes (List.reverse_injective hbytes.1)
  rwa [ofLeBytes_leBytes (by omega), ofLeBytes_leBytes (by omega)] at hread

/-- Digests of some byte strings. -/
structure Digests where
  table : List (Bytes × ℕ)
  nodup : (table.map Prod.snd).Nodup
  small : ∀ n ∈ table.map Prod.snd, n < 2 ^ 256

namespace Digests

variable (digests : Digests)

/-- The hash. -/
def hash (bytes : Bytes) : String :=
  match Dict.lookup bytes digests.table with
  | some digest => hexdigest digest
  | none => String.ofList ('-' :: bytes.map fun b => Char.ofNat b.toNat)

/-- The hash of a listed byte string. -/
theorem hash_of_mem (hkeys : (digests.table.map Prod.fst).Nodup) {bytes : Bytes} {digest : ℕ}
    (h : (bytes, digest) ∈ digests.table) : digests.hash bytes = hexdigest digest := by
  rw [hash, Dict.lookup_of_mem hkeys h]

/-- A hash is a text. -/
theorem hash_ne_empty (bytes : Bytes) : digests.hash bytes ≠ "" := by
  intro h
  have hlength := congrArg (fun s => s.toList.length) h
  unfold hash at hlength
  split at hlength
  · rw [length_hexdigest] at hlength
    cases hlength
  · rw [String.toList_ofList] at hlength
    cases hlength

/-- A table of values without repeats, continued by texts of another first character. -/
theorem hash_injective (a b : Bytes) (h : digests.hash a = digests.hash b) : a = b := by
  have hcode : ∀ x y : UInt8, Char.ofNat x.toNat = Char.ofNat y.toNat → x = y := by
    intro x y hxy
    have hread : ∀ n < 256, (Char.ofNat n).toNat = n := by decide +kernel
    have hnat := congrArg Char.toNat hxy
    rw [hread _ x.toNat_lt, hread _ y.toNat_lt] at hnat
    exact UInt8.toNat_inj.mp hnat
  have hother : ∀ (n : ℕ) (bytes : Bytes),
      hexdigest n ≠ String.ofList ('-' :: bytes.map fun b => Char.ofNat b.toNat) := by
    intro n bytes hsame
    have hfirst : ∀ d < 16, hexDigit d ≠ '-' := by decide
    have htexts := String.ofList_injective hsame
    generalize hdigest : (leBytes 32 n).reverse = digest at htexts
    cases digest with
    | nil =>
      have hlength := congrArg List.length hdigest
      rw [List.length_reverse, length_leBytes] at hlength
      cases hlength
    | cons c rest =>
      have hc := c.toNat_lt
      exact hfirst (c.toNat / 16) (by omega) (List.cons.inj htexts).1
  unfold hash at h
  split at h
  · rename_i digest hdigest
    have hmem := Dict.mem_of_lookup hdigest
    split at h
    · rename_i digest' hdigest'
      have hmem' := Dict.mem_of_lookup hdigest'
      have hsame := hexdigest_injective (digests.small digest (List.mem_map_of_mem hmem))
        (digests.small digest' (List.mem_map_of_mem hmem')) h
      exact congrArg Prod.fst (List.inj_on_of_nodup_map digests.nodup hmem hmem' hsame)
    · exact absurd h (hother digest b)
  · split at h
    · rename_i digest' hdigest'
      exact absurd h.symm (hother digest' a)
    · have htexts := (List.cons.inj (String.ofList_injective h)).2
      apply List.map_injective_iff.mpr _ htexts
      intro x y hxy
      exact hcode x y hxy

end Digests

end QuantumSentinel.Lib
