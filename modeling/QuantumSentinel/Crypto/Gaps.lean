import Mathlib.Data.Finset.Sort
import Mathlib.Data.Int.ConditionallyCompleteOrder
import Mathlib.Data.Int.Range
import QuantumSentinel.Crypto.Channel

/-!
# Crypto: gaps in the numbers of a session

`check_gap` of an `AEADSession`: the numbers that are missing in front of a received one.
It looks above the largest number that was accepted only.

Main results:

- Definition `AeadSession.checkGap`: what the session reports.
- Theorem `checkGap_exact_iff`: when this is every number that was not accepted.
-/

namespace QuantumSentinel.Crypto
namespace AeadSession

open Lib

/-- `set(range(start, stop))` -/
def rangeSet (start stop : ℤ) : Finset ℤ :=
  (Int.range start stop).toFinset

@[simp]
theorem mem_rangeSet {start stop n : ℤ} : n ∈ rangeSet start stop ↔ start ≤ n ∧ n < stop := by
  rw [rangeSet, List.mem_toFinset, Int.mem_range_iff]

/-- `check_gap` -/
def checkGap (s : AeadSession) (receivedSeq : ℤ) : List ℤ :=
  if s.maxSeenSeq < 0 then []
  else (rangeSet (s.maxSeenSeq + 1) receivedSeq \ s.seenSeqs).sort (· ≤ ·)

/-- All numbers below a received one that were not accepted, in ascending order. -/
def notAccepted (accepted : List ℤ) (receivedSeq : ℤ) : List ℤ :=
  ((rangeSet 0 receivedSeq).filter (· ∉ accepted)).sort (· ≤ ·)

/-- What a session knows of the numbers it accepted: it has seen nothing else, and none is above the
largest, which is one of them. -/
structure Tracks (s : AeadSession) (accepted : List ℤ) : Prop where
  nonneg : ∀ n ∈ accepted, 0 ≤ n
  seen : ∀ n ∈ s.seenSeqs, n ∈ accepted
  le_max : ∀ n ∈ accepted, n ≤ s.maxSeenSeq
  max_mem : s.maxSeenSeq = -1 ∧ accepted = [] ∨ s.maxSeenSeq ∈ accepted

/-- Only numbers that can be packed are accepted. -/
theorem nonneg_of_buildAad {s : AeadSession} {seq : ℤ} {aad : Bytes}
    (h : s.buildAad seq = some aad) : 0 ≤ seq := by
  obtain ⟨packed, hpacked, -⟩ := Option.map_eq_some_iff.mp h
  cases seq with
  | ofNat n => exact Int.natCast_nonneg n
  | negSucc n => cases hpacked

theorem Tracks.note {s : AeadSession} {accepted : List ℤ} (h : s.Tracks accepted) {seq : ℤ}
    (hseq : 0 ≤ seq) : (s.note seq).Tracks (accepted ++ [seq]) where
  nonneg := by
    intro n hn
    rcases List.mem_append.mp hn with hold | hnew
    · exact h.nonneg n hold
    · rwa [List.mem_singleton.mp hnew]
  seen := by
    intro n hn
    have hinsert : n ∈ insert seq s.seenSeqs := by
      simp only [AeadSession.note] at hn
      split at hn
      · exact (Finset.mem_filter.mp hn).1
      · exact hn
    rcases Finset.mem_insert.mp hinsert with rfl | hold
    · simp
    · exact List.mem_append_left _ (h.seen n hold)
  le_max := by
    intro n hn
    simp only [AeadSession.note]
    rcases List.mem_append.mp hn with hold | hnew
    · have hle := h.le_max n hold
      split
      · omega
      · exact hle
    · rw [List.mem_singleton.mp hnew]
      split
      · exact le_rfl
      · omega
  max_mem := by
    right
    simp only [AeadSession.note]
    split
    · simp
    · rename_i hle
      rcases h.max_mem with ⟨hmax, -⟩ | hmem
      · omega
      · exact List.mem_append_left _ hmem

/-- A call keeps what the session knows of the accepted numbers. -/
theorem Tracks.call {s : AeadSession} {accepted : List ℤ} (h : s.Tracks accepted) (aead : Aead)
    (c : Call) : (s.call aead c).1.Tracks (accepted ++ (s.call aead c).2.toList) := by
  cases c with
  | encrypt nonce plaintext =>
    simp only [AeadSession.call, encrypt_snd, Option.toList_none, List.append_nil]
    exact ⟨h.nonneg, h.seen, h.le_max, h.max_mem⟩
  | decrypt envelope =>
    rcases houtcome : (s.decrypt aead envelope).1 with e | plaintext
    · have hcall : s.call aead (.decrypt envelope) = (s, none) := by
        rw [call_decrypt, houtcome, decrypt_eq_error houtcome]
        rfl
      rw [hcall]
      simpa using h
    · obtain ⟨-, -, hnext, aad, haad, -⟩ := decrypt_eq_ok houtcome
      have hcall : s.call aead (.decrypt envelope) =
          (s.note envelope.sequenceNumber, some envelope.sequenceNumber) := by
        rw [call_decrypt, houtcome, hnext]
        rfl
      rw [hcall]
      exact h.note (nonneg_of_buildAad haad)

/-- Whatever was called, a session knows the numbers it accepted. -/
theorem calls_tracks (aead : Aead) (sessionId : String) (encKey : Bytes) (before : List Call) :
    ((freshSession sessionId encKey).calls aead before).1.Tracks
      ((freshSession sessionId encKey).calls aead before).2 := by
  induction before using List.reverseRecOn with
  | nil =>
    exact
      { nonneg := fun n hn => by cases hn
        seen := fun n hn => by cases hn
        le_max := fun n hn => by cases hn
        max_mem := Or.inl ⟨rfl, rfl⟩ }
  | append_singleton before c ih =>
    rw [calls_concat]
    exact ih.call aead c

/-! ## What is reported -/

/-- Lists in ascending order are the same when their elements are. -/
theorem sort_eq_sort_iff {a b : Finset ℤ} : a.sort (· ≤ ·) = b.sort (· ≤ ·) ↔ a = b := by
  constructor
  · intro h
    rw [← a.sort_toFinset (· ≤ ·), h, b.sort_toFinset]
  · rintro rfl
    rfl

theorem rangeSet_eq_empty_iff {start stop : ℤ} : rangeSet start stop = ∅ ↔ stop ≤ start := by
  constructor
  · intro h
    by_contra hlt
    have hmem : start ∈ rangeSet start stop := mem_rangeSet.mpr ⟨le_rfl, not_le.mp hlt⟩
    rw [h] at hmem
    exact Finset.notMem_empty start hmem
  · intro h
    rw [Finset.eq_empty_iff_forall_notMem]
    intro n hn
    rw [mem_rangeSet] at hn
    omega

/-- When nothing was accepted, every number from zero on is missing. -/
theorem notAccepted_nil_iff (r : ℤ) : notAccepted [] r = [] ↔ r ≤ 0 := by
  have hall : (rangeSet 0 r).filter (· ∉ ([] : List ℤ)) = rangeSet 0 r :=
    Finset.filter_true_of_mem fun n _ => List.not_mem_nil
  rw [notAccepted, hall, ← List.length_eq_zero_iff, Finset.length_sort, Finset.card_eq_zero,
    rangeSet_eq_empty_iff]

/-- Nothing above the largest number was seen. -/
theorem Tracks.checkGap_eq {s : AeadSession} {accepted : List ℤ} (h : s.Tracks accepted) (r : ℤ) :
    s.checkGap r =
      if accepted = [] then [] else (rangeSet (s.maxSeenSeq + 1) r).sort (· ≤ ·) := by
  rcases h.max_mem with ⟨hmax, hnil⟩ | hmem
  · rw [checkGap, if_pos (by omega), if_pos hnil]
  · have hnonneg := h.nonneg _ hmem
    have hdisjoint : Disjoint (rangeSet (s.maxSeenSeq + 1) r) s.seenSeqs := by
      rw [Finset.disjoint_left]
      intro n hn hseen
      have hle := h.le_max n (h.seen n hseen)
      rw [mem_rangeSet] at hn
      omega
    rw [checkGap, if_neg (by omega), if_neg (List.ne_nil_of_mem hmem),
      Finset.sdiff_eq_self_of_disjoint hdisjoint]

/-- The report is exact if and only if nothing is missing below the largest accepted number, and a
session that has accepted nothing is not asked about a number above zero. -/
theorem Tracks.checkGap_eq_iff {s : AeadSession} {accepted : List ℤ} (h : s.Tracks accepted)
    (r : ℤ) :
    s.checkGap r = notAccepted accepted r ↔
      (accepted = [] → r ≤ 0) ∧ ∀ n, 0 ≤ n → n < r → ∀ m ∈ accepted, n < m → n ∈ accepted := by
  rw [h.checkGap_eq]
  rcases h.max_mem with ⟨-, hnil⟩ | hmem
  · subst hnil
    rw [if_pos rfl, eq_comm, notAccepted_nil_iff]
    constructor
    · intro hr
      exact ⟨fun _ => hr, fun n _ _ m hm => absurd hm List.not_mem_nil⟩
    · rintro ⟨hr, -⟩
      exact hr rfl
  · have hnonneg := h.nonneg _ hmem
    rw [if_neg (List.ne_nil_of_mem hmem), notAccepted, sort_eq_sort_iff, Finset.ext_iff]
    simp only [mem_rangeSet, Finset.mem_filter]
    constructor
    · intro hsame
      refine ⟨fun hnil => absurd hnil (List.ne_nil_of_mem hmem), ?_⟩
      intro n hn hr m hm hlt
      by_contra hmissing
      have habove := (hsame n).mpr ⟨⟨hn, hr⟩, hmissing⟩
      have hle := h.le_max m hm
      omega
    · rintro ⟨-, hfilled⟩ n
      constructor
      · rintro ⟨habove, hr⟩
        refine ⟨⟨by omega, hr⟩, fun hacc => ?_⟩
        have hle := h.le_max n hacc
        omega
      · rintro ⟨⟨hn, hr⟩, hmissing⟩
        refine ⟨?_, hr⟩
        by_contra hbelow
        rcases (show n ≤ s.maxSeenSeq by omega).eq_or_lt with heq | hlt
        · exact hmissing (heq ▸ hmem)
        · exact hmissing (hfilled n hn hr _ hmem hlt)

/-- After any calls, `check_gap` of a number reports exactly the numbers below it that were not
accepted if and only if something was accepted, or the number is not above zero, and each number
below it and below an accepted one was accepted. -/
theorem checkGap_exact_iff (aead : Aead) (sessionId : String) (encKey : Bytes)
    (before : List Call) (r : ℤ) :
    let reached := (freshSession sessionId encKey).calls aead before
    reached.1.checkGap r = notAccepted reached.2 r ↔
      (reached.2 = [] → r ≤ 0) ∧
        ∀ n, 0 ≤ n → n < r → ∀ m ∈ reached.2, n < m → n ∈ reached.2 :=
  (calls_tracks aead sessionId encKey before).checkGap_eq_iff r

/-- The message `sell`, number 2 of the session `s-1`, encrypted under the same key as the
message `buy` and the nonce of twelve twos. -/
def laterEnvelope : Envelope where
  sessionId := "s-1"
  sequenceNumber := 2
  nonce := List.replicate 12 2
  ciphertext :=
    [61, 24, 224, 186, 94, 230, 112, 113, 0, 170, 81, 67, 94, 120, 104, 5, 163, 213, 241, 96]

/-- AES-256-GCM and HKDF on these two messages. -/
def lossyAead : Aead where
  deriveKey _ := sampleKey
  encrypt _ _ plaintext _ :=
    if plaintext = [98, 117, 121] then sampleEnvelope.ciphertext else laterEnvelope.ciphertext
  decrypt? key nonce ciphertext aad :=
    if key = sampleKey ∧ nonce = laterEnvelope.nonce ∧ ciphertext = laterEnvelope.ciphertext ∧
        aad = [115, 45, 49, 0, 0, 0, 0, 0, 0, 0, 2]
    then some [115, 101, 108, 108] else sampleAead.decrypt? key nonce ciphertext aad

/-- The message between two accepted ones is lost, and no gap is reported. -/
theorem gap_unreported :
    let reached := (freshSession "s-1" sampleKey).calls lossyAead
      [.decrypt sampleEnvelope, .decrypt laterEnvelope]
    reached.2 = [0, 2] ∧ reached.1.checkGap 3 ≠ notAccepted reached.2 3 := by
  have hreached : ((freshSession "s-1" sampleKey).calls lossyAead
      [.decrypt sampleEnvelope, .decrypt laterEnvelope]).2 = [0, 2] := by
    decide +kernel
  refine ⟨hreached, fun hexact => ?_⟩
  rw [(calls_tracks lossyAead "s-1" sampleKey _).checkGap_eq_iff, hreached] at hexact
  have hone := hexact.2 1 (by decide) (by decide) 2 (by decide) (by decide)
  exact absurd hone (by decide)

end AeadSession
end QuantumSentinel.Crypto
