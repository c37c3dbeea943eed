import Mathlib.Data.Finset.Basic
import Mathlib.Data.Finset.Card
import Mathlib.Logic.Function.Basic
import QuantumSentinel.Lib.Bytes
import QuantumSentinel.Lib.Transition

/-!
# Crypto: messages of a session

An `AEADSession` encrypts messages under one key, numbers them, and refuses numbers it has
seen and numbers more than a thousand below the largest.  The set of seen numbers is pruned to
that window once it is large.

Main results:

- Definition `AeadSession.decrypt`: the checks of a received envelope.
- Theorem `aead_replay_protection`: no number is accepted twice, and a call that raises
  changes nothing.
- Theorem `buildAad_injective`: what is authenticated with a message gives its number.

Current gaps:

- Sequence numbers that are no integers, which `struct.pack` refuses.
-/

namespace QuantumSentinel.Crypto

open Lib

/-! ## Sessions -/

/-- `AEADEnvelope`; the tag is part of the ciphertext. -/
structure Envelope where
  sessionId : String
  sequenceNumber : ℤ
  nonce : Bytes
  ciphertext : Bytes
deriving DecidableEq

/-- AES-GCM under a derived key; decryption has no result where it raises. -/
structure Aead where
  /-- `HKDF(...).derive` -/
  deriveKey : Bytes → Bytes
  encrypt : (key nonce plaintext aad : Bytes) → Bytes
  decrypt? : (key nonce ciphertext aad : Bytes) → Option Bytes

/-- How a call fails. -/
inductive AeadError
  /-- `ReplayError` -/
  | replay (detail : String)
  /-- `AuthenticationError` -/
  | authentication (detail : String)
  /-- `struct.error` -/
  | packing
  /-- `ValueError` -/
  | value (detail : String)
deriving DecidableEq

/-- `AEADSession` -/
structure AeadSession where
  sessionId : String
  encKey : Bytes
  sendSeq : ℕ
  seenSeqs : Finset ℤ
  maxSeenSeq : ℤ

/-- A session that has neither sent nor received. -/
def freshSession (sessionId : String) (encKey : Bytes) : AeadSession :=
  ⟨sessionId, encKey, 0, ∅, -1⟩

/-- `struct.pack(">Q", seq)` -/
def packSequence : ℤ → Option Bytes
  | .ofNat n => if n < 2 ^ 64 then some (leBytes 8 n).reverse else none
  | .negSucc _ => none

/-- The packed form gives the number back. -/
theorem packSequence_injective {a b : ℤ} {packed : Bytes} (ha : packSequence a = some packed)
    (hb : packSequence b = some packed) : a = b := by
  have read : ∀ {n : ℤ}, packSequence n = some packed →
      0 ≤ n ∧ n.toNat = ofLeBytes packed.reverse := by
    intro n hn
    cases n with
    | ofNat n =>
      simp only [packSequence] at hn
      split at hn
      · rename_i hsmall
        cases hn
        rw [List.reverse_reverse, ofLeBytes_leBytes (by norm_num at hsmall ⊢; exact hsmall)]
        exact ⟨Int.natCast_nonneg n, rfl⟩
      · cases hn
    | negSucc n => cases hn
  have hnonneg := (read ha).1
  have hnonneg' := (read hb).1
  have hsame := (read ha).2.trans (read hb).2.symm
  omega

namespace AeadSession

variable (s : AeadSession)

/-- `_build_aad` -/
def buildAad (seq : ℤ) : Option Bytes :=
  (packSequence seq).map (utf8 s.sessionId ++ ·)

/-- What is authenticated with a message of a session gives the number of the message. -/
theorem buildAad_injective {s t : AeadSession} (hid : s.sessionId = t.sessionId) {a b : ℤ}
    {aad : Bytes} (ha : s.buildAad a = some aad) (hb : t.buildAad b = some aad) : a = b := by
  obtain ⟨packed, hpacked, rfl⟩ := Option.map_eq_some_iff.mp ha
  obtain ⟨packed', hpacked', heq⟩ := Option.map_eq_some_iff.mp hb
  rw [hid] at heq
  cases List.append_cancel_left heq
  exact packSequence_injective hpacked hpacked'

/-- `encrypt` with the nonce that is drawn. -/
def encrypt (aead : Aead) (nonce plaintext : Bytes) : Except AeadError Envelope × AeadSession :=
  let next := { s with sendSeq := s.sendSeq + 1 }
  match s.buildAad s.sendSeq with
  | none => (.error .packing, next)
  | some aad =>
    (.ok ⟨s.sessionId, s.sendSeq, nonce, aead.encrypt s.encKey nonce plaintext aad⟩, next)

/-- The session that has seen one more number. -/
def note (seq : ℤ) : AeadSession :=
  let seen := insert seq s.seenSeqs
  let largest := if s.maxSeenSeq < seq then seq else s.maxSeenSeq
  { s with
    seenSeqs := if 2000 < seen.card then seen.filter (largest - 1000 ≤ ·) else seen
    maxSeenSeq := largest }

/-- `decrypt` -/
def decrypt (aead : Aead) (envelope : Envelope) : Except AeadError Bytes × AeadSession :=
  let seq := envelope.sequenceNumber
  if seq ∈ s.seenSeqs then
    (.error (.replay s!"Sequence {seq} already received (replay)"), s)
  else if seq < s.maxSeenSeq - 1000 then
    (.error (.replay s!"Sequence {seq} is too old (max seen: {s.maxSeenSeq})"), s)
  else
    match s.buildAad seq with
    | none => (.error .packing, s)
    | some aad =>
      match aead.decrypt? s.encKey envelope.nonce envelope.ciphertext aad with
      | none => (.error (.authentication "AEAD decryption/authentication failed"), s)
      | some plaintext => (.ok plaintext, s.note seq)

/-! ## One endpoint -/

/-- An accepted envelope: its number is new, it is authentic, and the number is noted. -/
theorem decrypt_eq_ok {s : AeadSession} {aead : Aead} {envelope : Envelope} {plaintext : Bytes}
    (h : (s.decrypt aead envelope).1 = .ok plaintext) :
    envelope.sequenceNumber ∉ s.seenSeqs ∧ s.maxSeenSeq - 1000 ≤ envelope.sequenceNumber ∧
      (s.decrypt aead envelope).2 = s.note envelope.sequenceNumber ∧
        ∃ aad, s.buildAad envelope.sequenceNumber = some aad ∧
          aead.decrypt? s.encKey envelope.nonce envelope.ciphertext aad = some plaintext := by
  simp only [decrypt] at h ⊢
  split at h
  · cases h
  · rename_i hnew
    split at h
    · cases h
    · rename_i hwindow
      split at h
      · cases h
      · rename_i aad haad
        split at h
        · cases h
        · rename_i opened hopen
          cases h
          refine ⟨hnew, not_lt.mp hwindow, ?_, aad, haad, hopen⟩
          rw [if_neg hnew, if_neg hwindow]

/-- A call that raises changes nothing. -/
theorem decrypt_eq_error {s : AeadSession} {aead : Aead} {envelope : Envelope} {e : AeadError}
    (h : (s.decrypt aead envelope).1 = .error e) : (s.decrypt aead envelope).2 = s := by
  simp only [decrypt] at h ⊢
  split
  · rfl
  · rename_i hnew
    rw [if_neg hnew] at h
    split
    · rfl
    · rename_i hwindow
      rw [if_neg hwindow] at h
      split
      · rfl
      · rename_i aad haad
        rw [haad] at h
        split
        · rfl
        · rename_i plaintext hopen
          simp only [hopen] at h
          cases h

/-- Numbers that were accepted are in the set or below the window. -/
def Remembers (s : AeadSession) (accepted : List ℤ) : Prop :=
  ∀ n ∈ accepted, n ≤ s.maxSeenSeq ∧ (n ∈ s.seenSeqs ∨ n < s.maxSeenSeq - 1000)

/-- A number that passes the checks was not accepted before. -/
theorem Remembers.notMem {s : AeadSession} {accepted : List ℤ} (h : s.Remembers accepted)
    {seq : ℤ}
    (hnew : seq ∉ s.seenSeqs) (hwindow : s.maxSeenSeq - 1000 ≤ seq) : seq ∉ accepted := by
  intro hmem
  rcases (h seq hmem).2 with hseen | hold
  · exact hnew hseen
  · omega

/-- Pruning drops numbers below the window only. -/
theorem Remembers.note {s : AeadSession} {accepted : List ℤ} (h : s.Remembers accepted)
    (seq : ℤ) :
    (s.note seq).Remembers (accepted ++ [seq]) := by
  have hlargest : s.maxSeenSeq ≤ (s.note seq).maxSeenSeq ∧ seq ≤ (s.note seq).maxSeenSeq := by
    simp only [AeadSession.note]
    split <;> omega
  have hseen : ∀ n ∈ insert seq s.seenSeqs,
      n ∈ (s.note seq).seenSeqs ∨ n < (s.note seq).maxSeenSeq - 1000 := by
    intro n hn
    rcases lt_or_ge n ((s.note seq).maxSeenSeq - 1000) with hold | hkept
    · exact .inr hold
    · left
      simp only [AeadSession.note] at hkept ⊢
      split
      · exact Finset.mem_filter.mpr ⟨hn, hkept⟩
      · exact hn
  intro n hn
  rcases List.mem_append.mp hn with hold | hnew
  · rcases h n hold with ⟨hle, hmem | hbelow⟩
    · exact ⟨hle.trans hlargest.1, hseen n (Finset.mem_insert_of_mem hmem)⟩
    · exact ⟨hle.trans hlargest.1, .inr (by omega)⟩
  · rw [List.mem_singleton] at hnew
    subst hnew
    exact ⟨hlargest.2, hseen n (Finset.mem_insert_self ..)⟩

/-- A call of one endpoint. -/
inductive Call
  | encrypt (nonce plaintext : Bytes)
  | decrypt (envelope : Envelope)

/-- What a call does: the session after it, and the number it accepts. -/
def call (aead : Aead) (s : AeadSession) : Call → AeadSession × Option ℤ
  | .encrypt nonce plaintext => ((s.encrypt aead nonce plaintext).2, none)
  | .decrypt envelope =>
    let outcome := s.decrypt aead envelope
    (outcome.2, outcome.1.toOption.map fun _ => envelope.sequenceNumber)

theorem call_decrypt (aead : Aead) (s : AeadSession) (envelope : Envelope) :
    s.call aead (.decrypt envelope) =
      ((s.decrypt aead envelope).2,
        (s.decrypt aead envelope).1.toOption.map fun _ => envelope.sequenceNumber) :=
  rfl

/-- Calls one after the other: the session after them, and the numbers accepted, in order. -/
def calls (aead : Aead) (s : AeadSession) (calls : List Call) : AeadSession × List ℤ :=
  calls.foldl (fun before c =>
    ((call aead before.1 c).1, before.2 ++ (call aead before.1 c).2.toList)) (s, [])

/-- Encrypting advances the counter of sent messages only. -/
theorem encrypt_snd (s : AeadSession) (aead : Aead) (nonce plaintext : Bytes) :
    (s.encrypt aead nonce plaintext).2 = { s with sendSeq := s.sendSeq + 1 } := by
  cases haad : s.buildAad s.sendSeq with
  | none => simp only [encrypt, haad]
  | some aad => simp only [encrypt, haad]

@[simp]
theorem remembers_sent (s : AeadSession) (n : ℕ) (accepted : List ℤ) :
    { s with sendSeq := n }.Remembers accepted ↔ s.Remembers accepted :=
  Iff.rfl

theorem calls_concat (aead : Aead) (s : AeadSession) (before : List Call) (c : Call) :
    s.calls aead (before ++ [c]) =
      (((s.calls aead before).1.call aead c).1,
        (s.calls aead before).2 ++ ((s.calls aead before).1.call aead c).2.toList) := by
  simp only [calls, List.foldl_append, List.foldl_cons, List.foldl_nil]

/-- What a call accepts was not accepted before, and is remembered. -/
theorem Remembers.call {s : AeadSession} {accepted : List ℤ} (h : s.Remembers accepted)
    (aead : Aead) (c : Call) :
    (∀ n ∈ (s.call aead c).2, n ∉ accepted) ∧
      (s.call aead c).1.Remembers (accepted ++ (s.call aead c).2.toList) := by
  cases c with
  | encrypt nonce plaintext =>
    simp only [AeadSession.call, encrypt_snd, Option.toList_none, List.append_nil,
      remembers_sent, Option.not_mem_none, false_imp_iff, implies_true, true_and]
    exact h
  | decrypt envelope =>
    rcases houtcome : (s.decrypt aead envelope).1 with e | plaintext
    · have hcall : s.call aead (.decrypt envelope) = (s, none) := by
        rw [call_decrypt, houtcome, decrypt_eq_error houtcome]
        rfl
      rw [hcall]
      simpa using h
    · obtain ⟨hnew, hwindow, hnext, -⟩ := decrypt_eq_ok houtcome
      have hcall : s.call aead (.decrypt envelope) =
          (s.note envelope.sequenceNumber, some envelope.sequenceNumber) := by
        rw [call_decrypt, houtcome, hnext]
        rfl
      rw [hcall]
      simpa using ⟨h.notMem hnew hwindow, h.note envelope.sequenceNumber⟩

/-- The numbers accepted so far are remembered, and no number is among them twice. -/
theorem calls_remembers (aead : Aead) (sessionId : String) (encKey : Bytes) (before : List Call) :
    ((freshSession sessionId encKey).calls aead before).1.Remembers
        ((freshSession sessionId encKey).calls aead before).2 ∧
      ((freshSession sessionId encKey).calls aead before).2.Nodup := by
  induction before using List.reverseRecOn with
  | nil => exact ⟨fun n hn => (by cases hn), List.nodup_nil⟩
  | append_singleton before c ih =>
    obtain ⟨hremembers, hnodup⟩ := ih
    rw [calls_concat]
    generalize (freshSession sessionId encKey).calls aead before = reached at hremembers hnodup ⊢
    obtain ⟨hnew, hnext⟩ := hremembers.call aead c
    refine ⟨hnext, List.nodup_append.mpr ⟨hnodup, ?_, ?_⟩⟩
    · cases (reached.1.call aead c).2 <;> simp
    · intro a ha b hb heq
      subst heq
      exact hnew a (Option.mem_toList.mp hb) ha

/-- A session accepts each number at most once, however the envelopes come, and a call of
`decrypt` that raises leaves it as it was. -/
theorem aead_replay_protection (aead : Aead) (sessionId : String) (encKey : Bytes)
    (before : List Call) :
    ((freshSession sessionId encKey).calls aead before).2.Nodup ∧
      ∀ s, s = ((freshSession sessionId encKey).calls aead before).1 → ∀ envelope e,
        (s.decrypt aead envelope).1 = .error e → (s.decrypt aead envelope).2 = s :=
  ⟨(calls_remembers aead sessionId encKey before).2, fun _ _ _ _ => decrypt_eq_error⟩

end AeadSession

end QuantumSentinel.Crypto
