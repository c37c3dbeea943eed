import QuantumSentinel.Crypto.MessageProtocol

/-!
# Crypto: two endpoints of a session

Two endpoints hold one session id and one key.  The network hands them any envelopes it likes:
late, twice, in any order, its own, or an endpoint's own back to it.  It cannot make one that
decrypts.

Main results:

- Theorem `Origin.step`: what every step keeps of the logs of messages.
- Theorem `message_origin`: what an endpoint accepts is a message of one of the two, under
  that message's number and once; it is the other's unless the endpoint's own came back.
- Theorem `message_reflected`: nothing in a message tells whose it is.

Current gaps:

- The ideal cipher is a condition on the run: an envelope decrypts only if it was encrypted.
- Parties outside the session that hold its key.
-/

namespace QuantumSentinel.Crypto

open Lib

/-! ## The channel -/

/-- One of the two endpoints. -/
inductive Side
  | left
  | right
deriving DecidableEq

/-- The endpoint at the other end. -/
def Side.other : Side → Side
  | .left => .right
  | .right => .left

theorem Side.eq_other {a b : Side} (h : a ≠ b) : a = b.other := by
  cases a <;> cases b <;> first | rfl | exact absurd rfl h

/-- A message as it was encrypted, or as it was accepted, with the endpoint that did it. -/
structure Message where
  side : Side
  envelope : Envelope
  plaintext : Bytes
deriving DecidableEq

/-- The envelopes agree in all that `decrypt` reads. -/
def Envelope.Carries (a b : Envelope) : Prop :=
  a.sequenceNumber = b.sequenceNumber ∧ a.nonce = b.nonce ∧ a.ciphertext = b.ciphertext

instance (a b : Envelope) : Decidable (a.Carries b) :=
  inferInstanceAs (Decidable (_ ∧ _ ∧ _))

/-- The two sessions, with the messages encrypted and the messages accepted so far. -/
structure Channel where
  endpoint : Side → AeadSession
  sealed : List Message
  accepted : List Message

namespace Channel

/-- What can happen. -/
inductive Action
  /-- An endpoint encrypts; the envelope is the network's from now on. -/
  | send (side : Side) (nonce plaintext : Bytes)
  /-- The network hands an envelope to an endpoint. -/
  | deliver (side : Side) (envelope : Envelope)

variable (aead : Aead)

def step (c : Channel) : Action → Option Channel
  | .send side nonce plaintext =>
    let outcome := (c.endpoint side).encrypt aead nonce plaintext
    some
      { c with
        endpoint := Function.update c.endpoint side outcome.2
        sealed := c.sealed ++ (outcome.1.toOption.map (⟨side, ·, plaintext⟩)).toList }
  | .deliver side envelope =>
    let outcome := (c.endpoint side).decrypt aead envelope
    some
      { c with
        endpoint := Function.update c.endpoint side outcome.2
        accepted := c.accepted ++ (outcome.1.toOption.map (⟨side, envelope, ·⟩)).toList }

/-- The cipher is not forged: what decrypts was encrypted in this session, under the same nonce
and the same authenticated data, and decrypts to what was encrypted. -/
def Unforged (c : Channel) : Action → Prop
  | .send .. => True
  | .deliver side envelope =>
    ∀ aad ∈ (c.endpoint side).buildAad envelope.sequenceNumber,
      ∀ plaintext ∈
          aead.decrypt? (c.endpoint side).encKey envelope.nonce envelope.ciphertext aad,
        ∃ m ∈ c.sealed, (c.endpoint m.side).buildAad m.envelope.sequenceNumber = some aad ∧
          m.envelope.nonce = envelope.nonce ∧ m.envelope.ciphertext = envelope.ciphertext ∧
            m.plaintext = plaintext

instance (c : Channel) (a : Action) : Decidable (c.Unforged aead a) :=
  match a with
  | .send .. => inferInstanceAs (Decidable True)
  | .deliver .. =>
    inferInstanceAs (Decidable (∀ aad ∈ (_ : Option Bytes), ∀ plaintext ∈ (_ : Option Bytes),
      ∃ m ∈ c.sealed, _ ∧ _ ∧ _ ∧ _))

/-- The numbers an endpoint has accepted, in order. -/
def acceptedBy (c : Channel) (side : Side) : List ℤ :=
  (c.accepted.filter (·.side = side)).map (·.envelope.sequenceNumber)

end Channel

/-- Two endpoints that start with one session id and one encryption key. -/
def channel (aead : Aead) (sessionId : String) (encKey : Bytes) : Machine Channel Channel.Action :=
  ⟨⟨fun _ => freshSession sessionId encKey, [], []⟩, Channel.step aead⟩

/-! ## What the logs keep -/

/-- Every accepted message is an encrypted one, and no endpoint accepts a number again. -/
structure Origin (sessionId : String) (c : Channel) : Prop where
  session : ∀ side, (c.endpoint side).sessionId = sessionId
  origin : ∀ e ∈ c.accepted, ∃ m ∈ c.sealed,
    m.plaintext = e.plaintext ∧ m.envelope.Carries e.envelope
  remembers : ∀ side, (c.endpoint side).Remembers (c.acceptedBy side)
  once : ∀ side, (c.acceptedBy side).Nodup

theorem Channel.acceptedBy_of_accepted (c : Channel) (endpoint : Side → AeadSession) (e : Message)
    (side : Side) :
    { c with endpoint := endpoint, accepted := c.accepted ++ [e] }.acceptedBy side =
      c.acceptedBy side ++ if e.side = side then [e.envelope.sequenceNumber] else [] := by
  by_cases h : e.side = side <;> simp [acceptedBy, h]

open Channel

variable {aead : Aead} {sessionId : String} {encKey : Bytes}

/-- Encrypting adds to the encrypted messages only. -/
theorem Origin.send {c : Channel} (h : Origin sessionId c) (aead : Aead) (side : Side)
    (nonce plaintext : Bytes) (more : List Message) :
    Origin sessionId
      { c with
        endpoint :=
          Function.update c.endpoint side ((c.endpoint side).encrypt aead nonce plaintext).2
        sealed := c.sealed ++ more } := by
  have hendpoint : ∀ other, Function.update c.endpoint side
      ((c.endpoint side).encrypt aead nonce plaintext).2 other =
        { c.endpoint other with
          sendSeq := (c.endpoint other).sendSeq + if other = side then 1 else 0 } := by
    intro other
    by_cases hside : other = side
    · subst hside
      rw [Function.update_self, AeadSession.encrypt_snd, if_pos rfl]
    · rw [Function.update_of_ne hside, if_neg hside, Nat.add_zero]
  constructor
  · intro other
    dsimp only
    rw [hendpoint]
    exact h.session other
  · intro e he
    obtain ⟨m, hm, hsame⟩ := h.origin e he
    exact ⟨m, List.mem_append_left _ hm, hsame⟩
  · intro other
    dsimp only
    rw [hendpoint]
    exact h.remembers other
  · exact h.once

/-- An envelope that is accepted is one that was encrypted, and its number is new. -/
theorem Origin.accept {c : Channel} (h : Origin sessionId c) {side : Side} {envelope : Envelope}
    {plaintext : Bytes} (hguard : c.Unforged aead (.deliver side envelope))
    (hok : ((c.endpoint side).decrypt aead envelope).1 = .ok plaintext) :
    Origin sessionId
      { c with
        endpoint :=
          Function.update c.endpoint side ((c.endpoint side).decrypt aead envelope).2
        accepted := c.accepted ++ [⟨side, envelope, plaintext⟩] } := by
  obtain ⟨hnew, hwindow, hnext, aad, haad, hopen⟩ := AeadSession.decrypt_eq_ok hok
  constructor
  · intro other
    dsimp only
    by_cases hside : other = side
    · subst hside
      rw [Function.update_self, hnext]
      exact h.session other
    · rw [Function.update_of_ne hside]
      exact h.session other
  · intro e he
    rcases List.mem_append.mp he with hold | hlast
    · exact h.origin e hold
    · obtain rfl := List.mem_singleton.mp hlast
      obtain ⟨m, hm, hsealed, hnonce, hcipher, hplain⟩ := hguard aad haad plaintext hopen
      have hid := (h.session m.side).trans (h.session side).symm
      exact ⟨m, hm, hplain, AeadSession.buildAad_injective hid hsealed haad, hnonce, hcipher⟩
  · intro other
    rw [acceptedBy_of_accepted]
    dsimp only
    by_cases hside : side = other
    · subst hside
      rw [Function.update_self, hnext, if_pos rfl]
      exact (h.remembers side).note _
    · rw [Function.update_of_ne (Ne.symm hside), if_neg hside, List.append_nil]
      exact h.remembers other
  · intro other
    rw [acceptedBy_of_accepted]
    by_cases hside : side = other
    · subst hside
      rw [if_pos rfl]
      have hfresh := (h.remembers side).notMem hnew hwindow
      refine List.nodup_append.mpr ⟨h.once side, List.nodup_singleton _, ?_⟩
      intro a ha b hb heq
      rw [List.mem_singleton.mp hb] at heq
      exact hfresh (heq ▸ ha)
    · rw [if_neg hside, List.append_nil]
      exact h.once other

/-- Every step keeps the logs so, when nothing is forged. -/
theorem Origin.step {c c' : Channel} {a : Action} (hguard : c.Unforged aead a)
    (hstep : c.step aead a = some c') (h : Origin sessionId c) : Origin sessionId c' := by
  cases a with
  | send side nonce plaintext =>
    cases hstep
    exact h.send aead side nonce plaintext _
  | deliver side envelope =>
    simp only [Channel.step, Option.some.injEq] at hstep
    subst hstep
    rcases hresult : ((c.endpoint side).decrypt aead envelope).1 with e | plaintext
    · have hsame := AeadSession.decrypt_eq_error hresult
      rw [hsame, Function.update_eq_self]
      simpa [Except.toOption] using h
    · simpa [Except.toOption] using h.accept hguard hresult

/-! ## Where messages come from -/

theorem Origin.start (aead : Aead) (sessionId : String) (encKey : Bytes) :
    Origin sessionId (channel aead sessionId encKey).init where
  session _ := rfl
  origin _ he := by cases he
  remembers _ _ hn := by cases hn
  once _ := List.nodup_nil

/-- What an endpoint accepts was encrypted by one of the two, in the envelope it came in; by the
other one, unless an envelope of its own came back to it.  No endpoint accepts a number twice. -/
theorem message_origin {c : Channel}
    (h : (channel aead sessionId encKey).ReachableUnder (Channel.Unforged aead) c) :
    (∀ e ∈ c.accepted, ∃ m ∈ c.sealed,
        m.plaintext = e.plaintext ∧ m.envelope.Carries e.envelope) ∧
      (∀ e ∈ c.accepted,
        (∀ m ∈ c.sealed, m.side = e.side → ¬ m.envelope.Carries e.envelope) →
          ∃ m ∈ c.sealed, m.side = e.side.other ∧ m.plaintext = e.plaintext ∧
            m.envelope.Carries e.envelope) ∧
      ∀ side, (c.acceptedBy side).Nodup := by
  have hlogs : Origin sessionId c :=
    h.invariant (Origin.start aead sessionId encKey) fun _ _ _ hguard hstep hlogs =>
      hlogs.step hguard hstep
  refine ⟨hlogs.origin, ?_, hlogs.once⟩
  intro e he hother
  obtain ⟨m, hm, hplain, hcarries⟩ := hlogs.origin e he
  have hside : m.side ≠ e.side := fun hsame => hother m hm hsame hcarries
  exact ⟨m, hm, Side.eq_other hside, hplain, hcarries⟩

/-- The key that HKDF derives from the session key `bytes(range(32))`. -/
def sampleKey : Bytes :=
  [199, 18, 90, 4, 107, 254, 169, 245, 173, 130, 195, 53, 190, 25, 32, 16, 240, 177, 136, 252,
    137, 159, 232, 252, 192, 63, 92, 53, 124, 123, 137, 90]

/-- The message `buy`, number 0 of the session `s-1`, encrypted under that key and the
nonce of twelve zeros. -/
def sampleEnvelope : Envelope where
  sessionId := "s-1"
  sequenceNumber := 0
  nonce := List.replicate 12 0
  ciphertext :=
    [121, 131, 144, 95, 243, 212, 250, 66, 103, 146, 121, 96, 157, 211, 138, 120, 154, 216, 72]

/-- AES-256-GCM and HKDF on that one message. -/
def sampleAead : Aead where
  deriveKey _ := sampleKey
  encrypt _ _ _ _ := sampleEnvelope.ciphertext
  decrypt? key nonce ciphertext aad :=
    if key = sampleKey ∧ nonce = sampleEnvelope.nonce ∧ ciphertext = sampleEnvelope.ciphertext ∧
        aad = [115, 45, 49, 0, 0, 0, 0, 0, 0, 0, 0]
    then some [98, 117, 121] else none

/-- The message `sell` of the other endpoint, its number 0, under the nonce of twelve ones. -/
def answerEnvelope : Envelope where
  sessionId := "s-1"
  sequenceNumber := 0
  nonce := List.replicate 12 1
  ciphertext :=
    [64, 188, 66, 126, 28, 13, 75, 158, 251, 150, 25, 55, 19, 190, 35, 40, 110, 86, 104, 184]

/-- AES-256-GCM and HKDF on the two messages. -/
def answeredAead : Aead where
  deriveKey _ := sampleKey
  encrypt key nonce plaintext aad :=
    if plaintext = [115, 101, 108, 108] then answerEnvelope.ciphertext
    else sampleAead.encrypt key nonce plaintext aad
  decrypt? key nonce ciphertext aad :=
    if key = sampleKey ∧ nonce = answerEnvelope.nonce ∧ ciphertext = answerEnvelope.ciphertext ∧
        aad = [115, 45, 49, 0, 0, 0, 0, 0, 0, 0, 0]
    then some [115, 101, 108, 108] else sampleAead.decrypt? key nonce ciphertext aad

/-- Both endpoints send.  The network delivers both messages, and the first one twice. -/
def answeredRun : List Channel.Action :=
  [.send .left (List.replicate 12 0) [98, 117, 121],
    .send .right (List.replicate 12 1) [115, 101, 108, 108], .deliver .right sampleEnvelope,
    .deliver .left answerEnvelope, .deliver .right sampleEnvelope]

theorem message_origin_sample : ∃ c,
    (channel answeredAead "s-1" sampleKey).Run (Unforged answeredAead)
        (channel answeredAead "s-1" sampleKey).init answeredRun c ∧
      c.accepted =
        [⟨.right, sampleEnvelope, [98, 117, 121]⟩,
          ⟨.left, answerEnvelope, [115, 101, 108, 108]⟩] ∧
      (∀ e ∈ c.accepted, ∃ m ∈ c.sealed, m.side = e.side.other ∧ m.plaintext = e.plaintext ∧
        m.envelope.Carries e.envelope) ∧
      ∀ side, (c.acceptedBy side).Nodup := by
  have hrun : ((channel answeredAead "s-1" sampleKey).execUnder (Unforged answeredAead)
      (channel answeredAead "s-1" sampleKey).init answeredRun).any (fun c =>
        decide (c.accepted = [⟨.right, sampleEnvelope, [98, 117, 121]⟩,
          ⟨.left, answerEnvelope, [115, 101, 108, 108]⟩]) &&
        decide (∀ e ∈ c.accepted, ∀ m ∈ c.sealed, m.side = e.side →
          ¬ m.envelope.Carries e.envelope)) = true := by
    decide +kernel
  obtain ⟨c, hc, hreached⟩ := (Option.any_eq_true ..).mp hrun
  rw [Bool.and_eq_true, decide_eq_true_eq, decide_eq_true_eq] at hreached
  obtain ⟨-, horigin, honce⟩ := message_origin (Machine.reachableUnder_of_execUnder hc)
  exact ⟨c, Machine.run_of_execUnder hc, hreached.1,
    fun e he => horigin e he (hreached.2 e he), honce⟩

/-- An endpoint accepts its own message when the network hands it back. -/
theorem message_reflected : ∃ c,
    (channel sampleAead "s-1" sampleKey).ReachableUnder (Unforged sampleAead) c ∧
      ∃ e ∈ c.accepted, ∀ m ∈ c.sealed, m.side ≠ e.side.other := by
  have hrun : ((channel sampleAead "s-1" sampleKey).execUnder (Unforged sampleAead)
      (channel sampleAead "s-1" sampleKey).init
      [.send .left (List.replicate 12 0) [98, 117, 121], .deliver .left sampleEnvelope]).any
        (fun c => decide (∃ e ∈ c.accepted, ∀ m ∈ c.sealed, m.side ≠ e.side.other)) = true := by
    decide +kernel
  obtain ⟨c, hc, hreflected⟩ := (Option.any_eq_true ..).mp hrun
  exact ⟨c, Machine.reachableUnder_of_execUnder hc, of_decide_eq_true hreflected⟩

end QuantumSentinel.Crypto
