import QuantumSentinel.Audit.Appends
import QuantumSentinel.Audit.Tamper
import QuantumSentinel.Lib.Outcomes
import QuantumSentinel.Lib.PyObject

/-!
# The audit log: signatures of events

`write_audit_log` signs the text of the Python value it was called with, and the chain hashes
what is read back from that text.  `verify_audit_log` checks the signature against the text of
the value that the JSON column gives back.

Main results:

- Definition `writeAuditLog`: the event of a call, as it is signed, hashed and stored.
- Theorem `written_event_verifies_iff`: the signature and the link of a written event verify
  exactly when the keys of every dictionary are read back distinct and in their order.

Current gaps:

- A value that the database refuses is not refused here.
-/

namespace QuantumSentinel.Audit

open Lib
open JsonText (wide)

/-! ## Writing an event -/

/-- `metadata or {}` -/
def orEmptyObject : PyObject → PyObject
  | .none | .bool false | .int 0 | .str [] | .list [] | .tuple [] | .dict [] => .dict []
  | .float value =>
    if value.text = ['0', '.', '0'] ∨ value.text = ['-', '0', '.', '0'] then .dict []
    else .float value
  | v => v

/-- A text or `None`. -/
def textObject : Option String → PyObject
  | some s => .str (pyStr s)
  | none => .none

/-- The dictionary that is signed. -/
def auditPayload (action : String) (userId resourceType resourceId : Option String)
    (metadata : PyObject) : PyObject :=
  .dict [(.str (pyStr "action"), .str (pyStr action)), (.str (pyStr "user_id"), textObject userId),
    (.str (pyStr "resource_type"), textObject resourceType),
    (.str (pyStr "resource_id"), textObject resourceId), (.str (pyStr "metadata"), metadata)]

/-- `json.loads` -/
def readJson (text : List Char) : Except String WideJson :=
  match Json.loads text with
  | some v => .ok v
  | none => .error "JSONDecodeError"

/-- `write_audit_log` up to the append.  The payload is what `_insert_chain_links` reads
back from its text, and the metadata is what the JSON column gives back. -/
def writeAuditLog (crypto : Crypto) (server : ServerIdentity) (logId : LogId)
    (userId : Option String) (action : String) (resourceType resourceId : Option String)
    (metadata : PyObject) : Except String PendingAudit := do
  let metadata := orEmptyObject metadata
  let text ← (auditPayload action userId resourceType resourceId metadata).dumpsSorted
  let payload ← readJson text
  let stored ← readJson metadata.dumps
  .ok {
    logId := logId, userId := userId, action := action, resourceType := resourceType
    resourceId := resourceId, metadata := stored, payload := payload
    signature := b64 (crypto.dsaSign server.dsaSk (encodeChars text))
    signingKeyId := server.keyId }

/-! ## Verifying an event -/

/-- The historical key of an entry, or the current one. -/
def Keyring.historicalKey (ring : Keyring) (signingKeyId : Option String) : Option Bytes :=
  match signingKeyId.bind fun id => if id = "" then none else Dict.lookup id ring.keys with
  | some pk => some pk
  | none => ring.dsaPk

/-- The text of an entry, as it is read back. -/
def entryText (entry : AuditLog) : List Char :=
  (eventPayload entry.action entry.userId entry.resourceType entry.resourceId
    (orEmpty entry.metadataJson)).dumps PyObject.defaultStyle

/-- `verify_audit_log` -/
def verifyAuditLog (crypto : Crypto) (ring : Keyring) (t : Tables) (logId : LogId) :
    Except String Bool :=
  match t.logs.find? fun log => log.id = logId with
  | none => .ok false
  | some entry =>
    match entry.pqcSignature with
    | none | some "" => .ok false
    | some signature =>
      match ring.historicalKey entry.signingKeyId with
      | none => .ok false
      | some pk => do
          let signature ← unb64 signature
          crypto.dsaVerify pk (encodeChars (entryText entry)) signature

/-- The key of a server is registered, and it verifies what was signed and nothing else. -/
structure Registered (crypto : Crypto) (ring : Keyring) (server : ServerIdentity) : Prop where
  listed : ∃ keyId, server.keyId = some keyId ∧ keyId ≠ "" ∧
    Dict.lookup keyId ring.keys = some server.dsaPk
  publicKey : server.dsaPk ≠ []
  signs : ∀ message, crypto.dsaSign server.dsaSk message ≠ []
  verifies : ∀ message,
    crypto.dsaVerify server.dsaPk message (crypto.dsaSign server.dsaSk message) = .ok true
  binds : ∀ message message',
    crypto.dsaVerify server.dsaPk message (crypto.dsaSign server.dsaSk message') = .ok true →
      message = message'

/-- The link of an event behind others of its batch, and the hash of the link before it. -/
def Tables.placed (crypto : Crypto) (t : Tables) (before : List Written) (w : Written) :
    String × AuditChainLink :=
  let head := chainHead t.links
  let previousHash := lastHash crypto head.2 before
  (previousHash, w.link crypto (head.1 + before.length + 1) previousHash)

/-- The link of an event is in the tables and passes `_link_failure`. -/
structure LinkPasses (crypto : Crypto) (ring : Keyring) (serverTz : Option Zone) (t : Tables)
    (previousHash : String) (link : AuditChainLink) : Prop where
  stored : link ∈ t.links
  passes : linkFailure crypto ring serverTz previousHash
    ⟨link, t.logs.find? fun log => log.id = link.auditLogId⟩ = .ok none

/-! ## What is read back -/

/-- What stands for metadata: an empty dictionary, or a value that is read back as one that stands
for itself. -/
theorem orEmptyObject_cases (metadata : PyObject) :
    orEmptyObject metadata = .dict [] ∧ metadata.TextOrdered ∨
      orEmptyObject metadata = metadata ∧
        orEmpty metadata.toJson.collapsed = metadata.toJson.collapsed := by
  cases metadata with
  | none => exact Or.inl ⟨rfl, rfl⟩
  | bool b =>
    cases b with
    | false => exact Or.inl ⟨rfl, rfl⟩
    | true => exact Or.inr ⟨rfl, rfl⟩
  | int n =>
    by_cases hn : n = 0
    · subst hn
      exact Or.inl ⟨rfl, rfl⟩
    · refine Or.inr ⟨?_, ?_⟩
      · rw [orEmptyObject]
        all_goals simp [hn]
      · rw [PyObject.toJson, Json.collapsed, orEmpty]
        all_goals simp [hn]
  | float value =>
    by_cases hzero : value.text = ['0', '.', '0'] ∨ value.text = ['-', '0', '.', '0']
    · exact Or.inl ⟨if_pos hzero, rfl⟩
    · exact Or.inr ⟨if_neg hzero, if_neg fun hmem => hzero (List.mem_pair.mp hmem)⟩
  | str s =>
    cases s with
    | nil => exact Or.inl ⟨rfl, rfl⟩
    | cons c rest =>
      obtain ⟨unit, units, hunits⟩ : ∃ unit units,
          PyStr.wide (c :: rest) = ⟨unit :: units⟩ := by
        rw [PyStr.wide, List.flatMap_cons, codeUnits]
        split <;> exact ⟨_, _, rfl⟩
      refine Or.inr ⟨rfl, ?_⟩
      rw [PyObject.toJson, hunits]
      rfl
  | list items =>
    cases items with
    | nil => exact Or.inl ⟨rfl, rfl⟩
    | cons v rest => exact Or.inr ⟨rfl, rfl⟩
  | tuple items =>
    cases items with
    | nil => exact Or.inl ⟨rfl, rfl⟩
    | cons v rest => exact Or.inr ⟨rfl, rfl⟩
  | dict entries =>
    cases entries with
    | nil => exact Or.inl ⟨rfl, rfl⟩
    | cons e rest => exact Or.inr ⟨rfl, rfl⟩

/-- What is stored as metadata stands for itself. -/
theorem orEmpty_stored (metadata : PyObject) : orEmpty (orEmptyObject metadata).toJson.collapsed =
    (orEmptyObject metadata).toJson.collapsed := by
  rcases orEmptyObject_cases metadata with ⟨hempty, -⟩ | ⟨hsame, hjson⟩
  · rw [hempty]
    rfl
  · rw [hsame, hjson]

theorem distinctKeys_orEmptyObject {metadata : PyObject} (h : metadata.DistinctKeys) :
    (orEmptyObject metadata).DistinctKeys := by
  rcases orEmptyObject_cases metadata with ⟨hempty, -⟩ | ⟨hsame, -⟩
  · rw [hempty]
    rfl
  · rw [hsame]
    exact h

theorem textOrdered_orEmptyObject {metadata : PyObject} :
    (orEmptyObject metadata).TextOrdered ↔ metadata.TextOrdered := by
  rcases orEmptyObject_cases metadata with ⟨hempty, hordered⟩ | ⟨hsame, -⟩
  · rw [hempty]
    exact iff_of_true (by decide) hordered
  · rw [hsame]

section Payload

variable {action : String} {userId resourceType resourceId : Option String} {metadata : PyObject}

/-- The names of the payload are in order, and its other values have no keys. -/
theorem allKeys_auditPayload {p : List PyKey → Bool}
    (hnames : p [.str (pyStr "action"), .str (pyStr "user_id"), .str (pyStr "resource_type"),
      .str (pyStr "resource_id"), .str (pyStr "metadata")] = true) :
    (auditPayload action userId resourceType resourceId metadata).allKeys p =
      metadata.allKeys p := by
  have htext : ∀ text : Option String, (textObject text).allKeys p = true := by
    intro text
    cases text <;> rfl
  rw [auditPayload, PyObject.allKeys]
  simp only [List.map_cons, List.map_nil, hnames, PyObject.allKeysEntries, PyObject.allKeys, htext,
    Bool.true_and, Bool.and_true]

/-- The payload as it is read back. -/
theorem collapsed_auditPayload :
    (auditPayload action userId resourceType resourceId metadata).toJson.collapsed =
      eventPayload action userId resourceType resourceId metadata.toJson.collapsed := by
  have htext : ∀ text : Option String, (textObject text).toJson.collapsed = textJson text := by
    intro text
    cases text with
    | none => rfl
    | some s => rw [textObject, PyObject.toJson, wide_pyStr, Json.collapsed, textJson]
  simp only [auditPayload, PyObject.toJson, PyObject.toJsonEntries, PyKey.text, wide_pyStr,
    Json.collapsed, Json.collapsedMembers, htext, eventPayload]
  rw [ofPairs_of_nodup (by simp)]

/-- What a call that does not raise hands to the appender. -/
theorem writeAuditLog_eq_ok {crypto : Crypto} {server : ServerIdentity} {logId : LogId}
    {pending : PendingAudit}
    (h : writeAuditLog crypto server logId userId action resourceType resourceId metadata =
      .ok pending) :
    pending = {
      logId := logId, userId := userId, action := action, resourceType := resourceType
      resourceId := resourceId, metadata := (orEmptyObject metadata).toJson.collapsed
      payload := (auditPayload action userId resourceType resourceId
        (orEmptyObject metadata)).toSortedJson.collapsed
      signature := b64 (crypto.dsaSign server.dsaSk (encodeChars
        (PyObject.defaultStyle.render (auditPayload action userId resourceType resourceId
          (orEmptyObject metadata)).toSortedJson)))
      signingKeyId := server.keyId } := by
  rcases bind_eq_ok_iff.mp h with ⟨text, htext, h⟩
  obtain ⟨htext, hread⟩ := PyObject.loads_dumpsSorted htext
  have hmetadata : Json.loads (orEmptyObject metadata).dumps =
      some (orEmptyObject metadata).toJson.collapsed := Json.loads_render _ _
  rw [readJson, hread, readJson, hmetadata] at h
  cases h
  rw [← htext]

end Payload

/-! ## Written events -/

section Verification

variable {crypto : Crypto} {ring : Keyring} {t t' : Tables} {w : Written}

theorem log_mem_insert {before after : List Written} :
    w.log ∈ (t.insert crypto (before ++ w :: after)).logs := by
  rw [Tables.insert]
  exact List.mem_append_right _ (List.mem_map_of_mem (List.mem_append_right _
    (List.mem_cons_self ..)))

/-- The keys a signature and a link of a server are checked with. -/
theorem Registered.keys {server : ServerIdentity} (hkey : Registered crypto ring server) :
    ring.historicalKey server.keyId = some server.dsaPk ∧
      ring.verificationKey server.keyId = some server.dsaPk := by
  obtain ⟨keyId, hid, hne, hlookup⟩ := hkey.listed
  constructor
  · rw [Keyring.historicalKey, hid, Option.bind_some, if_neg hne, hlookup]
  · rw [Keyring.verificationKey, hid, Option.bind_some, hlookup]
    exact if_neg hkey.publicKey

/-- A signature verifies exactly when the row gives the signed text back. -/
theorem verifyAuditLog_iff (hkey : Registered crypto ring w.server) (hunique : t.Unique)
    (hlog : w.log ∈ t.logs) (hid : w.pending.signingKeyId = w.server.keyId) {text : List Char}
    (hsignature : w.pending.signature = b64 (crypto.dsaSign w.server.dsaSk (encodeChars text))) :
    verifyAuditLog crypto ring t w.pending.logId = .ok true ↔ text = entryText w.log := by
  have hsigned : b64 (crypto.dsaSign w.server.dsaSk (encodeChars text)) ≠ "" := by
    intro hempty
    have hread := unb64_b64 (crypto.dsaSign w.server.dsaSk (encodeChars text))
    rw [hempty] at hread
    have hnil : unb64 "" = .ok [] := unb64_b64 []
    rw [hnil, Except.ok.injEq] at hread
    exact hkey.signs _ hread.symm
  have hverify : verifyAuditLog crypto ring t w.pending.logId =
      crypto.dsaVerify w.server.dsaPk (encodeChars (entryText w.log))
        (crypto.dsaSign w.server.dsaSk (encodeChars text)) := by
    have hkeys : ring.historicalKey w.log.signingKeyId = some w.server.dsaPk :=
      (congrArg ring.historicalKey hid).trans hkey.keys.1
    have hstored : w.log.pqcSignature =
        some (b64 (crypto.dsaSign w.server.dsaSk (encodeChars text))) :=
      congrArg some hsignature
    have hfind : t.logs.find? (fun log => log.id = w.pending.logId) = some w.log :=
      (find?_log_iff hunique).mpr ⟨hlog, rfl⟩
    rw [verifyAuditLog, hfind]
    simp only [hstored, hkeys, unb64_b64]
    rfl
  rw [hverify]
  constructor
  · exact fun h => encodeChars_injective (hkey.binds _ _ h).symm
  · rintro rfl
    exact hkey.verifies _

/-- The link of an event passes when the row gives back what the chain hashed. -/
theorem linkPasses_of_payload {serverTz : Option Zone} {fault : Option String}
    {before after : List Written} (hkey : Registered crypto ring w.server)
    (hid : w.pending.signingKeyId = w.server.keyId)
    (hpayload : w.pending.payload.sorted = (eventPayload w.pending.action w.pending.userId
      w.pending.resourceType w.pending.resourceId (orEmpty w.pending.metadata)).sorted)
    (hinsert : insertChainLinks crypto fault t (before ++ w :: after) = .ok t') :
    LinkPasses crypto ring serverTz t' (t.placed crypto before w).1
      (t.placed crypto before w).2 := by
  obtain ⟨rfl, hconstrained⟩ := insertChainLinks_eq_ok crypto hinsert
  constructor
  · rw [Tables.insert]
    simp only [chainLinks_append, chainLinks]
    exact List.mem_append_right _ (List.mem_append_right _ (List.mem_cons_self ..))
  · refine linkFailure_eq_none.mpr ⟨w.log, (find?_log_iff hconstrained.toUnique).mpr ⟨log_mem_insert, rfl⟩, rfl,
      List.mem_cons.mpr (Or.inl ?_), w.server.dsaPk,
      (congrArg ring.verificationKey hid).trans hkey.keys.2, _, unb64_b64 _, hkey.verifies _⟩
    exact chainHash_congr hpayload

/-- The signature and the link of a written event verify exactly when the keys of every dictionary
of the metadata are read back distinct and in their order. -/
theorem written_event_verifies_iff (serverTz : Option Zone) {fault : Option String}
    (before after : List Written) {action : String}
    {userId resourceType resourceId : Option String} {metadata : PyObject}
    (hkey : Registered crypto ring w.server) (hvalue : metadata.DistinctKeys)
    (hwrite : writeAuditLog crypto w.server w.pending.logId userId action resourceType resourceId
      metadata = .ok w.pending)
    (hinsert : insertChainLinks crypto fault t (before ++ w :: after) = .ok t') :
    verifyAuditLog crypto ring t' w.pending.logId = .ok true ∧
        LinkPasses crypto ring serverTz t' (t.placed crypto before w).1
          (t.placed crypto before w).2 ↔
      metadata.TextOrdered := by
  have hpending := writeAuditLog_eq_ok hwrite
  have hdistinct : (auditPayload action userId resourceType resourceId
      (orEmptyObject metadata)).DistinctKeys := by
    rw [PyObject.DistinctKeys, allKeys_auditPayload (by decide +kernel)]
    exact distinctKeys_orEmptyObject hvalue
  have hordered : (auditPayload action userId resourceType resourceId
      (orEmptyObject metadata)).TextOrdered ↔ metadata.TextOrdered := by
    rw [PyObject.TextOrdered, allKeys_auditPayload (by decide +kernel)]
    exact textOrdered_orEmptyObject
  have hsorted := PyObject.toSortedJson_eq_iff _ hdistinct
  have hid : w.pending.signingKeyId = w.server.keyId := congrArg PendingAudit.signingKeyId hpending
  have hpayload := congrArg PendingAudit.payload hpending
  have hsignature := congrArg PendingAudit.signature hpending
  have hread : eventPayload w.pending.action w.pending.userId w.pending.resourceType
      w.pending.resourceId (orEmpty w.pending.metadata) = (auditPayload action userId resourceType
        resourceId (orEmptyObject metadata)).toJson.collapsed := by
    rw [collapsed_auditPayload, hpending, orEmpty_stored]
  have htext : entryText w.log = PyObject.defaultStyle.render (auditPayload action userId
      resourceType resourceId (orEmptyObject metadata)).toJson.collapsed.sorted := by
    rw [← hread]
    rfl
  have hcommitted := insertChainLinks_eq_ok crypto hinsert
  have hverify : verifyAuditLog crypto ring t' w.pending.logId = .ok true ↔
      metadata.TextOrdered := by
    obtain ⟨rfl, hconstrained⟩ := hcommitted
    rw [verifyAuditLog_iff hkey hconstrained.toUnique log_mem_insert hid hsignature, htext,
      ← hordered, ← hsorted]
    exact ⟨JsonStyle.render_injective, congrArg _⟩
  refine ⟨fun h => hverify.mp h.1, fun h => ⟨hverify.mpr h, ?_⟩⟩
  -- nothing is lost when the sorted text is read back
  refine linkPasses_of_payload hkey hid ?_ hinsert
  rw [hread, hpayload, hsorted.mpr (hordered.mpr h), Json.collapsed_sorted_collapsed,
    Json.sorted_sorted]

end Verification

/-! ## Integer keys -/

/-- The call of a login with some metadata. -/
def sampleCall (metadata : PyObject) : Except String PendingAudit :=
  writeAuditLog sampleCrypto sampleServer "e1" none "login" none none metadata

/-- A login with a nested dictionary of small integers. -/
def sampleMetadata : PyObject :=
  .dict [(.str (pyStr "ip"), .str (pyStr "10.0.0.1")),
    (.str (pyStr "attempts"), .dict [(.int 2, .list [.bool true, .int 7]), (.int 1, .tuple [])])]

/-- Two entries whose keys stand in another order than their texts. -/
def misorderedMetadata : PyObject :=
  .dict [(.int 9, .str (pyStr "a")), (.int 10, .str (pyStr "b"))]

/-- Two surrogates stand before the last character of the first plane, and the character that is
read back for them behind it. -/
example : ¬(PyObject.dict [(.str [0xD800, 0xDC00], .none), (.str [0xFFFF], .none)]).TextOrdered := by
  decide +kernel

theorem sample_registered : Registered sampleCrypto sampleRing sampleServer where
  listed := ⟨"k1", rfl, by decide, rfl⟩
  publicKey := by decide
  signs := fun _ => List.cons_ne_nil _ _
  verifies := fun _ => congrArg Except.ok (decide_eq_true rfl)
  binds := by
    intro message message' h
    have hsame := of_decide_eq_true (Except.ok.inj h)
    exact (List.append_cancel_left hsame).symm

/-- What the database and the check make of a call. -/
def sampleOutcome (metadata : PyObject) : Except String Bool := do
  let pending ← sampleCall metadata
  let t ← insertChainLinks sampleCrypto none ⟨[], [], []⟩ [⟨sampleReading "l1", pending⟩]
  verifyAuditLog sampleCrypto sampleRing t "e1"

/-- The login with the small integers verifies. -/
theorem written_event_verifies_nested : ∃ pending t,
    sampleCall sampleMetadata = .ok pending ∧
      insertChainLinks sampleCrypto none ⟨[], [], []⟩ [⟨sampleReading "l1", pending⟩] = .ok t ∧
        verifyAuditLog sampleCrypto sampleRing t pending.logId = .ok true := by
  have hrun : sampleOutcome sampleMetadata = .ok true := by decide +kernel
  obtain ⟨pending, hcall, hrun⟩ := bind_eq_ok_iff.mp hrun
  obtain ⟨t, hinsert, -⟩ := bind_eq_ok_iff.mp hrun
  refine ⟨pending, t, hcall, hinsert, ?_⟩
  have hid : pending.logId = "e1" :=
    congrArg PendingAudit.logId (writeAuditLog_eq_ok hcall)
  have hwrite : writeAuditLog sampleCrypto sampleServer pending.logId none "login" none none
      sampleMetadata = .ok pending := by
    rw [hid]
    exact hcall
  exact ((written_event_verifies_iff (w := ⟨sampleReading "l1", pending⟩) none [] []
    sample_registered (by decide +kernel) hwrite hinsert).mpr (by decide +kernel)).1

/-- An event with the keys 9 and 10 is stored and does not verify. -/
theorem integer_keys_unverified : Registered sampleCrypto sampleRing sampleServer ∧
    misorderedMetadata.DistinctKeys ∧ ∃ pending t,
      sampleCall misorderedMetadata = .ok pending ∧
        insertChainLinks sampleCrypto none ⟨[], [], []⟩ [⟨sampleReading "l1", pending⟩] = .ok t ∧
          verifyAuditLog sampleCrypto sampleRing t pending.logId = .ok false := by
  have hrun : sampleOutcome misorderedMetadata = .ok false := by decide +kernel
  obtain ⟨pending, hcall, hrun⟩ := bind_eq_ok_iff.mp hrun
  obtain ⟨t, hinsert, hverify⟩ := bind_eq_ok_iff.mp hrun
  have hid : pending.logId = "e1" :=
    congrArg PendingAudit.logId (writeAuditLog_eq_ok hcall)
  rw [← hid] at hverify
  exact ⟨sample_registered, by decide +kernel, pending, t, hcall, hinsert, hverify⟩

end QuantumSentinel.Audit
