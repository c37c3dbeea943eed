import QuantumSentinel.Audit.Chain

/-!
# The audit check

The function `audit_chain_status` in its parts: what it takes from the verified head, its
queries, the walk over the links, and the update of the verified head.

Main results:

- Definition `auditChainStatus`: a check of tables that stay as they are.
- Theorem `walk_append`: a walk goes on where the links before have passed.

Current gaps:

- The server's `TimeZone` setting is fixed.
- The key of the process is read once in a check.
-/

namespace QuantumSentinel.Audit

open Lib

/-- What a process knows of the chain of a database: the newest link it has verified, and
the start of the newest full check that found the chain valid. -/
structure VerifiedChain where
  head : Option (ℤ × String)
  fullVerifiedAt : Option DateTime
  generation : ℕ

/-- The tables and the rows of `server_signing_keys`: key ids and encoded keys. -/
structure Database where
  tables : Tables
  keys : List (String × String)

/-- The `mode` of a check. -/
inductive Mode
  | full
  | incremental
deriving DecidableEq, Repr

/-- What a check returns. -/
structure ChainStatus where
  valid : Bool
  links : ℕ
  unchainedEvents : ℕ
  firstInvalidSequence : Option ℤ
  reason : Option String
  mode : Mode
  verifiedFromSequence : ℤ
  lastFullVerificationAt : Option DateTime
deriving DecidableEq

/-- The hash of the link with a sequence number. -/
def Tables.entryHashAt (t : Tables) (sequence : ℤ) : Option String :=
  (t.links.find? fun link => link.sequence = sequence).map AuditChainLink.entryHash

/-- The sequence number and the hash to go on from: the verified head, when its link still
has the hash. -/
def startOf (full : Bool) (head : Option (ℤ × String)) (t : Tables) : ℤ × String :=
  match head with
  | none => (0, genesisHash)
  | some (sequence, hash) =>
    if full = false ∧ t.entryHashAt sequence = some hash then (sequence, hash)
    else (0, genesisHash)

/-- The mode of a check that goes on from a sequence number. -/
def modeOf (after : ℤ) : Mode :=
  if after = 0 then .full else .incremental

/-- The keys of `server_signing_keys`. -/
def readKeys : List (String × String) → Except String (List (String × Bytes))
  | [] => .ok []
  | (keyId, publicKey) :: rest => do
      let pk ← unb64 publicKey
      let more ← readKeys rest
      .ok ((keyId, pk) :: more)

/-- The loop over the links behind a start. -/
def walkFrom (crypto : Crypto) (ring : Keyring) (serverTz : Option Zone) (start : ℤ × String)
    (t : Tables) : Except String Walked :=
  walk (linkFailure crypto ring serverTz) start.2 none (t.rowsAfter start.1)

/-- The update of the verified head: a failure drops it; a check that began before the last
failure leaves it alone. -/
def VerifiedChain.finish (state : VerifiedChain) (generation : ℕ) (startedAt : DateTime)
    (mode : Mode) (walked : Walked) : VerifiedChain :=
  if walked.failure.isSome then
    { state with head := none, generation := state.generation + 1 }
  else if state.generation = generation then
    { state with
      fullVerifiedAt := if mode = .full then some startedAt else state.fullVerifiedAt
      head :=
        match walked.last with
        | none => state.head
        | some last =>
          match state.head with
          | none => some last
          | some head => if head.1 ≤ last.1 then some last else some head }
  else state

/-- What the check returns. -/
def chainStatus (after : ℤ) (links unchained : ℕ) (walked : Walked) (state : VerifiedChain) :
    ChainStatus where
  valid := walked.failure.isNone
  links := links
  unchainedEvents := unchained
  firstInvalidSequence := walked.failure.map Prod.fst
  reason := walked.failure.map fun failure => failure.2.reason
  mode := modeOf after
  verifiedFromSequence := after + 1
  lastFullVerificationAt := state.fullVerifiedAt

/-- `audit_chain_status` of a database that stays as it is. -/
def auditChainStatus (crypto : Crypto) (dsaPk : Option Bytes) (serverTz : Option Zone)
    (full : Bool) (startedAt : DateTime) (state : VerifiedChain) (db : Database) :
    Except String (ChainStatus × VerifiedChain) := do
  let start := startOf full state.head db.tables
  let keys ← readKeys db.keys
  let walked ← walkFrom crypto ⟨keys, dsaPk⟩ serverTz start db.tables
  let state' := state.finish state.generation startedAt (modeOf start.1) walked
  .ok (chainStatus start.1 db.tables.linkCount db.tables.unchainedCount walked state', state')

/-! ## Walks -/

/-- The links before have passed, each behind the one before it. -/
inductive Passes (check : String → LinkRow → Except String (Option LinkFailure)) :
    String → List LinkRow → String → Prop
  | nil (hash : String) : Passes check hash [] hash
  | cons {hash hash' : String} {row : LinkRow} {rest : List LinkRow}
      (first : check hash row = .ok none) (more : Passes check row.link.entryHash rest hash') :
      Passes check hash (row :: rest) hash'

/-- What the walk has seen last. -/
def lastSeen (last : Option (ℤ × String)) : List LinkRow → Option (ℤ × String)
  | [] => last
  | row :: rest => lastSeen (some (row.link.sequence, row.link.entryHash)) rest

section Walks

variable {check : String → LinkRow → Except String (Option LinkFailure)}

/-- A walk goes on where the links before have passed. -/
theorem walk_append {hash hash' : String} {rows : List LinkRow}
    (hpasses : Passes check hash rows hash') (last : Option (ℤ × String))
    (rest : List LinkRow) :
    walk check hash last (rows ++ rest) = walk check hash' (lastSeen last rows) rest := by
  induction hpasses generalizing last with
  | nil => rfl
  | cons hfirst _ ih =>
    rw [List.cons_append, walk, hfirst]
    exact ih _

/-- A walk without a failure has passed every link. -/
theorem walk_eq_ok_none {hash : String} {last last' : Option (ℤ × String)}
    {rows : List LinkRow} (h : walk check hash last rows = .ok ⟨none, last'⟩) :
    (∃ hash', Passes check hash rows hash') ∧ last' = lastSeen last rows := by
  induction rows generalizing hash last with
  | nil =>
    cases h
    exact ⟨⟨hash, .nil hash⟩, rfl⟩
  | cons row rest ih =>
    rw [walk] at h
    cases hcheck : check hash row with
    | error e =>
      rw [hcheck] at h
      cases h
    | ok outcome =>
      rw [hcheck] at h
      cases outcome with
      | some failure => cases h
      | none =>
        rcases ih h with ⟨⟨hash', hrest⟩, hlast⟩
        exact ⟨⟨hash', .cons hcheck hrest⟩, hlast⟩

/-- What a failure is does not depend on what was seen before. -/
theorem walk_failure (hash : String) (last last' : Option (ℤ × String)) (rows : List LinkRow) :
    (walk check hash last rows).map Walked.failure =
      (walk check hash last' rows).map Walked.failure := by
  induction rows generalizing hash last last' with
  | nil => rfl
  | cons row rest ih =>
    rw [walk, walk]
    cases check hash row with
    | error e => rfl
    | ok outcome =>
      cases outcome with
      | some failure => rfl
      | none => exact ih row.link.entryHash _ _

end Walks

end QuantumSentinel.Audit
