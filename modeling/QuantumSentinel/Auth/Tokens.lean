import QuantumSentinel.Lib.Dict
import QuantumSentinel.Lib.Transition

/-!
# Refresh tokens: the table and its transactions

The table `refresh_tokens` and the functions of `auth_service.py` that change it,
under READ COMMITTED.  A state holds the committed rows and the calls in progress.  A call
that rotates a token keeps the row lock of its `SELECT ... FOR UPDATE` until it ends; a
revocation is one `UPDATE`, which sees the rows committed when it starts, locks them one
after another in any order, and becomes visible when it commits.

Main results:

- Definition `authority`: the interleaved system.
- Theorem `get?_revokeRows`: what a committed revocation does to each row.

Current gaps:

- The columns `id` and the cache in Redis, which no modelled statement reads.
- A row deleted by hand or by the removal of its user.
-/

namespace QuantumSentinel.Auth

open Lib

/-- Microseconds since the epoch. -/
abbrev Time := Int

/-- The `token_hash` of a token, unique in the table. -/
abbrev TokenHash := String

/-- A `family_id`. -/
abbrev FamilyId := String

/-- A `user_id`. -/
abbrev UserId := String

/-- `RefreshToken`; the token hash is the key of the table. -/
structure RefreshToken where
  userId : UserId
  familyId : FamilyId
  isUsed : Bool
  isRevoked : Bool
  createdAt : Time
  expiresAt : Time
deriving DecidableEq, Repr

/-- Neither used nor revoked. -/
def RefreshToken.isLive (row : RefreshToken) : Bool :=
  !row.isUsed && !row.isRevoked

/-- The table. -/
abbrev TokenTable := Dict TokenHash RefreshToken

/-- The deployment: the hash of a raw token, and the two lifetimes. -/
structure AuthConfig where
  sha256 : String → TokenHash
  refreshTokenSeconds : Time
  refreshAbsoluteSessionSeconds : Time

/-! ## Revocations -/

/-- The `WHERE` clause of a revocation. -/
inductive Scope
  /-- `_revoke_family` -/
  | family (familyId : FamilyId)
  /-- `revoke_user_refresh_tokens` -/
  | user (userId : UserId)
  /-- the row `revoke_refresh_token` has read -/
  | token (tokenHash : TokenHash)
deriving DecidableEq, Repr

namespace Scope

/-- Whether the scope is about a row. -/
def covers : Scope → TokenHash → RefreshToken → Bool
  | .family familyId, _, row => row.familyId = familyId
  | .user userId, _, row => row.userId = userId
  | .token tokenHash, hash, _ => hash = tokenHash

/-- Whether the `WHERE` clause selects a row. -/
def selects : Scope → TokenHash → RefreshToken → Bool
  | .user userId, _, row => row.userId = userId && !row.isRevoked
  | scope, hash, row => scope.covers hash row

end Scope

/-- The keys of the rows that satisfy a condition. -/
def hashesWhere (tokens : TokenTable) (p : TokenHash → RefreshToken → Bool) : List TokenHash :=
  (tokens.items.filter fun item => p item.1 item.2).map Prod.fst

/-- The table after the update of some rows. -/
def revokeRows (tokens : TokenTable) (marked : List TokenHash) : TokenTable :=
  tokens.mapValues fun hash row => if hash ∈ marked then { row with isRevoked := true } else row

/-! ## Calls in progress -/

/-- Where a call stands. -/
inductive Call
  /-- `rotate_refresh_token` before its `SELECT ... FOR UPDATE` -/
  | presented (hash : TokenHash)
  /-- the row is locked and read -/
  | locked (hash : TokenHash) (row : RefreshToken)
  /-- all checks passed; the commit comes next -/
  | checked (hash : TokenHash) (row : RefreshToken)
  /-- inside the `UPDATE` of a revocation: the lock held before it, the rows it has
  still to lock, and the rows it has locked and changed -/
  | revoking (held : List TokenHash) (scope : Scope) (targets marked : List TokenHash)
deriving DecidableEq, Repr

/-- The row locks a call holds. -/
def Call.locks : Call → List TokenHash
  | .presented _ => []
  | .locked hash _ | .checked hash _ => [hash]
  | .revoking held _ _ marked => held ++ marked

/-- A committed revocation: its scope, the tokens of the scope that existed when it
committed, and how many rotations had succeeded by then. -/
structure Revocation where
  scope : Scope
  existing : List TokenHash
  rotatedBefore : ℕ
deriving DecidableEq, Repr

/-- The system state.  The last two fields are history; no step reads them. -/
structure AuthState where
  tokens : TokenTable
  calls : Dict ℕ Call
  /-- the successful rotations, each with the token it presented and the token it issued -/
  rotated : List (TokenHash × TokenHash)
  /-- the committed revocations -/
  revocations : List Revocation

/-- One statement or transaction. -/
inductive Action
  /-- `create_refresh_token` -/
  | create (rawToken : String) (familyId : FamilyId) (userId : UserId) (now : Time)
  /-- a `rotate_refresh_token` call starts -/
  | present (call : ℕ) (rawToken : String)
  /-- its `SELECT ... FOR UPDATE` returns -/
  | lockRow (call : ℕ)
  /-- its checks, with the clock readings of the expiry and of the family's age -/
  | check (call : ℕ) (now later : Time)
  /-- its commit -/
  | commitRotation (call : ℕ) (newRaw : String) (now : Time)
  /-- `revoke_user_refresh_tokens` starts its `UPDATE` -/
  | revokeUser (call : ℕ) (userId : UserId)
  /-- `revoke_refresh_token` has read its row and starts its `UPDATE` -/
  | revokeToken (call : ℕ) (rawToken : String)
  /-- a revocation locks and changes one row -/
  | markRow (call : ℕ) (hash : TokenHash)
  /-- a revocation commits -/
  | commitRevocation (call : ℕ)
  /-- a call fails: its transaction is rolled back -/
  | abort (call : ℕ)

/-! ## Steps -/

/-- `func.min(created_at)` over the family. -/
def familyCreatedAt (tokens : TokenTable) (familyId : FamilyId) : Option Time :=
  ((tokens.values.filter fun row => row.familyId = familyId).map RefreshToken.createdAt).min?

/-- Whether the family has outlived the absolute session lifetime. -/
def familyTooOld (cfg : AuthConfig) (tokens : TokenTable) (familyId : FamilyId)
    (now : Time) : Bool :=
  (familyCreatedAt tokens familyId).any fun createdAt =>
    cfg.refreshAbsoluteSessionSeconds < now - createdAt

namespace AuthState

variable (s : AuthState)

/-- Whether another call holds the lock of a row. -/
def lockedByOther (call : ℕ) (hash : TokenHash) : Bool :=
  s.calls.items.any fun item => decide (item.1 ≠ call) && decide (hash ∈ item.2.locks)

/-- A call goes on. -/
def stage (call : ℕ) (k : Call) : AuthState :=
  { s with calls := s.calls.set call k }

/-- A call ends, and its locks are released. -/
def finish (call : ℕ) : AuthState :=
  { s with calls := s.calls.erase call }

/-- A call starts the `UPDATE` of a revocation. -/
def startRevocation (call : ℕ) (held : List TokenHash) (scope : Scope) : AuthState :=
  s.stage call (.revoking held scope (hashesWhere s.tokens scope.selects) [])

/-- The row of a new token. -/
def newToken (cfg : AuthConfig) (userId : UserId) (familyId : FamilyId) (now : Time) :
    RefreshToken where
  userId := userId
  familyId := familyId
  isUsed := false
  isRevoked := false
  createdAt := now
  expiresAt := now + cfg.refreshTokenSeconds

/-- The checks of `rotate_refresh_token` on the locked row. -/
def checkRow (cfg : AuthConfig) (call : ℕ) (hash : TokenHash) (row : RefreshToken)
    (now later : Time) : AuthState :=
  if row.expiresAt < now then
    s.finish call
  else if row.isRevoked then
    s.finish call
  else if row.isUsed then
    -- reuse detection
    s.startRevocation call [hash] (.family row.familyId)
  else if familyTooOld cfg s.tokens row.familyId later then
    s.startRevocation call [hash] (.family row.familyId)
  else
    s.stage call (.checked hash row)

/-- The commit of a rotation: the token is used, and a new one of the family exists.  A
hash that exists already violates the unique constraint, and nothing is stored. -/
def rotate (cfg : AuthConfig) (call : ℕ) (hash : TokenHash) (row : RefreshToken)
    (newHash : TokenHash) (now : Time) : AuthState :=
  match s.tokens.get? newHash with
  | some _ => s.finish call
  | none =>
    { s.finish call with
      tokens :=
        (s.tokens.updateWhere hash (fun _ => true) fun row => { row with isUsed := true }).set
          newHash (newToken cfg row.userId row.familyId now)
      rotated := s.rotated ++ [(hash, newHash)] }

/-- The commit of a revocation. -/
def revoke (call : ℕ) (scope : Scope) (marked : List TokenHash) : AuthState :=
  { s.finish call with
    tokens := revokeRows s.tokens marked
    revocations := s.revocations ++
      [⟨scope, hashesWhere s.tokens scope.covers, s.rotated.length⟩] }

end AuthState

/-- One step of the system. -/
def step (cfg : AuthConfig) (s : AuthState) : Action → Option AuthState
  | .create rawToken familyId userId now =>
    -- a `uuid4` is new
    if ∃ item ∈ s.tokens.items, item.2.familyId = familyId then none
    else
      match s.tokens.get? (cfg.sha256 rawToken) with
      | some _ => some s
      | none =>
        some { s with
          tokens := s.tokens.set (cfg.sha256 rawToken)
            (AuthState.newToken cfg userId familyId now) }
  | .present call rawToken =>
    match s.calls.get? call with
    | some _ => none
    | none => some (s.stage call (.presented (cfg.sha256 rawToken)))
  | .lockRow call =>
    match s.calls.get? call with
    | some (.presented hash) =>
      match s.tokens.get? hash with
      | none => some (s.finish call)
      | some row =>
        if s.lockedByOther call hash then none else some (s.stage call (.locked hash row))
    | _ => none
  | .check call now later =>
    match s.calls.get? call with
    | some (.locked hash row) => some (s.checkRow cfg call hash row now later)
    | _ => none
  | .commitRotation call newRaw now =>
    match s.calls.get? call with
    | some (.checked hash row) => some (s.rotate cfg call hash row (cfg.sha256 newRaw) now)
    | _ => none
  | .revokeUser call userId =>
    match s.calls.get? call with
    | some _ => none
    | none => some (s.startRevocation call [] (.user userId))
  | .revokeToken call rawToken =>
    match s.calls.get? call with
    | some _ => none
    | none => some (s.startRevocation call [] (.token (cfg.sha256 rawToken)))
  | .markRow call hash =>
    match s.calls.get? call with
    | some (.revoking held scope targets marked) =>
      if hash ∉ targets ∨ s.lockedByOther call hash then none
      else
        -- the clause is evaluated again on the row as it is now
        match s.tokens.get? hash with
        | none => some (s.stage call (.revoking held scope (targets.erase hash) marked))
        | some row =>
          if scope.selects hash row then
            some (s.stage call
              (.revoking held scope (targets.erase hash) (hash :: marked)))
          else some (s.stage call (.revoking held scope (targets.erase hash) marked))
    | _ => none
  | .commitRevocation call =>
    match s.calls.get? call with
    | some (.revoking _ scope [] marked) => some (s.revoke call scope marked)
    | _ => none
  | .abort call =>
    match s.calls.get? call with
    | some _ => some (s.finish call)
    | none => none

/-- The system, with an empty table. -/
def authority (cfg : AuthConfig) : Machine AuthState Action where
  init := ⟨Dict.empty, Dict.empty, [], []⟩
  step := step cfg

/-! ## Rows and queries -/

theorem mem_hashesWhere {tokens : TokenTable} {p : TokenHash → RefreshToken → Bool}
    {hash : TokenHash} :
    hash ∈ hashesWhere tokens p ↔ ∃ row, tokens.get? hash = some row ∧ p hash row = true := by
  simp only [hashesWhere, List.mem_map, List.mem_filter, Prod.exists]
  constructor
  · rintro ⟨hash', row, ⟨hmem, hp⟩, rfl⟩
    exact ⟨row, Dict.get?_eq_some_iff.mpr hmem, hp⟩
  · rintro ⟨row, hget, hp⟩
    exact ⟨hash, row, ⟨Dict.get?_eq_some_iff.mp hget, hp⟩, rfl⟩

/-- What a committed revocation does to each row. -/
theorem get?_revokeRows (tokens : TokenTable) (marked : List TokenHash) (hash : TokenHash) :
    (revokeRows tokens marked).get? hash =
      (tokens.get? hash).map fun row =>
        if hash ∈ marked then { row with isRevoked := true } else row :=
  Dict.get?_mapValues ..

/-- What a clause leaves out of its scope is revoked. -/
theorem Scope.revoked_of_not_selects {scope : Scope} {hash : TokenHash} {row : RefreshToken}
    (hcovers : scope.covers hash row = true) (h : scope.selects hash row = false) :
    row.isRevoked = true := by
  cases scope with
  | family familyId => exact absurd (hcovers.symm.trans h) (by simp)
  | user userId =>
    rw [Scope.covers] at hcovers
    rw [Scope.selects, hcovers, Bool.true_and] at h
    simpa using h
  | token tokenHash => exact absurd (hcovers.symm.trans h) (by simp)

end QuantumSentinel.Auth
