import QuantumSentinel.Auth.Rotation

/-!
# Refresh tokens: revocation

The `UPDATE` of a revocation works on the rows its snapshot selects.  A token that a
concurrent rotation inserts meanwhile is not among them, and neither is one of a login.  When
no such commit falls between the start and the commit of a revocation, every token it is
about is revoked, and no descendant comes to be.

Main results:

- Theorem `Settled.step`: what a step outside the race preserves.
- Theorem `revocation_complete`: in such a run nothing that was revoked is rotated.
- Theorem `revocation_incomplete`: a child escapes the revocation of its family.
-/

namespace QuantumSentinel.Auth

open Lib

/-- The tokens that descend from some tokens by rotation. -/
inductive Descends (s : AuthState) (roots : List TokenHash) : TokenHash → Prop
  | root {hash : TokenHash} (hmem : hash ∈ roots) : Descends s roots hash
  | child {parent hash : TokenHash} (hparent : Descends s roots parent)
      (hrotated : (parent, hash) ∈ s.rotated) : Descends s roots hash

/-- The tokens a committed revocation is about: those of the family, or those that descend
from a token the user had. -/
def Concerns (s : AuthState) (r : Revocation) (hash : TokenHash) : Prop :=
  match r.scope with
  | .family familyId => ∃ row, s.tokens.get? hash = some row ∧ row.familyId = familyId
  | .user _ => Descends s r.existing hash
  | .token _ => False

/-- No token that a committed revocation is about was rotated after it. -/
def RevocationsHold (s : AuthState) : Prop :=
  ∀ r ∈ s.revocations, ∀ p ∈ s.rotated.drop r.rotatedBefore, ¬Concerns s r p.1

/-- The scope of a revocation in progress. -/
def Call.scope? : Call → Option Scope
  | .revoking _ scope _ _ => some scope
  | _ => none

/-- Whether a revocation with this scope is in progress: its `UPDATE` has started, and it has
not committed. -/
def AuthState.isRevoking (s : AuthState) (scope : Scope) : Bool :=
  s.calls.values.any fun k => k.scope? = some scope

/-- The steps outside the race: no rotation of a family or of a user commits while a
revocation of that family or user runs, and no login of the user either. -/
def OutsideRace (s : AuthState) : Action → Prop
  | .commitRotation call _ _ =>
    match s.calls.get? call with
    | some (.checked _ row) =>
      (s.isRevoking (.family row.familyId) || s.isRevoking (.user row.userId)) = false
    | _ => True
  | .create _ _ userId _ => s.isRevoking (.user userId) = false
  | _ => True

instance (s : AuthState) (a : Action) : Decidable (OutsideRace s a) := by
  unfold OutsideRace
  split
  · split <;> infer_instance
  · infer_instance
  · infer_instance

/-- A revocation in progress has another scope. -/
theorem AuthState.scope_ne {s : AuthState} {scope scope' : Scope}
    (h : s.isRevoking scope = false) {c : ℕ} {held targets marked : List TokenHash}
    (hc : s.calls.get? c = some (.revoking held scope' targets marked)) : scope' ≠ scope := by
  rintro rfl
  rw [isRevoking, List.any_eq_false] at h
  have hmem : Call.revoking held scope' targets marked ∈ s.calls.values :=
    List.mem_map.mpr ⟨_, Dict.get?_eq_some_iff.mp hc, rfl⟩
  exact h _ hmem (by simp [Call.scope?])

/-! ## Changes of the table -/

/-- Rows keep their user and family and stay revoked; a new row has a property. -/
structure RowChange (tokens tokens' : TokenTable) (new : TokenHash → RefreshToken → Prop) :
    Prop where
  kept : ∀ hash row, tokens.get? hash = some row → ∃ row', tokens'.get? hash = some row' ∧
    row'.userId = row.userId ∧ row'.familyId = row.familyId ∧
      (row.isRevoked = true → row'.isRevoked = true)
  only : ∀ hash row', tokens'.get? hash = some row' →
    (∃ row, tokens.get? hash = some row ∧ row'.userId = row.userId ∧
      row'.familyId = row.familyId ∧ (row.isRevoked = true → row'.isRevoked = true)) ∨
        new hash row'

theorem RowChange.refl (tokens : TokenTable) : RowChange tokens tokens fun _ _ => False where
  kept := fun _ row h => ⟨row, h, rfl, rfl, fun hr => hr⟩
  only := fun _ row h => Or.inl ⟨row, h, rfl, rfl, fun hr => hr⟩

/-- A new row under a new key. -/
theorem RowChange.insert {tokens : TokenTable} {hash : TokenHash} {row : RefreshToken}
    (hnew : tokens.get? hash = none) :
    RowChange tokens (tokens.set hash row) fun q rowq => q = hash ∧ rowq = row where
  kept := fun q rowq h => by
    have hne : q ≠ hash := fun heq => by
      rw [heq, hnew] at h
      cases h
    exact ⟨rowq, by rw [Dict.get?_set_ne _ _ hne, h], rfl, rfl, fun hr => hr⟩
  only := fun q rowq h => by
    rw [Dict.get?_set] at h
    split at h
    · rename_i heq
      cases h
      exact Or.inr ⟨heq, rfl⟩
    · exact Or.inl ⟨rowq, h, rfl, rfl, fun hr => hr⟩

theorem RowChange.rotated {tokens : TokenTable} {hash newHash : TokenHash}
    {row new : RefreshToken} (hrow : tokens.get? hash = some row)
    (hnew : tokens.get? newHash = none) :
    RowChange tokens
      ((tokens.updateWhere hash (fun _ => true) fun row => { row with isUsed := true }).set
        newHash new) fun q rowq => q = newHash ∧ rowq = new where
  kept := fun q rowq h => by
    have hne : q ≠ newHash := fun heq => by
      rw [heq, hnew] at h
      cases h
    rw [Sound.get?_rotated hrow, if_neg hne]
    split
    · rename_i heq
      rw [heq, hrow] at h
      cases h
      exact ⟨_, rfl, rfl, rfl, fun hr => hr⟩
    · exact ⟨rowq, h, rfl, rfl, fun hr => hr⟩
  only := fun q rowq h => by
    rw [Sound.get?_rotated hrow] at h
    split at h
    · rename_i heq
      cases h
      exact Or.inr ⟨heq, rfl⟩
    · split at h
      · rename_i heq
        cases h
        exact Or.inl ⟨row, by rw [heq, hrow], rfl, rfl, fun hr => hr⟩
      · exact Or.inl ⟨rowq, h, rfl, rfl, fun hr => hr⟩

theorem RowChange.revoked (tokens : TokenTable) (marked : List TokenHash) :
    RowChange tokens (revokeRows tokens marked) fun _ _ => False := by
  have hrow : ∀ hash row, tokens.get? hash = some row →
      ∃ row', (revokeRows tokens marked).get? hash = some row' ∧ row'.userId = row.userId ∧
        row'.familyId = row.familyId ∧ (row.isRevoked = true → row'.isRevoked = true) := by
    intro hash row h
    rw [get?_revokeRows, h]
    refine ⟨_, rfl, ?_⟩
    split
    · exact ⟨rfl, rfl, fun _ => rfl⟩
    · exact ⟨rfl, rfl, fun hr => hr⟩
  refine ⟨hrow, fun hash row' h => Or.inl ?_⟩
  have h' := h
  rw [get?_revokeRows] at h'
  rcases Option.map_eq_some_iff.mp h' with ⟨row, hold, -⟩
  rcases hrow hash row hold with ⟨row'', hrow'', hfacts⟩
  rw [h, Option.some.injEq] at hrow''
  exact ⟨row, hold, hrow'' ▸ hfacts⟩

/-! ## What running and committed revocations guarantee -/

/-- A running revocation of a family or user has every row of its scope in hand, or the row
is revoked. -/
structure Running (tokens : TokenTable) (scope : Scope) (targets marked : List TokenHash) :
    Prop where
  covering : ∀ hash row, tokens.get? hash = some row → scope.covers hash row = true →
    row.isRevoked = true ∨ hash ∈ targets ∨ hash ∈ marked
  /-- the family exists -/
  anchored : ∀ familyId, scope = .family familyId →
    ∃ hash row, tokens.get? hash = some row ∧ row.familyId = familyId

/-- After a revocation of a family all its rows are revoked; after one of a user the rows
that existed are, and no row descends from them. -/
structure Held (s : AuthState) (r : Revocation) : Prop where
  before : r.rotatedBefore ≤ s.rotated.length
  family : ∀ familyId, r.scope = .family familyId →
    (∃ hash row, s.tokens.get? hash = some row ∧ row.familyId = familyId) ∧
      (∀ hash row, s.tokens.get? hash = some row → row.familyId = familyId →
        row.isRevoked = true) ∧
      ∀ p ∈ s.rotated.drop r.rotatedBefore, ∀ row, s.tokens.get? p.1 = some row →
        row.familyId ≠ familyId
  user : ∀ userId, r.scope = .user userId →
    (∀ hash ∈ r.existing, ∃ row, s.tokens.get? hash = some row ∧ row.isRevoked = true) ∧
      (∀ p ∈ s.rotated, p.1 ∈ r.existing → p.2 ∈ r.existing) ∧
      ∀ p ∈ s.rotated.drop r.rotatedBefore, p.1 ∉ r.existing

/-- The invariant of the runs outside the race. -/
structure Settled (s : AuthState) : Prop where
  sound : Sound s
  /-- a new token has the user and the family of the one it replaces -/
  lineage : ∀ p ∈ s.rotated, ∃ row row', s.tokens.get? p.1 = some row ∧
    s.tokens.get? p.2 = some row' ∧ row'.userId = row.userId ∧ row'.familyId = row.familyId
  running : ∀ c held scope targets marked,
    s.calls.get? c = some (.revoking held scope targets marked) →
      (∀ hash, scope ≠ .token hash) → Running s.tokens scope targets marked
  held : ∀ r ∈ s.revocations, Held s r

/-- The guarantee about a user's tokens reaches their descendants. -/
theorem Held.descends {s : AuthState} {r : Revocation} (h : Held s r) {userId : UserId}
    (hscope : r.scope = .user userId) {hash : TokenHash} (hd : Descends s r.existing hash) :
    hash ∈ r.existing := by
  induction hd with
  | root hmem => exact hmem
  | child _ hrotated ih => exact (h.user userId hscope).2.1 _ hrotated ih

/-- Nothing that was revoked is rotated afterwards. -/
theorem Settled.revocationsHold {s : AuthState} (h : Settled s) : RevocationsHold s := by
  intro r hr p hp hconcerns
  have hheld := h.held r hr
  unfold Concerns at hconcerns
  split at hconcerns
  · rename_i familyId hscope
    rcases hconcerns with ⟨row, hrow, hfamily⟩
    exact (hheld.family familyId hscope).2.2 p hp row hrow hfamily
  · rename_i userId hscope
    exact (hheld.user userId hscope).2.2 p hp (hheld.descends hscope hconcerns)
  · exact hconcerns

/-! ## Preservation -/

/-- A scope looks at the key, the user and the family of a row only. -/
theorem Scope.covers_congr {scope : Scope} {hash : TokenHash} {row row' : RefreshToken}
    (huser : row'.userId = row.userId) (hfamily : row'.familyId = row.familyId) :
    scope.covers hash row' = scope.covers hash row := by
  cases scope with
  | family familyId => rw [covers, covers, hfamily]
  | user userId => rw [covers, covers, huser]
  | token tokenHash => rfl

/-- A revocation keeps its rows in hand when the new rows are not of its scope. -/
theorem Running.frame {tokens tokens' : TokenTable} {scope : Scope}
    {targets marked : List TokenHash} {new : TokenHash → RefreshToken → Prop}
    (h : Running tokens scope targets marked) (hchange : RowChange tokens tokens' new)
    (hnew : ∀ hash row, new hash row → scope.covers hash row = false) :
    Running tokens' scope targets marked where
  covering := by
    intro hash row' hrow' hcovers
    rcases hchange.only hash row' hrow' with ⟨row, hrow, huser, hfamily, hkept⟩ | hisnew
    · rw [Scope.covers_congr huser hfamily] at hcovers
      rcases h.covering hash row hrow hcovers with hrevoked | hhand
      · exact Or.inl (hkept hrevoked)
      · exact Or.inr hhand
    · rw [hnew hash row' hisnew] at hcovers
      cases hcovers
  anchored := by
    intro familyId hscope
    rcases h.anchored familyId hscope with ⟨hash, row, hrow, hfamily⟩
    rcases hchange.kept hash row hrow with ⟨row', hrow', -, hfamily', -⟩
    exact ⟨hash, row', hrow', hfamily'.trans hfamily⟩

/-- A guarantee survives rotations of other families and of other tokens. -/
theorem Held.frame {s s' : AuthState} {r : Revocation}
    {new : TokenHash → RefreshToken → Prop} {more : List (TokenHash × TokenHash)}
    (h : Held s r) (hchange : RowChange s.tokens s'.tokens new)
    (hrotated : s'.rotated = s.rotated ++ more)
    (hnew : ∀ hash row, new hash row → r.scope ≠ .family row.familyId)
    (hfamily : ∀ p ∈ more, ∀ row, s'.tokens.get? p.1 = some row →
      r.scope ≠ .family row.familyId)
    (huser : ∀ userId, r.scope = .user userId → ∀ p ∈ more, p.1 ∉ r.existing) :
    Held s' r where
  before := by
    rw [hrotated, List.length_append]
    have := h.before
    omega
  family := by
    intro familyId hscope
    rcases h.family familyId hscope with ⟨⟨hash₀, row₀, hrow₀, hfamily₀⟩, hall, hlater⟩
    refine ⟨?_, ?_, ?_⟩
    · rcases hchange.kept hash₀ row₀ hrow₀ with ⟨row', hrow', -, hsame, -⟩
      exact ⟨hash₀, row', hrow', hsame.trans hfamily₀⟩
    · intro hash row' hrow' hrowfamily
      rcases hchange.only hash row' hrow' with ⟨row, hrow, -, hsame, hkept⟩ | hisnew
      · exact hkept (hall hash row hrow (hsame.symm.trans hrowfamily))
      · exact absurd (hscope.trans (congrArg Scope.family hrowfamily.symm)) (hnew _ _ hisnew)
    · intro p hp row' hrow' hrowfamily
      rw [hrotated, List.drop_append_of_le_length h.before, List.mem_append] at hp
      have hscope' : r.scope = .family row'.familyId :=
        hscope.trans (congrArg Scope.family hrowfamily.symm)
      rcases hp with hold | hmore
      · rcases hchange.only p.1 row' hrow' with ⟨row, hrow, -, hsame, -⟩ | hisnew
        · exact hlater p hold row hrow (hsame.symm.trans hrowfamily)
        · exact hnew _ _ hisnew hscope'
      · exact hfamily p hmore row' hrow' hscope'
  user := by
    intro userId hscope
    rcases h.user userId hscope with ⟨hrevoked, hclosed, hlater⟩
    refine ⟨?_, ?_, ?_⟩
    · intro hash hmem
      rcases hrevoked hash hmem with ⟨row, hrow, hr⟩
      rcases hchange.kept hash row hrow with ⟨row', hrow', -, -, hkept⟩
      exact ⟨row', hrow', hkept hr⟩
    · intro p hp hmem
      rw [hrotated, List.mem_append] at hp
      rcases hp with hold | hmore
      · exact hclosed p hold hmem
      · exact absurd hmem (huser userId hscope p hmore)
    · intro p hp
      rw [hrotated, List.drop_append_of_le_length h.before, List.mem_append] at hp
      rcases hp with hold | hmore
      · exact hlater p hold
      · exact huser userId hscope p hmore

namespace Settled

variable {cfg : AuthConfig} {s s' : AuthState} {call : ℕ} {k : Call}

/-- A change of the table that leaves the calls which go on as they are. -/
theorem retable {new : TokenHash → RefreshToken → Prop} {more : List (TokenHash × TokenHash)}
    (h : Settled s) (hsound : Sound s') (hchange : RowChange s.tokens s'.tokens new)
    (hcalls : ∀ c k, s'.calls.get? c = some k → s.calls.get? c = some k)
    (hrotated : s'.rotated = s.rotated ++ more)
    (hmore : ∀ p ∈ more, ∃ row row', s'.tokens.get? p.1 = some row ∧
      s'.tokens.get? p.2 = some row' ∧ row'.userId = row.userId ∧ row'.familyId = row.familyId)
    (hnew : ∀ c held scope targets marked,
      s.calls.get? c = some (.revoking held scope targets marked) →
        (∀ hash, scope ≠ .token hash) → Running s.tokens scope targets marked →
          ∀ hash row, new hash row → scope.covers hash row = false)
    (hheld : ∀ r ∈ s'.revocations, Held s' r) : Settled s' where
  sound := hsound
  lineage := by
    intro p hp
    rw [hrotated, List.mem_append] at hp
    rcases hp with hold | hlast
    · rcases h.lineage p hold with ⟨row, row', hrow, hrow', huser, hfamily⟩
      rcases hchange.kept p.1 row hrow with ⟨row₁, hrow₁, huser₁, hfamily₁, -⟩
      rcases hchange.kept p.2 row' hrow' with ⟨row₂, hrow₂, huser₂, hfamily₂, -⟩
      exact ⟨row₁, row₂, hrow₁, hrow₂, huser₂.trans (huser.trans huser₁.symm),
        hfamily₂.trans (hfamily.trans hfamily₁.symm)⟩
    · exact hmore p hlast
  running := by
    intro c held scope targets marked hc htoken
    have hold := hcalls c _ hc
    have hrunning := h.running c held scope targets marked hold htoken
    exact hrunning.frame hchange (hnew c held scope targets marked hold htoken hrunning)
  held := hheld

/-- A call that goes on, or starts a revocation with every row of its scope in hand. -/
theorem stage (h : Settled s) (hsound : Sound (s.stage call k))
    (hrunning : ∀ held scope targets marked, k = .revoking held scope targets marked →
      (∀ hash, scope ≠ .token hash) → Running s.tokens scope targets marked) :
    Settled (s.stage call k) where
  sound := hsound
  lineage := h.lineage
  running := by
    intro c held scope targets marked hc htoken
    simp only [AuthState.stage, Dict.get?_set] at hc
    split at hc
    · cases hc
      exact hrunning held scope targets marked rfl htoken
    · exact h.running c held scope targets marked hc htoken
  held := fun r hr => ⟨(h.held r hr).before, (h.held r hr).family, (h.held r hr).user⟩

theorem finish (h : Settled s) (call : ℕ) : Settled (s.finish call) := by
  refine h.retable (h.sound.finish call) (RowChange.refl s.tokens)
    (fun c k hc => (Sound.get?_finish hc).2) (List.append_nil _).symm (fun _ hp => by cases hp)
    (fun _ _ _ _ _ _ _ _ _ _ hno => hno.elim) ?_
  exact fun r hr => ⟨(h.held r hr).before, (h.held r hr).family, (h.held r hr).user⟩

/-- A revocation starts with every row of its scope in hand. -/
theorem startRevocation (h : Settled s) {held : List TokenHash} {scope : Scope}
    (hsound : Sound (s.startRevocation call held scope))
    (hanchor : ∀ familyId, scope = .family familyId →
      ∃ hash row, s.tokens.get? hash = some row ∧ row.familyId = familyId) :
    Settled (s.startRevocation call held scope) := by
  refine h.stage hsound ?_
  intro held' scope' targets marked hk _
  cases hk
  refine ⟨fun hash row hrow hcovers => ?_, hanchor⟩
  by_cases hselects : scope.selects hash row = true
  · exact Or.inr (Or.inl (mem_hashesWhere.mpr ⟨row, hrow, hselects⟩))
  · exact Or.inl (Scope.revoked_of_not_selects hcovers (by simpa using hselects))

theorem checkRow (h : Settled s) {hash : TokenHash} {row : RefreshToken} {now later : Time}
    (hcall : s.calls.get? call = some (.locked hash row)) :
    Settled (s.checkRow cfg call hash row now later) := by
  have hsound : Sound (s.checkRow cfg call hash row now later) := h.sound.checkRow hcall
  have hanchor : ∀ familyId, Scope.family row.familyId = .family familyId →
      ∃ q rowq, s.tokens.get? q = some rowq ∧ rowq.familyId = familyId := by
    intro familyId heq
    cases heq
    exact ⟨hash, row, h.sound.locked call hash row hcall, rfl⟩
  unfold AuthState.checkRow at hsound ⊢
  split at hsound
  · rename_i hexpired
    rw [if_pos hexpired]
    exact h.finish call
  · rename_i hexpired
    rw [if_neg hexpired]
    split at hsound
    · rename_i hrevoked
      rw [if_pos hrevoked]
      exact h.finish call
    · rename_i hrevoked
      rw [if_neg hrevoked]
      split at hsound
      · rename_i hused
        rw [if_pos hused]
        exact h.startRevocation hsound hanchor
      · rename_i hused
        rw [if_neg hused]
        split at hsound
        · rename_i hold
          rw [if_pos hold]
          exact h.startRevocation hsound hanchor
        · rename_i hold
          rw [if_neg hold]
          exact h.stage hsound fun _ _ _ _ hk => by cases hk

/-- A revocation has dealt with one of its rows: it has marked it, or need not. -/
theorem mark {tokens : TokenTable} {scope : Scope} {targets marked marked' : List TokenHash}
    {hash : TokenHash} (h : Running tokens scope targets marked)
    (hkept : ∀ q ∈ marked, q ∈ marked')
    (hdone : ∀ row, tokens.get? hash = some row → scope.selects hash row = true →
      hash ∈ marked') :
    Running tokens scope (targets.erase hash) marked' where
  covering := by
    intro q row hrow hcovers
    rcases h.covering q row hrow hcovers with hrevoked | htarget | hmarked
    · exact Or.inl hrevoked
    · by_cases heq : q = hash
      · subst heq
        by_cases hselects : scope.selects q row = true
        · exact Or.inr (Or.inr (hdone row hrow hselects))
        · exact Or.inl (Scope.revoked_of_not_selects hcovers (by simpa using hselects))
      · exact Or.inr (Or.inl ((List.mem_erase_of_ne heq).mpr htarget))
    · exact Or.inr (Or.inr (hkept q hmarked))
  anchored := h.anchored

/-- A login founds a family that no revocation is about. -/
theorem create (h : Settled s) {hash : TokenHash} {row : RefreshToken}
    (hnew : s.tokens.get? hash = none)
    (hfresh : ∀ hash' row', s.tokens.get? hash' = some row' → row'.familyId ≠ row.familyId)
    (houtside : ∀ c held scope targets marked,
      s.calls.get? c = some (.revoking held scope targets marked) → scope ≠ .user row.userId) :
    Settled { s with tokens := s.tokens.set hash row } := by
  have hchange : RowChange s.tokens (s.tokens.set hash row) _ := RowChange.insert hnew
  refine h.retable (h.sound.create hnew hfresh) hchange (fun _ _ hc => hc)
    (List.append_nil _).symm (fun _ hp => by cases hp) ?_ ?_
  · intro c held scope targets marked hc htoken hrunning q rowq hq
    rcases hq with ⟨-, rfl⟩
    cases scope with
    | family familyId =>
      rcases hrunning.anchored familyId rfl with ⟨hash', row', hrow', hfamily⟩
      have hne := hfresh hash' row' hrow'
      rw [hfamily] at hne
      simpa [Scope.covers] using hne.symm
    | user userId =>
      have hne := houtside c held _ targets marked hc
      simpa [Scope.covers, eq_comm] using hne
    | token hash' => exact absurd rfl (htoken hash')
  · intro r hr
    refine (h.held r hr).frame hchange (List.append_nil _).symm ?_ (fun _ hp => by cases hp)
      fun _ _ _ hp => by cases hp
    rintro q rowq ⟨-, rfl⟩ hscope
    rcases ((h.held r hr).family _ hscope).1 with ⟨hash', row', hrow', hfamily⟩
    exact hfresh hash' row' hrow' hfamily

/-- A rotation outside the race presents a token that no revocation is about. -/
theorem rotate (h : Settled s) {hash newHash : TokenHash} {row : RefreshToken} {now : Time}
    (hcall : s.calls.get? call = some (.checked hash row))
    (houtside : ∀ c held scope targets marked,
      s.calls.get? c = some (.revoking held scope targets marked) →
        scope ≠ .family row.familyId ∧ scope ≠ .user row.userId) :
    Settled (s.rotate cfg call hash row newHash now) := by
  have hsound : Sound (s.rotate cfg call hash row newHash now) := h.sound.rotate hcall
  rcases h.sound.checked call hash row hcall with ⟨hrow, hlive⟩
  have hnotrevoked : row.isRevoked ≠ true := fun hrevoked => by
    simp [RefreshToken.isLive, hrevoked] at hlive
  unfold AuthState.rotate at hsound ⊢
  cases hnew : s.tokens.get? newHash with
  | some old => exact h.finish call
  | none =>
    simp only [hnew] at hsound
    have hne : hash ≠ newHash := fun heq => by
      rw [heq, hnew] at hrow
      cases hrow
    have hchange : RowChange s.tokens
        ((s.tokens.updateWhere hash (fun _ => true) fun row => { row with isUsed := true }).set
          newHash (AuthState.newToken cfg row.userId row.familyId now)) _ :=
      RowChange.rotated hrow hnew
    have hget := Sound.get?_rotated hrow newHash
      (AuthState.newToken cfg row.userId row.familyId now)
    have hparent := hget hash
    rw [if_neg hne, if_pos rfl] at hparent
    have hchild := hget newHash
    rw [if_pos rfl] at hchild
    -- the presented token is live, so no committed revocation is about it
    have hfamily : ∀ r ∈ s.revocations, r.scope ≠ .family row.familyId := fun r hr hscope =>
      hnotrevoked (((h.held r hr).family _ hscope).2.1 hash row hrow rfl)
    have huser : ∀ r ∈ s.revocations, ∀ userId, r.scope = .user userId →
        hash ∉ r.existing := by
      intro r hr userId hscope hmem
      rcases ((h.held r hr).user userId hscope).1 hash hmem with ⟨row', hrow', hrevoked⟩
      rw [hrow] at hrow'
      cases hrow'
      exact hnotrevoked hrevoked
    refine h.retable hsound hchange (fun c k hc => (Sound.get?_finish hc).2) rfl ?_ ?_ ?_
    · intro p hp
      rw [List.mem_singleton.mp hp]
      exact ⟨_, _, hparent, hchild, rfl, rfl⟩
    · rintro c held scope targets marked hc htoken - q rowq ⟨-, rfl⟩
      rcases houtside c held scope targets marked hc with ⟨hnotfamily, hnotuser⟩
      cases scope with
      | family familyId => simpa [Scope.covers, AuthState.newToken, eq_comm] using hnotfamily
      | user userId => simpa [Scope.covers, AuthState.newToken, eq_comm] using hnotuser
      | token hash' => exact absurd rfl (htoken hash')
    · intro r hr
      refine (h.held r hr).frame hchange rfl ?_ ?_ ?_
      · rintro q rowq ⟨-, rfl⟩
        exact hfamily r hr
      · intro p hp rowp hrowp
        rw [List.mem_singleton.mp hp] at hrowp
        have heq := Option.some.inj (hparent.symm.trans hrowp)
        rw [← heq]
        exact hfamily r hr
      · intro userId hscope p hp
        rw [List.mem_singleton.mp hp]
        exact huser r hr userId hscope

/-- A revocation commits when no row is left to lock: all rows of its scope are revoked. -/
theorem revoke (h : Settled s) {held marked : List TokenHash} {scope : Scope}
    (hcall : s.calls.get? call = some (.revoking held scope [] marked)) :
    Settled (s.revoke call scope marked) := by
  have hchange := RowChange.revoked s.tokens marked
  have hframe : ∀ r ∈ s.revocations, Held (s.revoke call scope marked) r := fun r hr =>
    (h.held r hr).frame hchange (List.append_nil _).symm (fun _ _ hno => hno.elim)
      (fun _ hp => by cases hp) fun _ _ _ hp => by cases hp
  refine h.retable (h.sound.revoke hcall) hchange
    (fun c k hc => (Sound.get?_finish hc).2) (List.append_nil _).symm (fun _ hp => by cases hp)
    (fun _ _ _ _ _ _ _ _ _ _ hno => hno.elim) fun r hr => ?_
  rcases List.mem_append.mp hr with hold | hlast
  · exact hframe r hold
  · rw [List.mem_singleton.mp hlast]
    have hrevoked : (∀ hash, scope ≠ .token hash) → ∀ hash row,
        s.tokens.get? hash = some row → scope.covers hash row = true →
          ∃ row', (revokeRows s.tokens marked).get? hash = some row' ∧
            row'.isRevoked = true := by
      intro htoken hash row hrow hcovers
      rw [get?_revokeRows, hrow]
      refine ⟨_, rfl, ?_⟩
      rcases (h.running call held scope [] marked hcall htoken).covering hash row hrow hcovers
        with hwas | hnone | hmarked
      · split
        · rfl
        · exact hwas
      · cases hnone
      · simp only [if_pos hmarked]
    constructor
    case before => exact le_rfl
    case family =>
        rintro familyId rfl
        refine ⟨?_, ?_, fun p hp => ?_⟩
        · rcases (h.running call held _ [] marked hcall (fun _ => Scope.noConfusion)).anchored
            familyId rfl with ⟨hash, row, hrow, hfamily⟩
          rcases hchange.kept hash row hrow with ⟨row', hrow', -, hsame, -⟩
          exact ⟨hash, row', hrow', hsame.trans hfamily⟩
        · intro hash row' hrow' hfamily
          rcases hchange.only hash row' hrow' with ⟨row, hrow, -, hsame, -⟩ | hno
          · rcases hrevoked (fun _ => Scope.noConfusion) hash row hrow
              (by simpa [Scope.covers] using hsame.symm.trans hfamily) with ⟨row'', hrow'', hr⟩
            have heq := Option.some.inj (hrow'.symm.trans hrow'')
            rw [heq]
            exact hr
          · exact hno.elim
        · simp [AuthState.revoke, AuthState.finish] at hp
    case user =>
        rintro userId rfl
        refine ⟨?_, ?_, fun p hp => ?_⟩
        · intro hash hmem
          rcases mem_hashesWhere.mp hmem with ⟨row, hrow, hcovers⟩
          exact hrevoked (fun _ => Scope.noConfusion) hash row hrow hcovers
        · intro p hp hmem
          rcases mem_hashesWhere.mp hmem with ⟨row, hrow, hcovers⟩
          rcases h.lineage p hp with ⟨rowp, rowc, hrowp, hrowc, huser, -⟩
          rw [hrow] at hrowp
          cases hrowp
          refine mem_hashesWhere.mpr ⟨rowc, hrowc, ?_⟩
          simpa [Scope.covers, huser] using hcovers
        · simp [AuthState.revoke, AuthState.finish] at hp

/-- What a step outside the race preserves. -/
theorem step (h : Settled s) {a : Action} (houtside : OutsideRace s a)
    (hstep : step cfg s a = some s') : Settled s' := by
  have hsound := h.sound.step hstep
  cases a with
  | create rawToken familyId userId now =>
    simp only [Auth.step] at hstep
    split at hstep
    · cases hstep
    · rename_i hfresh
      split at hstep
      · cases hstep
        exact h
      · rename_i hnew
        cases hstep
        refine h.create hnew (fun hash' row' hrow' heq => hfresh ?_)
          fun c held scope targets marked hc => AuthState.scope_ne houtside hc
        exact ⟨(hash', row'), Dict.get?_eq_some_iff.mp hrow', heq⟩
  | present call rawToken =>
    simp only [Auth.step] at hstep
    split at hstep
    · cases hstep
    · cases hstep
      exact h.stage hsound fun _ _ _ _ hk => by cases hk
  | lockRow call =>
    simp only [Auth.step] at hstep
    split at hstep
    · split at hstep
      · cases hstep
        exact h.finish call
      · split at hstep
        · cases hstep
        · cases hstep
          exact h.stage hsound fun _ _ _ _ hk => by cases hk
    · cases hstep
  | check call now later =>
    simp only [Auth.step] at hstep
    split at hstep
    · rename_i hash row hcall
      cases hstep
      exact h.checkRow hcall
    · cases hstep
  | commitRotation call newRaw now =>
    simp only [Auth.step] at hstep
    split at hstep
    · rename_i hash row hcall
      cases hstep
      simp only [OutsideRace, hcall, Bool.or_eq_false_iff] at houtside
      exact h.rotate hcall fun c held scope targets marked hc =>
        ⟨AuthState.scope_ne houtside.1 hc, AuthState.scope_ne houtside.2 hc⟩
    · cases hstep
  | revokeUser call userId =>
    simp only [Auth.step] at hstep
    split at hstep
    · cases hstep
    · cases hstep
      exact h.startRevocation hsound fun _ heq => by cases heq
  | revokeToken call rawToken =>
    simp only [Auth.step] at hstep
    split at hstep
    · cases hstep
    · cases hstep
      exact h.startRevocation hsound fun _ heq => by cases heq
  | markRow call hash =>
    simp only [Auth.step] at hstep
    split at hstep
    · rename_i held scope targets marked hcall
      split at hstep
      · cases hstep
      · have hrunning := h.running call held scope targets marked hcall
        split at hstep
        · rename_i hnone
          cases hstep
          refine h.stage hsound ?_
          intro _ _ _ _ hk htoken
          cases hk
          exact mark (hrunning htoken) (fun _ hq => hq) fun row hrow => by
            rw [hnone] at hrow
            cases hrow
        · rename_i row hrow
          split at hstep
          · cases hstep
            refine h.stage hsound ?_
            intro _ _ _ _ hk htoken
            cases hk
            exact mark (hrunning htoken) (fun _ hq => List.mem_cons_of_mem hash hq)
              fun _ _ _ => List.mem_cons_self
          · rename_i hselects
            cases hstep
            refine h.stage hsound ?_
            intro _ _ _ _ hk htoken
            cases hk
            refine mark (hrunning htoken) (fun _ hq => hq) fun row' hrow' hselects' => ?_
            rw [hrow] at hrow'
            cases hrow'
            exact absurd hselects' hselects
    · cases hstep
  | commitRevocation call =>
    simp only [Auth.step] at hstep
    split at hstep
    · rename_i held scope marked hcall
      cases hstep
      exact h.revoke hcall
    · cases hstep
  | abort call =>
    simp only [Auth.step] at hstep
    split at hstep
    · cases hstep
      exact h.finish call
    · cases hstep

end Settled

/-- The empty table. -/
theorem settled_init (cfg : AuthConfig) : Settled (authority cfg).init where
  sound := sound_init cfg
  lineage := fun _ hp => by cases hp
  running := fun _ _ _ _ _ hc => by cases hc
  held := fun _ hr => by cases hr

/-- In every run outside the race, no token that a committed revocation is about is rotated
after it. -/
theorem revocation_complete {cfg : AuthConfig} {s : AuthState}
    (hs : (authority cfg).ReachableUnder OutsideRace s) : RevocationsHold s := by
  have hsettled : Settled s := hs.invariant (settled_init cfg)
    fun _ _ _ houtside hstep h => h.step houtside hstep
  exact hsettled.revocationsHold

/-- A login, a rotation, a reuse of the first token that revokes the family, and a
presentation of the second. -/
theorem revocation_complete_reuse :
    ∃ s, plainAuthority.ReachableUnder OutsideRace s ∧ RevocationsHold s ∧
      s.rotated = [("T0", "T1")] ∧ s.revocations = [⟨.family "F", ["T0", "T1"], 1⟩] := by
  have hrun : (plainAuthority.execUnder OutsideRace plainAuthority.init
      [.create "T0" "F" "U" 0, .present 1 "T0", .lockRow 1, .check 1 1 1,
        .commitRotation 1 "T1" 1, .present 2 "T0", .lockRow 2, .check 2 2 2, .markRow 2 "T0",
        .markRow 2 "T1", .commitRevocation 2, .present 3 "T1", .lockRow 3,
        .check 3 3 3]).map (fun s => (s.rotated, s.revocations)) =
      some ([("T0", "T1")], [⟨.family "F", ["T0", "T1"], 1⟩]) := by
    decide +kernel
  rcases Option.map_eq_some_iff.mp hrun with ⟨s, hexec, hs⟩
  have hreach := Machine.reachableUnder_of_execUnder hexec
  rw [Prod.mk.injEq] at hs
  exact ⟨s, hreach, revocation_complete hreach, hs⟩

/-- While the rotation of a token has passed its checks, the reuse of the token before it
starts to revoke the family.  The rotation commits, the revocation marks the two tokens it
saw and commits, and the third token is rotated. -/
theorem revocation_incomplete :
    ∃ s, plainAuthority.Reachable s ∧ ¬RevocationsHold s := by
  have hrun : (plainAuthority.exec plainAuthority.init
      [.create "T0" "F" "U" 0, .present 1 "T0", .lockRow 1, .check 1 1 1,
        .commitRotation 1 "T1" 1, .present 2 "T1", .lockRow 2, .check 2 2 2,
        .present 3 "T0", .lockRow 3, .check 3 3 3, .markRow 3 "T0",
        .commitRotation 2 "T2" 3, .markRow 3 "T1", .commitRevocation 3,
        .present 4 "T2", .lockRow 4, .check 4 4 4, .commitRotation 4 "T3" 5]).map
        (fun s => (s.rotated, s.revocations, (s.tokens.get? "T2").map RefreshToken.familyId)) =
      some ([("T0", "T1"), ("T1", "T2"), ("T2", "T3")],
        [⟨.family "F", ["T0", "T1", "T2"], 2⟩], some "F") := by
    decide +kernel
  rcases Option.map_eq_some_iff.mp hrun with ⟨s, hexec, hs⟩
  simp only [Prod.mk.injEq] at hs
  rcases hs with ⟨hrotated, hrevocations, hrow⟩
  rcases Option.map_eq_some_iff.mp hrow with ⟨row, hget, hfamily⟩
  refine ⟨s, Machine.reachable_of_exec hexec, fun hhold => ?_⟩
  refine hhold ⟨.family "F", ["T0", "T1", "T2"], 2⟩ ?_ ("T2", "T3") ?_ ⟨row, hget, hfamily⟩
  · rw [hrevocations]
    exact List.mem_singleton_self _
  · rw [hrotated]
    exact List.mem_singleton_self _

end QuantumSentinel.Auth
