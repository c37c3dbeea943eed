import QuantumSentinel.Auth.Tokens

/-!
# Refresh tokens: rotation

A rotation reads its row under a lock and keeps the lock until it commits, so the row it
passed is the row it uses up.  Hence a token is rotated once at most, and a family never has
two tokens that are neither used nor revoked.

Main results:

- Theorem `Sound.step`: what every statement of every call preserves.
- Theorem `rotation_single_use`: single use, and one live token for each family.
-/

namespace QuantumSentinel.Auth

open Lib

/-! ## Locks -/

/-- A row that no other call has locked. -/
theorem AuthState.lockedByOther_eq_false {s : AuthState} {call : ℕ} {hash : TokenHash} :
    s.lockedByOther call hash = false ↔
      ∀ c k, s.calls.get? c = some k → hash ∈ k.locks → c = call := by
  simp only [lockedByOther, List.any_eq_false, Bool.and_eq_true, decide_eq_true_eq, not_and,
    Prod.forall]
  constructor
  · intro h c k hget hlock
    by_contra hne
    exact h c k (Dict.get?_eq_some_iff.mp hget) hne hlock
  · intro h c k hmem hne hlock
    exact hne (h c k (Dict.get?_eq_some_iff.mpr hmem) hlock)

/-- What a call may become: it keeps locks or takes free ones, a row it has locked is the
committed one, and a row it has checked is the one it locked, and live. -/
structure MayBecome (s : AuthState) (call : ℕ) (k : Call) : Prop where
  locks : ∀ hash ∈ k.locks, (∃ old, s.calls.get? call = some old ∧ hash ∈ old.locks) ∨
    (s.lockedByOther call hash = false ∧ ∃ row, s.tokens.get? hash = some row)
  locked : ∀ hash row, k = .locked hash row → s.tokens.get? hash = some row
  checked : ∀ hash row, k = .checked hash row →
    s.calls.get? call = some (.locked hash row) ∧ row.isLive = true

/-- What the locks of the calls in progress and the table guarantee. -/
structure Sound (s : AuthState) : Prop where
  /-- one call holds the lock of a row -/
  exclusive : ∀ c c' k k' hash, s.calls.get? c = some k → s.calls.get? c' = some k' →
    hash ∈ k.locks → hash ∈ k'.locks → c' = c
  exist : ∀ c k hash, s.calls.get? c = some k → hash ∈ k.locks →
    ∃ row, s.tokens.get? hash = some row
  /-- a locked row is as it was read -/
  locked : ∀ c hash row, s.calls.get? c = some (.locked hash row) →
    s.tokens.get? hash = some row
  /-- a row that passed the checks is live -/
  checked : ∀ c hash row, s.calls.get? c = some (.checked hash row) →
    s.tokens.get? hash = some row ∧ row.isLive = true
  /-- a family has one live token at most -/
  single : ∀ hash hash' row row', s.tokens.get? hash = some row →
    s.tokens.get? hash' = some row' → row'.familyId = row.familyId → row.isLive = true →
      row'.isLive = true → hash' = hash
  /-- a rotated token is used -/
  used : ∀ hash ∈ s.rotated.map Prod.fst, ∃ row, s.tokens.get? hash = some row ∧
    row.isUsed = true
  once : (s.rotated.map Prod.fst).Nodup

namespace Sound

variable {cfg : AuthConfig} {s : AuthState} {call : ℕ} {k : Call}

/-- A call that goes on keeps the guarantees. -/
theorem stage (h : Sound s) (hk : MayBecome s call k) : Sound (s.stage call k) where
  exclusive := by
    have hother : ∀ c k' hash, c ≠ call → s.calls.get? c = some k' → hash ∈ k'.locks →
        hash ∉ k.locks := by
      intro c k' hash hne hget hlock hmem
      rcases hk.locks hash hmem with ⟨old, hold, hlock'⟩ | ⟨hfree, -⟩
      · exact hne (h.exclusive call c old k' hash hold hget hlock' hlock)
      · exact hne (AuthState.lockedByOther_eq_false.mp hfree c k' hget hlock)
    intro c c' k₁ k₂ hash hc hc' hlock hlock'
    simp only [AuthState.stage, Dict.get?_set] at hc hc'
    split at hc
    · rename_i heq
      split at hc'
      · rename_i heq'
        exact heq'.trans heq.symm
      · rename_i hne
        cases hc
        exact absurd hlock (hother c' k₂ hash hne hc' hlock')
    · rename_i hne
      split at hc'
      · cases hc'
        exact absurd hlock' (hother c k₁ hash hne hc hlock)
      · exact h.exclusive c c' k₁ k₂ hash hc hc' hlock hlock'
  exist := by
    intro c k' hash hc hlock
    simp only [AuthState.stage, Dict.get?_set] at hc
    split at hc
    · cases hc
      rcases hk.locks hash hlock with ⟨old, hold, hlock'⟩ | ⟨-, hrow⟩
      · exact h.exist call old hash hold hlock'
      · exact hrow
    · exact h.exist c k' hash hc hlock
  locked := by
    intro c hash row hc
    simp only [AuthState.stage, Dict.get?_set] at hc
    split at hc
    · cases hc
      exact hk.locked hash row rfl
    · exact h.locked c hash row hc
  checked := by
    intro c hash row hc
    simp only [AuthState.stage, Dict.get?_set] at hc
    split at hc
    · cases hc
      rcases hk.checked hash row rfl with ⟨hread, hlive⟩
      exact ⟨h.locked call hash row hread, hlive⟩
    · exact h.checked c hash row hc
  single := h.single
  used := h.used
  once := h.once

/-- A change of rows that no remaining call has locked. -/
theorem retable (h : Sound s) {s' : AuthState}
    (hcalls : ∀ c k, s'.calls.get? c = some k → s.calls.get? c = some k ∧
      ∀ hash ∈ k.locks, s'.tokens.get? hash = s.tokens.get? hash)
    (hsingle : ∀ hash hash' row row', s'.tokens.get? hash = some row →
      s'.tokens.get? hash' = some row' → row'.familyId = row.familyId → row.isLive = true →
        row'.isLive = true → hash' = hash)
    (hused : ∀ hash ∈ s'.rotated.map Prod.fst, ∃ row, s'.tokens.get? hash = some row ∧
      row.isUsed = true)
    (honce : (s'.rotated.map Prod.fst).Nodup) : Sound s' where
  exclusive := fun c c' k k' hash hc hc' =>
    h.exclusive c c' k k' hash (hcalls c k hc).1 (hcalls c' k' hc').1
  exist := fun c k hash hc hlock => by
    rcases hcalls c k hc with ⟨hold, hsame⟩
    rw [hsame hash hlock]
    exact h.exist c k hash hold hlock
  locked := fun c hash row hc => by
    rcases hcalls c _ hc with ⟨hold, hsame⟩
    rw [hsame hash (List.mem_singleton_self hash)]
    exact h.locked c hash row hold
  checked := fun c hash row hc => by
    rcases hcalls c _ hc with ⟨hold, hsame⟩
    rw [hsame hash (List.mem_singleton_self hash)]
    exact h.checked c hash row hold
  single := hsingle
  used := hused
  once := honce

/-- A call that is still in progress when another has ended. -/
theorem get?_finish {c : ℕ} (hc : (s.finish call).calls.get? c = some k) :
    c ≠ call ∧ s.calls.get? c = some k := by
  rw [AuthState.finish, Dict.get?_erase] at hc
  split at hc
  · cases hc
  · rename_i hne
    exact ⟨hne, hc⟩

theorem finish (h : Sound s) (call : ℕ) : Sound (s.finish call) :=
  h.retable (fun _ _ hc => ⟨(get?_finish hc).2, fun _ _ => rfl⟩) h.single h.used h.once

/-- A new token is alone in its new family. -/
theorem create (h : Sound s) {hash : TokenHash} {row : RefreshToken}
    (hnew : s.tokens.get? hash = none)
    (hfamily : ∀ hash' row', s.tokens.get? hash' = some row' → row'.familyId ≠ row.familyId) :
    Sound { s with tokens := s.tokens.set hash row } := by
  have hkept : ∀ q row', s.tokens.get? q = some row' →
      (s.tokens.set hash row).get? q = some row' := by
    intro q row' hq
    have hne : q ≠ hash := fun heq => by
      rw [heq, hnew] at hq
      cases hq
    rw [Dict.get?_set_ne _ _ hne, hq]
  refine h.retable (fun c k hc => ⟨hc, fun q hq => ?_⟩) ?_ ?_ h.once
  · rcases h.exist c k q hc hq with ⟨row', hrow'⟩
    rw [hkept q row' hrow', hrow']
  · intro q q' rowq rowq' hq hq' hsame hlive hlive'
    simp only [Dict.get?_set] at hq hq'
    split at hq
    · rename_i heq
      split at hq'
      · rename_i heq'
        exact heq'.trans heq.symm
      · cases hq
        exact absurd hsame (hfamily q' rowq' hq')
    · split at hq'
      · cases hq'
        exact absurd hsame.symm (hfamily q rowq hq)
      · exact h.single q q' rowq rowq' hq hq' hsame hlive hlive'
  · intro q hq
    rcases h.used q hq with ⟨row', hrow', hused⟩
    exact ⟨row', hkept q row' hrow', hused⟩

/-- The rows after a rotation: the presented one is used, the new one is there. -/
theorem get?_rotated {tokens : TokenTable} {hash : TokenHash} {row : RefreshToken}
    (hrow : tokens.get? hash = some row) (newHash : TokenHash) (new : RefreshToken)
    (q : TokenHash) :
    ((tokens.updateWhere hash (fun _ => true) fun row => { row with isUsed := true }).set
      newHash new).get? q =
      if q = newHash then some new
      else if q = hash then some { row with isUsed := true }
      else tokens.get? q := by
  rw [Dict.get?_set]
  split
  · rfl
  · rw [Dict.get?_updateWhere]
    split
    · rw [hrow]
      rfl
    · rfl

/-- A rotation of a checked row uses it up and keeps the guarantees. -/
theorem rotate (h : Sound s) {hash newHash : TokenHash} {row : RefreshToken} {now : Time}
    (hcall : s.calls.get? call = some (.checked hash row)) :
    Sound (s.rotate cfg call hash row newHash now) := by
  rcases h.checked call hash row hcall with ⟨hrow, hlive⟩
  unfold AuthState.rotate
  cases hnew : s.tokens.get? newHash with
  | some old => exact h.finish call
  | none =>
    have hne : hash ≠ newHash := fun heq => by
      rw [heq, hnew] at hrow
      cases hrow
    have hget := get?_rotated hrow newHash
      (AuthState.newToken cfg row.userId row.familyId now)
    have hlock : ∀ c k q, c ≠ call → s.calls.get? c = some k → q ∈ k.locks → q ≠ hash := by
      intro c k q hcne hc hq heq
      exact hcne (h.exclusive call c _ k hash hcall hc (List.mem_singleton_self hash)
        (heq ▸ hq))
    refine h.retable (fun c k hc => ?_) ?_ ?_ ?_
    · rcases get?_finish hc with ⟨hcne, hold⟩
      refine ⟨hold, fun q hq => ?_⟩
      have hqnew : q ≠ newHash := fun heq => by
        rcases h.exist c k q hold hq with ⟨old, hrow'⟩
        rw [heq, hnew] at hrow'
        cases hrow'
      simp only
      rw [hget q, if_neg hqnew, if_neg (hlock c k q hcne hold hq)]
    · -- a live token is the new one, or of another family
      have hcases : ∀ q rowq, ((s.tokens.updateWhere hash (fun _ => true) fun row =>
          { row with isUsed := true }).set newHash
            (AuthState.newToken cfg row.userId row.familyId now)).get? q = some rowq →
          rowq.isLive = true → (q = newHash ∧ rowq.familyId = row.familyId) ∨
            (s.tokens.get? q = some rowq ∧ rowq.familyId ≠ row.familyId) := by
        intro q rowq hq hliveq
        rw [hget q] at hq
        split at hq
        · rename_i heq
          cases hq
          exact Or.inl ⟨heq, rfl⟩
        · split at hq
          · cases hq
            simp [RefreshToken.isLive] at hliveq
          · rename_i hqhash
            refine Or.inr ⟨hq, fun hfamily => hqhash ?_⟩
            exact h.single hash q row rowq hrow hq hfamily hlive hliveq
      intro q q' rowq rowq' hq hq' hsame hliveq hliveq'
      rcases hcases q rowq hq hliveq with ⟨heq, hfamily⟩ | ⟨hold, hfamily⟩
      · rcases hcases q' rowq' hq' hliveq' with ⟨heq', -⟩ | ⟨-, hfamily'⟩
        · exact heq'.trans heq.symm
        · exact absurd (hsame.trans hfamily) hfamily'
      · rcases hcases q' rowq' hq' hliveq' with ⟨-, hfamily'⟩ | ⟨hold', -⟩
        · exact absurd (hsame.symm.trans hfamily') hfamily
        · exact h.single q q' rowq rowq' hold hold' hsame hliveq hliveq'
    · intro q hq
      simp only [List.map_append, List.map_cons, List.map_nil, List.mem_append,
        List.mem_singleton] at hq
      simp only
      rcases hq with hold | rfl
      · rcases h.used q hold with ⟨rowq, hrowq, husedq⟩
        have hqnew : q ≠ newHash := fun heq => by
          rw [heq, hnew] at hrowq
          cases hrowq
        rw [hget q, if_neg hqnew]
        split
        · exact ⟨_, rfl, rfl⟩
        · exact ⟨rowq, hrowq, husedq⟩
      · rw [hget q, if_neg hne, if_pos rfl]
        exact ⟨_, rfl, rfl⟩
    · simp only [List.map_append, List.map_cons, List.map_nil]
      refine h.once.append (List.nodup_singleton hash) ?_
      intro q hq hq'
      rcases h.used q hq with ⟨rowq, hrowq, husedq⟩
      rw [List.mem_singleton.mp hq', hrow] at hrowq
      cases hrowq
      simp [RefreshToken.isLive, husedq] at hlive

/-- A revocation makes no token live. -/
theorem revoke (h : Sound s) {held targets marked : List TokenHash} {scope : Scope}
    (hcall : s.calls.get? call = some (.revoking held scope targets marked)) :
    Sound (s.revoke call scope marked) := by
  have hback : ∀ q rowq, (revokeRows s.tokens marked).get? q = some rowq →
      ∃ old, s.tokens.get? q = some old ∧ rowq.familyId = old.familyId ∧
        rowq.isUsed = old.isUsed ∧ (rowq.isLive = true → old.isLive = true) := by
    intro q rowq hq
    rw [get?_revokeRows] at hq
    rcases Option.map_eq_some_iff.mp hq with ⟨old, hold, rfl⟩
    refine ⟨old, hold, ?_⟩
    split
    · exact ⟨rfl, rfl, fun hlive => by simp [RefreshToken.isLive] at hlive⟩
    · exact ⟨rfl, rfl, fun hlive => hlive⟩
  refine h.retable (fun c k hc => ?_) ?_ ?_ h.once
  · rcases get?_finish hc with ⟨hcne, hold⟩
    refine ⟨hold, fun q hq => ?_⟩
    have hnot : q ∉ marked := fun hmem =>
      hcne (h.exclusive call c _ k q hcall hold (List.mem_append_right held hmem) hq)
    rw [AuthState.revoke, get?_revokeRows]
    simp [hnot]
  · intro q q' rowq rowq' hq hq' hsame hlive hlive'
    rcases hback q rowq hq with ⟨old, hold, hfamily, -, hwas⟩
    rcases hback q' rowq' hq' with ⟨old', hold', hfamily', -, hwas'⟩
    have hfamilies : old'.familyId = old.familyId :=
      hfamily'.symm.trans (hsame.trans hfamily)
    exact h.single q q' old old' hold hold' hfamilies (hwas hlive) (hwas' hlive')
  · intro q hq
    rcases h.used q hq with ⟨rowq, hrowq, husedq⟩
    rw [AuthState.revoke, get?_revokeRows, hrowq]
    refine ⟨_, rfl, ?_⟩
    split
    · exact husedq
    · exact husedq

/-- A call takes the lock of no row when it starts a revocation. -/
theorem startRevocation (h : Sound s) {held : List TokenHash} (scope : Scope)
    (hheld : ∀ hash ∈ held, ∃ old, s.calls.get? call = some old ∧ hash ∈ old.locks) :
    Sound (s.startRevocation call held scope) := by
  refine h.stage ⟨fun hash hmem => Or.inl (hheld hash ?_), ?_, ?_⟩
  · simpa [Call.locks] using hmem
  · exact fun hash row hk => by cases hk
  · exact fun hash row hk => by cases hk

/-- The checks pass a live row on, or give up, or revoke its family. -/
theorem checkRow (h : Sound s) {hash : TokenHash} {row : RefreshToken} {now later : Time}
    (hcall : s.calls.get? call = some (.locked hash row)) :
    Sound (s.checkRow cfg call hash row now later) := by
  have hheld : ∀ q ∈ [hash], ∃ old, s.calls.get? call = some old ∧ q ∈ old.locks :=
    fun q hq => ⟨_, hcall, hq⟩
  unfold AuthState.checkRow
  split
  · exact h.finish call
  · split
    · exact h.finish call
    · rename_i hrevoked
      split
      · exact h.startRevocation _ hheld
      · rename_i hused
        split
        · exact h.startRevocation _ hheld
        · refine h.stage ⟨fun q hq => Or.inl ⟨_, hcall, hq⟩, (fun _ _ hk => by cases hk), ?_⟩
          intro hash' row' hk
          cases hk
          exact ⟨hcall, by simp [RefreshToken.isLive, hrevoked, hused]⟩

/-- What every statement of every call preserves. -/
theorem step (h : Sound s) {a : Action} {s' : AuthState} (hstep : step cfg s a = some s') :
    Sound s' := by
  cases a with
  | create rawToken familyId userId now =>
    simp only [Auth.step] at hstep
    split at hstep
    · cases hstep
    · rename_i hfresh
      split at hstep
      · cases hstep
        exact h
      · rename_i hnew
        cases hstep
        refine h.create hnew fun hash' row' hrow' heq => hfresh ?_
        exact ⟨(hash', row'), Dict.get?_eq_some_iff.mp hrow', heq⟩
  | present call rawToken =>
    simp only [Auth.step] at hstep
    split at hstep
    · cases hstep
    · cases hstep
      exact h.stage ⟨(fun _ hq => by cases hq), (fun _ _ hk => by cases hk),
        fun _ _ hk => by cases hk⟩
  | lockRow call =>
    simp only [Auth.step] at hstep
    split at hstep
    · rename_i hash hcall
      split at hstep
      · cases hstep
        exact h.finish call
      · rename_i row hrow
        split at hstep
        · cases hstep
        · rename_i hfree
          cases hstep
          refine h.stage ⟨fun q hq => Or.inr ?_, ?_, fun _ _ hk => by cases hk⟩
          · rw [List.mem_singleton.mp hq]
            exact ⟨by simpa using hfree, row, hrow⟩
          · intro hash' row' hk
            cases hk
            exact hrow
    · cases hstep
  | check call now later =>
    simp only [Auth.step] at hstep
    split at hstep
    · rename_i hash row hcall
      cases hstep
      exact h.checkRow hcall
    · cases hstep
  | commitRotation call newRaw now =>
    simp only [Auth.step] at hstep
    split at hstep
    · rename_i hash row hcall
      cases hstep
      exact h.rotate hcall
    · cases hstep
  | revokeUser call userId =>
    simp only [Auth.step] at hstep
    split at hstep
    · cases hstep
    · cases hstep
      exact h.startRevocation _ fun _ hq => by cases hq
  | revokeToken call rawToken =>
    simp only [Auth.step] at hstep
    split at hstep
    · cases hstep
    · cases hstep
      exact h.startRevocation _ fun _ hq => by cases hq
  | markRow call hash =>
    simp only [Auth.step] at hstep
    split at hstep
    · rename_i held scope targets marked hcall
      split at hstep
      · cases hstep
      · rename_i hfree
        rw [not_or, Bool.not_eq_true] at hfree
        have hkept : ∀ q ∈ held ++ marked, ∃ old, s.calls.get? call = some old ∧
            q ∈ old.locks := fun q hq => ⟨_, hcall, hq⟩
        split at hstep
        · cases hstep
          exact h.stage ⟨fun q hq => Or.inl (hkept q hq), (fun _ _ hk => by cases hk),
            fun _ _ hk => by cases hk⟩
        · rename_i row hrow
          split at hstep
          · cases hstep
            refine h.stage ⟨fun q hq => ?_, (fun _ _ hk => by cases hk), fun _ _ hk => by cases hk⟩
            rcases List.mem_append.mp hq with hheld | hmarked
            · exact Or.inl (hkept q (List.mem_append_left marked hheld))
            · rcases List.mem_cons.mp hmarked with rfl | hold
              · exact Or.inr ⟨hfree.2, row, hrow⟩
              · exact Or.inl (hkept q (List.mem_append_right held hold))
          · cases hstep
            exact h.stage ⟨fun q hq => Or.inl (hkept q hq), (fun _ _ hk => by cases hk),
              fun _ _ hk => by cases hk⟩
    · cases hstep
  | commitRevocation call =>
    simp only [Auth.step] at hstep
    split at hstep
    · rename_i held scope marked hcall
      cases hstep
      exact h.revoke hcall
    · cases hstep
  | abort call =>
    simp only [Auth.step] at hstep
    split at hstep
    · cases hstep
      exact h.finish call
    · cases hstep

end Sound

/-- The empty table is sound. -/
theorem sound_init (cfg : AuthConfig) : Sound (authority cfg).init where
  exclusive := fun _ _ _ _ _ hc => by cases hc
  exist := fun _ _ _ hc => by cases hc
  locked := fun _ _ _ hc => by cases hc
  checked := fun _ _ _ hc => by cases hc
  single := fun _ _ _ _ hq => by cases hq
  used := fun _ hq => by cases hq
  once := List.nodup_nil

theorem sound_of_reachable {cfg : AuthConfig} {s : AuthState}
    (hs : (authority cfg).Reachable s) : Sound s :=
  hs.invariant (sound_init cfg) fun _ _ _ hstep hsound => hsound.step hstep

/-- In every reachable state each token has been rotated once at most, and each family has
one token at most that is neither used nor revoked. -/
theorem rotation_single_use {cfg : AuthConfig} {s : AuthState}
    (hs : (authority cfg).Reachable s) :
    (s.rotated.map Prod.fst).Nodup ∧
      ∀ hash hash' row row', s.tokens.get? hash = some row →
        s.tokens.get? hash' = some row' → row'.familyId = row.familyId →
          row.isLive = true → row'.isLive = true → hash' = hash :=
  ⟨(sound_of_reachable hs).once, (sound_of_reachable hs).single⟩

/-- A deployment whose hash is the identity. -/
def plainAuthority : Machine AuthState Action :=
  authority ⟨id, 1000, 5000⟩

/-- Two calls present the same token; the first one rotates it, and the second one, which
waits for the row, starts to revoke the family. -/
theorem rotation_single_use_twice :
    ∃ s, plainAuthority.Reachable s ∧ s.rotated = [("T0", "T1")] ∧
      hashesWhere s.tokens (fun _ row => row.isLive) = ["T1"] ∧
        (s.rotated.map Prod.fst).Nodup := by
  have hrun : (plainAuthority.exec plainAuthority.init
      [.create "T0" "F" "U" 0, .present 1 "T0", .present 2 "T0", .lockRow 1, .check 1 1 1,
        .commitRotation 1 "T1" 1, .lockRow 2, .check 2 2 2]).map
        (fun s => (s.rotated, hashesWhere s.tokens fun _ row => row.isLive)) =
      some ([("T0", "T1")], ["T1"]) := by
    decide +kernel
  rcases Option.map_eq_some_iff.mp hrun with ⟨s, hexec, hs⟩
  have hreach := Machine.reachable_of_exec hexec
  rw [Prod.mk.injEq] at hs
  exact ⟨s, hreach, hs.1, hs.2, (rotation_single_use hreach).1⟩

end QuantumSentinel.Auth
