import QuantumSentinel.Lib.Transition
import QuantumSentinel.Lib.Digests
import QuantumSentinel.Research.Experiments

/-!
# Research: recording, validating and approving at once

The transactions that write one experiment, statement by statement, at READ COMMITTED.  A run, a
validation and an approval read the row under its lock and hold the lock until they commit.
`complete` reads it without a lock, checks that it has no results, commits to register the
signing key, reads it again and writes without another check.

Main results:

- Theorem `Steady.step`: what every statement keeps, when `complete` is in time.
- Theorem `results_recorded_once`: then results are recorded once, an approval stays, and
  only what another user validated is approved.
- Theorem `results_recorded_again`: a late `complete` overwrites what was recorded.

Current gaps:

- Calls that are refused change nothing and are no steps.
-/

namespace QuantumSentinel.Research

open Lib

/-! ## Transactions -/

/-- A call of `complete` that found no results. -/
structure Completing where
  results : Json
  sign : Bool
  /-- the row as the session has it; none after the commit that registers the key -/
  seen : Option ResearchExperiment

/-- A transaction that holds the lock: the row as it read it, and as it will write it. -/
structure Locked where
  read : ResearchExperiment
  write : ResearchExperiment

/-- The committed row, the calls of `complete` and the holder of the lock. -/
structure RegistryState where
  row : ResearchExperiment
  completing : ℕ → Option Completing
  lock : Option Locked

/-- A statement of one of the transactions. -/
inductive Action
  /-- `complete` reads the row and checks its status -/
  | start (call : ℕ) (userId : String) (results : Json) (sign : Bool)
  /-- `_record` reads the row again -/
  | reload (call : ℕ)
  /-- `complete` writes and commits -/
  | finish (call : ℕ) (now : FloatText)
  /-- `complete` is lost -/
  | drop (call : ℕ)
  /-- `finalize_run_job` locks the row -/
  | run (experimentId userId : String) (execution : Option Execution) (now : FloatText)
  /-- `finalize_validate_job` locks the row -/
  | validate (experimentId userId : String) (execution : Option Execution)
  /-- `approve_experiment` locks the row -/
  | approve (approverId : String) (now : FloatText)
  /-- the holder of the lock commits -/
  | commit
  /-- the holder of the lock rolls back -/
  | rollback

/-- A column is written when its value differs from the one that was read. -/
def changed {α : Type*} (same : α → α → Bool) (seen new current : α) : α :=
  if same new seen then current else new

/-- The statement that the session sends: the changed columns, on the committed row. -/
def flush (seen new current : ResearchExperiment) : ResearchExperiment :=
  { current with
    resultsJson := changed Json.same seen.resultsJson new.resultsJson current.resultsJson
    resultHash := changed (· = ·) seen.resultHash new.resultHash current.resultHash
    completedAt := changed (· = ·) seen.completedAt new.completedAt current.completedAt
    status := changed (· = ·) seen.status new.status current.status
    signingKeyId := changed (· = ·) seen.signingKeyId new.signingKeyId current.signingKeyId
    manifestJson := changed Json.same seen.manifestJson new.manifestJson current.manifestJson
    manifestSignature :=
      changed (· = ·) seen.manifestSignature new.manifestSignature current.manifestSignature
    validationGatesJson :=
      changed Json.same seen.validationGatesJson new.validationGatesJson
        current.validationGatesJson
    approvedBy := changed (· = ·) seen.approvedBy new.approvedBy current.approvedBy
    approvedAt := changed (· = ·) seen.approvedAt new.approvedAt current.approvedAt }

variable (services : Services)

namespace RegistryState

variable (s : RegistryState)

/-- A transaction takes the lock, when it is free and the operation succeeds. -/
def locked (write : Except RegistryError ResearchExperiment) : Option RegistryState :=
  match s.lock, write with
  | none, .ok write => some { s with lock := some ⟨s.row, write⟩ }
  | _, _ => none

/-- One statement. -/
def step : Action → Option RegistryState
  | .start call userId results sign =>
    if s.completing call = none ∧ s.row.userId = userId ∧ s.row.status = .created then
      -- signing registers the key first, and that commits
      let seen := if sign then none else some s.row
      some { s with
        completing := Function.update s.completing call (some ⟨results, sign, seen⟩) }
    else none
  | .reload call =>
    (s.completing call).map fun c =>
      { s with
        completing :=
          Function.update s.completing call (some { c with seen := some (c.seen.getD s.row) }) }
  | .finish call now =>
    (s.completing call).bind fun c =>
      match s.lock, c.seen with
      | none, some seen =>
        match record services seen c.results (services.hashJson c.results) c.sign now with
        | .ok new =>
          some { s with
            row := flush seen new s.row
            completing := Function.update s.completing call none }
        | .error _ => none
      | _, _ => none
  | .drop call => some { s with completing := Function.update s.completing call none }
  | .run experimentId userId execution now =>
    s.locked (finalizeRunJob services s.row experimentId userId execution now)
  | .validate experimentId userId execution =>
    s.locked ((finalizeValidateJob services s.row experimentId userId execution).map Prod.snd)
  | .approve approverId now => s.locked (approveExperiment s.row approverId now)
  | .commit =>
    s.lock.map fun held => { s with row := flush held.read held.write s.row, lock := none }
  | .rollback => s.lock.map fun _ => { s with lock := none }

/-- `complete` writes only while the row is still without results. -/
def InTime : Action → Prop
  | .finish .. => s.row.status = .created
  | _ => True

instance (a : Action) : Decidable (s.InTime a) :=
  match a with
  | .finish .. => inferInstanceAs (Decidable (s.row.status = .created))
  | .start .. | .reload .. | .drop .. | .run .. | .validate .. | .approve .. | .commit
  | .rollback => inferInstanceAs (Decidable True)

end RegistryState

/-- Any number of calls and workers on one experiment. -/
def registry (row : ResearchExperiment) : Machine RegistryState Action where
  init := { row := row, completing := fun _ => none, lock := none }
  step := RegistryState.step services

/-! ## Writing a row -/

theorem changed_eq {α : Type*} [DecidableEq α] (seen new : α) :
    changed (· = ·) seen new seen = new := by
  unfold changed
  split
  · rename_i h
    exact (of_decide_eq_true h).symm
  · rfl

theorem changed_self {α : Type*} (same : α → α → Bool) (v w : α) :
    changed same w v v = v :=
  ite_self v

variable {services}

/-- What is written on the row that was read. -/
theorem flush_status (row new : ResearchExperiment) : (flush row new row).status = new.status :=
  changed_eq _ _

theorem flush_approvedBy (row new : ResearchExperiment) :
    (flush row new row).approvedBy = new.approvedBy :=
  changed_eq _ _

/-- Recorded columns that an operation leaves alone are not written. -/
theorem flush_recorded {row new : ResearchExperiment} (h : new.recorded = row.recorded) :
    (flush row new row).recorded = row.recorded := by
  obtain ⟨h₁, h₂, h₃, h₄, h₅, h₆⟩ := Recorded.mk.injEq .. ▸ h
  simp only [ResearchExperiment.recorded, flush, h₁, h₂, h₃, h₄, h₅, h₆, changed_self]

/-! ## What a commit may do -/

/-- What a commit does to the row: it records results, validates again, or approves. -/
inductive Writes (row row' : ResearchExperiment) : Prop
  | records (created : row.status = .created) (completed : row'.status = .completed)
  | validates (recorded : row.status = .completed ∨ row.status = .validated)
      (kept : row'.recorded = row.recorded) (live : row'.status ≠ .created)
      (unapproved : row'.status ≠ .approved)
  | approves (validated : row.status = .validated) (kept : row'.recorded = row.recorded)
      (approved : row'.status = .approved)
      (approver : ∃ user, row'.approvedBy = some user ∧ user ≠ row.userId)

namespace Writes

variable {row row' : ResearchExperiment}

theorem status_ne (h : Writes row row') : row'.status ≠ .created := by
  cases h with
  | records _ completed => rw [completed]; decide
  | validates _ _ live _ => exact live
  | approves _ _ approved _ => rw [approved]; decide

/-- Recorded results are kept. -/
theorem recorded (h : Writes row row') (hrow : row.status ≠ .created) :
    row'.recorded = row.recorded := by
  cases h with
  | records created _ => exact absurd created hrow
  | validates _ kept _ _ => exact kept
  | approves _ kept _ _ => exact kept

/-- An approved row is not written. -/
theorem not_approved (h : Writes row row') : row.status ≠ .approved := by
  cases h with
  | records created _ => rw [created]; decide
  | validates recorded _ _ _ => rcases recorded with h | h <;> rw [h] <;> decide
  | approves validated _ _ _ => rw [validated]; decide

/-- The statement that is sent writes what the transaction decided. -/
theorem flush (h : Writes row row') : Writes row (flush row row' row) := by
  cases h with
  | records created completed => exact .records created ((flush_status ..).trans completed)
  | validates recorded kept live unapproved =>
    refine .validates recorded (flush_recorded kept) ?_ ?_
    · rw [flush_status]
      exact live
    · rw [flush_status]
      exact unapproved
  | approves validated kept approved approver =>
    refine .approves validated (flush_recorded kept) ((flush_status ..).trans approved) ?_
    rw [flush_approvedBy]
    exact approver

end Writes

theorem finalizeRunJob_writes {row row' : ResearchExperiment} {experimentId userId : String}
    {execution : Option Execution} {now : FloatText}
    (h : finalizeRunJob services row experimentId userId execution now = .ok row') :
    Writes row row' :=
  .records (finalizeRunJob_eq_ok h).1 (finalizeRunJob_eq_ok h).2.1

theorem finalizeValidateJob_writes {row row' : ResearchExperiment} {experimentId userId : String}
    {execution : Option Execution}
    (h : (finalizeValidateJob services row experimentId userId execution).map Prod.snd = .ok row') :
    Writes row row' := by
  obtain ⟨⟨report, row''⟩, hok, rfl⟩ := map_eq_ok_iff.mp h
  obtain ⟨hstatus, hvalidate⟩ := finalizeValidateJob_eq_ok hok
  obtain ⟨hkept, -, -, hlive, hunapproved, -⟩ := validateRow_eq_ok hvalidate
  exact .validates hstatus hkept hlive hunapproved

theorem approveExperiment_writes {row row' : ResearchExperiment} {approverId : String}
    {now : FloatText} (h : approveExperiment row approverId now = .ok row') : Writes row row' := by
  obtain ⟨hstatus, howner, happroved, happrover, hkept, -⟩ := approveExperiment_eq_ok h
  exact .approves hstatus hkept happroved ⟨approverId, happrover, Ne.symm howner⟩

/-! ## What the statements keep -/

/-- The holder of the lock read the committed row, and a call that read a row without results
did so only while the committed row has none. -/
structure Steady (row₀ : ResearchExperiment) (s : RegistryState) : Prop where
  fresh : s.row.status = .created → s.row = row₀
  held : ∀ held ∈ s.lock, held.read = s.row ∧ Writes held.read held.write
  seen : ∀ call, ∀ c ∈ s.completing call, ∀ row ∈ c.seen,
    s.row.status = .created → row = s.row

/-- What a statement does to the committed row. -/
def Keeps (row row' : ResearchExperiment) : Prop :=
  row' = row ∨ Writes row row'

namespace Steady

variable {row₀ : ResearchExperiment} {s s' : RegistryState}

theorem start (row₀ : ResearchExperiment) : Steady row₀ (registry services row₀).init where
  fresh _ := rfl
  held _ h := by cases h
  seen _ _ h := by cases h

/-- A call that changes its place only, with what it has read. -/
theorem completing (h : Steady row₀ s) (call : ℕ) (next : Option Completing)
    (hnext : ∀ c ∈ next, ∀ row ∈ c.seen, s.row.status = .created → row = s.row) :
    Steady row₀ { s with completing := Function.update s.completing call next } where
  fresh := h.fresh
  held := h.held
  seen other c hc row hrow := by
    dsimp only at hc
    by_cases hother : other = call
    · subst hother
      rw [Function.update_self] at hc
      exact hnext c hc row hrow
    · rw [Function.update_of_ne hother] at hc
      exact h.seen other c hc row hrow

/-- A row that is written is no longer without results, so no call is in time any more. -/
theorem written {row : ResearchExperiment} (hrow : Writes s.row row)
    (completing : ℕ → Option Completing) :
    Steady row₀ ⟨row, completing, none⟩ where
  fresh hcreated := absurd hcreated hrow.status_ne
  held _ hlock := by cases hlock
  seen _ _ _ _ _ hcreated := absurd hcreated hrow.status_ne

/-- The lock is taken on the committed row. -/
theorem locked (h : Steady row₀ s) {write : Except RegistryError ResearchExperiment}
    (hwrites : ∀ row, write = .ok row → Writes s.row row) (hstep : s.locked write = some s') :
    Steady row₀ s' ∧ s'.row = s.row := by
  rcases hlock : s.lock with _ | held
  · cases write with
    | error e => simp [RegistryState.locked, hlock] at hstep
    | ok row =>
      simp only [RegistryState.locked, hlock, Option.some.injEq] at hstep
      subst hstep
      refine ⟨⟨h.fresh, ?_, h.seen⟩, rfl⟩
      intro held hheld
      cases hheld
      exact ⟨rfl, hwrites row rfl⟩
  · simp [RegistryState.locked, hlock] at hstep

/-- What every statement keeps, when `complete` is in time. -/
theorem step {a : Action} (htime : s.InTime a) (hstep : s.step services a = some s')
    (h : Steady row₀ s) : Steady row₀ s' ∧ Keeps s.row s'.row := by
  cases a with
  | start call userId results sign =>
    simp only [RegistryState.step] at hstep
    split at hstep
    · cases hstep
      refine ⟨h.completing call _ ?_, .inl rfl⟩
      intro c hc row hrow _
      cases hc
      cases sign with
      | false => exact (Option.mem_some.mp hrow).symm
      | true => cases hrow
    · cases hstep
  | reload call =>
    obtain ⟨c, hc, rfl⟩ := Option.map_eq_some_iff.mp hstep
    refine ⟨h.completing call _ ?_, .inl rfl⟩
    intro c' hc' row hrow hcreated
    cases hc'
    cases hseen : c.seen with
    | none =>
      rw [hseen] at hrow
      exact (Option.mem_some.mp hrow).symm
    | some row' =>
      rw [hseen] at hrow
      exact h.seen call c hc row (hseen.trans hrow) hcreated
  | finish call now =>
    obtain ⟨c, hc, hwrite⟩ := Option.bind_eq_some_iff.mp hstep
    rcases hlock : s.lock with _ | held
    · rcases hseen : c.seen with _ | row
      · simp [hlock, hseen] at hwrite
      · simp only [hlock, hseen] at hwrite
        split at hwrite
        · rename_i new hnew
          cases hwrite
          have hread := h.seen call c hc row hseen htime
          rw [hread] at hnew ⊢
          have hwrites := (Writes.records htime (record_eq_ok hnew).1).flush
          exact ⟨written hwrites _, .inr hwrites⟩
        · cases hwrite
    · simp [hlock] at hwrite
  | drop call =>
    cases hstep
    exact ⟨h.completing call none fun c hc => (by cases hc), .inl rfl⟩
  | run experimentId userId execution now =>
    obtain ⟨hsteady, hrow⟩ := h.locked (fun _ => finalizeRunJob_writes) hstep
    exact ⟨hsteady, .inl hrow⟩
  | validate experimentId userId execution =>
    obtain ⟨hsteady, hrow⟩ := h.locked (fun _ => finalizeValidateJob_writes) hstep
    exact ⟨hsteady, .inl hrow⟩
  | approve approverId now =>
    obtain ⟨hsteady, hrow⟩ := h.locked (fun _ => approveExperiment_writes) hstep
    exact ⟨hsteady, .inl hrow⟩
  | commit =>
    obtain ⟨held, hheld, rfl⟩ := Option.map_eq_some_iff.mp hstep
    obtain ⟨hread, hwrites⟩ := h.held held hheld
    rw [hread] at hwrites ⊢
    exact ⟨written hwrites.flush _, .inr hwrites.flush⟩
  | rollback =>
    obtain ⟨held, hheld, rfl⟩ := Option.map_eq_some_iff.mp hstep
    exact ⟨⟨h.fresh, fun _ hlock => (by cases hlock), h.seen⟩, .inl rfl⟩

end Steady

/-! ## Results are recorded once -/

/-- What later rows keep of a row with results. -/
structure KeptSince (row row' : ResearchExperiment) : Prop where
  live : row'.status ≠ .created
  recorded : row'.recorded = row.recorded
  approved : row.status = .approved → row'.status = .approved

theorem KeptSince.next {row₀ row row' : ResearchExperiment} (h : KeptSince row₀ row)
    (hkeeps : Keeps row row') : KeptSince row₀ row' := by
  rcases hkeeps with rfl | hwrites
  · exact h
  · exact ⟨hwrites.status_ne, (hwrites.recorded h.live).trans h.recorded,
      fun happroved => absurd (h.approved happroved) hwrites.not_approved⟩

/-- When every `complete` writes while there are no results yet: a row without results is as
it was created, recorded results stay, an approval stays, and only a validated row is approved, by
another user than its owner. -/
theorem results_recorded_once {row₀ : ResearchExperiment} {s : RegistryState}
    (h : (registry services row₀).ReachableUnder RegistryState.InTime s) :
    (s.row.status = .created → s.row = row₀) ∧
      (∀ as s', (registry services row₀).Run RegistryState.InTime s as s' →
        s.row.status ≠ .created → s'.row.recorded = s.row.recorded) ∧
      (∀ as s', (registry services row₀).Run RegistryState.InTime s as s' →
        s.row.status = .approved → s'.row.status = .approved) ∧
      ∀ a s', s.InTime a → s.step services a = some s' → s'.row.status = .approved →
        s.row.status = .approved ∨
          (s.row.status = .validated ∧
            ∃ user, s'.row.approvedBy = some user ∧ user ≠ s.row.userId) := by
  have hsteady : Steady row₀ s :=
    h.invariant (Steady.start row₀) fun _ _ _ htime hstep hs => (hs.step htime hstep).1
  have hkept : ∀ as s', (registry services row₀).Run RegistryState.InTime s as s' →
      s.row.status ≠ .created → KeptSince s.row s'.row := by
    intro as s' hrun hlive
    have hboth := hrun.invariant (I := fun t => Steady row₀ t ∧ KeptSince s.row t.row)
      (fun t a t' htime hstep ht =>
        have hnext := ht.1.step htime hstep
        ⟨hnext.1, ht.2.next hnext.2⟩)
      ⟨hsteady, hlive, rfl, id⟩
    exact hboth.2
  refine ⟨hsteady.fresh, fun as s' hrun hlive => (hkept as s' hrun hlive).recorded, ?_, ?_⟩
  · intro as s' hrun happroved
    exact (hkept as s' hrun (by rw [happroved]; decide)).approved happroved
  · intro a s' htime hstep happroved
    rcases (hsteady.step htime hstep).2 with hsame | hwrites
    · exact .inl (hsame ▸ happroved)
    · right
      cases hwrites with
      | records _ completed => rw [completed] at happroved; cases happroved
      | validates _ _ _ unapproved => exact absurd happroved unapproved
      | approves validated _ _ approver => exact ⟨validated, approver⟩

/-! ## A late call -/

/-- An experiment of another strategy, as it was created. -/
def sampleExperiment : ResearchExperiment where
  id := "QS-1A2B3C4D"
  userId := "researcher"
  strategyId := "external-model"
  strategyVersion := "1.0"
  datasetId := "bars"
  datasetJson := .null
  datasetHash := ""
  parametersJson := .obj []
  parameterHash := "44136fa355b3678a1146ad16f7e8649e94fb4fc21fe77e8310c060f61caaff8a"
  codeCommit := "unknown"
  randomSeed := 42
  executionModel := "LOB_QUEUE_V2"
  latencyModel := "zero"
  status := .created
  resultHash := ""
  resultsJson := .obj []
  validationGatesJson := .obj []
  manifestSignature := ""
  createdAt := some zeroSeconds
  completedAt := none
  strategyHash := none
  dependencyLockHash := some "unknown"
  engineVersion := some engineVersion
  signingKeyId := none
  manifestJson := .null
  approvedBy := none
  approvedAt := none

/-- The results of the sample calls, `{"sharpe": 1.0}` and `{"sharpe": 1.2}`. -/
def sampleResults (late : Bool) : Json :=
  .obj [("sharpe", if late then literal ['1', '.', '2'] rfl else literal ['1', '.', '0'] isFloatText_one)]

/-- The hashes of the sample results; nothing is signed. -/
def sampleServices : Services where
  sha256 := Digests.hash ⟨[
    (encodeChars ((sampleResults false).dumps hashedStyle),
      0x4ce13badf9ca57125d1f3cfa343d249840bcfb0e1edcd62556cbe22f1be11e50),
    (encodeChars ((sampleResults true).dumps hashedStyle),
      0x63d2264023b0f1ad2b0b6089a844f8dc8a462d4f6349033625b0050eea21abb5)], by decide, by decide⟩
  production := true
  dsaSign _ := none
  hmacSha256 _ := ""
  manifestPublicKey _ := none
  dsaVerify _ _ _ := false
  keyId := none

/-- One call records its results; with a second one that has checked before, too. -/
def sampleStart : List Action :=
  [.start 0 "researcher" (sampleResults false) false,
    .start 1 "researcher" (sampleResults true) false, .finish 0 zeroSeconds]

theorem results_recorded_once_sample :
    ∃ s, (registry sampleServices sampleExperiment).ReachableUnder RegistryState.InTime s ∧
      s.row.status = .completed ∧
        ∀ as s', (registry sampleServices sampleExperiment).Run RegistryState.InTime s as s' →
          s'.row.recorded = s.row.recorded := by
  have hrun : ((registry sampleServices sampleExperiment).execUnder RegistryState.InTime
      (registry sampleServices sampleExperiment).init sampleStart).any
        (·.row.status = .completed) = true := by
    decide +kernel
  obtain ⟨s, hs, hstatus⟩ := (Option.any_eq_true ..).mp hrun
  have hcompleted := of_decide_eq_true hstatus
  have hreach := Machine.reachableUnder_of_execUnder hs
  refine ⟨s, hreach, hcompleted, fun as s' h => ?_⟩
  exact (results_recorded_once hreach).2.1 as s' h (by rw [hcompleted]; decide)

/-- The second call writes over the results of the first. -/
theorem results_recorded_again :
    ∃ s as s', (registry sampleServices sampleExperiment).Reachable s ∧
      (registry sampleServices sampleExperiment).Run Machine.anyAction s as s' ∧
        s.row.status ≠ .created ∧ s'.row.resultHash ≠ s.row.resultHash := by
  have hrun : ((registry sampleServices sampleExperiment).exec
      (registry sampleServices sampleExperiment).init sampleStart).any (fun s =>
        decide (s.row.status ≠ .created) &&
          ((registry sampleServices sampleExperiment).exec s [.finish 1 zeroSeconds]).any
            fun s' => s'.row.resultHash ≠ s.row.resultHash) = true := by
    decide +kernel
  obtain ⟨s, hs, hlater⟩ := (Option.any_eq_true ..).mp hrun
  rw [Bool.and_eq_true] at hlater
  obtain ⟨s', hs', hdiffers⟩ := (Option.any_eq_true ..).mp hlater.2
  exact ⟨s, _, s', Machine.reachable_of_exec hs, Machine.run_of_exec hs',
    of_decide_eq_true hlater.1, of_decide_eq_true hdiffers⟩

end QuantumSentinel.Research
