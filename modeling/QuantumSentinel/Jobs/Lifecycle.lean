import QuantumSentinel.Jobs.Machine

/-!
# Research job queue: the state machine

Every row of a reachable queue is well formed, terminal rows are final, and the pair
of worker id and attempt number identifies the current claim: a handle whose lease was
reaped, or whose job was claimed again, matches no guard any more.  The attempt number
is decremented by `release`, so the last point needs the exact position of a stale
handle relative to the counter: strictly below it while the job runs, at most equal to
it while the job is queued.

Main results:

- Theorem `RowStep.rowOk`: every rewrite keeps a row well formed.
- Theorem `queueInv_step` and `queueInv_reachable`: the queue invariant.
- Theorem `terminal_final`: a terminal row stays as it is until it is purged.
- Theorem `research_job_state_machine`: the guarantees of the queue together.
-/

namespace QuantumSentinel.Jobs

open Lib

/-! ## Well-formed rows -/

/-- What holds of every row of a reachable queue. -/
structure RowOk (row : ResearchJob) : Prop where
  attempts_nonneg : 0 ≤ row.attempts
  attempts_le : row.attempts ≤ row.maxAttempts
  queued_lt : row.status = .queued → row.attempts < row.maxAttempts
  running_pos : row.status = .running → 1 ≤ row.attempts
  running_worker : row.status = .running → row.workerId.isSome
  running_lease : row.status = .running → row.leaseExpiresAt.isSome
  result_iff : row.resultJson.isSome ↔ row.status = .succeeded
  error_iff : row.errorStatus.isSome ↔ row.status = .failed

/-- The row of a new job is well formed. -/
theorem newJob_rowOk {cfg : JobsConfig} (hmax : 1 ≤ cfg.maxAttempts) (userId kind : String)
    (params : JsonObject) (now : Time) : RowOk (newJob cfg userId kind params now) := by
  constructor <;> simp [newJob] <;> omega

/-- An unfinished row stores no outcome yet. -/
theorem RowOk.no_outcome {row : ResearchJob} (hrow : RowOk row)
    (hactive : row.status.isActive = true) :
    row.resultJson = none ∧ row.errorStatus = none := by
  have hres := hrow.result_iff
  have herr := hrow.error_iff
  cases hst : row.status <;> simp_all [JobStatus.isActive]

/-- Finishing an owned row with one kind of outcome keeps it well formed. -/
theorem RowOk.finish {row row' : ResearchJob} (hrow : RowOk row)
    (hterminal : row'.status.isTerminal = true)
    (hattempts : row'.attempts = row.attempts) (hmax : row'.maxAttempts = row.maxAttempts)
    (hres : row'.resultJson.isSome ↔ row'.status = .succeeded)
    (herr : row'.errorStatus.isSome ↔ row'.status = .failed) : RowOk row' := by
  have hnonneg := hrow.attempts_nonneg
  have hle := hrow.attempts_le
  constructor
  case result_iff => exact hres
  case error_iff => exact herr
  case attempts_nonneg => omega
  case attempts_le => omega
  all_goals
    intro hst
    rw [hst] at hterminal
    cases hterminal

/-- What the reaper's guard says about the row it is about to rewrite. -/
theorem reaped_rowOk {e : Expired} {row : ResearchJob} (hrow : RowOk row)
    (hg : stale e row = true) (hmax : row.maxAttempts = e.seen.maxAttempts) :
    RowOk (reaped e row) := by
  rcases stale_iff.mp hg with ⟨hrun, _, hatt, _⟩
  rcases hrow.no_outcome (by simp [hrun, JobStatus.isActive]) with ⟨hres, herr⟩
  have hnonneg := hrow.attempts_nonneg
  have hle := hrow.attempts_le
  unfold reaped
  split
  · exact hrow.finish rfl rfl rfl (by simp [hres]) (by simp [herr])
  · split
    · rename_i hlt
      constructor <;> simp [hres, herr] <;> omega
    · exact hrow.finish rfl rfl rfl (by simp [hres]) (by simp)

/-- Every rewrite keeps a row well formed. -/
theorem RowStep.rowOk {s : QueueState} {a : Action} {j : JobId} {row row' : ResearchJob}
    (h : RowStep s a j row row') (hrow : RowOk row)
    (hseen : ∀ e ∈ s.expired, e.job = j → row.maxAttempts = e.seen.maxAttempts) :
    RowOk row' := by
  have hnonneg := hrow.attempts_nonneg
  have hle := hrow.attempts_le
  cases h with
  | claim hq =>
    have hlt := hrow.queued_lt hq
    rcases hrow.no_outcome (by simp [hq, JobStatus.isActive]) with ⟨hres, herr⟩
    constructor <;> simp [claimed, hres, herr] <;> omega
  | renew hmem hg =>
    rcases owned_iff.mp hg with ⟨hw, _, hrun⟩
    rcases hrow.no_outcome (by simp [hrun, JobStatus.isActive]) with ⟨hres, herr⟩
    have hpos := hrow.running_pos hrun
    constructor <;> simp [hrun, hw, hres, herr] <;> omega
  | succeed hmem hg =>
    rcases owned_iff.mp hg with ⟨_, _, hrun⟩
    rcases hrow.no_outcome (by simp [hrun, JobStatus.isActive]) with ⟨_, herr⟩
    exact hrow.finish rfl rfl rfl (by simp) (by simp [herr])
  | fail _ hmem hg =>
    rcases owned_iff.mp hg with ⟨_, _, hrun⟩
    rcases hrow.no_outcome (by simp [hrun, JobStatus.isActive]) with ⟨hres, _⟩
    exact hrow.finish rfl rfl rfl (by simp [hres]) (by simp)
  | cancelled hmem hg =>
    rcases owned_iff.mp hg with ⟨_, _, hrun⟩
    rcases hrow.no_outcome (by simp [hrun, JobStatus.isActive]) with ⟨hres, herr⟩
    exact hrow.finish rfl rfl rfl (by simp [hres]) (by simp [herr])
  | release hmem hg =>
    rcases owned_iff.mp hg with ⟨_, _, hrun⟩
    rcases hrow.no_outcome (by simp [hrun, JobStatus.isActive]) with ⟨hres, herr⟩
    have hpos := hrow.running_pos hrun
    constructor <;> simp [hres, herr] <;> omega
  | cancelQueued hmem hq =>
    rcases hrow.no_outcome (by simp [hq, JobStatus.isActive]) with ⟨hres, herr⟩
    exact hrow.finish rfl rfl rfl (by simp [hres]) (by simp [herr])
  | flag hmem hrun =>
    exact ⟨hnonneg, hle, hrow.queued_lt, hrow.running_pos, hrow.running_worker,
      hrow.running_lease, hrow.result_iff, hrow.error_iff⟩
  | reap hmem hg => exact reaped_rowOk hrow hg (hseen _ hmem rfl)

/-- No rewrite touches a terminal row. -/
theorem RowStep.not_terminal {s : QueueState} {a : Action} {j : JobId}
    {row row' : ResearchJob} (h : RowStep s a j row row') :
    row.status.isTerminal = false := by
  cases h with
  | claim hq => simp [hq, JobStatus.isTerminal]
  | renew _ hg => simp [(owned_iff.mp hg).2.2, JobStatus.isTerminal]
  | succeed _ hg => simp [(owned_iff.mp hg).2.2, JobStatus.isTerminal]
  | fail _ _ hg => simp [(owned_iff.mp hg).2.2, JobStatus.isTerminal]
  | cancelled _ hg => simp [(owned_iff.mp hg).2.2, JobStatus.isTerminal]
  | release _ hg => simp [(owned_iff.mp hg).2.2, JobStatus.isTerminal]
  | cancelQueued _ hq => simp [hq, JobStatus.isTerminal]
  | flag _ hrun => simp [hrun, JobStatus.isTerminal]
  | reap _ hg => simp [(stale_iff.mp hg).1, JobStatus.isTerminal]

/-- The attempt limit of a job never changes. -/
theorem RowStep.maxAttempts_eq {s : QueueState} {a : Action} {j : JobId}
    {row row' : ResearchJob} (h : RowStep s a j row row') :
    row'.maxAttempts = row.maxAttempts := by
  cases h with
  | reap =>
    unfold reaped
    split
    · rfl
    · split <;> rfl
  | _ => rfl

/-! ## The rows of a reachable queue -/

/-- The part of the invariant that speaks of rows and of what the reaper has read. -/
structure RowsInv (s : QueueState) : Prop where
  issued : ∀ j row, s.jobs.get? j = some row → j ∈ s.issued
  rows : ∀ j row, s.jobs.get? j = some row → RowOk row
  seen : ∀ e ∈ s.expired, e.job ∈ s.issued ∧
    ∀ row, s.jobs.get? e.job = some row → row.maxAttempts = e.seen.maxAttempts

theorem rowsInv_init : RowsInv emptyQueue where
  issued := by simp [emptyQueue]
  rows := by simp [emptyQueue]
  seen := by simp [emptyQueue]

/-- Steps keep the invariant of the rows. -/
theorem rowsInv_step {cfg : JobsConfig} (hmax : 1 ≤ cfg.maxAttempts) {s s' : QueueState}
    {a : Action} (h : step cfg s a = some s') (hs : RowsInv s) : RowsInv s' := by
  have hentry := step_get? h hs.issued
  have hsub := step_issued h
  refine ⟨?_, ?_, ?_⟩
  · intro j row hrow
    have hj := hentry j
    rw [hrow] at hj
    cases hcase : s.jobs.get? j with
    | some old => exact hsub (hs.issued j old hcase)
    | none =>
      rw [hcase] at hj
      cases hj with
      | created _ hissued => exact hissued
  · intro j row hrow
    have hj := hentry j
    rw [hrow] at hj
    generalize hcase : s.jobs.get? j = entry at hj
    cases hj with
    | same => exact hs.rows j row hcase
    | created => exact newJob_rowOk hmax _ _ _ _
    | rewritten hstep =>
      refine hstep.rowOk (hs.rows j _ hcase) ?_
      rintro e he rfl
      exact (hs.seen e he).2 _ hcase
  · intro e he
    rcases step_expired h he with hold | ⟨hseen, htable⟩
    · rcases hs.seen e hold with ⟨hissued, hmaxEq⟩
      refine ⟨hsub hissued, ?_⟩
      intro row hrow
      have hj := hentry e.job
      rw [hrow] at hj
      generalize hcase : s.jobs.get? e.job = entry at hj
      cases hj with
      | same => exact hmaxEq row hcase
      | created hfresh => exact absurd hissued hfresh
      | rewritten hstep => exact hstep.maxAttempts_eq.trans (hmaxEq _ hcase)
    · refine ⟨hsub (hs.issued e.job e.seen hseen), ?_⟩
      intro row hrow
      rw [htable, hseen] at hrow
      cases hrow
      rfl

/-! ## Handles and the attempt counter -/

/-- Where a handle stands relative to the row of its job. -/
structure HandleAt (s : QueueState) (h : Handle) (row : ResearchJob) : Prop where
  current : ¬ Stale s h →
    row.status = .running ∧ row.workerId = some h.worker ∧ row.attempts = h.attempt
  behind_running : Stale s h → row.status = .running → h.attempt < row.attempts
  behind_queued : Stale s h → row.status = .queued → h.attempt ≤ row.attempts

/-- The part of the invariant that speaks of the handles. -/
structure HandlesInv (s : QueueState) : Prop where
  issued : ∀ h ∈ s.handles, h.job ∈ s.issued
  serial_lt : ∀ h ∈ s.handles, h.serial < s.claims
  unique : ∀ h ∈ s.handles, ∀ h' ∈ s.handles, h.serial = h'.serial → h = h'
  last_lt : ∀ j n, s.lastClaim j = some n → n < s.claims
  last_job : ∀ h ∈ s.handles, ∀ j, s.lastClaim j = some h.serial → j = h.job
  reaped_lt : ∀ n ∈ s.reapedClaims, n < s.claims
  standing : ∀ h ∈ s.handles, ∀ row, s.jobs.get? h.job = some row → HandleAt s h row

theorem handlesInv_init : HandlesInv emptyQueue := by
  constructor <;> simp [emptyQueue]

/-- A stale handle matches no worker-side guard. -/
theorem HandleAt.not_owned {s : QueueState} {h : Handle} {row : ResearchJob}
    (hat : HandleAt s h row) (hstale : Stale s h) : owned h row = false := by
  cases hg : owned h row with
  | false => rfl
  | true =>
    rcases owned_iff.mp hg with ⟨_, hatt, hrun⟩
    have hlt := hat.behind_running hstale hrun
    omega

/-- The handle whose guard a running row satisfies is the one current handle. -/
theorem HandlesInv.eq_of_owned {s : QueueState} (hs : HandlesInv s) {g h : Handle}
    {row : ResearchJob} (hg : g ∈ s.handles) (hh : h ∈ s.handles)
    (hjob : h.job = g.job) (hrow : s.jobs.get? g.job = some row)
    (howned : owned g row = true) (hcurrent : ¬ Stale s h) : h = g := by
  have hgcurrent : ¬ Stale s g := by
    intro hstale
    rw [(hs.standing g hg row hrow).not_owned hstale] at howned
    cases howned
  have hlast_g : s.lastClaim g.job = some g.serial := not_not.mp fun hne =>
    hgcurrent (Or.inr hne)
  have hlast_h : s.lastClaim h.job = some h.serial := not_not.mp fun hne =>
    hcurrent (Or.inr hne)
  rw [hjob, hlast_g] at hlast_h
  exact hs.unique h hh g hg (Option.some.inj hlast_h).symm

/-- A row moved out of the running state by one handle, seen from the others. -/
theorem HandlesInv.standing_after {s s' : QueueState} (hs : HandlesInv s) {g h : Handle}
    {row row' : ResearchJob} (hg : g ∈ s.handles) (hh : h ∈ s.handles) (hne : h ≠ g)
    (hjob : h.job = g.job) (hrow : s.jobs.get? g.job = some row)
    (howned : owned g row = true) (hstale : Stale s' h ↔ Stale s h)
    (hrunning : row'.status ≠ .running)
    (hqueued : row'.status = .queued → row'.attempts = row.attempts - 1) :
    HandleAt s' h row' := by
  have hst : Stale s h := not_not.mp fun hcurrent =>
    hne (hs.eq_of_owned hg hh hjob hrow howned hcurrent)
  have hat := hs.standing h hh row (hjob ▸ hrow)
  have hlt := hat.behind_running hst (owned_iff.mp howned).2.2
  refine ⟨fun hcurrent => absurd (hstale.mpr hst) hcurrent, ?_, ?_⟩
  · intro _ hrun
    exact absurd hrun hrunning
  · intro _ hq
    have hatt := hqueued hq
    omega

/-- A rewrite by a worker or an API call keeps the standing of the handles that stay. -/
theorem HandlesInv.standing_rewritten {s s' : QueueState} {a : Action}
    (hs : HandlesInv s) {h : Handle} {row row' : ResearchJob} (hh : h ∈ s.handles)
    (hrow : s.jobs.get? h.job = some row) (hstep : RowStep s a h.job row row')
    (hstale : Stale s' h ↔ Stale s h) (hkeeps : ¬ a.finishes h) (hquiet : ¬ a.takesJobs) :
    HandleAt s' h row' := by
  have hat := hs.standing h hh row hrow
  generalize hj : h.job = j at hstep hrow
  cases hstep with
  | claim => exact absurd trivial hquiet
  | reap => exact absurd trivial hquiet
  | renew hg howned =>
    exact ⟨fun hc => hat.current (mt hstale.mpr hc),
      fun hc => hat.behind_running (hstale.mp hc), fun hc => hat.behind_queued (hstale.mp hc)⟩
  | flag hg hrun =>
    exact ⟨fun hc => hat.current (mt hstale.mpr hc),
      fun hc => hat.behind_running (hstale.mp hc), fun hc => hat.behind_queued (hstale.mp hc)⟩
  | @succeed g _ _ _ hg howned =>
    have hne : h ≠ g := fun heq => hkeeps (by simp [Action.finishes, heq])
    exact hs.standing_after hg hh hne hj hrow howned hstale (by simp) (by simp)
  | @fail _ g _ _ _ _ haction hg howned =>
    have hne : h ≠ g := by
      rintro rfl
      rcases haction with rfl | rfl <;> simp [Action.finishes] at hkeeps
    exact hs.standing_after hg hh hne hj hrow howned hstale (by simp) (by simp)
  | @cancelled g _ _ hg howned =>
    have hne : h ≠ g := fun heq => hkeeps (by simp [Action.finishes, heq])
    exact hs.standing_after hg hh hne hj hrow howned hstale (by simp) (by simp)
  | @release g _ hg howned =>
    have hne : h ≠ g := fun heq => hkeeps (by simp [Action.finishes, heq])
    exact hs.standing_after hg hh hne hj hrow howned hstale (by simp) (by simp)
  | cancelQueued hc hq =>
    have hst : Stale s h := not_not.mp fun hcurrent => by
      have hrun := (hat.current hcurrent).1
      rw [hq] at hrun
      cases hrun
    exact ⟨fun hcurrent => absurd (hstale.mpr hst) hcurrent, by simp, by simp⟩

/-- A claim moves the counter past every handle of the job and creates the new one. -/
theorem handlesInv_claimed {s s' : QueueState} {job : JobId} {row : ResearchJob}
    {worker : WorkerId} {now lease : Time} (hs : HandlesInv s) (hrows : RowsInv s)
    (hsub : s.issued ⊆ s'.issued) (found : s.jobs.get? job = some row)
    (queued : row.status = .queued)
    (table : s'.jobs = s.jobs.set job (claimed worker now lease row))
    (handles : s'.handles = ⟨job, worker, row.attempts + 1, s.claims⟩ :: s.handles)
    (claims : s'.claims = s.claims + 1) (reaped : s'.reapedClaims = s.reapedClaims)
    (last : s'.lastClaim = fun j => if j = job then some s.claims else s.lastClaim j) :
    HandlesInv s' := by
  have hold : ∀ h ∈ s.handles, h.serial ≠ s.claims := fun h hh => by
    have hlt := hs.serial_lt h hh
    omega
  refine ⟨?_, ?_, ?_, ?_, ?_, ?_, ?_⟩
  · intro h hh
    rw [handles] at hh
    rcases List.mem_cons.mp hh with rfl | hh
    · exact hsub (hrows.issued job row found)
    · exact hsub (hs.issued h hh)
  · intro h hh
    rw [handles] at hh
    rw [claims]
    rcases List.mem_cons.mp hh with rfl | hh
    · exact Nat.lt_succ_self _
    · exact Nat.lt_succ_of_lt (hs.serial_lt h hh)
  · intro h hh h' hh' heq
    rw [handles] at hh hh'
    rcases List.mem_cons.mp hh with rfl | hh <;> rcases List.mem_cons.mp hh' with rfl | hh'
    · rfl
    · exact absurd heq.symm (hold h' hh')
    · exact absurd heq (hold h hh)
    · exact hs.unique h hh h' hh' heq
  · intro j n hn
    rw [last] at hn
    rw [claims]
    simp only at hn
    split at hn
    · cases hn
      exact Nat.lt_succ_self _
    · exact Nat.lt_succ_of_lt (hs.last_lt j n hn)
  · intro h hh j hj
    rw [handles] at hh
    rw [last] at hj
    simp only at hj
    rcases List.mem_cons.mp hh with rfl | hh
    · split at hj
      · assumption
      · exact absurd (hs.last_lt j _ hj) (lt_irrefl _)
    · split at hj
      · exact absurd (Option.some.inj hj).symm (hold h hh)
      · exact hs.last_job h hh j hj
  · intro n hn
    rw [reaped] at hn
    rw [claims]
    exact Nat.lt_succ_of_lt (hs.reaped_lt n hn)
  · intro h hh row' hrow'
    rw [handles] at hh
    rw [table, Dict.get?_set] at hrow'
    rcases List.mem_cons.mp hh with rfl | hh
    · -- the new handle: its serial number is fresh, so it is current
      rw [if_pos rfl] at hrow'
      cases hrow'
      have hcurrent : ¬ Stale s' ⟨job, worker, row.attempts + 1, s.claims⟩ := by
        rintro (hreaped | hlast)
        · rw [reaped] at hreaped
          exact absurd (hs.reaped_lt _ hreaped) (lt_irrefl _)
        · exact hlast (by simp [last])
      exact ⟨fun _ => ⟨rfl, rfl, rfl⟩, fun hst => absurd hst hcurrent,
        fun hst => absurd hst hcurrent⟩
    · by_cases hjob : h.job = job
      · rw [if_pos hjob] at hrow'
        cases hrow'
        have hat := hs.standing h hh row (by rw [hjob]; exact found)
        have hst : Stale s h := not_not.mp fun hcurrent => by
          have hrun := (hat.current hcurrent).1
          rw [queued] at hrun
          cases hrun
        have hle := hat.behind_queued hst queued
        have hst' : Stale s' h := Or.inr (by
          rw [last]
          simp only [hjob, if_true]
          exact fun heq => hold h hh (Option.some.inj heq).symm)
        refine ⟨fun hcurrent => absurd hst' hcurrent, ?_, by simp [claimed]⟩
        intro _ _
        simp only [claimed]
        omega
      · rw [if_neg hjob] at hrow'
        have hat := hs.standing h hh row' hrow'
        have hstale : Stale s' h ↔ Stale s h := by
          simp only [Stale, reaped, last, if_neg hjob]
        exact ⟨fun hc => hat.current (mt hstale.mpr hc),
          fun hc => hat.behind_running (hstale.mp hc),
          fun hc => hat.behind_queued (hstale.mp hc)⟩

/-- The reaper takes a job from its current handle; the counter stays, so the handle is
left just behind it. -/
theorem handlesInv_reaped {s s' : QueueState} {e : Expired} {row : ResearchJob}
    (hs : HandlesInv s) (hsub : s.issued ⊆ s'.issued)
    (found : s.jobs.get? e.job = some row) (guard : stale e row = true)
    (table : s'.jobs = s.jobs.set e.job (reaped e row))
    (handles : s'.handles = s.handles) (claims : s'.claims = s.claims)
    (last : s'.lastClaim = s.lastClaim)
    (hreaped : s'.reapedClaims = (s.lastClaim e.job).toList ++ s.reapedClaims) :
    HandlesInv s' := by
  have hrun := (stale_iff.mp guard).1
  have hkeep : (reaped e row).attempts = row.attempts ∧ (reaped e row).status ≠ .running := by
    unfold reaped
    split
    · simp
    · split <;> simp
  refine ⟨?_, ?_, ?_, ?_, ?_, ?_, ?_⟩
  · exact fun h hh => hsub (hs.issued h (handles ▸ hh))
  · exact fun h hh => claims ▸ hs.serial_lt h (handles ▸ hh)
  · exact fun h hh h' hh' => hs.unique h (handles ▸ hh) h' (handles ▸ hh')
  · exact fun j n hn => claims ▸ hs.last_lt j n (last ▸ hn)
  · exact fun h hh j hj => hs.last_job h (handles ▸ hh) j (last ▸ hj)
  · intro n hn
    rw [hreaped] at hn
    rw [claims]
    rcases List.mem_append.mp hn with hnew | hold
    · exact hs.last_lt e.job n (by simpa using hnew)
    · exact hs.reaped_lt n hold
  · intro h hh row' hrow'
    rw [handles] at hh
    rw [table, Dict.get?_set] at hrow'
    by_cases hjob : h.job = e.job
    · rw [if_pos hjob] at hrow'
      cases hrow'
      have hat := hs.standing h hh row (by rw [hjob]; exact found)
      have hst' : Stale s' h := by
        by_cases hlast : s.lastClaim h.job = some h.serial
        · left
          rw [hreaped, ← hjob, hlast]
          simp
        · right
          rw [last]
          exact hlast
      refine ⟨fun hcurrent => absurd hst' hcurrent, fun _ hr => absurd hr hkeep.2, ?_⟩
      intro _ _
      rw [hkeep.1]
      by_cases hst : Stale s h
      · exact Int.le_of_lt (hat.behind_running hst hrun)
      · exact Int.le_of_eq (hat.current hst).2.2.symm
    · rw [if_neg hjob] at hrow'
      have hat := hs.standing h hh row' hrow'
      have hstale : Stale s' h ↔ Stale s h := by
        simp only [Stale, last, hreaped, List.mem_append, Option.mem_toList]
        constructor
        · rintro ((hnew | hold) | hlast)
          · exact absurd (hs.last_job h hh e.job hnew).symm hjob
          · exact Or.inl hold
          · exact Or.inr hlast
        · rintro (hold | hlast)
          · exact Or.inl (Or.inr hold)
          · exact Or.inr hlast
      exact ⟨fun hc => hat.current (mt hstale.mpr hc),
        fun hc => hat.behind_running (hstale.mp hc),
        fun hc => hat.behind_queued (hstale.mp hc)⟩

/-- Steps keep the invariant of the handles. -/
theorem handlesInv_step {cfg : JobsConfig} {s s' : QueueState} {a : Action}
    (h : step cfg s a = some s') (hrows : RowsInv s) (hs : HandlesInv s) : HandlesInv s' := by
  have hsub := step_issued h
  cases step_handles h with
  | claimed action found queued table handles claims reaped last =>
    exact handlesInv_claimed hs hrows hsub found queued table handles claims reaped last
  | reaped action found guard table handles claims last reaped =>
    exact handlesInv_reaped hs hsub found guard table handles claims last reaped
  | other handles claims last reaped quiet =>
    have hmem : ∀ g ∈ s'.handles, g ∈ s.handles := fun g hg => (handles g hg).1
    have hstale : ∀ g, Stale s' g ↔ Stale s g := fun g => by
      simp only [Stale, last, reaped]
    refine ⟨?_, ?_, ?_, ?_, ?_, ?_, ?_⟩
    · exact fun g hg => hsub (hs.issued g (hmem g hg))
    · exact fun g hg => claims ▸ hs.serial_lt g (hmem g hg)
    · exact fun g hg g' hg' => hs.unique g (hmem g hg) g' (hmem g' hg')
    · exact fun j n hn => claims ▸ hs.last_lt j n (last ▸ hn)
    · exact fun g hg j hj => hs.last_job g (hmem g hg) j (last ▸ hj)
    · exact fun n hn => claims ▸ hs.reaped_lt n (reaped ▸ hn)
    · intro g hg row hrow
      have hcongr : ∀ {old}, HandleAt s g old → HandleAt s' g old := fun hat =>
        ⟨fun hc => hat.current (mt (hstale g).mpr hc),
          fun hc => hat.behind_running ((hstale g).mp hc),
          fun hc => hat.behind_queued ((hstale g).mp hc)⟩
      by_cases htakes : a.takesJobs
      · rw [quiet htakes] at hrow
        exact hcongr (hs.standing g (hmem g hg) row hrow)
      · have hentry := step_get? h hrows.issued g.job
        rw [hrow] at hentry
        generalize hcase : s.jobs.get? g.job = entry at hentry
        cases hentry with
        | same => exact hcongr (hs.standing g (hmem g hg) row hcase)
        | created hfresh => exact absurd (hs.issued g (hmem g hg)) hfresh
        | rewritten hstep =>
          exact hs.standing_rewritten (hmem g hg) hcase hstep (hstale g)
            (handles g hg).2 htakes

/-! ## The queue invariant -/

/-- The invariant of the whole queue. -/
structure QueueInv (s : QueueState) : Prop where
  rows : RowsInv s
  handles : HandlesInv s

theorem queueInv_step {cfg : JobsConfig} (hmax : 1 ≤ cfg.maxAttempts) {s s' : QueueState}
    {a : Action} (h : step cfg s a = some s') (hs : QueueInv s) : QueueInv s' :=
  ⟨rowsInv_step hmax h hs.rows, handlesInv_step h hs.rows hs.handles⟩

/-- The invariant holds in every reachable state. -/
theorem queueInv_reachable {cfg : JobsConfig} (hmax : 1 ≤ cfg.maxAttempts) {s : QueueState}
    (hs : (queue cfg).Reachable s) : QueueInv s :=
  Machine.Reachable.invariant (I := QueueInv) ⟨rowsInv_init, handlesInv_init⟩
    (fun _ _ _ h hi => queueInv_step hmax h hi) hs

/-! ## Guarantees -/

/-- One step leaves a terminal row as it is, or purges it for good. -/
theorem terminal_step {cfg : JobsConfig} {s s' : QueueState} {a : Action}
    (h : step cfg s a = some s') (hs : RowsInv s) {j : JobId} {row : ResearchJob}
    (hj : j ∈ s.issued) (hterminal : row.status.isTerminal = true)
    (hrow : s.jobs.get? j = some row ∨ s.jobs.get? j = none) :
    s'.jobs.get? j = some row ∨ s'.jobs.get? j = none := by
  have hentry := step_get? h hs.issued j
  rcases hrow with hrow | hrow
  · rw [hrow] at hentry
    generalize hcase : s'.jobs.get? j = entry at hentry ⊢
    cases hentry with
    | same => exact Or.inl rfl
    | purged => exact Or.inr rfl
    | rewritten hstep =>
      rw [hstep.not_terminal] at hterminal
      cases hterminal
  · rw [hrow] at hentry
    generalize hcase : s'.jobs.get? j = entry at hentry ⊢
    cases hentry with
    | same => exact Or.inr rfl
    | created hfresh => exact absurd hj hfresh

/-- A terminal row stays as it is along every run, until it is purged. -/
theorem terminal_final {cfg : JobsConfig} (hmax : 1 ≤ cfg.maxAttempts) {s s' : QueueState}
    {as : List Action} (hs : RowsInv s) {j : JobId} {row : ResearchJob}
    (hrow : s.jobs.get? j = some row) (hterminal : row.status.isTerminal = true)
    (hrun : (queue cfg).Run Machine.anyAction s as s') :
    s'.jobs.get? j = some row ∨ s'.jobs.get? j = none := by
  have hinv := hrun.invariant
    (I := fun t => RowsInv t ∧ j ∈ t.issued ∧
      (t.jobs.get? j = some row ∨ t.jobs.get? j = none))
    (fun t a t' _ hstep ⟨hrows, hj, hentry⟩ =>
      ⟨rowsInv_step hmax hstep hrows, step_issued hstep hj,
        terminal_step hstep hrows hj hterminal hentry⟩)
    ⟨hs, hs.issued j row hrow, Or.inl hrow⟩
  exact hinv.2.2

/-- What a stale handle is used for changes nothing in the job table. -/
theorem stale_write {cfg : JobsConfig} {s s' : QueueState} {a : Action} {h : Handle}
    (hs : HandlesInv s) (hmem : h ∈ s.handles) (hstale : Stale s h)
    (haction : a.handle? = some h) (hstep : step cfg s a = some s') : s'.jobs = s.jobs := by
  have hnot : s.jobs.matchesWhere h.job (owned h) = false := by
    cases hm : s.jobs.matchesWhere h.job (owned h) with
    | false => rfl
    | true =>
      rcases Dict.matchesWhere_iff.mp hm with ⟨row, hrow, howned⟩
      rw [(hs.standing h hmem row hrow).not_owned hstale] at howned
      cases howned
  cases a <;> simp only [Action.handle?, reduceCtorEq, Option.some.injEq] at haction
  all_goals
    subst haction
    simp only [step, if_pos hmem, Option.some.injEq] at hstep
    subst hstep
  case complete outcome =>
      cases outcome with
      | ok result => exact Dict.updateWhere_of_not_matches _ hnot
      | error err => exact Dict.updateWhere_of_not_matches _ hnot
  all_goals exact Dict.updateWhere_of_not_matches _ hnot

/-- The research job state machine, over every interleaving.  In every reachable state:
a terminal row stores at most the outcome of its status and stays as it is until it is
purged; a handle whose lease was reaped, or whose job was claimed again, cannot change the
table; a running job has a worker and a lease; and the attempt counter respects its limit. -/
theorem research_job_state_machine (cfg : JobsConfig) (hmax : 1 ≤ cfg.maxAttempts)
    {s : QueueState} (hs : (queue cfg).Reachable s) :
    (∀ j row, s.jobs.get? j = some row → row.status.isTerminal = true →
      (row.resultJson.isSome ↔ row.status = .succeeded) ∧
        (row.errorStatus.isSome ↔ row.status = .failed) ∧
        ∀ as s', (queue cfg).Run Machine.anyAction s as s' →
          s'.jobs.get? j = some row ∨ s'.jobs.get? j = none) ∧
      (∀ h ∈ s.handles, Stale s h → ∀ a s', a.handle? = some h →
        step cfg s a = some s' → s'.jobs = s.jobs) ∧
      (∀ j row, s.jobs.get? j = some row → row.status = .running →
        row.workerId.isSome ∧ row.leaseExpiresAt.isSome) ∧
      ∀ j row, s.jobs.get? j = some row →
        row.attempts ≤ row.maxAttempts ∧
          (row.status = .queued → row.attempts < row.maxAttempts) := by
  have hinv := queueInv_reachable hmax hs
  refine ⟨?_, ?_, ?_, ?_⟩
  · intro j row hrow hterminal
    have hok := hinv.rows.rows j row hrow
    exact ⟨hok.result_iff, hok.error_iff, fun as s' hrun =>
      terminal_final hmax hinv.rows hrow hterminal hrun⟩
  · intro h hh hstale a s' haction hstep
    exact stale_write hinv.handles hh hstale haction hstep
  · intro j row hrow hrun
    have hok := hinv.rows.rows j row hrow
    exact ⟨hok.running_worker hrun, hok.running_lease hrun⟩
  · intro j row hrow
    have hok := hinv.rows.rows j row hrow
    exact ⟨hok.attempts_le, hok.queued_lt⟩

/-- A deployment with the default settings. -/
def defaultConfig : JobsConfig where
  maxAttempts := 2
  maxActiveJobsPerUser := 3

/-- A completed job. -/
def completedJob : ResearchJob :=
  { newJob defaultConfig "alice" "alpha" [] 0 with
    status := .succeeded
    attempts := 1
    workerId := some "v"
    startedAt := some 1
    finishedAt := some 2
    resultJson := some "null" }

/-- A job whose worker does not renew its lease. -/
def lostJob : ResearchJob :=
  claimed "w" 4 60 (newJob defaultConfig "bob" "alpha" [] 3)

/-- One job is completed; the lease of the other is reaped, and a second worker claims it. -/
def reclaimedRun : List Action :=
  [.enqueue "k" "alice" "alpha" [] [] 0,
    .claimNext "v" 1 60 (fun _ => false),
    .complete ⟨"k", "v", 1, 0⟩ 2 (.ok "null"),
    .enqueue "j" "bob" "alpha" [] [] 3,
    .claimNext "w" 4 60 (fun _ => false),
    .reapRead 100,
    .reapUpdate ⟨"j", lostJob, 100⟩,
    .claimNext "v" 101 60 (fun _ => false)]

/-- The completed job keeps its result, the first worker of the other job can store none any
more, and its second attempt runs under a lease. -/
theorem research_job_state_machine_completed :
    ∃ s, (queue defaultConfig).exec emptyQueue reclaimedRun = some s ∧
      (∀ as s', (queue defaultConfig).Run Machine.anyAction s as s' →
        s'.jobs.get? "k" = some completedJob ∨ s'.jobs.get? "k" = none) ∧
      (∀ s', step defaultConfig s (.complete ⟨"j", "w", 1, 1⟩ 102 (.ok "null")) = some s' →
        s'.jobs = s.jobs) ∧
      ∃ row, s.jobs.get? "j" = some row ∧ row.attempts = 2 ∧ row.leaseExpiresAt.isSome ∧
        row.attempts ≤ row.maxAttempts := by
  have hexec : ((queue defaultConfig).exec emptyQueue reclaimedRun).map (fun s =>
      (s.jobs.get? "k", s.jobs.get? "j", s.handles, s.reapedClaims)) =
        some (some completedJob,
          some (claimed "v" 101 60 (reaped ⟨"j", lostJob, 100⟩ lostJob)),
          [⟨"j", "v", 2, 2⟩, ⟨"j", "w", 1, 1⟩], [1]) := by
    decide
  rcases Option.map_eq_some_iff.mp hexec with ⟨s, hs, hfields⟩
  simp only [Prod.mk.injEq] at hfields
  rcases hfields with ⟨hdone, hagain, hhandles, hreaped⟩
  rcases research_job_state_machine defaultConfig (by decide) (Machine.reachable_of_exec hs) with
    ⟨hfinal, hstale, hrunning, hattempts⟩
  have hhandle : (⟨"j", "w", 1, 1⟩ : Handle) ∈ s.handles := by
    rw [hhandles]
    decide
  have hlost : Stale s ⟨"j", "w", 1, 1⟩ := Or.inl (by rw [hreaped]; decide)
  refine ⟨s, hs, (hfinal "k" _ hdone rfl).2.2, fun s' => hstale _ hhandle hlost _ s' rfl,
    _, hagain, rfl, (hrunning "j" _ hagain rfl).2, (hattempts "j" _ hagain).1⟩

end QuantumSentinel.Jobs
