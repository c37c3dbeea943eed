import QuantumSentinel.Jobs.Lifecycle

/-!
# Research job queue: cancellation requests

Once `request_cancel` has returned a job to its owner, the job should stop: the
row is terminal or carries `cancel_requested`, and no claim starts the work again.
Two kinds of step break this.  `release` and the reaper put a running job back in
the queue without looking at a `cancel_requested` set since, and a
`request_cancel` call can find the job queued again at its refresh or at its second
update, which then matches no row.  Without such steps no request is lost.

Main results:

- Theorem `cancelInv_step`: what a step outside the two races preserves.
- Theorem `cancellation_kept`: along such a run no cancellation is lost.
- Theorem `cancellation_lost`: a run of the queue that loses one.
- Theorem `answered_queued_of_race`: one step of a race leaves an answered job in
  the queue.
-/

namespace QuantumSentinel.Jobs

open Lib

/-- What `request_cancel` promises about the row of the job it returned. -/
def RequestHeld (row : ResearchJob) : Prop :=
  row.status.isTerminal = true ∨ row.cancelRequested = true

/-- No cancellation of the job is lost in this state: its row, if any, is terminal or
asked to stop, and no claim takes the job. -/
def Kept (s : QueueState) (j : JobId) : Prop :=
  (∀ row, s.jobs.get? j = some row → RequestHeld row) ∧
    ∀ worker now lease locked jobs row,
      claimNext s.jobs worker now lease locked ≠ some (jobs, j, row)

/-- The steps outside the two races: a requeue meets no row that is asked to stop, and a
`request_cancel` call past its first statement does not find the job queued. -/
def OutsideRaces (s : QueueState) : Action → Prop
  | .release h => ∀ row, s.jobs.get? h.job = some row → owned h row = true →
      row.cancelRequested = false
  | .reapUpdate e => ∀ row, s.jobs.get? e.job = some row → stale e row = true →
      e.seen.cancelRequested = false → e.seen.attempts < e.seen.maxAttempts →
        row.cancelRequested = false
  | .cancelRefresh c => ∀ row, s.jobs.get? c.job = some row → row.status ≠ .queued
  | .cancelUpdateRunning c => ∀ row, s.jobs.get? c.job = some row → row.status ≠ .queued
  | _ => True

/-! ## Rows that are asked to stop -/

/-- A row that neither waits nor runs is terminal. -/
theorem JobStatus.terminal_of_ne {status : JobStatus} (hq : status ≠ .queued)
    (hr : status ≠ .running) : status.isTerminal = true := by
  cases status <;> simp_all [JobStatus.isTerminal]

/-- What the reaper writes is queued only when it requeues. -/
theorem reaped_queued {e : Expired} {row : ResearchJob}
    (h : (reaped e row).status = .queued) :
    e.seen.cancelRequested = false ∧ e.seen.attempts < e.seen.maxAttempts := by
  unfold reaped at h
  split at h
  · cases h
  · rename_i hflag
    split at h
    · rename_i hlt
      exact ⟨by simpa using hflag, hlt⟩
    · cases h

/-- The reaper leaves `cancel_requested` as it is. -/
theorem reaped_cancelRequested (e : Expired) (row : ResearchJob) :
    (reaped e row).cancelRequested = row.cancelRequested := by
  unfold reaped
  split
  · rfl
  · split <;> rfl

/-- Outside the races a rewrite never queues a row that is asked to stop. -/
theorem RowStep.flagged_not_queued {s : QueueState} {a : Action} {j : JobId}
    {row row' : ResearchJob} (h : RowStep s a j row row') (hout : OutsideRaces s a)
    (hrow : s.jobs.get? j = some row) (hflag' : row'.cancelRequested = true) :
    row'.status ≠ .queued := by
  cases h with
  | renew _ hg => simp [(owned_iff.mp hg).2.2]
  | release _ hg =>
    have hclear := hout row hrow hg
    rw [show row.cancelRequested = true from hflag'] at hclear
    cases hclear
  | reap _ hg =>
    intro hq
    rcases reaped_queued hq with ⟨hseen, hlt⟩
    have hclear := hout row hrow hg hseen hlt
    rw [reaped_cancelRequested, hclear] at hflag'
    cases hflag'
  | flag _ hrun => simp [hrun]
  | _ => simp [claimed]

/-- Outside the races a rewrite keeps the promise of `request_cancel`. -/
theorem RowStep.requestHeld {s : QueueState} {a : Action} {j : JobId}
    {row row' : ResearchJob} (h : RowStep s a j row row') (hout : OutsideRaces s a)
    (hrow : s.jobs.get? j = some row)
    (hflag : row.cancelRequested = true → row.status ≠ .queued)
    (hheld : RequestHeld row) : RequestHeld row' := by
  have hrequested : row.cancelRequested = true := by
    rcases hheld with hterminal | hrequested
    · rw [h.not_terminal] at hterminal
      cases hterminal
    · exact hrequested
  cases h with
  | claim hq => exact absurd hq (hflag hrequested)
  | renew => exact Or.inr hrequested
  | release => exact Or.inr hrequested
  | flag => exact Or.inr rfl
  | reap =>
    right
    rw [reaped_cancelRequested]
    exact hrequested
  | _ => exact Or.inl rfl

/-! ## The calls that return -/

/-- A rewrite that leaves a row asked to stop found it so, or is the update of a call
that returns the job. -/
theorem RowStep.requested {cfg : JobsConfig} {s s' : QueueState} {a : Action} {j : JobId}
    {row row' : ResearchJob} (hstep : RowStep s a j row row') (h : step cfg s a = some s')
    (hrow : s.jobs.get? j = some row) (hflag : row'.cancelRequested = true) :
    row.cancelRequested = true ∨ j ∈ s'.answered := by
  cases hstep with
  | reap =>
    rw [reaped_cancelRequested] at hflag
    exact Or.inl hflag
  | flag hmem =>
    simp only [step, hrow] at h
    split at h <;> cases h
    exact Or.inr (List.mem_cons_self ..)
  | _ => exact Or.inl hflag

/-- Answers are never withdrawn. -/
theorem step_answered_subset {cfg : JobsConfig} {s s' : QueueState} {a : Action}
    (h : step cfg s a = some s') : s.answered ⊆ s'.answered := by
  cases a <;> simp only [step] at h <;> repeat' split at h
  all_goals cases h
  all_goals first
    | exact List.Subset.refl _
    | exact List.subset_cons_self _ _

/-- Outside the races a call that returns its job leaves the promise fulfilled. -/
theorem step_answered {cfg : JobsConfig} {s s' : QueueState} {a : Action}
    (h : step cfg s a = some s') (hout : OutsideRaces s a) {j : JobId}
    (hj : j ∈ s'.answered) :
    j ∈ s.answered ∨
      ((s.jobs.get? j).isSome ∧ ∀ row, s'.jobs.get? j = some row → RequestHeld row) := by
  cases a with
  | cancelRead user job =>
    simp only [step] at h
    split at h
    · cases h
      exact Or.inl hj
    rename_i row hfound
    have hrow : s.jobs.get? job = some row :=
      (Option.filter_eq_some_iff.mp hfound).1
    split at h
    · cases h
      exact Or.inl hj
    rename_i hq
    split at h
    · cases h
      exact Or.inl hj
    rename_i hr
    cases h
    rcases List.mem_cons.mp hj with rfl | hold
    · refine Or.inr ⟨by simp [hrow], ?_⟩
      intro row' hrow'
      rw [show s.jobs.get? j = some row' from hrow'] at hrow
      cases hrow
      exact Or.inl (JobStatus.terminal_of_ne hq hr)
    · exact Or.inl hold
  | cancelUpdateQueued c now =>
    simp only [step] at h
    split at h
    · split at h
      · rename_i hmatch
        cases h
        rcases List.mem_cons.mp hj with rfl | hold
        · rcases Dict.matchesWhere_iff.mp hmatch with ⟨row, hrow, hg⟩
          refine Or.inr ⟨by simp [hrow], ?_⟩
          intro row' hrow'
          have hnew : (cancelQueued s.jobs c.job now).get? c.job =
              some { row with status := .cancelled, finishedAt := some now } := by
            rw [cancelQueued, Dict.updateWhere_of_matches _ hrow hg, Dict.get?_set_self]
          rw [show (cancelQueued s.jobs c.job now).get? c.job = some row' from hrow'] at hnew
          cases hnew
          exact Or.inl rfl
        · exact Or.inl hold
      · cases h
        exact Or.inl hj
    · cases h
  | cancelRefresh c =>
    simp only [step] at h
    split at h
    · split at h
      · cases h
        exact Or.inl hj
      rename_i row hrow
      split at h
      · cases h
        exact Or.inl hj
      rename_i hr
      cases h
      rcases List.mem_cons.mp hj with rfl | hold
      · refine Or.inr ⟨by simp [hrow], ?_⟩
        intro row' hrow'
        rw [show s.jobs.get? c.job = some row' from hrow'] at hrow
        cases hrow
        exact Or.inl (JobStatus.terminal_of_ne (hout _ hrow') hr)
      · exact Or.inl hold
    · cases h
  | cancelUpdateRunning c =>
    simp only [step] at h
    split at h
    · split at h
      · cases h
        exact Or.inl hj
      rename_i row hrow
      cases h
      rcases List.mem_cons.mp hj with rfl | hold
      · refine Or.inr ⟨by simp [hrow], ?_⟩
        intro row' hrow'
        replace hrow' : (flagRunning s.jobs c.job).get? c.job = some row' := hrow'
        rw [flagRunning, Dict.get?_updateWhere, if_pos rfl, hrow] at hrow'
        by_cases hr : row.status = .running
        · simp only [hr, Option.map_some, decide_true, if_true, Option.some.injEq] at hrow'
          subst hrow'
          exact Or.inr rfl
        · simp only [hr, Option.map_some, decide_false, Option.some.injEq] at hrow'
          subst hrow'
          exact Or.inl (JobStatus.terminal_of_ne (hout row hrow) hr)
      · exact Or.inl hold
    · cases h
  | _ =>
    simp only [step] at h
    repeat' split at h
    all_goals cases h
    all_goals exact Or.inl hj

/-! ## The invariant -/

/-- What holds in every state of a run outside the races. -/
structure CancelInv (s : QueueState) : Prop where
  issued : ∀ j row, s.jobs.get? j = some row → j ∈ s.issued
  answered_issued : ∀ j ∈ s.answered, j ∈ s.issued
  flagged : ∀ j row, s.jobs.get? j = some row → row.cancelRequested = true →
    row.status ≠ .queued
  requested : ∀ j row, s.jobs.get? j = some row → row.cancelRequested = true →
    j ∈ s.answered
  held : ∀ j ∈ s.answered, ∀ row, s.jobs.get? j = some row → RequestHeld row

theorem cancelInv_init : CancelInv emptyQueue := by
  constructor <;> simp [emptyQueue]

/-- A step outside the races keeps the invariant. -/
theorem cancelInv_step {cfg : JobsConfig} {s s' : QueueState} {a : Action}
    (hout : OutsideRaces s a) (h : step cfg s a = some s') (hs : CancelInv s) :
    CancelInv s' := by
  have hentry := step_get? h hs.issued
  have hsub := step_issued h
  have hissued : ∀ j row, s'.jobs.get? j = some row → j ∈ s'.issued := by
    intro j row hrow
    have hj := hentry j
    rw [hrow] at hj
    cases hcase : s.jobs.get? j with
    | some old => exact hsub (hs.issued j old hcase)
    | none =>
      rw [hcase] at hj
      cases hj with
      | created _ hnew => exact hnew
  refine ⟨hissued, ?_, ?_, ?_, ?_⟩
  · intro j hj
    rcases step_answered h hout hj with hold | ⟨hsome, _⟩
    · exact hsub (hs.answered_issued j hold)
    · rcases Option.isSome_iff_exists.mp hsome with ⟨row, hrow⟩
      exact hsub (hs.issued j row hrow)
  · intro j row hrow hflag
    have hj := hentry j
    rw [hrow] at hj
    generalize hcase : s.jobs.get? j = entry at hj
    cases hj with
    | same => exact hs.flagged j row hcase hflag
    | created => simp [newJob] at hflag
    | rewritten hstep =>
      exact hstep.flagged_not_queued hout hcase hflag
  · intro j row hrow hflag
    have hj := hentry j
    rw [hrow] at hj
    generalize hcase : s.jobs.get? j = entry at hj
    cases hj with
    | same => exact step_answered_subset h (hs.requested j row hcase hflag)
    | created => simp [newJob] at hflag
    | rewritten hstep =>
      rcases hstep.requested h hcase hflag with hold | hnew
      · exact step_answered_subset h (hs.requested j _ hcase hold)
      · exact hnew
  · intro j hj row hrow
    rcases step_answered h hout hj with hold | ⟨_, hnew⟩
    · have hj' := hentry j
      rw [hrow] at hj'
      generalize hcase : s.jobs.get? j = entry at hj'
      cases hj' with
      | same => exact hs.held j hold row hcase
      | created hfresh => exact absurd (hs.answered_issued j hold) hfresh
      | rewritten hstep =>
        exact hstep.requestHeld hout hcase (hs.flagged j _ hcase) (hs.held j hold _ hcase)
    · exact hnew row hrow

/-- The invariant holds along every run outside the races. -/
theorem cancelInv_reachable {cfg : JobsConfig} {s : QueueState}
    (hs : (queue cfg).ReachableUnder OutsideRaces s) : CancelInv s :=
  Machine.ReachableUnder.invariant (I := CancelInv) cancelInv_init
    (fun _ _ _ hout h hi => cancelInv_step hout h hi) hs

/-- Where the invariant holds, no request that was answered is lost. -/
theorem CancelInv.kept {s : QueueState} (hs : CancelInv s) {j : JobId}
    (hj : j ∈ s.answered) : Kept s j := by
  refine ⟨hs.held j hj, ?_⟩
  intro worker now lease locked jobs row hclaim
  rcases claimNext_eq_some hclaim with ⟨old, hold, hqueued, _, _⟩
  rcases hs.held j hj old hold with hterminal | hflag
  · rw [hqueued] at hterminal
    cases hterminal
  · exact hs.flagged j old hold hflag hqueued

/-- Answers stay along a run. -/
theorem run_answered_subset {cfg : JobsConfig} {G : QueueState → Action → Prop}
    {s s' : QueueState} {as : List Action} (h : (queue cfg).Run G s as s') :
    s.answered ⊆ s'.answered := by
  induction h with
  | nil => exact List.Subset.refl _
  | cons _ hstep _ ih => exact List.Subset.trans (step_answered_subset hstep) ih

/-! ## The races -/

/-- A queued job can always be claimed: the other jobs may all be locked. -/
theorem claimNext_of_queued {jobs : JobTable} {j : JobId} {row : ResearchJob}
    (hrow : jobs.get? j = some row) (hq : row.status = .queued) (worker : WorkerId)
    (now lease : Time) :
    ∃ jobs' row', claimNext jobs worker now lease (fun k => k ≠ j) = some (jobs', j, row') := by
  have hmem := Dict.get?_eq_some_iff.mp hrow
  have hfound : oldestQueued jobs (fun k => k ≠ j) = some j := by
    cases hfirst : oldestQueued jobs (fun k => k ≠ j) with
    | some k =>
      have hk := oldestQueued_not_locked hfirst
      simpa using hk
    | none =>
      have hlocked := oldestQueued_eq_none hfirst (j, row) hmem hq
      simp at hlocked
  have hupdate :
      jobs.updateWhere j (fun row => row.status = .queued) (claimed worker now lease) =
        jobs.set j (claimed worker now lease row) :=
    Dict.updateWhere_of_matches _ hrow (by simpa using hq)
  refine ⟨jobs.set j (claimed worker now lease row), claimed worker now lease row, ?_⟩
  simp only [claimNext, hfound, Option.bind_some, hupdate, Dict.get?_set_self, Option.map_some]

/-- A job waiting in the queue can start again. -/
theorem not_kept_of_queued {s : QueueState} {j : JobId} {row : ResearchJob}
    (hrow : s.jobs.get? j = some row) (hq : row.status = .queued) : ¬ Kept s j := by
  rintro ⟨_, hclaim⟩
  rcases claimNext_of_queued hrow hq "" 0 0 with ⟨jobs', row', hsome⟩
  exact hclaim _ _ _ _ _ _ hsome

/-- A step of either race leaves an answered job in the queue. -/
theorem answered_queued_of_race {cfg : JobsConfig} {s s' : QueueState} {a : Action}
    (hs : CancelInv s) (h : step cfg s a = some s') (hrace : ¬ OutsideRaces s a) :
    ∃ j ∈ s'.answered, ∃ row, s'.jobs.get? j = some row ∧ row.status = .queued := by
  have hsub := step_answered_subset h
  cases a with
  | release hd =>
    simp only [OutsideRaces, not_forall, Bool.not_eq_false] at hrace
    rcases hrace with ⟨row, hrow, howned, hflag⟩
    simp only [step] at h
    split at h <;> cases h
    exact ⟨hd.job, hsub (hs.requested _ row hrow hflag), _,
      Dict.get?_updateWhere_of_matches _ hrow howned, rfl⟩
  | reapUpdate e =>
    simp only [OutsideRaces, not_forall, Bool.not_eq_false] at hrace
    rcases hrace with ⟨row, hrow, hstale, hseen, hlt, hflag⟩
    simp only [step] at h
    split at h <;> cases h
    refine ⟨e.job, hsub (hs.requested _ row hrow hflag), reaped e row,
      Dict.get?_updateWhere_of_matches _ hrow hstale, ?_⟩
    simp [reaped, hseen, hlt]
  | cancelRefresh c =>
    simp only [OutsideRaces, not_forall, not_not] at hrace
    rcases hrace with ⟨row, hrow, hq⟩
    simp only [step, hrow] at h
    split at h
    · simp only [hq, reduceCtorEq, if_false, Option.some.injEq] at h
      subst h
      exact ⟨c.job, List.mem_cons_self .., row, hrow, hq⟩
    · cases h
  | cancelUpdateRunning c =>
    simp only [OutsideRaces, not_forall, not_not] at hrace
    rcases hrace with ⟨row, hrow, hq⟩
    simp only [step, hrow] at h
    split at h <;> cases h
    refine ⟨c.job, List.mem_cons_self .., row, ?_, hq⟩
    · show (flagRunning s.jobs c.job).get? c.job = some row
      rw [flagRunning, Dict.get?_updateWhere, if_pos rfl, hrow]
      simp [hq]
  | _ => exact absurd trivial hrace

/-- No cancellation is lost in a run outside the two races: from the moment
`request_cancel` has returned a job, its row is terminal or asked to stop, and no
claim starts the job again.  And the first step that belongs to a race loses one. -/
theorem cancellation_kept (cfg : JobsConfig) {s : QueueState}
    (hs : (queue cfg).ReachableUnder OutsideRaces s) :
    (∀ j ∈ s.answered, ∀ as s', (queue cfg).Run OutsideRaces s as s' → Kept s' j) ∧
      ∀ a s', step cfg s a = some s' →
        (OutsideRaces s a ↔ ∀ j ∈ s'.answered, Kept s' j) := by
  refine ⟨?_, ?_⟩
  · intro j hj as s' hrun
    exact (cancelInv_reachable (hs.run hrun)).kept (run_answered_subset hrun hj)
  · intro a s' h
    constructor
    · intro hout j hj
      exact (cancelInv_reachable (hs.step hout h)).kept hj
    · intro hkept
      by_contra hrace
      rcases answered_queued_of_race (cancelInv_reachable hs) h hrace with
        ⟨j, hj, row, hrow, hq⟩
      exact not_kept_of_queued hrow hq (hkept j hj)

/-- A call that finds its job still queued ends the job: the promise is kept. -/
theorem cancellation_kept_queued :
    ∃ s, "j" ∈ s.answered ∧ Kept s "j" := by
  have hexec : (((queue defaultConfig).exec emptyQueue
      [.enqueue "j" "alice" "alpha" [] [] 0, .cancelRead "alice" "j",
        .cancelUpdateQueued ⟨"alice", "j", .sawQueued⟩ 1]).map fun s => s.answered) =
        some ["j"] := by decide
  rcases Option.map_eq_some_iff.mp hexec with ⟨s, hs, hanswered⟩
  have hmem : "j" ∈ s.answered := by simp [hanswered]
  have hreach : (queue defaultConfig).ReachableUnder OutsideRaces s :=
    ⟨_, Machine.run_of_exec_all hs (by simp [OutsideRaces])⟩
  exact ⟨s, hmem, (cancellation_kept defaultConfig hreach).1 "j" hmem [] s (.nil s)⟩

/-- A worker takes the job, the owner's call reads it as running, and the worker hands
it back while shutting down: the second update matches no row and the call returns. -/
def releasedWhileCancelling : List Action :=
  [.enqueue "j" "alice" "alpha" [] [] 0,
    .claimNext "w" 1 60 (fun _ => false),
    .cancelRead "alice" "j",
    .release ⟨"j", "w", 1, 0⟩,
    .cancelUpdateRunning ⟨"alice", "j", .sawRunning⟩]

/-- After that run the job waits in the queue, not asked to stop, though its owner has
been answered. -/
theorem cancellation_lost :
    ¬ ∀ s, (queue defaultConfig).Reachable s → ∀ j ∈ s.answered, Kept s j := by
  intro hall
  have hexec : (((queue defaultConfig).exec emptyQueue releasedWhileCancelling).bind fun s =>
      (s.jobs.get? "j").map fun row => (s.answered, row.status)) =
        some (["j"], .queued) := by decide
  rcases Option.bind_eq_some_iff.mp hexec with ⟨s, hs, hmap⟩
  rcases Option.map_eq_some_iff.mp hmap with ⟨row, hrow, heq⟩
  simp only [Prod.mk.injEq] at heq
  exact not_kept_of_queued hrow heq.2
    (hall s (Machine.reachable_of_exec hs) "j" (by simp [heq.1]))

end QuantumSentinel.Jobs
