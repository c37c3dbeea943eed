import Mathlib.Algebra.BigOperators.Group.Finset.Piecewise
import Mathlib.Algebra.Order.BigOperators.Group.Finset
import Mathlib.Tactic.Linarith
import QuantumSentinel.Audit.Turns

/-!
# The audit appender: every call ends

A rank of the states falls with every step of a call in progress: entries leave the queue,
writers finish their batches, and calls that look either wait, return or write.

Main results:

- Theorem `Discipline.rank_step`: every step but a new call lowers the rank.
- Theorem `Discipline.length_le_rank`: without new calls a run is no longer than the rank.
-/

namespace QuantumSentinel.Audit

open Lib

/-! ## The rank -/

/-- The steps a writer has left, and some more for a batch that is about to be written. -/
def Phase.work : Phase → ℕ
  | .whole batch => 2 * batch.length + 2
  | .singles batch rest => rest.length + batch.length + 1
  | .marking _ rest => rest.length + 1
  | _ => 0

/-- Whether a call is about to look. -/
def Phase.looks : Phase → ℕ
  | .looking => 1
  | _ => 0

theorem Phase.looks_le (phase : Phase) : phase.looks ≤ 1 := by
  cases phase with
  | looking => exact le_rfl
  | waiting => exact Nat.zero_le 1
  | whole batch => exact Nat.zero_le 1
  | singles batch rest => exact Nat.zero_le 1
  | marking batch rest => exact Nat.zero_le 1
  | returned error => exact Nat.zero_le 1

namespace AuditState

variable (s : AuditState)

/-- The calls so far. -/
def calling : Finset CallId :=
  s.calls.keys.toFinset

/-- A quantity of a call. -/
def ofCall (f : Call → ℕ) (c : CallId) : ℕ :=
  match s.calls.get? c with
  | some call => f call
  | none => 0

/-- Whether the entry of a call stands in its queue. -/
def queuedAt (c : CallId) : ℕ :=
  s.ofCall (fun call => if c ∈ (s.appenders call.appender).queue then 1 else 0) c

/-- The work of a call. -/
def workAt (c : CallId) : ℕ :=
  s.ofCall (fun call => call.phase.work) c

/-- Whether a call is about to look. -/
def looksAt (c : CallId) : ℕ :=
  s.ofCall (fun call => call.phase.looks) c

/-- The rank: an entry in the queue outweighs the work on any batch it is taken into, and a
piece of work outweighs what all calls may do when they are woken. -/
def rank : ℕ :=
  (4 * (s.calling.card + 1) + 1) * ∑ c ∈ s.calling, s.queuedAt c +
    (s.calling.card + 1) * ∑ c ∈ s.calling, s.workAt c + ∑ c ∈ s.calling, s.looksAt c

variable {s}

theorem mem_calling {c : CallId} : c ∈ s.calling ↔ ∃ call, s.calls.get? c = some call := by
  rw [calling, List.mem_toFinset, ← not_iff_not, ← Dict.get?_eq_none_iff, not_exists]
  exact Option.eq_none_iff_forall_ne_some

theorem ofCall_eq {c : CallId} {call : Call} (h : s.calls.get? c = some call)
    (f : Call → ℕ) : s.ofCall f c = f call := by
  rw [ofCall, h]

theorem calling_eq {s' : AuditState} {g : CallId → Call → Call}
    (hcalls : ∀ x, s'.calls.get? x = (s.calls.get? x).map (g x)) : s'.calling = s.calling := by
  ext c
  rw [mem_calling, mem_calling]
  constructor
  · rintro ⟨new, hnew⟩
    rw [hcalls, Option.map_eq_some_iff] at hnew
    rcases hnew with ⟨old, hold, -⟩
    exact ⟨old, hold⟩
  · rintro ⟨old, hold⟩
    exact ⟨g c old, by rw [hcalls, hold, Option.map_some]⟩

/-- A step after which the queues are no longer, and the work is less by more than the number
of calls, or as much and fewer calls look. -/
theorem rank_lt_of {s' : AuditState} (hcalling : s'.calling = s.calling)
    (hqueue : ∀ c ∈ s.calling, s'.queuedAt c ≤ s.queuedAt c)
    (hwork : ∀ c ∈ s.calling, s'.workAt c ≤ s.workAt c)
    (hless : (∃ c ∈ s.calling, s'.workAt c < s.workAt c) ∨
      (∀ c ∈ s.calling, s'.looksAt c ≤ s.looksAt c) ∧
        ∃ c ∈ s.calling, s'.looksAt c < s.looksAt c) : s'.rank < s.rank := by
  have hq : ∑ c ∈ s.calling, s'.queuedAt c ≤ ∑ c ∈ s.calling, s.queuedAt c :=
    Finset.sum_le_sum hqueue
  have hw : ∑ c ∈ s.calling, s'.workAt c ≤ ∑ c ∈ s.calling, s.workAt c :=
    Finset.sum_le_sum hwork
  have hq' := Nat.mul_le_mul_left (4 * (s.calling.card + 1) + 1) hq
  rw [rank, rank, hcalling]
  rcases hless with ⟨c, hc, hlt⟩ | ⟨hlooks, c, hc, hlt⟩
  · have hw' : ∑ c ∈ s.calling, s'.workAt c < ∑ c ∈ s.calling, s.workAt c :=
      Finset.sum_lt_sum hwork ⟨c, hc, hlt⟩
    have hl : ∑ c ∈ s.calling, s'.looksAt c ≤ s.calling.card * 1 := by
      apply Finset.sum_le_card_nsmul
      intro c _
      unfold looksAt ofCall
      split
      · exact Phase.looks_le _
      · exact Nat.zero_le 1
    have hstep := Nat.mul_le_mul_left (s.calling.card + 1) (Nat.succ_le_of_lt hw')
    rw [Nat.mul_succ] at hstep
    omega
  · have hl : ∑ c ∈ s.calling, s'.looksAt c < ∑ c ∈ s.calling, s.looksAt c :=
      Finset.sum_lt_sum hlooks ⟨c, hc, hlt⟩
    have hw' := Nat.mul_le_mul_left (s.calling.card + 1) hw
    omega

end AuditState

/-! ## Steps -/

namespace Discipline

variable {s s' : AuditState}

/-- The phase of one call changes. -/
theorem rank_goes {c : CallId} {call : Call} {g : CallId → Call → Call}
    (hcall : s.calls.get? c = some call) (happenders : s'.appenders = s.appenders)
    (hcalls : ∀ x, s'.calls.get? x = (s.calls.get? x).map (g x))
    (happender : ∀ x old, (g x old).appender = old.appender)
    (hphases : ∀ x old, x ≠ c → (g x old).phase = old.phase)
    (hless : (g c call).phase.work < call.phase.work ∨
      (g c call).phase.work = call.phase.work ∧ (g c call).phase.looks < call.phase.looks) :
    s'.rank < s.rank := by
  have hnew : ∀ x old, s.calls.get? x = some old → s'.calls.get? x = some (g x old) := by
    intro x old hold
    rw [hcalls, hold, Option.map_some]
  have hc : c ∈ s.calling := AuditState.mem_calling.mpr ⟨call, hcall⟩
  have hwork : ∀ x ∈ s.calling, s'.workAt x ≤ s.workAt x := by
    intro x hx
    rcases AuditState.mem_calling.mp hx with ⟨old, hold⟩
    rw [AuditState.workAt, AuditState.workAt, AuditState.ofCall_eq hold,
      AuditState.ofCall_eq (hnew x old hold)]
    by_cases hxc : x = c
    · subst hxc
      rw [hcall, Option.some.injEq] at hold
      subst hold
      omega
    · rw [hphases x old hxc]
  refine AuditState.rank_lt_of (AuditState.calling_eq hcalls) ?_ hwork ?_
  · intro x hx
    rcases AuditState.mem_calling.mp hx with ⟨old, hold⟩
    rw [AuditState.queuedAt, AuditState.queuedAt, AuditState.ofCall_eq hold,
      AuditState.ofCall_eq (hnew x old hold), happender, happenders]
  · rcases hless with hless | ⟨hsame, hless⟩
    · left
      refine ⟨c, hc, ?_⟩
      rw [AuditState.workAt, AuditState.workAt, AuditState.ofCall_eq hcall,
        AuditState.ofCall_eq (hnew c call hcall)]
      exact hless
    · right
      refine ⟨?_, c, hc, ?_⟩
      · intro x hx
        rcases AuditState.mem_calling.mp hx with ⟨old, hold⟩
        rw [AuditState.looksAt, AuditState.looksAt, AuditState.ofCall_eq hold,
          AuditState.ofCall_eq (hnew x old hold)]
        by_cases hxc : x = c
        · subst hxc
          rw [hcall, Option.some.injEq] at hold
          subst hold
          exact hless.le
        · rw [hphases x old hxc]
      · rw [AuditState.looksAt, AuditState.looksAt, AuditState.ofCall_eq hcall,
          AuditState.ofCall_eq (hnew c call hcall)]
        exact hless

/-- A call that becomes the writer takes entries out of the queue, its own or an earlier
one among them. -/
theorem rank_lead (h : Discipline s) {c : CallId} {call : Call}
    (hcall : s.calls.get? c = some call) (hdone : call.done = false)
    (hflag : (s.appenders call.appender).writing = false) :
    (s.look c call).rank < s.rank := by
  let a := call.appender
  let queue := (s.appenders a).queue
  let batch := queue.take auditBatchMax
  have hlook : s.look c call = { s.restage c (.whole batch) with
      appenders := Function.update s.appenders a ⟨queue.drop auditBatchMax, true⟩ } := by
    rw [AuditState.look, hdone, hflag]
    rfl
  have hcalls : ∀ x, (s.look c call).calls.get? x =
      (s.calls.get? x).map (Call.goes c (.whole batch) none x) := by
    rw [hlook]
    exact s.get?_restage c _
  have hqueue : ∀ b, ((s.look c call).appenders b).queue =
      if b = a then queue.drop auditBatchMax else (s.appenders b).queue := by
    intro b
    rw [hlook]
    simp only [Function.update_apply]
    split <;> rfl
  have hnew : ∀ x old, s.calls.get? x = some old →
      (s.look c call).calls.get? x = some (Call.goes c (.whole batch) none x old) := by
    intro x old hold
    rw [hcalls, hold, Option.map_some]
  have hnodup : (batch ++ queue.drop auditBatchMax).Nodup := by
    rw [List.take_append_drop]
    exact h.queueNodup a
  have hc : c ∈ s.calling := AuditState.mem_calling.mpr ⟨call, hcall⟩
  -- the entry of the call stands in the queue, so the batch is not empty
  have hin : c ∈ queue := by
    rcases h.undone c call hcall hdone with hin | ⟨w, old, hw, hundone⟩
    · exact hin
    · have hbatch := (h.ok w old hw).mem_batch_of_undone hundone
      rcases h.batched w old c hw hbatch with ⟨-, call', hcall', hsame, -⟩
      rw [hcall, Option.some.injEq] at hcall'
      subst hcall'
      have hset := h.writing w old hw (Phase.isWriting_of_mem_batch hbatch)
      rw [← hsame, hflag] at hset
      cases hset
  have hpos : 0 < batch.length := by
    have hqueuePos := List.length_pos_of_mem hin
    rw [List.length_take, auditBatchMax]
    omega
  have hmembers : batch.toFinset ⊆ s.calling := by
    intro x hx
    rcases h.queued a x (List.mem_of_mem_take (List.mem_toFinset.mp hx)) with ⟨old, hold, -⟩
    exact AuditState.mem_calling.mpr ⟨old, hold⟩
  -- the queue loses the batch
  have hq : ∑ x ∈ s.calling, (s.look c call).queuedAt x + batch.length ≤
      ∑ x ∈ s.calling, s.queuedAt x := by
    have hcard : batch.length = ∑ x ∈ s.calling, if x ∈ batch.toFinset then 1 else 0 := by
      rw [Finset.sum_ite_mem, Finset.inter_eq_right.mpr hmembers, ← Finset.card_eq_sum_ones,
        List.toFinset_card_of_nodup hnodup.of_append_left]
    rw [hcard, ← Finset.sum_add_distrib]
    apply Finset.sum_le_sum
    intro x hx
    rcases AuditState.mem_calling.mp hx with ⟨old, hold⟩
    rw [AuditState.queuedAt, AuditState.queuedAt, AuditState.ofCall_eq hold,
      AuditState.ofCall_eq (hnew x old hold)]
    simp only [List.mem_toFinset]
    have happender : (Call.goes c (.whole batch) none x old).appender = old.appender := rfl
    rw [happender, hqueue]
    by_cases hbatch : x ∈ batch
    · have hx' : x ∈ queue := List.mem_of_mem_take hbatch
      rcases h.queued a x hx' with ⟨old', hold', ha, -⟩
      rw [hold, Option.some.injEq] at hold'
      subst hold'
      have hout : x ∉ queue.drop auditBatchMax :=
        fun hdrop => List.disjoint_of_nodup_append hnodup hbatch hdrop
      rw [if_pos ha, if_neg hout, if_pos hbatch, ha, if_pos hx']
    · rw [if_neg hbatch, add_zero]
      by_cases ha : old.appender = a
      · rw [if_pos ha, ha]
        by_cases hdrop : x ∈ queue.drop auditBatchMax
        · rw [if_pos hdrop, if_pos (List.mem_of_mem_drop hdrop)]
        · rw [if_neg hdrop]
          exact Nat.zero_le _
      · rw [if_neg ha]
  have hw : ∑ x ∈ s.calling, (s.look c call).workAt x ≤
      ∑ x ∈ s.calling, s.workAt x + (2 * batch.length + 2) := by
    have hsingle : ∑ x ∈ s.calling, (if x = c then 2 * batch.length + 2 else 0) =
        2 * batch.length + 2 := by
      rw [Finset.sum_ite_eq', if_pos hc]
    rw [← hsingle, ← Finset.sum_add_distrib]
    apply Finset.sum_le_sum
    intro x hx
    rcases AuditState.mem_calling.mp hx with ⟨old, hold⟩
    rw [AuditState.workAt, AuditState.workAt, AuditState.ofCall_eq hold,
      AuditState.ofCall_eq (hnew x old hold)]
    by_cases hxc : x = c
    · rw [Call.goes, if_pos hxc, if_pos hxc]
      exact Nat.le_add_left ..
    · rw [Call.goes, if_neg hxc, if_neg hxc]
      exact Nat.le_add_right ..
  have hl : ∑ x ∈ s.calling, (s.look c call).looksAt x ≤ ∑ x ∈ s.calling, s.looksAt x := by
    apply Finset.sum_le_sum
    intro x hx
    rcases AuditState.mem_calling.mp hx with ⟨old, hold⟩
    rw [AuditState.looksAt, AuditState.looksAt, AuditState.ofCall_eq hold,
      AuditState.ofCall_eq (hnew x old hold)]
    by_cases hxc : x = c
    · rw [Call.goes, if_pos hxc]
      exact Nat.zero_le _
    · rw [Call.goes, if_neg hxc]
  rw [AuditState.rank, AuditState.rank, AuditState.calling_eq hcalls]
  have hq' := Nat.mul_le_mul_left (4 * (s.calling.card + 1) + 1) hq
  have hw' := Nat.mul_le_mul_left (s.calling.card + 1) hw
  have hpaid : (s.calling.card + 1) * (2 * batch.length + 2) <
      (4 * (s.calling.card + 1) + 1) * batch.length := by
    nlinarith [Nat.mul_le_mul_left (s.calling.card + 1) hpos]
  rw [Nat.mul_add] at hq' hw'
  omega

/-- A writer gives up its turn, and may wake all the others. -/
theorem rank_finish (h : Discipline s) {c : CallId} {call : Call} {batch : List CallId}
    (hcall : s.calls.get? c = some call) (hphase : call.phase = .marking batch []) :
    (s.finish c batch call.appender).rank < s.rank := by
  have hcalls := h.get?_finish hcall hphase
  have hqueue : ∀ b, ((s.finish c batch call.appender).appenders b).queue =
      (s.appenders b).queue := by
    intro b
    simp only [AuditState.finish, Function.update_apply]
    split
    · rename_i heq
      rw [heq]
    · rfl
  have hnew : ∀ x old, s.calls.get? x = some old →
      (s.finish c batch call.appender).calls.get? x =
        some (if x = c ∨ old.appender = call.appender ∧ old.phase = .waiting then
          { old with phase := .looking } else old) := by
    intro x old hold
    rw [hcalls, hold, Option.map_some]
  refine AuditState.rank_lt_of (AuditState.calling_eq hcalls) ?_ ?_ (Or.inl ⟨c, ?_, ?_⟩)
  · intro x hx
    rcases AuditState.mem_calling.mp hx with ⟨old, hold⟩
    rw [AuditState.queuedAt, AuditState.queuedAt, AuditState.ofCall_eq hold,
      AuditState.ofCall_eq (hnew x old hold)]
    split <;> rw [hqueue]
  · intro x hx
    rcases AuditState.mem_calling.mp hx with ⟨old, hold⟩
    rw [AuditState.workAt, AuditState.workAt, AuditState.ofCall_eq hold,
      AuditState.ofCall_eq (hnew x old hold)]
    split
    · exact Nat.zero_le _
    · exact le_rfl
  · exact AuditState.mem_calling.mpr ⟨call, hcall⟩
  · rw [AuditState.workAt, AuditState.workAt, AuditState.ofCall_eq hcall,
      AuditState.ofCall_eq (hnew c call hcall), if_pos (Or.inl rfl), hphase]
    exact Nat.one_pos

/-- The writer goes on. -/
theorem rank_writes {c : CallId} {call : Call} {phase : Phase}
    {failed : Option (CallId × String)} (hcall : s.calls.get? c = some call)
    (happenders : s'.appenders = s.appenders)
    (hcalls : ∀ x, s'.calls.get? x = (s.calls.get? x).map (Call.goes c phase failed x))
    (hless : phase.work < call.phase.work) : s'.rank < s.rank := by
  refine rank_goes hcall happenders hcalls (fun _ _ => rfl) ?_ (Or.inl ?_)
  · intro x old hne
    exact if_neg hne
  · rw [Call.goes, if_pos rfl]
    exact hless

theorem work_ofSingles_le (batch rest : List CallId) :
    (Phase.ofSingles batch rest).work ≤ rest.length + batch.length + 1 := by
  cases rest with
  | nil =>
    rw [Phase.ofSingles, Phase.work, List.length_nil]
    omega
  | cons p rest => exact le_rfl

/-- Every step but a new call lowers the rank. -/
theorem rank_step (h : Discipline s) {crypto : Crypto} {a : AuditAction}
    (ha : a.isAppend = false) (hstep : AuditState.step crypto s a = some s') :
    s'.rank < s.rank := by
  cases a with
  | append c b entry => cases ha
  | look c =>
    simp only [AuditState.step] at hstep
    split at hstep
    · rename_i call hcall
      split at hstep
      · rename_i hidle
        cases hstep
        have hends : ∀ phase : Phase, phase.work = 0 → phase.looks = 0 →
            (s.restage c phase).rank < s.rank := by
          intro phase hwork hlooks
          refine rank_goes hcall rfl (s.get?_restage c phase) (fun _ _ => rfl) ?_ (Or.inr ?_)
          · intro x old hne
            exact if_neg hne
          · rw [Call.goes, if_pos rfl, hidle, hwork, hlooks]
            exact ⟨rfl, Nat.one_pos⟩
        rcases s.look_cases c call with ⟨-, heq⟩ | ⟨-, -, heq⟩ | ⟨hdone, hflag, -⟩
        · rw [heq]
          exact hends _ rfl rfl
        · rw [heq]
          exact hends _ rfl rfl
        · exact h.rank_lead hcall hdone hflag
      · cases hstep
    · cases hstep
  | insert c fault readings =>
    simp only [AuditState.step] at hstep
    split at hstep
    · rename_i batch hphase
      rcases Option.map_eq_some_iff.mp hphase with ⟨call, hcall, hwhole⟩
      split at hstep
      · cases hstep
        have hwork : call.phase.work = 2 * batch.length + 2 := by
          rw [hwhole]
          rfl
        have hmarking : (Phase.marking batch batch).work < call.phase.work := by
          rw [hwork, Phase.work]
          omega
        have hsingles : (Phase.ofSingles batch batch).work < call.phase.work := by
          have hle := work_ofSingles_le batch batch
          omega
        rcases s.insertBatch_cases crypto c batch fault readings with
          ⟨tables, -, heq⟩ | ⟨p, error, -, heq⟩ | heq
        · rw [heq]
          exact rank_writes hcall rfl (s.get?_restage c _) hmarking
        · rw [heq]
          exact rank_writes hcall rfl (s.get?_fail_restage p error c _) hmarking
        · rw [heq]
          exact rank_writes hcall rfl (s.get?_restage c _) hsingles
      · cases hstep
    · cases hstep
  | retry c fault reading =>
    simp only [AuditState.step] at hstep
    split at hstep
    · rename_i batch p rest hphase
      rcases Option.map_eq_some_iff.mp hphase with ⟨call, hcall, hsingles⟩
      cases hstep
      have hless : (Phase.ofSingles batch rest).work < call.phase.work := by
        have hle := work_ofSingles_le batch rest
        rw [hsingles, Phase.work, List.length_cons]
        omega
      rcases s.insertSingle_cases crypto c batch p rest fault reading with
        ⟨tables, -, heq⟩ | ⟨error, heq⟩
      · rw [heq]
        exact rank_writes hcall rfl (s.get?_restage c _) hless
      · rw [heq]
        exact rank_writes hcall rfl (s.get?_fail_restage p error c _) hless
    · cases hstep
  | mark c =>
    simp only [AuditState.step] at hstep
    split at hstep
    · rename_i batch p rest hphase
      rcases Option.map_eq_some_iff.mp hphase with ⟨call, hcall, hmarking⟩
      cases hstep
      refine rank_goes hcall rfl (get?_mark c p _) (fun _ _ => rfl) ?_ (Or.inl ?_)
      · intro x old hne
        exact if_neg hne
      · rw [if_pos rfl, hmarking]
        exact Nat.lt_succ_self _
    · cases hstep
  | release c =>
    simp only [AuditState.step] at hstep
    split at hstep
    · rename_i call hcall
      split at hstep
      · rename_i batch hmarking
        cases hstep
        exact h.rank_finish hcall hmarking
      · cases hstep
    · cases hstep

/-- Without new calls a run is no longer than the rank. -/
theorem length_le_rank {crypto : Crypto} {users : List String} (h : Discipline s)
    {as : List AuditAction}
    (hrun : (auditMachine crypto users).Run Machine.anyAction s as s')
    (has : ∀ a ∈ as, a.isAppend = false) : as.length ≤ s.rank := by
  induction hrun with
  | nil => exact Nat.zero_le _
  | cons _ hstep _ ih =>
    have hless := h.rank_step (has _ (List.mem_cons_self ..)) hstep
    have hrest := ih (h.step hstep) fun a ha => has a (List.mem_cons_of_mem _ ha)
    rw [List.length_cons]
    omega

end Discipline

end QuantumSentinel.Audit
