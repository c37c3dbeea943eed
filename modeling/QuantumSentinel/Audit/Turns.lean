import QuantumSentinel.Audit.GroupCommit

/-!
# The audit appender: whose turn it is

An entry stands in the queue of its process until a writer takes it, and one call of each
process is the writer.  A call that waits has a writer to wake it.

Main results:

- Theorem `Discipline.step`: what every step preserves.
- Theorem `Discipline.progress`: some step can be taken while a call has not ended.
-/

namespace QuantumSentinel.Audit

open Lib

/-! ## What a writer holds -/

namespace Phase

/-- The entries a writer has taken. -/
def batch : Phase → List CallId
  | .whole batch | .singles batch _ | .marking batch _ => batch
  | _ => []

/-- The entries of a batch that are still to be written. -/
def todo : Phase → List CallId
  | .whole batch => batch
  | .singles _ rest => rest
  | _ => []

/-- The entries of a batch that are not marked as done. -/
def undone : Phase → List CallId
  | .whole batch | .singles batch _ => batch
  | .marking _ rest => rest
  | _ => []

/-- Whether the call is a writer. -/
def isWriting : Phase → Bool
  | .whole _ | .singles _ _ | .marking _ _ => true
  | _ => false

/-- A batch has no entry twice, and what is left of it is its end; entries are written alone
while there are some. -/
def Ok : Phase → Prop
  | .whole batch => batch.Nodup
  | .singles batch rest => batch.Nodup ∧ rest <:+ batch ∧ rest ≠ []
  | .marking batch rest => batch.Nodup ∧ rest <:+ batch
  | _ => True

theorem isWriting_of_mem_batch {phase : Phase} {c : CallId} (h : c ∈ phase.batch) :
    phase.isWriting = true := by
  cases phase with
  | whole batch => rfl
  | singles batch rest => rfl
  | marking batch rest => rfl
  | looking => cases h
  | waiting => cases h
  | returned error => cases h

theorem Ok.mem_batch_of_undone {phase : Phase} (h : phase.Ok) {c : CallId}
    (hc : c ∈ phase.undone) : c ∈ phase.batch := by
  cases phase with
  | whole batch => exact hc
  | singles batch rest => exact hc
  | marking batch rest => exact h.2.subset hc
  | looking => cases hc
  | waiting => cases hc
  | returned error => cases hc

theorem Ok.undone_of_todo {phase : Phase} (h : phase.Ok) {c : CallId} (hc : c ∈ phase.todo) :
    c ∈ phase.undone := by
  cases phase with
  | whole batch => exact hc
  | singles batch rest => exact h.2.1.subset hc
  | marking batch rest => cases hc
  | looking => cases hc
  | waiting => cases hc
  | returned error => cases hc

/-- The phase after the first transaction, and after each entry alone. -/
theorem ofSingles_spec {batch rest : List CallId} (hnodup : batch.Nodup)
    (hrest : rest <:+ batch) : (ofSingles batch rest).batch = batch ∧
      (ofSingles batch rest).undone = batch ∧ (ofSingles batch rest).todo = rest ∧
      (ofSingles batch rest).isWriting = true ∧ (ofSingles batch rest).Ok := by
  cases rest with
  | nil => exact ⟨rfl, rfl, rfl, rfl, hnodup, List.suffix_refl _⟩
  | cons p rest => exact ⟨rfl, rfl, rfl, rfl, hnodup, hrest, List.cons_ne_nil p rest⟩

end Phase

/-- A call after its thread has gone on, and after its entry may have failed. -/
def Call.goes (w : CallId) (phase : Phase) (failed : Option (CallId × String)) (x : CallId)
    (old : Call) : Call :=
  { old with
    phase := if x = w then phase else old.phase
    error := if failed.map Prod.fst = some x then failed.map Prod.snd else old.error }

namespace AuditState

variable {s : AuditState}

theorem get?_modify (c x : CallId) (f : Call → Call) :
    (s.modify c f).calls.get? x =
      if x = c then (s.calls.get? x).map f else s.calls.get? x := by
  rw [modify, Dict.get?_updateWhere]
  split
  · rename_i h
    subst h
    cases s.calls.get? x <;> rfl
  · rfl

theorem get?_restage (s : AuditState) (c : CallId) (phase : Phase) (x : CallId) :
    (s.restage c phase).calls.get? x = (s.calls.get? x).map (Call.goes c phase none x) := by
  rw [restage, get?_modify]
  cases s.calls.get? x with
  | none => split <;> rfl
  | some old =>
    by_cases heq : x = c
    · simp only [Option.map_some, Call.goes, heq, if_true, Option.map_none, reduceCtorEq, if_false]
    · simp only [Option.map_some, Call.goes, heq, Option.map_none, reduceCtorEq, if_false]

@[simp]
theorem modify_appenders (c : CallId) (f : Call → Call) :
    (s.modify c f).appenders = s.appenders :=
  rfl

@[simp]
theorem modify_tables (c : CallId) (f : Call → Call) : (s.modify c f).tables = s.tables :=
  rfl

end AuditState

/-! ## The discipline -/

/-- What the queues, the flags and the phases of the calls guarantee. -/
structure Discipline (s : AuditState) : Prop where
  /-- a queued entry is one of its process, and not done -/
  queued : ∀ a c, c ∈ (s.appenders a).queue →
    ∃ call, s.calls.get? c = some call ∧ call.appender = a ∧ call.done = false
  queueNodup : ∀ a, (s.appenders a).queue.Nodup
  /-- an entry of a batch is one of the writer's process, and has left the queue; it is done
  when the writer has marked it -/
  batched : ∀ w call c, s.calls.get? w = some call → c ∈ call.phase.batch →
    c ∉ (s.appenders call.appender).queue ∧ ∃ old, s.calls.get? c = some old ∧
      old.appender = call.appender ∧ (old.done = false ↔ c ∈ call.phase.undone)
  ok : ∀ w call, s.calls.get? w = some call → call.phase.Ok
  /-- a process has one writer -/
  writer : ∀ w w' call call', s.calls.get? w = some call → s.calls.get? w' = some call' →
    call.phase.isWriting = true → call'.phase.isWriting = true →
      call'.appender = call.appender → w' = w
  /-- while there is a writer the flag is set -/
  writing : ∀ w call, s.calls.get? w = some call → call.phase.isWriting = true →
    (s.appenders call.appender).writing = true
  /-- while the flag is set there is a writer -/
  flagged : ∀ a, (s.appenders a).writing = true → ∃ w call, s.calls.get? w = some call ∧
    call.appender = a ∧ call.phase.isWriting = true
  /-- a call that waits has a writer to wake it -/
  waiting : ∀ c call, s.calls.get? c = some call → call.phase = .waiting →
    (s.appenders call.appender).writing = true
  /-- an entry that is not done stands in the queue or in a batch -/
  undone : ∀ c call, s.calls.get? c = some call → call.done = false →
    c ∈ (s.appenders call.appender).queue ∨
      ∃ w call', s.calls.get? w = some call' ∧ c ∈ call'.phase.undone
  /-- a call ends with the outcome of its entry -/
  returned : ∀ c call error, s.calls.get? c = some call → call.phase = .returned error →
    call.done = true ∧ call.error = error

/-- A step of a writer between taking its batch and giving up its turn. -/
structure Writes (s s' : AuditState) (w : CallId) (call : Call) (phase : Phase)
    (g : CallId → Call → Call) : Prop where
  appenders : s'.appenders = s.appenders
  calls : ∀ x, s'.calls.get? x = (s.calls.get? x).map (g x)
  held : s.calls.get? w = some call
  writing : call.phase.isWriting = true
  goes : phase.isWriting = true
  same : phase.batch = call.phase.batch
  ok : phase.Ok
  appender : ∀ x old, (g x old).appender = old.appender
  phases : ∀ x old, (g x old).phase = if x = w then phase else old.phase
  batch : ∀ x old, s.calls.get? x = some old → x ∈ phase.batch →
    ((g x old).done = false ↔ x ∈ phase.undone)
  others : ∀ x old, x ∉ phase.batch → (g x old).done = old.done
  settled : ∀ x old, s.calls.get? x = some old → old.done = true →
    (g x old).done = true ∧ (g x old).error = old.error

namespace Discipline

variable {s s' : AuditState}

/-- Before the first call. -/
theorem init (hcalls : ∀ c, s.calls.get? c = none)
    (happenders : ∀ a, s.appenders a = ⟨[], false⟩) : Discipline s := by
  have hqueue : ∀ a c, c ∉ (s.appenders a).queue := by
    intro a c hc
    rw [happenders] at hc
    cases hc
  have hno : ∀ c call, s.calls.get? c ≠ some call := by
    intro c call hc
    rw [hcalls] at hc
    cases hc
  constructor
  case queued => exact fun a c hc => absurd hc (hqueue a c)
  case queueNodup =>
    intro a
    rw [happenders]
    exact List.nodup_nil
  case batched => exact fun w call c hw => absurd hw (hno w call)
  case ok => exact fun w call hw => absurd hw (hno w call)
  case writer => exact fun w w' call call' hw => absurd hw (hno w call)
  case writing => exact fun w call hw => absurd hw (hno w call)
  case flagged =>
    intro a ha
    rw [happenders] at ha
    cases ha
  case waiting => exact fun c call hc => absurd hc (hno c call)
  case undone => exact fun c call hc => absurd hc (hno c call)
  case returned => exact fun c call error hc => absurd hc (hno c call)

/-- Batches of different writers have no entry in common. -/
theorem batch_disjoint (h : Discipline s) {w w' c : CallId} {call call' : Call}
    (hw : s.calls.get? w = some call) (hw' : s.calls.get? w' = some call')
    (hc : c ∈ call.phase.batch) (hc' : c ∈ call'.phase.batch) : w' = w := by
  rcases h.batched w call c hw hc with ⟨-, old, hold, hsame, -⟩
  rcases h.batched w' call' c hw' hc' with ⟨-, old', hold', hsame', -⟩
  rw [hold, Option.some.injEq] at hold'
  subst hold'
  exact h.writer w w' call call' hw hw' (Phase.isWriting_of_mem_batch hc)
    (Phase.isWriting_of_mem_batch hc') (hsame'.symm.trans hsame)

/-- A writer that goes on keeps the discipline. -/
theorem writes (h : Discipline s) {w : CallId} (call : Call) (phase : Phase)
    (g : CallId → Call → Call) (hstep : Writes s s' w call phase g) : Discipline s' := by
  have hback : ∀ x new, s'.calls.get? x = some new →
      ∃ old, s.calls.get? x = some old ∧ new = g x old := by
    intro x new hx
    rw [hstep.calls, Option.map_eq_some_iff] at hx
    rcases hx with ⟨old, hold, rfl⟩
    exact ⟨old, hold, rfl⟩
  have hforth : ∀ x old, s.calls.get? x = some old → s'.calls.get? x = some (g x old) := by
    intro x old hx
    rw [hstep.calls, hx, Option.map_some]
  -- the phase of a call other than the writer is the old one
  have hother : ∀ x old, x ≠ w → (g x old).phase = old.phase := by
    intro x old hx
    rw [hstep.phases, if_neg hx]
  have hwriter : (g w call).phase = phase := by rw [hstep.phases, if_pos rfl]
  have hwriting : ∀ x old, s.calls.get? x = some old →
      ((g x old).phase.isWriting = true ↔ old.phase.isWriting = true) := by
    intro x old hx
    rw [hstep.phases]
    split
    · rename_i heq
      subst heq
      rw [hstep.held, Option.some.injEq] at hx
      subst hx
      exact iff_of_true hstep.goes hstep.writing
    · exact Iff.rfl
  constructor
  case queued =>
    intro a c hc
    rw [hstep.appenders] at hc
    rcases h.queued a c hc with ⟨old, hold, ha, hdone⟩
    refine ⟨g c old, hforth c old hold, (hstep.appender c old).trans ha, ?_⟩
    rw [hstep.others c old, hdone]
    intro hbatch
    rw [hstep.same] at hbatch
    rcases h.batched w call c hstep.held hbatch with ⟨hqueue, old', hold', hsame, -⟩
    rw [hold, Option.some.injEq] at hold'
    subst hold'
    rw [← hsame, ha] at hqueue
    exact hqueue hc
  case queueNodup =>
    rw [hstep.appenders]
    exact h.queueNodup
  case batched =>
    intro x new c hx hc
    rcases hback x new hx with ⟨old, hold, rfl⟩
    rw [hstep.appenders, hstep.appender]
    by_cases hxw : x = w
    · subst hxw
      rw [hstep.held, Option.some.injEq] at hold
      subst hold
      rw [hwriter] at hc ⊢
      have hc' := hc
      rw [hstep.same] at hc'
      rcases h.batched x call c hstep.held hc' with ⟨hqueue, old, hold, hsame, -⟩
      exact ⟨hqueue, g c old, hforth c old hold, (hstep.appender c old).trans hsame,
        hstep.batch c old hold hc⟩
    · rw [hother x old hxw] at hc ⊢
      rcases h.batched x old c hold hc with ⟨hqueue, old', hold', hsame, hdone⟩
      refine ⟨hqueue, g c old', hforth c old' hold', (hstep.appender c old').trans hsame, ?_⟩
      rw [hstep.others c old', hdone]
      intro hbatch
      rw [hstep.same] at hbatch
      exact hxw (h.batch_disjoint hstep.held hold hbatch hc)
  case ok =>
    intro x new hx
    rcases hback x new hx with ⟨old, hold, rfl⟩
    rw [hstep.phases]
    split
    · exact hstep.ok
    · exact h.ok x old hold
  case writer =>
    intro x x' new new' hx hx' hnew hnew' hsame
    rcases hback x new hx with ⟨old, hold, rfl⟩
    rcases hback x' new' hx' with ⟨old', hold', rfl⟩
    rw [hstep.appender, hstep.appender] at hsame
    exact h.writer x x' old old' hold hold' ((hwriting x old hold).mp hnew)
      ((hwriting x' old' hold').mp hnew') hsame
  case writing =>
    intro x new hx hnew
    rcases hback x new hx with ⟨old, hold, rfl⟩
    rw [hstep.appenders, hstep.appender]
    exact h.writing x old hold ((hwriting x old hold).mp hnew)
  case flagged =>
    intro a ha
    rw [hstep.appenders] at ha
    rcases h.flagged a ha with ⟨x, old, hold, hsame, hwrites⟩
    exact ⟨x, g x old, hforth x old hold, (hstep.appender x old).trans hsame,
      (hwriting x old hold).mpr hwrites⟩
  case waiting =>
    intro x new hx hnew
    rcases hback x new hx with ⟨old, hold, rfl⟩
    rw [hstep.appenders, hstep.appender]
    by_cases hxw : x = w
    · subst hxw
      rw [hstep.phases, if_pos rfl] at hnew
      have hgoes := hstep.goes
      rw [hnew] at hgoes
      cases hgoes
    · rw [hother x old hxw] at hnew
      exact h.waiting x old hold hnew
  case undone =>
    intro x new hx hnew
    rcases hback x new hx with ⟨old, hold, rfl⟩
    rw [hstep.appenders, hstep.appender]
    by_cases hbatch : x ∈ phase.batch
    · right
      refine ⟨w, g w call, hforth w call hstep.held, ?_⟩
      rw [hwriter]
      exact (hstep.batch x old hold hbatch).mp hnew
    · rw [hstep.others x old hbatch] at hnew
      rcases h.undone x old hold hnew with hqueue | ⟨x', old', hold', hx'⟩
      · exact Or.inl hqueue
      · right
        refine ⟨x', g x' old', hforth x' old' hold', ?_⟩
        rw [hother x' old']
        · exact hx'
        · rintro rfl
          rw [hstep.held, Option.some.injEq] at hold'
          subst hold'
          rw [hstep.same] at hbatch
          exact hbatch ((h.ok x' call hstep.held).mem_batch_of_undone hx')
  case returned =>
    intro x new error hx hnew
    rcases hback x new hx with ⟨old, hold, rfl⟩
    by_cases hxw : x = w
    · subst hxw
      rw [hstep.phases, if_pos rfl] at hnew
      have hgoes := hstep.goes
      rw [hnew] at hgoes
      cases hgoes
    · rw [hother x old hxw] at hnew
      rcases h.returned x old error hold hnew with ⟨hdone, herror⟩
      rcases hstep.settled x old hold hdone with ⟨hdone', herror'⟩
      exact ⟨hdone', herror'.trans herror⟩

/-- A new call enters the queue. -/
theorem enqueue (h : Discipline s) {c : CallId} (a : AppenderId) (entry : PendingAudit)
    (hfresh : c ∉ s.calls.keys) : Discipline (s.enqueue c a entry) := by
  have hnone : s.calls.get? c = none := Dict.get?_eq_none_iff.mpr hfresh
  have hcalls : ∀ x, (s.enqueue c a entry).calls.get? x =
      if x = c then some ⟨a, entry, false, none, .looking⟩ else s.calls.get? x :=
    fun x => Dict.get?_set s.calls c x _
  have hold : ∀ x call, s.calls.get? x = some call →
      x ≠ c ∧ (s.enqueue c a entry).calls.get? x = some call := by
    intro x call hx
    have hne : x ≠ c := by
      rintro rfl
      rw [hnone] at hx
      cases hx
    exact ⟨hne, by rw [hcalls, if_neg hne, hx]⟩
  have hqueue : ∀ b, ((s.enqueue c a entry).appenders b).queue =
      if b = a then (s.appenders a).queue ++ [c] else (s.appenders b).queue := by
    intro b
    simp only [AuditState.enqueue, Function.update_apply]
    split <;> rfl
  have hflag : ∀ b, ((s.enqueue c a entry).appenders b).writing = (s.appenders b).writing := by
    intro b
    simp only [AuditState.enqueue, Function.update_apply]
    split
    · rename_i heq
      rw [heq]
    · rfl
  have hmem : ∀ b x, x ∈ ((s.enqueue c a entry).appenders b).queue →
      x ∈ (s.appenders b).queue ∨ (b = a ∧ x = c) := by
    intro b x hx
    rw [hqueue] at hx
    split at hx
    · rename_i heq
      subst heq
      rcases List.mem_append.mp hx with hx | hx
      · exact Or.inl hx
      · exact Or.inr ⟨rfl, List.mem_singleton.mp hx⟩
    · exact Or.inl hx
  have hkeep : ∀ b x, x ∈ (s.appenders b).queue →
      x ∈ ((s.enqueue c a entry).appenders b).queue := by
    intro b x hx
    rw [hqueue]
    split
    · rename_i heq
      subst heq
      exact List.mem_append_left _ hx
    · exact hx
  have hnotin : ∀ b, c ∉ (s.appenders b).queue := by
    intro b hb
    rcases h.queued b c hb with ⟨call, hcall, -⟩
    rw [hnone] at hcall
    cases hcall
  constructor
  case queued =>
    intro b x hx
    rcases hmem b x hx with hx | ⟨rfl, rfl⟩
    · rcases h.queued b x hx with ⟨call, hcall, ha, hdone⟩
      exact ⟨call, (hold x call hcall).2, ha, hdone⟩
    · exact ⟨_, by rw [hcalls, if_pos rfl], rfl, rfl⟩
  case queueNodup =>
    intro b
    rw [hqueue]
    split
    · have hsingle : [c].Nodup := List.nodup_singleton c
      refine (h.queueNodup a).append hsingle ?_
      intro x hx hx'
      rw [List.mem_singleton] at hx'
      subst hx'
      exact hnotin a hx
    · exact h.queueNodup b
  case batched =>
    intro w call x hw hx
    rw [hcalls] at hw
    split at hw
    · cases hw
      cases hx
    · rcases h.batched w call x hw hx with ⟨hout, old, hx', hrest⟩
      rcases hold x old hx' with ⟨hne, hx''⟩
      refine ⟨?_, old, hx'', hrest⟩
      intro hin
      rcases hmem _ x hin with hin | ⟨-, heq⟩
      · exact hout hin
      · exact hne heq
  case ok =>
    intro w call hw
    rw [hcalls] at hw
    split at hw
    · cases hw
      trivial
    · exact h.ok w call hw
  case writer =>
    intro w w' call call' hw hw' hwrites hwrites' hsame
    rw [hcalls] at hw hw'
    split at hw
    · cases hw
      cases hwrites
    · split at hw'
      · cases hw'
        cases hwrites'
      · exact h.writer w w' call call' hw hw' hwrites hwrites' hsame
  case writing =>
    intro w call hw hwrites
    rw [hcalls] at hw
    rw [hflag]
    split at hw
    · cases hw
      cases hwrites
    · exact h.writing w call hw hwrites
  case flagged =>
    intro b hb
    rw [hflag] at hb
    rcases h.flagged b hb with ⟨w, call, hw, hrest⟩
    exact ⟨w, call, (hold w call hw).2, hrest⟩
  case waiting =>
    intro x call hx hphase
    rw [hcalls] at hx
    rw [hflag]
    split at hx
    · cases hx
      cases hphase
    · exact h.waiting x call hx hphase
  case undone =>
    intro x call hx hdone
    rw [hcalls] at hx
    split at hx
    · rename_i heq
      subst heq
      cases hx
      left
      rw [hqueue, if_pos rfl]
      exact List.mem_append_right _ (List.mem_singleton_self x)
    · rcases h.undone x call hx hdone with hin | ⟨w, call', hw, hrest⟩
      · exact Or.inl (hkeep _ x hin)
      · exact Or.inr ⟨w, call', (hold w call' hw).2, hrest⟩
  case returned =>
    intro x call error hx hphase
    rw [hcalls] at hx
    split at hx
    · cases hx
      cases hphase
    · exact h.returned x call error hx hphase

/-- A call that is no writer waits, ends, or takes the front of the queue as its batch. -/
theorem onward (h : Discipline s) {c : CallId} {call : Call} {phase : Phase} {appender : Appender}
    (hcall : s.calls.get? c = some call) (hidle : call.phase = .looking)
    (hcalls : ∀ x, s'.calls.get? x = (s.calls.get? x).map (Call.goes c phase none x))
    (happenders : s'.appenders = Function.update s.appenders call.appender appender)
    (hqueue : phase.batch ++ appender.queue = (s.appenders call.appender).queue)
    (hundone : phase.undone = phase.batch) (hok : phase.Ok)
    (hwriting : appender.writing =
      ((s.appenders call.appender).writing || phase.isWriting))
    (hfree : phase.isWriting = true → (s.appenders call.appender).writing = false)
    (hwaiting : phase = .waiting → appender.writing = true)
    (hreturned : ∀ error, phase = .returned error → call.done = true ∧ call.error = error) :
    Discipline s' := by
  have hgone : ∀ b x, x ∈ (s'.appenders b).queue → x ∈ (s.appenders b).queue := by
    intro b x hx
    rw [happenders, Function.update_apply] at hx
    split at hx
    · rename_i heq
      subst heq
      exact hqueue ▸ List.mem_append_right _ hx
    · exact hx
  have hflag : ∀ b, (s.appenders b).writing = true → (s'.appenders b).writing = true := by
    intro b hb
    rw [happenders, Function.update_apply]
    split
    · rename_i heq
      rw [hwriting, ← heq, hb, Bool.true_or]
    · exact hb
  have hown : (s'.appenders call.appender) = appender := by
    rw [happenders, Function.update_self]
  -- a call is the old one, or the one that goes on
  have hback : ∀ x new, s'.calls.get? x = some new →
      x ≠ c ∧ s.calls.get? x = some new ∨ x = c ∧ new = { call with phase := phase } := by
    intro x new hx
    rw [hcalls] at hx
    rcases Option.map_eq_some_iff.mp hx with ⟨old, hold, rfl⟩
    by_cases heq : x = c
    · subst heq
      rw [hcall, Option.some.injEq] at hold
      subst hold
      exact Or.inr ⟨rfl, by simp [Call.goes]⟩
    · exact Or.inl ⟨heq, by simpa [Call.goes, heq] using hold⟩
  have hforth : ∀ x old, s.calls.get? x = some old → ∃ new, s'.calls.get? x = some new ∧
      new.appender = old.appender ∧ new.done = old.done ∧
        (old.phase.isWriting = true → new.phase = old.phase) := by
    intro x old hx
    refine ⟨Call.goes c phase none x old, by rw [hcalls, hx, Option.map_some], rfl, rfl,
      fun hold => if_neg ?_⟩
    rintro rfl
    rw [hcall, Option.some.injEq] at hx
    rw [← hx, hidle] at hold
    cases hold
  have hnew : s'.calls.get? c = some { call with phase := phase } := by
    rw [hcalls, hcall, Option.map_some]
    simp [Call.goes]
  have hnodup : phase.batch.Disjoint appender.queue :=
    List.disjoint_of_nodup_append (hqueue ▸ h.queueNodup call.appender)
  constructor
  case queued =>
    intro b x hx
    rcases h.queued b x (hgone b x hx) with ⟨old, hold, ha, hd⟩
    rcases hforth x old hold with ⟨new, hnew', hsame, hsame', -⟩
    exact ⟨new, hnew', hsame.trans ha, hsame'.trans hd⟩
  case queueNodup =>
    intro b
    rw [happenders, Function.update_apply]
    split
    · exact (List.nodup_append.mp (hqueue ▸ h.queueNodup call.appender)).2.1
    · exact h.queueNodup b
  case batched =>
    intro w new x hw hx
    rcases hback w new hw with ⟨-, hw⟩ | ⟨-, rfl⟩
    · rcases h.batched w new x hw hx with ⟨hout, old, hold, hsame, hd⟩
      rcases hforth x old hold with ⟨new', hnew', ha, hd', -⟩
      exact ⟨fun hin => hout (hgone _ x hin), new', hnew', ha.trans hsame, hd' ▸ hd⟩
    · rcases h.queued call.appender x (hqueue ▸ List.mem_append_left _ hx) with ⟨old, hold, ha, hd⟩
      rcases hforth x old hold with ⟨new', hnew', hsame, hd', -⟩
      refine ⟨?_, new', hnew', hsame.trans ha, iff_of_true (hd'.trans hd) (hundone ▸ hx)⟩
      rw [hown]
      exact hnodup hx
  case ok =>
    intro w new hw
    rcases hback w new hw with ⟨-, hw⟩ | ⟨-, rfl⟩
    · exact h.ok w new hw
    · exact hok
  case writer =>
    -- nobody of this process writes before
    have hnobody : ∀ w old, s.calls.get? w = some old → old.phase.isWriting = true →
        phase.isWriting = true → old.appender ≠ call.appender := by
      intro w old hw hold hwrites ha
      have hset := h.writing w old hw hold
      rw [ha, hfree hwrites] at hset
      cases hset
    intro w w' new new' hw hw' hwrites hwrites' hsame
    rcases hback w new hw with ⟨-, hw⟩ | ⟨rfl, rfl⟩
    · rcases hback w' new' hw' with ⟨-, hw'⟩ | ⟨-, rfl⟩
      · exact h.writer w w' new new' hw hw' hwrites hwrites' hsame
      · exact absurd hsame.symm (hnobody w new hw hwrites hwrites')
    · rcases hback w' new' hw' with ⟨-, hw'⟩ | ⟨rfl, rfl⟩
      · exact absurd hsame (hnobody w' new' hw' hwrites' hwrites)
      · rfl
  case writing =>
    intro w new hw hwrites
    rcases hback w new hw with ⟨-, hw⟩ | ⟨-, rfl⟩
    · exact hflag _ (h.writing w new hw hwrites)
    · rw [hown, hwriting, show phase.isWriting = true from hwrites, Bool.or_true]
  case flagged =>
    intro b hb
    have hcases : (s.appenders b).writing = true ∨
        b = call.appender ∧ phase.isWriting = true := by
      rw [happenders, Function.update_apply] at hb
      split at hb
      · rename_i heq
        rw [hwriting, ← heq, Bool.or_eq_true] at hb
        exact hb.imp_right fun hwrites => ⟨heq, hwrites⟩
      · exact Or.inl hb
    rcases hcases with hb | ⟨rfl, hwrites⟩
    · rcases h.flagged b hb with ⟨w, old, hold, hsame, hwrites⟩
      rcases hforth w old hold with ⟨new, hnew', ha, -, hkeep⟩
      exact ⟨w, new, hnew', ha.trans hsame, by rw [hkeep hwrites, hwrites]⟩
    · exact ⟨c, _, hnew, rfl, hwrites⟩
  case waiting =>
    intro x new hx hphase
    rcases hback x new hx with ⟨-, hx⟩ | ⟨-, rfl⟩
    · exact hflag _ (h.waiting x new hx hphase)
    · rw [hown]
      exact hwaiting hphase
  case undone =>
    intro x new hx hd
    have hold : ∃ old, s.calls.get? x = some old ∧ old.appender = new.appender ∧
        old.done = new.done := by
      rcases hback x new hx with ⟨-, hx⟩ | ⟨rfl, rfl⟩
      · exact ⟨new, hx, rfl, rfl⟩
      · exact ⟨call, hcall, rfl, rfl⟩
    rcases hold with ⟨old, hold, ha, hd'⟩
    rcases h.undone x old hold (hd'.trans hd) with hin | ⟨w, call', hw, hin⟩
    · rw [ha] at hin
      by_cases heq : new.appender = call.appender
      · rw [heq, ← hqueue, List.mem_append] at hin
        rw [heq, hown]
        exact hin.symm.imp_right fun hbatch => ⟨c, _, hnew, hundone ▸ hbatch⟩
      · rw [happenders, Function.update_of_ne heq]
        exact Or.inl hin
    · rcases hforth w call' hw with ⟨new', hnew', -, -, hkeep⟩
      refine Or.inr ⟨w, new', hnew', ?_⟩
      rw [hkeep]
      · exact hin
      · exact Phase.isWriting_of_mem_batch ((h.ok w call' hw).mem_batch_of_undone hin)
  case returned =>
    intro x new error hx hphase
    rcases hback x new hx with ⟨-, hx⟩ | ⟨-, rfl⟩
    · exact h.returned x new error hx hphase
    · exact hreturned error hphase

/-- The section in the loop of `append`. -/
theorem look (h : Discipline s) {c : CallId} {call : Call}
    (hcall : s.calls.get? c = some call) (hidle : call.phase = .looking) :
    Discipline (s.look c call) := by
  -- a call that waits or ends leaves the queue and the flag as they are
  have hsame : s.appenders = Function.update s.appenders call.appender
      (s.appenders call.appender) := (Function.update_eq_self ..).symm
  rcases s.look_cases c call with ⟨hdone, heq⟩ | ⟨hdone, hflag, heq⟩ | ⟨hdone, hflag, heq⟩
  · rw [heq]
    refine h.onward hcall hidle (s.get?_restage c _) hsame rfl rfl trivial
      (Bool.or_false _).symm (fun hwrites => by cases hwrites) (fun hwaits => by cases hwaits) ?_
    rintro error ⟨⟩
    exact ⟨hdone, rfl⟩
  · rw [heq]
    exact h.onward hcall hidle (s.get?_restage c _) hsame rfl rfl trivial
      (Bool.or_false _).symm (fun hwrites => by cases hwrites) (fun _ => hflag)
      fun _ hends => by cases hends
  · rw [heq]
    refine h.onward hcall hidle (s.get?_restage c _) rfl (List.take_append_drop ..) rfl
      ((h.queueNodup _).sublist (List.take_sublist ..)) (Bool.or_true _).symm (fun _ => hflag)
      (fun _ => rfl) fun _ hends => by cases hends

/-- The calls after a writer has given up its turn: its batch is marked already. -/
theorem get?_finish (h : Discipline s) {c : CallId} {call : Call} {batch : List CallId}
    (hcall : s.calls.get? c = some call) (hphase : call.phase = .marking batch []) (x : CallId) :
    (s.finish c batch call.appender).calls.get? x = (s.calls.get? x).map fun old =>
      if x = c ∨ old.appender = call.appender ∧ old.phase = .waiting then
        { old with phase := .looking }
      else old := by
  have hmarked : ∀ old, s.calls.get? x = some old → ¬(x ∈ batch ∧ old.done = false) := by
    rintro old hold ⟨hx, hdone⟩
    have hx' : x ∈ call.phase.batch := by
      rw [hphase]
      exact hx
    rcases h.batched c call x hcall hx' with ⟨-, old', hold', -, hundone⟩
    rw [hold, Option.some.injEq] at hold'
    subst hold'
    rw [hphase] at hundone
    exact List.not_mem_nil (hundone.mp hdone)
  have hcalls : (s.finish c batch call.appender).calls.get? x =
      ((s.restage c .looking).calls.get? x).map (Call.wake call.appender batch x) :=
    Dict.get?_mapValues _ _ _
  rw [hcalls, AuditState.restage, AuditState.get?_modify]
  cases hold : s.calls.get? x with
  | none => split <;> rfl
  | some old =>
    have hkeep := hmarked old hold
    split
    · rename_i heq
      subst heq
      rw [hcall, Option.some.injEq] at hold
      subst hold
      simp only [Option.map_some, Call.wake, true_or, if_true, reduceCtorEq, and_false,
        if_false, hkeep]
    · rename_i hne
      simp only [Option.map_some, Call.wake, hne, false_or, hkeep, if_false]

/-- A writer gives up its turn. -/
theorem finish (h : Discipline s) {c : CallId} {call : Call} {batch : List CallId}
    (hcall : s.calls.get? c = some call) (hphase : call.phase = .marking batch []) :
    Discipline (s.finish c batch call.appender) := by
  let a := call.appender
  have hget := h.get?_finish hcall hphase
  have hqueue : ∀ b, ((s.finish c batch a).appenders b).queue = (s.appenders b).queue := by
    intro b
    simp only [AuditState.finish, Function.update_apply]
    split
    · rename_i heq
      rw [heq]
    · rfl
  have hwriting : ∀ b, ((s.finish c batch a).appenders b).writing =
      if b = a then false else (s.appenders b).writing := by
    intro b
    simp only [AuditState.finish, Function.update_apply]
    split <;> rfl
  have hisWriting : call.phase.isWriting = true := by
    rw [hphase]
    rfl
  -- a call is the old one, up to its phase: the writer and the waiting calls look again
  have hback : ∀ x new, (s.finish c batch a).calls.get? x = some new →
      ∃ old, s.calls.get? x = some old ∧ new.appender = old.appender ∧ new.done = old.done ∧
        new.error = old.error ∧ (new = old ∧ x ≠ c ∧
          ¬(old.appender = a ∧ old.phase = .waiting) ∨ new.phase = .looking) := by
    intro x new hx
    rw [hget, Option.map_eq_some_iff] at hx
    rcases hx with ⟨old, hold, hnew⟩
    refine ⟨old, hold, ?_⟩
    split at hnew
    · subst hnew
      exact ⟨rfl, rfl, rfl, Or.inr rfl⟩
    · rename_i hother
      subst hnew
      rw [not_or] at hother
      exact ⟨rfl, rfl, rfl, Or.inl ⟨rfl, hother.1, hother.2⟩⟩
  have hforth : ∀ x old, s.calls.get? x = some old → ∃ new,
      (s.finish c batch a).calls.get? x = some new ∧ new.appender = old.appender ∧
        new.done = old.done ∧ (x ≠ c → old.phase.isWriting = true → new.phase = old.phase) := by
    intro x old hold
    rw [hget, hold, Option.map_some]
    refine ⟨_, rfl, ?_⟩
    split
    · rename_i hlook
      refine ⟨rfl, rfl, ?_⟩
      intro hne hwrites
      rcases hlook with heq | ⟨-, hwaits⟩
      · exact absurd heq hne
      · rw [hwaits] at hwrites
        cases hwrites
    · exact ⟨rfl, rfl, fun _ _ => rfl⟩
  have hkept : ∀ x new y, (s.finish c batch a).calls.get? x = some new →
      y ∈ new.phase.batch → s.calls.get? x = some new ∧ x ≠ c := by
    intro x new y hx hy
    rcases hback x new hx with ⟨old, hold, -, -, -, ⟨rfl, hne, -⟩ | hlooks⟩
    · exact ⟨hold, hne⟩
    · rw [hlooks] at hy
      cases hy
  constructor
  case queued =>
    intro b x hx
    rw [hqueue] at hx
    rcases h.queued b x hx with ⟨old, hold, ha, hd⟩
    rcases hforth x old hold with ⟨new, hnew, hsame, hd', -⟩
    exact ⟨new, hnew, hsame.trans ha, hd'.trans hd⟩
  case queueNodup =>
    intro b
    rw [hqueue]
    exact h.queueNodup b
  case batched =>
    intro w new x hw hx
    rcases hkept w new x hw hx with ⟨hw', -⟩
    rcases h.batched w new x hw' hx with ⟨hout, old, hold, hsame, hd⟩
    rcases hforth x old hold with ⟨new', hnew', ha, hd', -⟩
    rw [hqueue]
    exact ⟨hout, new', hnew', ha.trans hsame, hd' ▸ hd⟩
  case ok =>
    intro w new hw
    rcases hback w new hw with ⟨old, hold, -, -, -, ⟨rfl, -, -⟩ | hlooks⟩
    · exact h.ok w new hold
    · rw [hlooks]
      trivial
  case writer =>
    intro w w' new new' hw hw' hwrites hwrites' hsame
    rcases hback w new hw with ⟨old, hold, -, -, -, ⟨rfl, -, -⟩ | hlooks⟩
    · rcases hback w' new' hw' with ⟨old', hold', -, -, -, ⟨rfl, -, -⟩ | hlooks'⟩
      · exact h.writer w w' new new' hold hold' hwrites hwrites' hsame
      · rw [hlooks'] at hwrites'
        cases hwrites'
    · rw [hlooks] at hwrites
      cases hwrites
  case writing =>
    intro w new hw hwrites
    rcases hback w new hw with ⟨old, hold, -, -, -, ⟨rfl, hne, -⟩ | hlooks⟩
    · rw [hwriting, if_neg]
      · exact h.writing w new hold hwrites
      · intro hsame
        exact hne (h.writer c w call new hcall hold hisWriting hwrites hsame)
    · rw [hlooks] at hwrites
      cases hwrites
  case flagged =>
    intro b hb
    rw [hwriting] at hb
    split at hb
    · cases hb
    · rename_i hne
      rcases h.flagged b hb with ⟨w, old, hold, hsame, hwrites⟩
      rcases hforth w old hold with ⟨new, hnew, ha, -, hkeep⟩
      have hwc : w ≠ c := by
        rintro rfl
        rw [hcall, Option.some.injEq] at hold
        subst hold
        exact hne hsame.symm
      refine ⟨w, new, hnew, ha.trans hsame, ?_⟩
      rw [hkeep hwc hwrites]
      exact hwrites
  case waiting =>
    intro x new hx hwaits
    rcases hback x new hx with ⟨old, hold, -, -, -, ⟨rfl, -, hother⟩ | hlooks⟩
    · rw [hwriting, if_neg]
      · exact h.waiting x new hold hwaits
      · exact fun hsame => hother ⟨hsame, hwaits⟩
    · rw [hlooks] at hwaits
      cases hwaits
  case undone =>
    intro x new hx hd
    rcases hback x new hx with ⟨old, hold, ha, hd', -⟩
    rw [hqueue, ha]
    rcases h.undone x old hold (hd'.symm.trans hd) with hin | ⟨w, call', hw, hin⟩
    · exact Or.inl hin
    · have hwc : w ≠ c := by
        rintro rfl
        rw [hcall, Option.some.injEq] at hw
        subst hw
        rw [hphase] at hin
        cases hin
      rcases hforth w call' hw with ⟨new', hnew', -, -, hkeep⟩
      refine Or.inr ⟨w, new', hnew', ?_⟩
      rw [hkeep hwc]
      · exact hin
      · exact Phase.isWriting_of_mem_batch ((h.ok w call' hw).mem_batch_of_undone hin)
  case returned =>
    intro x new error hx hends
    rcases hback x new hx with ⟨old, hold, -, -, -, ⟨rfl, -, -⟩ | hlooks⟩
    · exact h.returned x new error hold hends
    · rw [hlooks] at hends
      cases hends

end Discipline

/-! ## Steps -/

namespace AuditState

variable (s : AuditState)

theorem get?_fail_restage (p : CallId) (error : String) (c : CallId) (phase : Phase)
    (x : CallId) : ((s.fail p error).restage c phase).calls.get? x =
      (s.calls.get? x).map (Call.goes c phase (some (p, error)) x) := by
  rw [get?_restage, fail, get?_modify]
  cases s.calls.get? x with
  | none => rw [Option.map_none, ite_self, Option.map_none, Option.map_none]
  | some old =>
    by_cases heq : x = p
    · simp [Call.goes, heq]
    · simp [Call.goes, heq, Ne.symm heq]

/-- What the first transaction of a writer does to the calls: its batch is written or failed,
or its entries go on to be written alone. -/
theorem insertBatch_cases (crypto : Crypto) (c : CallId) (batch : List CallId)
    (fault : Option String) (readings : List Reading) :
    (∃ tables, insertChainLinks crypto fault s.tables (s.readAs batch readings) = .ok tables ∧
      s.insertBatch crypto c batch fault readings =
        { s.restage c (.marking batch batch) with tables := tables }) ∨
    (∃ p error, batch = [p] ∧ s.insertBatch crypto c batch fault readings =
      (s.fail p error).restage c (.marking batch batch)) ∨
    s.insertBatch crypto c batch fault readings = s.restage c (.ofSingles batch batch) := by
  unfold insertBatch
  split
  · rename_i tables hok
    exact Or.inl ⟨tables, hok, rfl⟩
  · rename_i error _
    split
    · rename_i p _
      exact Or.inr (Or.inl ⟨p, error, rfl, rfl⟩)
    · exact Or.inr (Or.inr rfl)

/-- What a transaction for one entry does to the calls. -/
theorem insertSingle_cases (crypto : Crypto) (c : CallId) (batch : List CallId) (p : CallId)
    (rest : List CallId) (fault : Option String) (reading : Reading) :
    (∃ tables, insertChainLinks crypto fault s.tables (s.readAs [p] [reading]) = .ok tables ∧
      s.insertSingle crypto c batch p rest fault reading =
        { s.restage c (.ofSingles batch rest) with tables := tables }) ∨
    ∃ error, s.insertSingle crypto c batch p rest fault reading =
      (s.fail p error).restage c (.ofSingles batch rest) := by
  unfold insertSingle
  split
  · rename_i tables hok
    exact Or.inl ⟨tables, hok, rfl⟩
  · rename_i error _
    exact Or.inr ⟨error, rfl⟩

end AuditState

namespace Discipline

variable {s s' : AuditState}

/-- A transaction of the writer keeps the discipline: nothing is marked by it, and only an
entry that is still to be written fails. -/
theorem goes (h : Discipline s) {w : CallId} {call : Call} (phase : Phase)
    (failed : Option (CallId × String)) (hcall : s.calls.get? w = some call)
    (hwriting : call.phase.isWriting = true) (hgoes : phase.isWriting = true)
    (hsame : phase.batch = call.phase.batch) (hundone : phase.undone = call.phase.undone)
    (hok : phase.Ok) (hfailed : ∀ p ∈ failed.map Prod.fst, p ∈ call.phase.todo)
    (happenders : s'.appenders = s.appenders)
    (hcalls : ∀ x, s'.calls.get? x = (s.calls.get? x).map (Call.goes w phase failed x)) :
    Discipline s' := by
  refine h.writes call phase (Call.goes w phase failed) (w := w) ?_
  constructor
  case appenders => exact happenders
  case calls => exact hcalls
  case held => exact hcall
  case writing => exact hwriting
  case goes => exact hgoes
  case same => exact hsame
  case ok => exact hok
  case appender => exact fun _ _ => rfl
  case phases => exact fun _ _ => rfl
  case others => exact fun _ _ _ => rfl
  case batch =>
    intro x old hold hx
    rw [hsame] at hx
    rcases h.batched w call x hcall hx with ⟨-, old', hold', -, hdone⟩
    rw [hold, Option.some.injEq] at hold'
    subst hold'
    rw [hundone]
    exact hdone
  case settled =>
    intro x old hold hdone
    refine ⟨hdone, ?_⟩
    have hkept : failed.map Prod.fst ≠ some x := by
      intro hx
      have htodo := hfailed x (Option.mem_def.mpr hx)
      have hundone' := (h.ok w call hcall).undone_of_todo htodo
      have hbatch := (h.ok w call hcall).mem_batch_of_undone hundone'
      rcases h.batched w call x hcall hbatch with ⟨-, old', hold', -, hmark⟩
      rw [hold, Option.some.injEq] at hold'
      subst hold'
      rw [hmark.mpr hundone'] at hdone
      cases hdone
    simp only [Call.goes, hkept, if_false]

/-- The first transaction of a writer. -/
theorem insertBatch (h : Discipline s) (crypto : Crypto) {c : CallId} {call : Call}
    {batch : List CallId} (hcall : s.calls.get? c = some call) (hphase : call.phase = .whole batch)
    (fault : Option String) (readings : List Reading) :
    Discipline (s.insertBatch crypto c batch fault readings) := by
  have hnodup : batch.Nodup := by
    have hok := h.ok c call hcall
    rw [hphase] at hok
    exact hok
  have hself := List.suffix_refl batch
  rcases s.insertBatch_cases crypto c batch fault readings with
    ⟨tables, -, heq⟩ | ⟨p, error, hsingle, heq⟩ | heq
  · rw [heq]
    refine h.goes (.marking batch batch) none hcall ?_ rfl ?_ ?_
      ⟨hnodup, hself⟩ ?_ rfl (s.get?_restage c _)
    · rw [hphase]
      rfl
    · rw [hphase]
      rfl
    · rw [hphase]
      rfl
    · exact fun p hp => by cases hp
  · rw [heq]
    refine h.goes (.marking batch batch) (some (p, error)) hcall ?_ rfl ?_ ?_
      ⟨hnodup, hself⟩ ?_ rfl (s.get?_fail_restage p error c _)
    · rw [hphase]
      rfl
    · rw [hphase]
      rfl
    · rw [hphase]
      rfl
    · intro x hx
      rw [Option.map_some, Option.mem_some_iff] at hx
      subst hx
      rw [hphase, hsingle]
      exact List.mem_singleton_self p
  · rcases Phase.ofSingles_spec hnodup hself with ⟨hbatch, hundone, -, hwrites, hok⟩
    rw [heq]
    refine h.goes _ none hcall ?_ hwrites ?_ ?_ hok ?_ rfl (s.get?_restage c _)
    · rw [hphase]
      rfl
    · rw [hphase]
      exact hbatch
    · rw [hphase]
      exact hundone
    · exact fun p hp => by cases hp

/-- One entry of a failed batch. -/
theorem insertSingle (h : Discipline s) (crypto : Crypto) {c : CallId} {call : Call}
    {batch : List CallId} {p : CallId} {rest : List CallId}
    (hcall : s.calls.get? c = some call) (hphase : call.phase = .singles batch (p :: rest))
    (fault : Option String) (reading : Reading) :
    Discipline (s.insertSingle crypto c batch p rest fault reading) := by
  have hok : batch.Nodup ∧ (p :: rest) <:+ batch := by
    have hok := h.ok c call hcall
    rw [hphase] at hok
    exact ⟨hok.1, hok.2.1⟩
  rcases Phase.ofSingles_spec hok.1 ((List.suffix_cons p rest).trans hok.2) with
    ⟨hbatch, hundone, -, hwrites, hnext⟩
  have hwriting : call.phase.isWriting = true := by
    rw [hphase]
    rfl
  have hsame : (Phase.ofSingles batch rest).batch = call.phase.batch := by
    rw [hphase]
    exact hbatch
  have hsame' : (Phase.ofSingles batch rest).undone = call.phase.undone := by
    rw [hphase]
    exact hundone
  rcases s.insertSingle_cases crypto c batch p rest fault reading with
    ⟨tables, -, heq⟩ | ⟨error, heq⟩
  · rw [heq]
    refine h.goes _ none hcall hwriting hwrites hsame hsame' hnext ?_ rfl
      (s.get?_restage c _)
    exact fun p hp => by cases hp
  · rw [heq]
    refine h.goes _ (some (p, error)) hcall hwriting hwrites hsame hsame' hnext ?_ rfl
      (s.get?_fail_restage p error c _)
    intro x hx
    rw [Option.map_some, Option.mem_some_iff] at hx
    subst hx
    rw [hphase]
    exact List.mem_cons_self ..

/-- The calls after an entry is marked. -/
theorem get?_mark (c p : CallId) (phase : Phase) (x : CallId) :
    ((s.modify p fun call => { call with done := true }).restage c phase).calls.get? x =
      (s.calls.get? x).map fun old =>
        { old with
          done := if x = p then true else old.done
          phase := if x = c then phase else old.phase } := by
  rw [AuditState.get?_restage, AuditState.get?_modify]
  cases s.calls.get? x with
  | none => rw [Option.map_none, ite_self, Option.map_none, Option.map_none]
  | some old =>
    by_cases heq : x = p
    · simp [Call.goes, heq]
    · simp [Call.goes, heq]

/-- The writer marks an entry. -/
theorem mark (h : Discipline s) {c : CallId} {call : Call} {batch : List CallId} {p : CallId}
    {rest : List CallId} (hcall : s.calls.get? c = some call)
    (hphase : call.phase = .marking batch (p :: rest)) :
    Discipline ((s.modify p fun call => { call with done := true }).restage c
      (.marking batch rest)) := by
  have hok : batch.Nodup ∧ (p :: rest) <:+ batch := by
    have hok := h.ok c call hcall
    rw [hphase] at hok
    exact hok
  have hnodup : (p :: rest).Nodup := hok.1.sublist hok.2.sublist
  refine h.writes call (.marking batch rest) (fun x old => { old with
    done := if x = p then true else old.done
    phase := if x = c then .marking batch rest else old.phase }) (w := c) ?_
  constructor
  case appenders => rfl
  case calls => exact get?_mark c p _
  case held => exact hcall
  case writing =>
    rw [hphase]
    rfl
  case goes => rfl
  case same =>
    rw [hphase]
    rfl
  case ok => exact ⟨hok.1, (List.suffix_cons p rest).trans hok.2⟩
  case appender => exact fun _ _ => rfl
  case phases => exact fun _ _ => rfl
  case batch =>
    intro x old hold hx
    have hx' : x ∈ call.phase.batch := by
      rw [hphase]
      exact hx
    rcases h.batched c call x hcall hx' with ⟨-, old', hold', -, hdone⟩
    rw [hold, Option.some.injEq] at hold'
    subst hold'
    rw [hphase] at hdone
    change (if x = p then true else old.done) = false ↔ x ∈ rest
    split
    · rename_i heq
      subst heq
      exact iff_of_false Bool.true_eq_false.mp (List.nodup_cons.mp hnodup).1
    · rename_i hne
      rw [hdone]
      constructor
      · intro hin
        exact (List.mem_cons.mp hin).resolve_left hne
      · exact List.mem_cons_of_mem p
  case others =>
    intro x old hx
    have hne : x ≠ p := by
      rintro rfl
      exact hx (hok.2.subset (List.mem_cons_self ..))
    exact if_neg hne
  case settled =>
    intro x old _ hdone
    refine ⟨?_, rfl⟩
    change (if x = p then true else old.done) = true
    split
    · rfl
    · exact hdone

/-- What every step preserves. -/
theorem step (h : Discipline s) {crypto : Crypto} {a : AuditAction}
    (hstep : AuditState.step crypto s a = some s') : Discipline s' := by
  cases a with
  | append c b entry =>
    simp only [AuditState.step] at hstep
    split at hstep
    · rename_i hfresh
      cases hstep
      exact h.enqueue b entry hfresh.1
    · cases hstep
  | look c =>
    simp only [AuditState.step] at hstep
    split at hstep
    · rename_i call hcall
      split at hstep
      · rename_i hidle
        cases hstep
        exact h.look hcall hidle
      · cases hstep
    · cases hstep
  | insert c fault readings =>
    simp only [AuditState.step] at hstep
    split at hstep
    · rename_i batch hphase
      rcases Option.map_eq_some_iff.mp hphase with ⟨call, hcall, hwhole⟩
      split at hstep
      · cases hstep
        exact h.insertBatch crypto hcall hwhole fault readings
      · cases hstep
    · cases hstep
  | retry c fault reading =>
    simp only [AuditState.step] at hstep
    split at hstep
    · rename_i batch p rest hphase
      rcases Option.map_eq_some_iff.mp hphase with ⟨call, hcall, hsingles⟩
      cases hstep
      exact h.insertSingle crypto hcall hsingles fault reading
    · cases hstep
  | mark c =>
    simp only [AuditState.step] at hstep
    split at hstep
    · rename_i batch p rest hphase
      rcases Option.map_eq_some_iff.mp hphase with ⟨call, hcall, hmarking⟩
      cases hstep
      exact h.mark hcall hmarking
    · cases hstep
  | release c =>
    simp only [AuditState.step] at hstep
    split at hstep
    · rename_i call hcall
      split at hstep
      · rename_i batch hmarking
        cases hstep
        exact h.finish hcall hmarking
      · cases hstep
    · cases hstep

/-- While a call has not ended, some step of a call in progress can be taken. -/
theorem progress (h : Discipline s) (crypto : Crypto) {c : CallId} {call : Call}
    (hcall : s.calls.get? c = some call)
    (hopen : ∀ error, call.phase ≠ .returned error) :
    ∃ a, a.isAppend = false ∧ (AuditState.step crypto s a).isSome = true := by
  -- a writer can always go on
  have hwriter : ∀ w old, s.calls.get? w = some old → old.phase.isWriting = true →
      ∃ a, a.isAppend = false ∧ (AuditState.step crypto s a).isSome = true := by
    intro w old hw hwrites
    cases hphase : old.phase with
    | whole batch =>
      refine ⟨.insert w none (List.replicate batch.length default), rfl, ?_⟩
      simp only [AuditState.step, hw, Option.map_some, hphase, List.length_replicate, if_true,
        Option.isSome_some]
    | singles batch rest =>
      cases rest with
      | nil =>
        have hok := h.ok w old hw
        rw [hphase] at hok
        exact absurd rfl hok.2.2
      | cons p rest =>
        refine ⟨.retry w none default, rfl, ?_⟩
        simp only [AuditState.step, hw, Option.map_some, hphase, Option.isSome_some]
    | marking batch rest =>
      cases rest with
      | nil =>
        refine ⟨.release w, rfl, ?_⟩
        simp only [AuditState.step, hw, hphase, Option.isSome_some]
      | cons p rest =>
        refine ⟨.mark w, rfl, ?_⟩
        simp only [AuditState.step, hw, Option.map_some, hphase, Option.isSome_some]
    | looking =>
      rw [hphase] at hwrites
      cases hwrites
    | waiting =>
      rw [hphase] at hwrites
      cases hwrites
    | returned error =>
      rw [hphase] at hwrites
      cases hwrites
  cases hphase : call.phase with
  | looking =>
    refine ⟨.look c, rfl, ?_⟩
    simp only [AuditState.step, hcall, hphase, if_true, Option.isSome_some]
  | waiting =>
    rcases h.flagged _ (h.waiting c call hcall hphase) with ⟨w, old, hw, -, hwrites⟩
    exact hwriter w old hw hwrites
  | whole batch =>
    refine hwriter c call hcall ?_
    rw [hphase]
    rfl
  | singles batch rest =>
    refine hwriter c call hcall ?_
    rw [hphase]
    rfl
  | marking batch rest =>
    refine hwriter c call hcall ?_
    rw [hphase]
    rfl
  | returned error => exact absurd hphase (hopen error)

end Discipline

end QuantumSentinel.Audit
