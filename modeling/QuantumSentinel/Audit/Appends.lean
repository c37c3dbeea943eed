import QuantumSentinel.Audit.Endings

/-!
# The audit appender: every append is committed once or fails

An entry is settled once the transaction that carried it has ended: it is in the tables when
it has no error, and only then.  A call returns after its entry is settled, so what it reports
is what was committed for it.

Main results:

- Theorem `Outcomes.step`: what every step preserves.
- Theorem `group_commit`: the outcome of every call, and the chain it leaves.
-/

namespace QuantumSentinel.Audit

open Lib

/-! ## Settled entries -/

/-- The entry of a call is still to be written. -/
def AuditState.Pending (s : AuditState) (c : CallId) : Prop :=
  (∃ a, c ∈ (s.appenders a).queue) ∨
    ∃ w call, s.calls.get? w = some call ∧ c ∈ call.phase.todo

/-- The tables are those of an honest history, and the entries know whether they are in it. -/
structure Outcomes (crypto : Crypto) (s : AuditState) (written : List Written) : Prop where
  tables : s.tables.WrittenBy crypto written
  constrained : s.tables.Constrained
  logIds : ∀ c c' call call', s.calls.get? c = some call → s.calls.get? c' = some call' →
    call'.entry.logId = call.entry.logId → c' = c
  /-- an entry still to be written has no error, and is not in the tables -/
  pending : ∀ c call, s.calls.get? c = some call → s.Pending c →
    call.error = none ∧ ∀ w ∈ written, w.pending.logId ≠ call.entry.logId
  /-- another entry is in the tables, or has an error -/
  settled : ∀ c call, s.calls.get? c = some call → ¬s.Pending c →
    (call.error = none → ∃ w ∈ written, w.pending = call.entry) ∧
      (call.error ≠ none → ∀ w ∈ written, w.pending.logId ≠ call.entry.logId)
  /-- the tables hold entries of calls only -/
  owned : ∀ w ∈ written, ∃ c call, s.calls.get? c = some call ∧ w.pending = call.entry

/-- A step that settles some entries: all of them are written by it, or all of them fail. -/
structure Settles (s s' : AuditState) (new : List Written) (gone : CallId → Prop)
    (g : CallId → Call → Call) : Prop where
  calls : ∀ x, s'.calls.get? x = (s.calls.get? x).map (g x)
  entry : ∀ x old, (g x old).entry = old.entry
  pending : ∀ x, s'.Pending x ↔ s.Pending x ∧ ¬gone x
  leaves : ∀ x old, s.calls.get? x = some old → gone x → s.Pending x ∧
    ((g x old).error = none ∧ (∃ w ∈ new, w.pending = old.entry) ∨
      (g x old).error ≠ none ∧ new = [])
  kept : ∀ x old, s.calls.get? x = some old → ¬gone x → (g x old).error = old.error
  owner : ∀ w ∈ new, ∃ x old, gone x ∧ s.calls.get? x = some old ∧ w.pending = old.entry

namespace Outcomes

variable {crypto : Crypto} {s s' : AuditState} {written : List Written}

/-- Before the first call. -/
theorem init {users : List String} (hcalls : ∀ c, s.calls.get? c = none)
    (htables : s.tables = ⟨users, [], []⟩) : Outcomes crypto s [] := by
  have hno : ∀ c call, s.calls.get? c ≠ some call := by
    intro c call hc
    rw [hcalls] at hc
    cases hc
  constructor
  case tables =>
    rw [htables]
    exact ⟨rfl, rfl⟩
  case constrained =>
    rw [htables]
    exact ⟨⟨List.nodup_nil, List.nodup_nil, List.nodup_nil, List.nodup_nil, List.nodup_nil⟩,
      fun log hlog => absurd hlog List.not_mem_nil, fun link hlink => absurd hlink List.not_mem_nil⟩
  case logIds => exact fun c c' call call' hc => absurd hc (hno c call)
  case pending => exact fun c call hc => absurd hc (hno c call)
  case settled => exact fun c call hc => absurd hc (hno c call)
  case owned => exact fun w hw => absurd hw List.not_mem_nil

/-- A step that settles some entries keeps the account. -/
theorem settles (h : Outcomes crypto s written) (new : List Written) (gone : CallId → Prop)
    (g : CallId → Call → Call) (hstep : Settles s s' new gone g)
    (htables : s'.tables.WrittenBy crypto (written ++ new))
    (hconstrained : s'.tables.Constrained) : Outcomes crypto s' (written ++ new) := by
  have hback : ∀ x call, s'.calls.get? x = some call →
      ∃ old, s.calls.get? x = some old ∧ call = g x old := by
    intro x call hx
    rw [hstep.calls, Option.map_eq_some_iff] at hx
    rcases hx with ⟨old, hold, rfl⟩
    exact ⟨old, hold, rfl⟩
  -- an entry that is not written by the step is not among the new ones
  have hother : ∀ x old, s.calls.get? x = some old → ¬gone x →
      ∀ w ∈ new, w.pending.logId ≠ old.entry.logId := by
    intro x old hold hkept w hw hsame
    rcases hstep.owner w hw with ⟨x', old', hgone, hold', hentry⟩
    rw [hentry] at hsame
    have heq := h.logIds x x' old old' hold hold' hsame
    subst heq
    exact hkept hgone
  constructor
  case tables => exact htables
  case constrained => exact hconstrained
  case logIds =>
    intro c c' call call' hc hc' hsame
    rcases hback c call hc with ⟨old, hold, rfl⟩
    rcases hback c' call' hc' with ⟨old', hold', rfl⟩
    rw [hstep.entry, hstep.entry] at hsame
    exact h.logIds c c' old old' hold hold' hsame
  case pending =>
    intro c call hc hpending
    rcases hback c call hc with ⟨old, hold, rfl⟩
    rcases (hstep.pending c).mp hpending with ⟨hbefore, hkept⟩
    rcases h.pending c old hold hbefore with ⟨herror, hout⟩
    rw [hstep.entry]
    refine ⟨(hstep.kept c old hold hkept).trans herror, ?_⟩
    intro w hw
    rcases List.mem_append.mp hw with hw | hw
    · exact hout w hw
    · exact hother c old hold hkept w hw
  case settled =>
    intro c call hc hsettled
    rcases hback c call hc with ⟨old, hold, rfl⟩
    rw [hstep.pending] at hsettled
    rw [hstep.entry]
    by_cases hgone : gone c
    · rcases hstep.leaves c old hold hgone with ⟨hbefore, ⟨hnone, w, hw, hentry⟩ | ⟨hsome, hnew⟩⟩
      · exact ⟨fun _ => ⟨w, List.mem_append_right _ hw, hentry⟩, fun herror => absurd hnone herror⟩
      · refine ⟨fun herror => absurd herror hsome, ?_⟩
        intro _ w hw
        rw [hnew, List.append_nil] at hw
        exact (h.pending c old hold hbefore).2 w hw
    · have hbefore : ¬s.Pending c := fun hp => hsettled ⟨hp, hgone⟩
      rcases h.settled c old hold hbefore with ⟨hin, hout⟩
      rw [hstep.kept c old hold hgone]
      constructor
      · intro herror
        rcases hin herror with ⟨w, hw, hentry⟩
        exact ⟨w, List.mem_append_left _ hw, hentry⟩
      · intro herror w hw
        rcases List.mem_append.mp hw with hw | hw
        · exact hout herror w hw
        · exact hother c old hold hgone w hw
  case owned =>
    intro w hw
    have hold : ∃ c old, s.calls.get? c = some old ∧ w.pending = old.entry := by
      rcases List.mem_append.mp hw with hw | hw
      · exact h.owned w hw
      · rcases hstep.owner w hw with ⟨x, old, -, hold, hentry⟩
        exact ⟨x, old, hold, hentry⟩
    rcases hold with ⟨c, old, hold, hentry⟩
    refine ⟨c, g c old, ?_, hentry.trans (hstep.entry c old).symm⟩
    rw [hstep.calls, hold, Option.map_some]

/-- A step that settles nothing. -/
theorem keeps (h : Outcomes crypto s written) {g : CallId → Call → Call}
    (htables : s'.tables = s.tables)
    (hcalls : ∀ x, s'.calls.get? x = (s.calls.get? x).map (g x))
    (hentry : ∀ x old, (g x old).entry = old.entry)
    (herror : ∀ x old, (g x old).error = old.error)
    (hpending : ∀ x, s'.Pending x ↔ s.Pending x) : Outcomes crypto s' written := by
  have hstep : Settles s s' [] (fun _ => False) g := by
    constructor
    case calls => exact hcalls
    case entry => exact hentry
    case pending =>
      intro x
      rw [hpending, and_iff_left not_false]
    case leaves => exact fun x old _ hgone => hgone.elim
    case kept => exact fun x old _ _ => herror x old
    case owner => exact fun w hw => by cases hw
  have hnext := h.settles [] (fun _ => False) g hstep
  rw [List.append_nil, htables] at hnext
  exact hnext h.tables h.constrained

end Outcomes

/-! ## Who is pending -/

namespace AuditState

variable {s s' : AuditState}

/-- A thread goes on: its own entries to be written change, nobody else's. -/
theorem pending_goes (h : Discipline s) {w : CallId} {call : Call} {phase : Phase}
    {failed : Option (CallId × String)} {gone : CallId → Prop}
    (hcall : s.calls.get? w = some call) (happenders : s'.appenders = s.appenders)
    (hcalls : ∀ x, s'.calls.get? x = (s.calls.get? x).map (Call.goes w phase failed x))
    (htodo : ∀ x, x ∈ phase.todo ↔ x ∈ call.phase.todo ∧ ¬gone x)
    (hgone : ∀ x, gone x → x ∈ call.phase.todo) (x : CallId) :
    s'.Pending x ↔ s.Pending x ∧ ¬gone x := by
  -- an entry that is settled by the step is in no queue and in no other batch
  have hbatch : gone x → x ∈ call.phase.batch := by
    intro hx
    have hok := h.ok w call hcall
    exact hok.mem_batch_of_undone (hok.undone_of_todo (hgone x hx))
  have hforth : ∀ y old, s.calls.get? y = some old →
      s'.calls.get? y = some (Call.goes w phase failed y old) := by
    intro y old hy
    rw [hcalls, hy, Option.map_some]
  constructor
  · rintro (⟨a, hx⟩ | ⟨y, new, hy, hx⟩)
    · rw [happenders] at hx
      refine ⟨Or.inl ⟨a, hx⟩, ?_⟩
      intro hleft
      rcases h.batched w call x hcall (hbatch hleft) with ⟨hout, old, hold, hsame, -⟩
      rcases h.queued a x hx with ⟨old', hold', ha, -⟩
      rw [hold, Option.some.injEq] at hold'
      subst hold'
      rw [← hsame, ha] at hout
      exact hout hx
    · rw [hcalls, Option.map_eq_some_iff] at hy
      rcases hy with ⟨old, hold, rfl⟩
      by_cases hyw : y = w
      · subst hyw
        rw [hcall, Option.some.injEq] at hold
        subst hold
        have hphase : (Call.goes y phase failed y call).phase = phase := if_pos rfl
        rw [hphase] at hx
        rcases (htodo x).mp hx with ⟨hbefore, hkept⟩
        exact ⟨Or.inr ⟨y, call, hcall, hbefore⟩, hkept⟩
      · have hphase : (Call.goes w phase failed y old).phase = old.phase := if_neg hyw
        rw [hphase] at hx
        refine ⟨Or.inr ⟨y, old, hold, hx⟩, ?_⟩
        intro hleft
        have hok := h.ok y old hold
        have hin := hok.mem_batch_of_undone (hok.undone_of_todo hx)
        exact hyw (h.batch_disjoint hcall hold (hbatch hleft) hin)
  · rintro ⟨⟨a, hx⟩ | ⟨y, old, hy, hx⟩, hkept⟩
    · left
      rw [happenders]
      exact ⟨a, hx⟩
    · right
      refine ⟨y, _, hforth y old hy, ?_⟩
      by_cases hyw : y = w
      · subst hyw
        rw [hcall, Option.some.injEq] at hy
        subst hy
        have hphase : (Call.goes y phase failed y call).phase = phase := if_pos rfl
        rw [hphase, htodo]
        exact ⟨hx, hkept⟩
      · have hphase : (Call.goes w phase failed y old).phase = old.phase := if_neg hyw
        rw [hphase]
        exact hx

/-- The phases change without an entry to be written. -/
theorem pending_of_todo {g : CallId → Call → Call}
    (hqueue : ∀ a, (s'.appenders a).queue = (s.appenders a).queue)
    (hcalls : ∀ x, s'.calls.get? x = (s.calls.get? x).map (g x))
    (htodo : ∀ x old, s.calls.get? x = some old → (g x old).phase.todo = old.phase.todo)
    (x : CallId) : s'.Pending x ↔ s.Pending x := by
  refine or_congr (exists_congr fun a => by rw [hqueue]) ?_
  constructor
  · rintro ⟨w, new, hw, hx⟩
    rw [hcalls, Option.map_eq_some_iff] at hw
    rcases hw with ⟨old, hold, rfl⟩
    rw [htodo w old hold] at hx
    exact ⟨w, old, hold, hx⟩
  · rintro ⟨w, old, hold, hx⟩
    refine ⟨w, g w old, ?_, ?_⟩
    · rw [hcalls, hold, Option.map_some]
    · rw [htodo w old hold]
      exact hx

/-- A call that becomes the writer takes entries from the queue into its batch. -/
theorem pending_lead {c : CallId} {call : Call} {phase : Phase} {appender : Appender}
    (hcall : s.calls.get? c = some call) (hidle : call.phase = .looking)
    (hcalls : ∀ x, s'.calls.get? x = (s.calls.get? x).map (Call.goes c phase none x))
    (happenders : s'.appenders = Function.update s.appenders call.appender appender)
    (hqueue : phase.todo ++ appender.queue = (s.appenders call.appender).queue) (x : CallId) :
    s'.Pending x ↔ s.Pending x := by
  have hnew : s'.calls.get? c = some (Call.goes c phase none c call) := by
    rw [hcalls, hcall, Option.map_some]
  have hsplit : x ∈ (s.appenders call.appender).queue ↔ x ∈ phase.todo ∨ x ∈ appender.queue := by
    rw [← hqueue, List.mem_append]
  have hown : (Call.goes c phase none c call).phase = phase := if_pos rfl
  constructor
  · rintro (⟨b, hx⟩ | ⟨w, new, hw, hx⟩)
    · rw [happenders, Function.update_apply] at hx
      split at hx
      · exact Or.inl ⟨_, hsplit.mpr (Or.inr hx)⟩
      · exact Or.inl ⟨b, hx⟩
    · by_cases heq : w = c
      · subst heq
        rw [hnew, Option.some.injEq] at hw
        rw [← hw, hown] at hx
        exact Or.inl ⟨_, hsplit.mpr (Or.inl hx)⟩
      · rw [hcalls] at hw
        rcases Option.map_eq_some_iff.mp hw with ⟨old, hold, rfl⟩
        rw [Call.goes, if_neg heq] at hx
        exact Or.inr ⟨w, old, hold, hx⟩
  · rintro (⟨b, hx⟩ | ⟨w, old, hw, hx⟩)
    · by_cases hb : b = call.appender
      · subst hb
        rcases hsplit.mp hx with hbatch | hleft
        · exact Or.inr ⟨c, _, hnew, hown.symm ▸ hbatch⟩
        · refine Or.inl ⟨call.appender, ?_⟩
          rw [happenders, Function.update_self]
          exact hleft
      · refine Or.inl ⟨b, ?_⟩
        rw [happenders, Function.update_of_ne hb]
        exact hx
    · refine Or.inr ⟨w, Call.goes c phase none w old, by rw [hcalls, hw, Option.map_some], ?_⟩
      have hne : w ≠ c := by
        rintro rfl
        rw [hcall, Option.some.injEq] at hw
        rw [← hw, hidle] at hx
        cases hx
      have hphase : (Call.goes c phase none w old).phase = old.phase := if_neg hne
      exact hphase ▸ hx

/-- The entries the writer writes are those of its calls. -/
theorem mem_readAs (s : AuditState) {batch : List CallId} {readings : List Reading}
    {w : Written} (hw : w ∈ s.readAs batch readings) :
    ∃ c ∈ batch, ∃ call, s.calls.get? c = some call ∧ w.pending = call.entry := by
  have hentry : w.pending ∈ s.entries batch := by
    have hmem := hw
    rw [readAs, List.mem_iff_getElem] at hmem
    rcases hmem with ⟨i, hi, rfl⟩
    rw [List.getElem_zipWith]
    exact List.getElem_mem _
  rcases List.mem_filterMap.mp hentry with ⟨c, hc, hcall⟩
  rcases Option.map_eq_some_iff.mp hcall with ⟨call, hcall, hsame⟩
  exact ⟨c, hc, call, hcall, hsame.symm⟩

/-- Every entry of a batch is written with it. -/
theorem exists_readAs (s : AuditState) {batch : List CallId} {readings : List Reading}
    (hcalls : ∀ c ∈ batch, ∃ call, s.calls.get? c = some call)
    (hlength : readings.length = batch.length) {c : CallId} (hc : c ∈ batch) {call : Call}
    (hcall : s.calls.get? c = some call) :
    ∃ w ∈ s.readAs batch readings, w.pending = call.entry := by
  induction batch generalizing readings with
  | nil => cases hc
  | cons p rest ih =>
    cases readings with
    | nil => cases hlength
    | cons reading more =>
      rcases hcalls p (List.mem_cons_self ..) with ⟨first, hfirst⟩
      have hread : s.readAs (p :: rest) (reading :: more) =
          { reading with pending := first.entry } :: s.readAs rest more := by
        rw [readAs, entries, List.filterMap_cons, hfirst]
        rfl
      rw [hread]
      rcases List.mem_cons.mp hc with rfl | hc
      · rw [hfirst, Option.some.injEq] at hcall
        subst hcall
        exact ⟨_, List.mem_cons_self .., rfl⟩
      · rcases ih (fun x hx => hcalls x (List.mem_cons_of_mem p hx))
          (Nat.succ.inj hlength) hc with ⟨w, hw, hentry⟩
        exact ⟨w, List.mem_cons_of_mem _ hw, hentry⟩

end AuditState

/-! ## Steps -/

namespace Outcomes

variable {crypto : Crypto} {s s' : AuditState} {written : List Written}

/-- A new call enters the queue. -/
theorem enqueue (h : Outcomes crypto s written) {c : CallId} (a : AppenderId)
    {entry : PendingAudit} (hfresh : c ∉ s.calls.keys)
    (hid : ∀ call ∈ s.calls.values, call.entry.logId ≠ entry.logId) :
    Outcomes crypto (s.enqueue c a entry) written := by
  have hnone : s.calls.get? c = none := Dict.get?_eq_none_iff.mpr hfresh
  have hcalls : ∀ x, (s.enqueue c a entry).calls.get? x =
      if x = c then some ⟨a, entry, false, none, .looking⟩ else s.calls.get? x :=
    fun x => Dict.get?_set s.calls c x _
  have hforth : ∀ x call, s.calls.get? x = some call →
      x ≠ c ∧ (s.enqueue c a entry).calls.get? x = some call := by
    intro x call hx
    have hne : x ≠ c := by
      rintro rfl
      rw [hnone] at hx
      cases hx
    exact ⟨hne, by rw [hcalls, if_neg hne, hx]⟩
  have hids : ∀ x call, s.calls.get? x = some call → call.entry.logId ≠ entry.logId := by
    intro x call hx
    exact hid call (List.mem_map_of_mem (Dict.get?_eq_some_iff.mp hx))
  have hout : ∀ w ∈ written, w.pending.logId ≠ entry.logId := by
    intro w hw
    rcases h.owned w hw with ⟨x, call, hx, hentry⟩
    rw [hentry]
    exact hids x call hx
  have hqueue : ∀ b, ((s.enqueue c a entry).appenders b).queue =
      if b = a then (s.appenders a).queue ++ [c] else (s.appenders b).queue := by
    intro b
    simp only [AuditState.enqueue, Function.update_apply]
    split <;> rfl
  have hpending : ∀ x, x ≠ c → ((s.enqueue c a entry).Pending x ↔ s.Pending x) := by
    intro x hne
    constructor
    · rintro (⟨b, hx⟩ | ⟨w, call, hw, hx⟩)
      · rw [hqueue] at hx
        split at hx
        · rcases List.mem_append.mp hx with hx | hx
          · exact Or.inl ⟨a, hx⟩
          · exact absurd (List.mem_singleton.mp hx) hne
        · exact Or.inl ⟨b, hx⟩
      · rw [hcalls] at hw
        split at hw
        · cases hw
          cases hx
        · exact Or.inr ⟨w, call, hw, hx⟩
    · rintro (⟨b, hx⟩ | ⟨w, call, hw, hx⟩)
      · left
        refine ⟨b, ?_⟩
        rw [hqueue]
        split
        · rename_i heq
          subst heq
          exact List.mem_append_left _ hx
        · exact hx
      · exact Or.inr ⟨w, call, (hforth w call hw).2, hx⟩
  have hself : (s.enqueue c a entry).Pending c := by
    left
    refine ⟨a, ?_⟩
    rw [hqueue, if_pos rfl]
    exact List.mem_append_right _ (List.mem_singleton_self c)
  constructor
  case tables => exact h.tables
  case constrained => exact h.constrained
  case logIds =>
    intro x x' call call' hx hx' hsame
    rw [hcalls] at hx hx'
    split at hx
    · rename_i heq
      cases hx
      split at hx'
      · rename_i heq'
        exact heq'.trans heq.symm
      · exact absurd hsame (hids x' call' hx')
    · split at hx'
      · cases hx'
        exact absurd hsame.symm (hids x call hx)
      · exact h.logIds x x' call call' hx hx' hsame
  case pending =>
    intro x call hx hp
    rw [hcalls] at hx
    split at hx
    · cases hx
      exact ⟨rfl, hout⟩
    · rename_i hne
      exact h.pending x call hx ((hpending x hne).mp hp)
  case settled =>
    intro x call hx hp
    rw [hcalls] at hx
    split at hx
    · rename_i heq
      rw [heq] at hp
      exact absurd hself hp
    · rename_i hne
      exact h.settled x call hx fun hp' => hp ((hpending x hne).mpr hp')
  case owned =>
    intro w hw
    rcases h.owned w hw with ⟨x, call, hx, hentry⟩
    exact ⟨x, call, (hforth x call hx).2, hentry⟩

/-- A thread goes on without an entry to be written. -/
theorem restage (h : Outcomes crypto s written) {c : CallId} {call : Call} {phase : Phase}
    (hcall : s.calls.get? c = some call) (htodo : phase.todo = call.phase.todo) :
    Outcomes crypto (s.restage c phase) written := by
  refine h.keeps rfl (s.get?_restage c _) (fun _ _ => rfl) (fun _ _ => rfl) ?_
  refine AuditState.pending_of_todo (fun _ => rfl) (s.get?_restage c _) ?_
  intro x old hold
  by_cases hx : x = c
  · subst hx
    rw [hcall, Option.some.injEq] at hold
    subst hold
    rw [Call.goes, if_pos rfl]
    exact htodo
  · rw [Call.goes, if_neg hx]

/-- The section in the loop of `append`. -/
theorem look (h : Outcomes crypto s written) {c : CallId} {call : Call}
    (hcall : s.calls.get? c = some call) (hidle : call.phase = .looking) :
    Outcomes crypto (s.look c call) written := by
  have htodo : call.phase.todo = [] := by
    rw [hidle]
    rfl
  rcases s.look_cases c call with ⟨hdone, heq⟩ | ⟨hdone, hflag, heq⟩ | ⟨hdone, hflag, heq⟩
  · rw [heq]
    exact h.restage hcall htodo.symm
  · rw [heq]
    exact h.restage hcall htodo.symm
  · rw [heq]
    refine h.keeps rfl (s.get?_restage c _) (fun _ _ => rfl) (fun _ _ => rfl) ?_
    exact AuditState.pending_lead hcall hidle (s.get?_restage c _) rfl (List.take_append_drop ..)

/-- Some entries of a writer are written. -/
theorem written_out (h : Outcomes crypto s written) (hturns : Discipline s) {c : CallId}
    {call : Call} {phase : Phase} {tables : Tables} {gone : List CallId}
    {readings : List Reading} {fault : Option String} (hcall : s.calls.get? c = some call)
    (hinsert : insertChainLinks crypto fault s.tables (s.readAs gone readings) = .ok tables)
    (hlength : readings.length = gone.length)
    (hleft : ∀ x, x ∈ phase.todo ↔ x ∈ call.phase.todo ∧ x ∉ gone)
    (hgone : ∀ x ∈ gone, x ∈ call.phase.todo) :
    Outcomes crypto { s.restage c phase with tables := tables }
      (written ++ s.readAs gone readings) := by
  rcases insertChainLinks_eq_ok crypto hinsert with ⟨rfl, hconstrained⟩
  have hpending : ∀ x ∈ gone, s.Pending x := fun x hx => Or.inr ⟨c, call, hcall, hgone x hx⟩
  have hmembers : ∀ x ∈ gone, ∃ old, s.calls.get? x = some old := by
    intro x hx
    have hok := hturns.ok c call hcall
    rcases hturns.batched c call x hcall
      (hok.mem_batch_of_undone (hok.undone_of_todo (hgone x hx))) with ⟨-, old, hold, -⟩
    exact ⟨old, hold⟩
  refine h.settles _ (fun x => x ∈ gone) (Call.goes c phase none) ?_ (h.tables.insert crypto _)
    hconstrained
  constructor
  case calls => exact s.get?_restage c _
  case entry => exact fun _ _ => rfl
  case pending =>
    exact AuditState.pending_goes hturns hcall rfl (s.get?_restage c _) hleft hgone
  case leaves =>
    intro x old hold hx
    refine ⟨hpending x hx, Or.inl ⟨?_, s.exists_readAs hmembers hlength hx hold⟩⟩
    exact (h.pending x old hold (hpending x hx)).1
  case kept => exact fun _ _ _ _ => rfl
  case owner =>
    intro w hw
    rcases s.mem_readAs hw with ⟨x, hx, old, hold, hentry⟩
    exact ⟨x, old, hx, hold, hentry⟩

/-- An entry of a writer fails. -/
theorem failed (h : Outcomes crypto s written) (hturns : Discipline s) {c p : CallId}
    {call : Call} {phase : Phase} (error : String) (hcall : s.calls.get? c = some call)
    (hleft : ∀ x, x ∈ phase.todo ↔ x ∈ call.phase.todo ∧ ¬x = p) (hp : p ∈ call.phase.todo) :
    Outcomes crypto ((s.fail p error).restage c phase) (written ++ []) := by
  refine h.settles [] (fun x => x = p) (Call.goes c phase (some (p, error))) ?_
    ((List.append_nil written).symm ▸ h.tables) h.constrained
  constructor
  case calls => exact s.get?_fail_restage p error c _
  case entry => exact fun _ _ => rfl
  case pending =>
    refine AuditState.pending_goes hturns hcall rfl (s.get?_fail_restage p error c _) hleft ?_
    rintro x rfl
    exact hp
  case leaves =>
    rintro x old hold rfl
    refine ⟨Or.inr ⟨c, call, hcall, hp⟩, Or.inr ⟨?_, rfl⟩⟩
    simp only [Call.goes, Option.map_some, if_true, ne_eq, reduceCtorEq, not_false_eq_true]
  case kept =>
    intro x old _ hx
    simp only [Call.goes, Option.map_some, Option.some.injEq, Ne.symm hx, if_false]
  case owner => exact fun w hw => by cases hw

/-- The first transaction of a writer. -/
theorem insertBatch (h : Outcomes crypto s written) (hturns : Discipline s) {c : CallId}
    {call : Call} {batch : List CallId} (hcall : s.calls.get? c = some call)
    (hphase : call.phase = .whole batch) (fault : Option String) (readings : List Reading)
    (hlength : readings.length = batch.length) :
    ∃ new, Outcomes crypto (s.insertBatch crypto c batch fault readings) (written ++ new) := by
  have htodo : call.phase.todo = batch := by
    rw [hphase]
    rfl
  -- nothing is left behind a batch that is written, or fails
  have hnone : ∀ x, x ∈ (Phase.marking batch batch).todo ↔ x ∈ call.phase.todo ∧ x ∉ batch := by
    intro x
    rw [htodo, and_not_self_iff]
    exact iff_of_false List.not_mem_nil not_false
  rcases s.insertBatch_cases crypto c batch fault readings with
    ⟨tables, hinsert, heq⟩ | ⟨p, error, hsingle, heq⟩ | heq
  · rw [heq]
    exact ⟨_, h.written_out hturns hcall hinsert hlength hnone fun x hx => htodo.symm ▸ hx⟩
  · rw [heq]
    refine ⟨[], h.failed hturns error hcall (fun x => ?_) ?_⟩
    · rw [hnone, hsingle, List.mem_singleton]
    · rw [htodo, hsingle]
      exact List.mem_singleton_self p
  · -- the entries go on to be written alone
    have hnodup : batch.Nodup := by
      have hok := hturns.ok c call hcall
      rw [hphase] at hok
      exact hok
    rcases Phase.ofSingles_spec hnodup (List.suffix_refl batch) with ⟨-, -, hnext, -, -⟩
    refine ⟨[], ?_⟩
    rw [heq, List.append_nil]
    exact h.restage hcall (hnext.trans htodo.symm)

/-- One entry of a failed batch. -/
theorem insertSingle (h : Outcomes crypto s written) (hturns : Discipline s) {c : CallId}
    {call : Call} {batch : List CallId} {p : CallId} {rest : List CallId}
    (hcall : s.calls.get? c = some call) (hphase : call.phase = .singles batch (p :: rest))
    (fault : Option String) (reading : Reading) :
    ∃ new, Outcomes crypto (s.insertSingle crypto c batch p rest fault reading)
      (written ++ new) := by
  have hok : batch.Nodup ∧ (p :: rest) <:+ batch := by
    have hok := hturns.ok c call hcall
    rw [hphase] at hok
    exact ⟨hok.1, hok.2.1⟩
  have htodo : call.phase.todo = p :: rest := by
    rw [hphase]
    rfl
  have hp : p ∉ rest := (List.nodup_cons.mp (hok.1.sublist hok.2.sublist)).1
  have hnext : (Phase.ofSingles batch rest).todo = rest :=
    (Phase.ofSingles_spec hok.1 ((List.suffix_cons p rest).trans hok.2)).2.2.1
  -- what is left to be written, whatever becomes of the entry
  have hleft : ∀ x, x ∈ (Phase.ofSingles batch rest).todo ↔ x ∈ call.phase.todo ∧ ¬x = p := by
    intro x
    rw [hnext, htodo, List.mem_cons]
    constructor
    · intro hx
      refine ⟨Or.inr hx, ?_⟩
      rintro rfl
      exact hp hx
    · rintro ⟨rfl | hx, hne⟩
      · exact absurd rfl hne
      · exact hx
  have hgone : p ∈ call.phase.todo := htodo.symm ▸ List.mem_cons_self
  rcases s.insertSingle_cases crypto c batch p rest fault reading with
    ⟨tables, hinsert, heq⟩ | ⟨error, heq⟩
  · rw [heq]
    refine ⟨_, h.written_out hturns hcall hinsert rfl (fun x => ?_) fun x hx => ?_⟩
    · rw [hleft, List.mem_singleton]
    · rw [List.mem_singleton.mp hx]
      exact hgone
  · rw [heq]
    exact ⟨[], h.failed hturns error hcall hleft hgone⟩

/-- The writer marks an entry. -/
theorem mark (h : Outcomes crypto s written) {c : CallId} {call : Call} {batch : List CallId}
    {p : CallId} {rest : List CallId} (hcall : s.calls.get? c = some call)
    (hphase : call.phase = .marking batch (p :: rest)) :
    Outcomes crypto ((s.modify p fun call => { call with done := true }).restage c
      (.marking batch rest)) written := by
  refine h.keeps rfl (Discipline.get?_mark c p _) (fun _ _ => rfl) (fun _ _ => rfl) ?_
  refine AuditState.pending_of_todo (fun _ => rfl) (Discipline.get?_mark c p _) ?_
  intro x old hold
  by_cases hx : x = c
  · subst hx
    rw [hcall, Option.some.injEq] at hold
    subst hold
    rw [if_pos rfl, hphase]
    rfl
  · rw [if_neg hx]

/-- A writer gives up its turn. -/
theorem finish (h : Outcomes crypto s written) (hturns : Discipline s) {c : CallId}
    {call : Call} {batch : List CallId} (hcall : s.calls.get? c = some call)
    (hphase : call.phase = .marking batch []) :
    Outcomes crypto (s.finish c batch call.appender) written := by
  have hget := hturns.get?_finish hcall hphase
  have hqueue : ∀ b, ((s.finish c batch call.appender).appenders b).queue =
      (s.appenders b).queue := by
    intro b
    simp only [AuditState.finish, Function.update_apply]
    split
    · rename_i heq
      rw [heq]
    · rfl
  refine h.keeps rfl hget ?_ ?_ (AuditState.pending_of_todo hqueue hget ?_)
  · intro x old
    split <;> rfl
  · intro x old
    split <;> rfl
  · intro x old hold
    split
    · rename_i hlooks
      rcases hlooks with rfl | ⟨-, hwaits⟩
      · rw [hcall, Option.some.injEq] at hold
        subst hold
        rw [hphase]
        rfl
      · rw [hwaits]
        rfl
    · rfl

/-- What every step preserves. -/
theorem step (h : Outcomes crypto s written) (hturns : Discipline s) {a : AuditAction}
    (hstep : AuditState.step crypto s a = some s') :
    ∃ new, Outcomes crypto s' (written ++ new) := by
  have hsame : ∀ {t}, Outcomes crypto t written → ∃ new, Outcomes crypto t (written ++ new) := by
    intro t ht
    exact ⟨[], by rwa [List.append_nil]⟩
  cases a with
  | append c b entry =>
    simp only [AuditState.step] at hstep
    split at hstep
    · rename_i hfresh
      cases hstep
      exact hsame (h.enqueue b hfresh.1 hfresh.2)
    · cases hstep
  | look c =>
    simp only [AuditState.step] at hstep
    split at hstep
    · rename_i call hcall
      split at hstep
      · rename_i hidle
        cases hstep
        exact hsame (h.look hcall hidle)
      · cases hstep
    · cases hstep
  | insert c fault readings =>
    simp only [AuditState.step] at hstep
    split at hstep
    · rename_i batch hphase
      rcases Option.map_eq_some_iff.mp hphase with ⟨call, hcall, hwhole⟩
      split at hstep
      · rename_i hlength
        cases hstep
        exact h.insertBatch hturns hcall hwhole fault readings hlength
      · cases hstep
    · cases hstep
  | retry c fault reading =>
    simp only [AuditState.step] at hstep
    split at hstep
    · rename_i batch p rest hphase
      rcases Option.map_eq_some_iff.mp hphase with ⟨call, hcall, hsingles⟩
      cases hstep
      exact h.insertSingle hturns hcall hsingles fault reading
    · cases hstep
  | mark c =>
    simp only [AuditState.step] at hstep
    split at hstep
    · rename_i batch p rest hphase
      rcases Option.map_eq_some_iff.mp hphase with ⟨call, hcall, hmarking⟩
      cases hstep
      exact hsame (h.mark hcall hmarking)
    · cases hstep
  | release c =>
    simp only [AuditState.step] at hstep
    split at hstep
    · rename_i call hcall
      split at hstep
      · rename_i batch hmarking
        cases hstep
        exact hsame (h.finish hturns hcall hmarking)
      · cases hstep
    · cases hstep

end Outcomes

/-! ## What callers see -/

/-- The row of an event holds what its entry says. -/
structure AuditLog.Records (log : AuditLog) (entry : PendingAudit) : Prop where
  id : log.id = entry.logId
  userId : log.userId = entry.userId
  action : log.action = entry.action
  resourceType : log.resourceType = entry.resourceType
  resourceId : log.resourceId = entry.resourceId
  metadata : log.metadataJson = entry.metadata
  signature : log.pqcSignature = some entry.signature
  signingKeyId : log.signingKeyId = entry.signingKeyId

/-- Exactly one event and one link are committed for an entry. -/
structure Committed (t : Tables) (entry : PendingAudit) : Prop where
  event : ∃ log, t.logs.filter (fun log => log.id = entry.logId) = [log] ∧ log.Records entry
  link : ∃ link, t.links.filter (fun link => link.auditLogId = entry.logId) = [link]

/-- Nothing is committed for an entry. -/
structure Uncommitted (t : Tables) (entry : PendingAudit) : Prop where
  event : t.logs.filter (fun log => log.id = entry.logId) = []
  link : t.links.filter (fun link => link.auditLogId = entry.logId) = []

/-- The links are numbered from one without gaps, each with the hash of its predecessor. -/
structure Tables.Chained (t : Tables) : Prop where
  sequence : t.links.map AuditChainLink.sequence =
    (List.range t.links.length).map fun i : ℕ => (i : ℤ) + 1
  previousHash : t.links.map AuditChainLink.previousHash =
    (genesisHash :: t.links.map AuditChainLink.entryHash).take t.links.length

/-- What the appender guarantees. -/
structure GroupCommit (crypto : Crypto) (users : List String) (s : AuditState) : Prop where
  /-- a call that returned has its entry committed once, one that raised has nothing -/
  ended : ∀ c call error, s.calls.get? c = some call → call.phase = .returned error →
    error = none ∧ Committed s.tables call.entry ∨
      error ≠ none ∧ Uncommitted s.tables call.entry
  /-- an event is the one of a call, and so is a link -/
  event : ∀ log ∈ s.tables.logs, ∃ c call, s.calls.get? c = some call ∧ log.Records call.entry
  link : ∀ link ∈ s.tables.links, ∃ c call, s.calls.get? c = some call ∧
    link.auditLogId = call.entry.logId
  chained : s.tables.Chained
  /-- while a call has not ended, some call can go on, and all of them end when no new ones
  come -/
  progress : ∀ c call, s.calls.get? c = some call →
    (∀ error, call.phase ≠ .returned error) →
      ∃ a, a.isAppend = false ∧ (AuditState.step crypto s a).isSome = true
  bounded : ∃ n, ∀ as s', (auditMachine crypto users).Run Machine.anyAction s as s' →
    (∀ a ∈ as, a.isAppend = false) → as.length ≤ n

/-- One row has a unique value. -/
theorem filter_eq_singleton {α β : Type} [DecidableEq β] {f : α → β} {l : List α} {a : α}
    (hnodup : (l.map f).Nodup) (ha : a ∈ l) : l.filter (fun x => f x = f a) = [a] := by
  induction l with
  | nil => cases ha
  | cons b rest ih =>
    rw [List.map_cons, List.nodup_cons] at hnodup
    rcases List.mem_cons.mp ha with rfl | hrest
    · have hnone : rest.filter (fun x => f x = f a) = [] := by
        rw [List.filter_eq_nil_iff]
        intro x hx hsame
        have hx' := List.mem_map_of_mem (f := f) hx
        rw [of_decide_eq_true hsame] at hx'
        exact hnodup.1 hx'
      rw [List.filter_cons, if_pos (decide_eq_true rfl), hnone]
    · have hne : f b ≠ f a := by
        intro hsame
        have ha' := List.mem_map_of_mem (f := f) hrest
        rw [← hsame] at ha'
        exact hnodup.1 ha'
      rw [List.filter_cons, if_neg (fun h => hne (of_decide_eq_true h)), ih hnodup.2 hrest]

section Rows

variable {crypto : Crypto} {t : Tables} {written : List Written}

theorem Written.records (w : Written) : w.log.Records w.pending :=
  ⟨rfl, rfl, rfl, rfl, rfl, rfl, rfl, rfl⟩

/-- What is written is committed once. -/
theorem Tables.WrittenBy.committed (h : t.WrittenBy crypto written) (hunique : t.Unique)
    {w : Written} (hw : w ∈ written) : Committed t w.pending := by
  constructor
  case event =>
    have hlog : w.log ∈ t.logs := by
      rw [h.logs]
      exact List.mem_map_of_mem hw
    exact ⟨w.log, filter_eq_singleton hunique.logId hlog, w.records⟩
  case link =>
    have hid : w.pending.logId ∈ t.links.map AuditChainLink.auditLogId := by
      rw [h.links, map_auditLogId_chainLinks]
      exact List.mem_map_of_mem hw
    rcases List.mem_map.mp hid with ⟨link, hlink, hsame⟩
    have hone := filter_eq_singleton hunique.auditLogId hlink
    rw [hsame] at hone
    exact ⟨link, hone⟩

/-- What is not written is not committed. -/
theorem Tables.WrittenBy.uncommitted (h : t.WrittenBy crypto written) {entry : PendingAudit}
    (hout : ∀ w ∈ written, w.pending.logId ≠ entry.logId) : Uncommitted t entry := by
  constructor
  case event =>
    rw [List.filter_eq_nil_iff, h.logs]
    intro log hlog hsame
    rcases List.mem_map.mp hlog with ⟨w, hw, rfl⟩
    exact hout w hw (of_decide_eq_true hsame)
  case link =>
    rw [List.filter_eq_nil_iff]
    intro link hlink hsame
    have hid := List.mem_map_of_mem (f := AuditChainLink.auditLogId) hlink
    rw [h.links, map_auditLogId_chainLinks, List.mem_map] at hid
    rcases hid with ⟨w, hw, hw'⟩
    exact hout w hw (hw'.trans (of_decide_eq_true hsame))

/-- An honest history is a chain. -/
theorem Tables.WrittenBy.chained (h : t.WrittenBy crypto written) : t.Chained := by
  have hlength : t.links.length = written.length := by
    rw [h.links, length_chainLinks]
  constructor
  case sequence =>
    rw [hlength, h.links, map_sequence_chainLinks]
    apply List.map_congr_left
    intro i _
    omega
  case previousHash =>
    rw [hlength, h.links]
    exact map_previousHash_chainLinks crypto 0 genesisHash written

end Rows

/-- The outcome of every call is what was committed for it, in one chain. -/
theorem group_commit (crypto : Crypto) (users : List String) {s : AuditState}
    (h : (auditMachine crypto users).Reachable s) : GroupCommit crypto users s := by
  have hinv : Discipline s ∧ ∃ written, Outcomes crypto s written := by
    refine h.invariant (I := fun s => Discipline s ∧ ∃ written, Outcomes crypto s written) ?_ ?_
    · have hnone : ∀ c, (auditMachine crypto users).init.calls.get? c = none := Dict.get?_empty
      exact ⟨Discipline.init hnone fun _ => rfl, [], Outcomes.init hnone rfl⟩
    · rintro s a s' hstep ⟨hturns, written, hout⟩
      rcases hout.step hturns hstep with ⟨new, hnext⟩
      exact ⟨hturns.step hstep, _, hnext⟩
  rcases hinv with ⟨hturns, written, hout⟩
  -- an entry that is done is settled
  have hsettled : ∀ c call, s.calls.get? c = some call → call.done = true → ¬s.Pending c := by
    rintro c call hcall hdone (⟨a, hqueue⟩ | ⟨w, old, hw, htodo⟩)
    · rcases hturns.queued a c hqueue with ⟨call', hcall', -, hundone⟩
      rw [hcall, Option.some.injEq] at hcall'
      subst hcall'
      rw [hdone] at hundone
      cases hundone
    · have hok := hturns.ok w old hw
      have hundone := hok.undone_of_todo htodo
      rcases hturns.batched w old c hw (hok.mem_batch_of_undone hundone) with
        ⟨-, call', hcall', -, hmark⟩
      rw [hcall, Option.some.injEq] at hcall'
      subst hcall'
      rw [hmark.mpr hundone] at hdone
      cases hdone
  constructor
  case ended =>
    intro c call error hcall hphase
    rcases hturns.returned c call error hcall hphase with ⟨hdone, rfl⟩
    rcases hout.settled c call hcall (hsettled c call hcall hdone) with ⟨hin, hnotin⟩
    by_cases herror : call.error = none
    · rcases hin herror with ⟨w, hw, hentry⟩
      exact Or.inl ⟨herror, hentry ▸ hout.tables.committed hout.constrained.toUnique hw⟩
    · exact Or.inr ⟨herror, hout.tables.uncommitted (hnotin herror)⟩
  case event =>
    intro log hlog
    rw [hout.tables.logs, List.mem_map] at hlog
    rcases hlog with ⟨w, hw, rfl⟩
    rcases hout.owned w hw with ⟨c, call, hcall, hentry⟩
    exact ⟨c, call, hcall, hentry ▸ w.records⟩
  case link =>
    intro link hlink
    have hid := List.mem_map_of_mem (f := AuditChainLink.auditLogId) hlink
    rw [hout.tables.links, map_auditLogId_chainLinks, List.mem_map] at hid
    rcases hid with ⟨w, hw, hsame⟩
    rcases hout.owned w hw with ⟨c, call, hcall, hentry⟩
    exact ⟨c, call, hcall, hentry ▸ hsame.symm⟩
  case chained => exact hout.tables.chained
  case progress => exact fun c call hcall hopen => hturns.progress crypto hcall hopen
  case bounded =>
    refine ⟨s.rank, ?_⟩
    intro as s' hrun has
    exact hturns.length_le_rank hrun has

/-! ## A batch that fails for one of two callers -/

/-- The hash, and signatures that hold the message. -/
def sampleCrypto : Crypto where
  sha256 := sampleSha256
  dsaSign := fun sk message => sk ++ message
  dsaVerify := fun pk message signature => .ok (signature = pk ++ message)

/-- A login without a user. -/
def sampleEntry (logId : LogId) : PendingAudit :=
  pendingAudit sampleCrypto sampleServer logId none "login" none none .null

/-- Two callers share a batch; it fails, and so does the second entry alone. -/
theorem group_commit_single_retries : ∃ (s : AuditState) (call call' : Call),
    s.calls.get? 2 = some call ∧ s.calls.get? 1 = some call' ∧ s.tables.links.length = 1 ∧
      Committed s.tables call'.entry ∧ Uncommitted s.tables call.entry := by
  have hrun : ((auditMachine sampleCrypto []).exec (auditMachine sampleCrypto []).init
      [.append 1 0 (sampleEntry "e1"), .append 2 0 (sampleEntry "e2"), .look 1, .look 2,
        .insert 1 (some "OperationalError") [sampleReading "l1", sampleReading "l2"],
        .retry 1 none (sampleReading "l1"),
        .retry 1 (some "OperationalError") (sampleReading "l2"), .mark 1, .mark 1, .release 1,
        .look 2, .look 1]).map (fun s => ((s.calls.get? 1).map Call.phase,
          (s.calls.get? 2).map Call.phase, s.tables.links.length)) =
      some (some (.returned none), some (.returned (some "OperationalError")), 1) := by
    decide +kernel
  rcases Option.map_eq_some_iff.mp hrun with ⟨s, hexec, hs⟩
  rw [Prod.mk.injEq, Prod.mk.injEq] at hs
  rcases hs with ⟨hfirst, hsecond, hlength⟩
  rcases Option.map_eq_some_iff.mp hfirst with ⟨call', hcall', hphase'⟩
  rcases Option.map_eq_some_iff.mp hsecond with ⟨call, hcall, hphase⟩
  have h := group_commit sampleCrypto [] (Machine.reachable_of_exec hexec)
  refine ⟨s, call, call', hcall, hcall', hlength, ?_, ?_⟩
  · rcases h.ended 1 call' none hcall' hphase' with ⟨-, hcommitted⟩ | ⟨herror, -⟩
    · exact hcommitted
    · exact absurd rfl herror
  · rcases h.ended 2 call _ hcall hphase with ⟨herror, -⟩ | ⟨-, huncommitted⟩
    · cases herror
    · exact huncommitted

end QuantumSentinel.Audit
