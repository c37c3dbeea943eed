import QuantumSentinel.Lib.Digests
import QuantumSentinel.Orders.Idempotency

/-!
# Orders: one trade for each idempotency key

A call that has reserved its key is the only one that holds the row, and the row has no
response until that call stores it.  A trade is created while the row is held, and the row
stays from then on, so no other call of the key comes as far.

Main results:

- Theorem `Sound.step`: what every statement of every call preserves.
- Theorem `order_idempotent`: one trade and one response for each key, and none for a
  request with another payload.
-/

namespace QuantumSentinel.Orders

open Lib

/-! ## The invariant -/

/-- The row of a slot was inserted for a payload. -/
def OrderState.HeldFor (cfg : OrderConfig) (s : OrderState) (slot : Slot) (payload : Json)
    (record : Record) : Prop :=
  s.records.get? slot = some record ∧ record.requestHash = cfg.requestHash payload

/-- What the rows and the calls in progress guarantee. -/
structure Sound (cfg : OrderConfig) (s : OrderState) : Prop where
  /-- the row of a call that holds its key is there, without a response -/
  held : ∀ c request phase slot, s.calls.get? c = some ⟨request, phase⟩ →
    request.slot = some slot → phase.holds = true →
      ∃ record, s.HeldFor cfg slot request.payload record ∧ record.responseJson = none
  /-- one call holds a key -/
  holder : ∀ c c' request request' phase phase' slot,
    s.calls.get? c = some ⟨request, phase⟩ → s.calls.get? c' = some ⟨request', phase'⟩ →
      request.slot = some slot → request'.slot = some slot → phase.holds = true →
        phase'.holds = true → c' = c
  /-- the row found by `complete_idempotency` is still there -/
  storing : ∀ c request id response slot,
    s.calls.get? c = some ⟨request, .storing id response⟩ → request.slot = some slot →
      ∃ record, s.records.get? slot = some record ∧ record.id = id
  /-- a response that was returned is the stored one -/
  returned : ∀ c request response slot, s.calls.get? c = some ⟨request, .returned response⟩ →
    request.slot = some slot →
      ∃ record, s.HeldFor cfg slot request.payload record ∧ record.responseJson = some response
  /-- a trade was created by a call that has come so far -/
  placed : ∀ o c, s.trades.get? o = some c →
    ∃ request phase, s.calls.get? c = some ⟨request, phase⟩ ∧ phase.placed = true
  /-- the row of a trade stays, and no other call holds it -/
  traded : ∀ o c request phase slot, s.trades.get? o = some c →
    s.calls.get? c = some ⟨request, phase⟩ → request.slot = some slot →
      (∃ record, s.HeldFor cfg slot request.payload record) ∧
        ∀ c' request' phase', s.calls.get? c' = some ⟨request', phase'⟩ →
          request'.slot = some slot → phase'.holds = true → c' = c
  /-- a key has one trade -/
  once : ∀ o o' c c' request request' phase phase' slot, s.trades.get? o = some c →
    s.trades.get? o' = some c' → s.calls.get? c = some ⟨request, phase⟩ →
      s.calls.get? c' = some ⟨request', phase'⟩ → request.slot = some slot →
        request'.slot = some slot → o' = o

/-- What a call may become while the tables stay as they are. -/
structure MayBecome (cfg : OrderConfig) (s : OrderState) (call : ℕ) (request : Request)
    (phase : Phase) : Prop where
  same : ∀ old, s.calls.get? call = some old → old.request = request
  holds : ∀ slot, request.slot = some slot → phase.holds = true →
    ∃ old, s.calls.get? call = some ⟨request, old⟩ ∧ old.holds = true
  placed : ∀ old, s.calls.get? call = some ⟨request, old⟩ → old.placed = true →
    phase.placed = true
  storing : ∀ id response slot, phase = .storing id response → request.slot = some slot →
    ∃ record, s.records.get? slot = some record ∧ record.id = id
  returned : ∀ response slot, phase = .returned response → request.slot = some slot →
    ∃ record, s.HeldFor cfg slot request.payload record ∧ record.responseJson = some response

/-- What a call may become, and the rows with it. -/
structure MayChange (cfg : OrderConfig) (s : OrderState) (call : ℕ) (request : Request)
    (phase : Phase) (records : Dict Slot Record) : Prop where
  same : ∀ old, s.calls.get? call = some old → old.request = request
  /-- a call that holds its key does so alone, with a row that has no response -/
  holds : ∀ slot, request.slot = some slot → phase.holds = true →
    (∃ record, (records.get? slot = some record ∧
      record.requestHash = cfg.requestHash request.payload) ∧ record.responseJson = none) ∧
    ∀ c r p, s.calls.get? c = some ⟨r, p⟩ → r.slot = some slot →
      (p.holds = true ∨ ∃ o, s.trades.get? o = some c) → c = call
  placed : ∀ old, s.calls.get? call = some ⟨request, old⟩ → old.placed = true →
    phase.placed = true
  storing : ∀ id response slot, phase = .storing id response → request.slot = some slot →
    ∃ record, records.get? slot = some record ∧ record.id = id
  returned : ∀ response slot, phase = .returned response → request.slot = some slot →
    ∃ record, (records.get? slot = some record ∧
      record.requestHash = cfg.requestHash request.payload) ∧ record.responseJson = some response
  /-- rows with a response stay, as do those that another call holds -/
  kept : ∀ slot record, s.records.get? slot = some record →
    (record.responseJson = none → ∃ c r p, c ≠ call ∧ s.calls.get? c = some ⟨r, p⟩ ∧
      r.slot = some slot ∧ p.holds = true) → records.get? slot = some record
  /-- the row of a trade stays -/
  traded : ∀ o c r p slot record, s.trades.get? o = some c → s.calls.get? c = some ⟨r, p⟩ →
    r.slot = some slot → s.HeldFor cfg slot r.payload record →
      ∃ record', records.get? slot = some record' ∧
        record'.requestHash = cfg.requestHash r.payload

namespace Sound

variable {cfg : OrderConfig} {s : OrderState} {call : ℕ} {request : Request} {phase : Phase}

/-- A call that goes on keeps the guarantees, if the rows change with it as they may. -/
theorem next (h : Sound cfg s) {records : Dict Slot Record}
    (hnext : MayChange cfg s call request phase records) :
    Sound cfg { s.stage call request phase with records := records } := by
  have hcalls : ∀ {c r p}, (s.stage call request phase).calls.get? c = some ⟨r, p⟩ →
      (c = call ∧ r = request ∧ p = phase) ∨ (c ≠ call ∧ s.calls.get? c = some ⟨r, p⟩) := by
    intro c r p hc
    simp only [OrderState.stage, Dict.get?_set] at hc
    split at hc
    · rename_i heq
      cases hc
      exact Or.inl ⟨heq, rfl, rfl⟩
    · exact Or.inr ⟨‹_›, hc⟩
  -- a call with a trade was there before
  have htrade : ∀ {o c r p}, s.trades.get? o = some c →
      (s.stage call request phase).calls.get? c = some ⟨r, p⟩ →
        ∃ old, s.calls.get? c = some ⟨r, old⟩ := by
    intro o c r p ho hc
    rcases hcalls hc with ⟨rfl, rfl, rfl⟩ | ⟨-, hc⟩
    · rcases h.placed o c ho with ⟨r', old, hold, -⟩
      have hsame : r' = r := hnext.same _ hold
      exact ⟨old, hsame ▸ hold⟩
    · exact ⟨p, hc⟩
  constructor
  case held =>
    intro c r p slot hc hslot hp
    rcases hcalls hc with ⟨rfl, rfl, rfl⟩ | ⟨hne, hc⟩
    · exact (hnext.holds slot hslot hp).1
    · rcases h.held c r p slot hc hslot hp with ⟨record, ⟨hget, hhash⟩, hnone⟩
      have hkept := hnext.kept slot record hget fun _ => ⟨c, r, p, hne, hc, hslot, hp⟩
      exact ⟨record, ⟨hkept, hhash⟩, hnone⟩
  case holder =>
    intro c c' r r' p p' slot hc hc' hslot hslot' hp hp'
    rcases hcalls hc with ⟨rfl, rfl, rfl⟩ | ⟨-, hold⟩
    · rcases hcalls hc' with ⟨rfl, -⟩ | ⟨-, hold'⟩
      · rfl
      · exact (hnext.holds slot hslot hp).2 c' r' p' hold' hslot' (Or.inl hp')
    · rcases hcalls hc' with ⟨rfl, rfl, rfl⟩ | ⟨-, hold'⟩
      · exact ((hnext.holds slot hslot' hp').2 c r p hold hslot (Or.inl hp)).symm
      · exact h.holder c c' r r' p p' slot hold hold' hslot hslot' hp hp'
  case storing =>
    intro c r id response slot hc hslot
    rcases hcalls hc with ⟨rfl, rfl, hphase⟩ | ⟨hne, hc⟩
    · exact hnext.storing id response slot hphase.symm hslot
    · rcases h.storing c r id response slot hc hslot with ⟨record, hget, hid⟩
      have hkept := hnext.kept slot record hget fun _ => ⟨c, r, _, hne, hc, hslot, rfl⟩
      exact ⟨record, hkept, hid⟩
  case returned =>
    intro c r response slot hc hslot
    rcases hcalls hc with ⟨rfl, rfl, hphase⟩ | ⟨-, hc⟩
    · exact hnext.returned response slot hphase.symm hslot
    · rcases h.returned c r response slot hc hslot with ⟨record, ⟨hget, hhash⟩, hresponse⟩
      have hkept := hnext.kept slot record hget fun hnone => by
        rw [hresponse] at hnone
        cases hnone
      exact ⟨record, ⟨hkept, hhash⟩, hresponse⟩
  case placed =>
    intro o c ho
    rcases h.placed o c ho with ⟨r, p, hc, hp⟩
    simp only [OrderState.stage, Dict.get?_set]
    split
    · rename_i heq
      rw [heq] at hc
      have hsame : r = request := hnext.same _ hc
      exact ⟨request, phase, rfl, hnext.placed p (hsame ▸ hc) hp⟩
    · exact ⟨r, p, hc, hp⟩
  case traded =>
    intro o c r p slot ho hc hslot
    rcases htrade ho hc with ⟨old, hcall⟩
    rcases h.traded o c r old slot ho hcall hslot with ⟨⟨record, hheld⟩, halone⟩
    refine ⟨hnext.traded o c r old slot record ho hcall hslot hheld, fun c' r' p' hc' hr' hp' => ?_⟩
    rcases hcalls hc' with ⟨rfl, rfl, rfl⟩ | ⟨-, hc'⟩
    · exact ((hnext.holds slot hr' hp').2 c r old hcall hslot (Or.inr ⟨o, ho⟩)).symm
    · exact halone c' r' p' hc' hr' hp'
  case once =>
    intro o o' c c' r r' p p' slot ho ho' hc hc' hslot hslot'
    rcases htrade ho hc with ⟨old, hcall⟩
    rcases htrade ho' hc' with ⟨old', hcall'⟩
    exact h.once o o' c c' r r' old old' slot ho ho' hcall hcall' hslot hslot'

/-- A call that goes on while the tables stay as they are. -/
theorem stage (h : Sound cfg s) (hnext : MayBecome cfg s call request phase) :
    Sound cfg (s.stage call request phase) := by
  show Sound cfg { s.stage call request phase with records := s.records }
  apply h.next
  constructor
  case same => exact hnext.same
  case placed => exact hnext.placed
  case storing => exact hnext.storing
  case returned => exact hnext.returned
  case kept => exact fun _ _ hget _ => hget
  case traded => exact fun _ _ _ _ _ record _ _ _ hheld => ⟨record, hheld⟩
  case holds =>
    intro slot hslot hp
    rcases hnext.holds slot hslot hp with ⟨old, hcall, hholds⟩
    refine ⟨h.held call request old slot hcall hslot hholds, fun c r p hc hr hor => ?_⟩
    rcases hor with hp' | ⟨o, ho⟩
    · exact h.holder call c request r old p slot hcall hc hslot hr hholds hp'
    · exact ((h.traded o c r p slot ho hc hr).2 call request old hcall hslot hholds).symm

/-- A call that reserves a free key. -/
theorem reserve (h : Sound cfg s) {orderId : OrderId} {slot : Slot} {id : ℕ}
    (hcall : s.calls.get? call = some ⟨request, .reserving orderId⟩)
    (hslot : request.slot = some slot) (hfree : s.records.get? slot = none) :
    Sound cfg { s.stage call request (.reserved orderId) with
      records := s.records.set slot ⟨id, cfg.requestHash request.payload, none⟩ } := by
  have hother : ∀ {slot' record}, s.records.get? slot' = some record →
      (s.records.set slot ⟨id, cfg.requestHash request.payload, none⟩).get? slot' =
        some record := by
    intro slot' record hget
    rw [Dict.get?_set_ne s.records _ fun heq => ?_]
    · exact hget
    · rw [heq, hfree] at hget
      cases hget
  apply h.next
  constructor
  case same => intro old hold; rw [hcall] at hold; cases hold; rfl
  case placed => intro old hold hp; rw [hcall] at hold; cases hold; cases hp
  case storing => exact fun _ _ _ hp => by cases hp
  case returned => exact fun _ _ hp => by cases hp
  case kept => exact fun _ _ hget _ => hother hget
  case traded => exact fun _ _ _ _ _ record _ _ _ hheld => ⟨record, hother hheld.1, hheld.2⟩
  case holds =>
    intro slot' hslot' _
    rw [hslot, Option.some.injEq] at hslot'
    subst hslot'
    refine ⟨⟨_, ⟨Dict.get?_set_self .., rfl⟩, rfl⟩, fun c r p hc hr hor => ?_⟩
    -- nobody knows the key
    have hrow : ∃ record, s.records.get? slot = some record := by
      rcases hor with hp | ⟨o, ho⟩
      · rcases h.held c r p slot hc hr hp with ⟨record, ⟨hget, -⟩, -⟩
        exact ⟨record, hget⟩
      · rcases (h.traded o c r p slot ho hc hr).1 with ⟨record, hget, -⟩
        exact ⟨record, hget⟩
    rcases hrow with ⟨record, hget⟩
    rw [hfree] at hget
    cases hget

/-- A call that gives up its key, with what becomes of the row. -/
theorem conclude (h : Sound cfg s) {old : Phase} {slot : Slot} {records : Dict Slot Record}
    (hcall : s.calls.get? call = some ⟨request, old⟩) (hslot : request.slot = some slot)
    (hholds : old.holds = true) (hover : phase.holds = false)
    (hplaced : old.placed = true → phase.placed = true)
    (hother : ∀ slot', slot' ≠ slot → records.get? slot' = s.records.get? slot')
    (hreturned : ∀ response, phase = .returned response → ∃ record,
      (records.get? slot = some record ∧
        record.requestHash = cfg.requestHash request.payload) ∧
          record.responseJson = some response)
    (htraded : ∀ o, s.trades.get? o = some call → ∃ record, records.get? slot = some record ∧
      record.requestHash = cfg.requestHash request.payload) :
    Sound cfg { s.stage call request phase with records := records } := by
  apply h.next
  constructor
  case same => intro other hother; rw [hcall] at hother; cases hother; rfl
  case placed => intro other hother; rw [hcall] at hother; cases hother; exact hplaced
  case holds => exact fun _ _ hp => absurd hp (by rw [hover]; exact Bool.false_ne_true)
  case storing => rintro id response _ rfl; cases hover
  case returned =>
    intro response slot' hphase hslot'
    rw [hslot, Option.some.injEq] at hslot'
    exact hslot' ▸ hreturned response hphase
  case kept =>
    intro slot' record hget hknown
    rw [← hget]
    apply hother
    rintro rfl
    -- the row of the key has no response yet, and nobody else holds it
    rcases h.held call request old slot' hcall hslot hholds with ⟨record', ⟨hget', -⟩, hnone⟩
    rw [hget, Option.some.injEq] at hget'
    rcases hknown (hget' ▸ hnone) with ⟨c, r, p, hne, hc, hr, hp⟩
    exact hne (h.holder call c request r old p slot' hcall hc hslot hr hholds hp)
  case traded =>
    rintro o c r p slot' record ho hc hr ⟨hget, hhash⟩
    by_cases heq : slot' = slot
    · subst heq
      have hsame : call = c :=
        (h.traded o c r p slot' ho hc hr).2 call request old hcall hslot hholds
      subst hsame
      rw [hcall] at hc
      cases hc
      exact htraded o ho
    · exact ⟨record, (hother slot' heq).trans hget, hhash⟩

/-- A call that commits its trade. -/
theorem trade (h : Sound cfg s) {o : OrderId} (hcall : s.calls.get? call = some ⟨request, .ordered⟩)
    (hnone : ∀ o, s.trades.get? o ≠ some call) :
    Sound cfg { s with trades := s.trades.set o call } := by
  have hold : ∀ {o' c}, (s.trades.set o call).get? o' = some c → c ≠ call →
      s.trades.get? o' = some c := by
    intro o' c ho' hne
    rw [Dict.get?_set] at ho'
    split at ho'
    · cases ho'
      exact absurd rfl hne
    · exact ho'
  have hown : ∀ {o'}, (s.trades.set o call).get? o' = some call → o' = o := by
    intro o' ho'
    rw [Dict.get?_set] at ho'
    split at ho'
    · assumption
    · exact absurd ho' (hnone o')
  constructor
  case held => exact h.held
  case holder => exact h.holder
  case storing => exact h.storing
  case returned => exact h.returned
  case placed =>
    intro o' c ho'
    by_cases heq : c = call
    · subst heq
      exact ⟨request, .ordered, hcall, rfl⟩
    · exact h.placed o' c (hold ho' heq)
  case traded =>
    intro o' c r p slot ho' hc hr
    by_cases heq : c = call
    · subst heq
      rw [hcall] at hc
      cases hc
      rcases h.held c request .ordered slot hcall hr rfl with ⟨record, hrecord, -⟩
      exact ⟨⟨record, hrecord⟩, fun c' r' p' hc' hr' hp' =>
        h.holder c c' request r' .ordered p' slot hcall hc' hr hr' rfl hp'⟩
    · exact h.traded o' c r p slot (hold ho' heq) hc hr
  case once =>
    intro o₁ o₂ c₁ c₂ r₁ r₂ p₁ p₂ slot ho₁ ho₂ hc₁ hc₂ hr₁ hr₂
    -- a trade of another call would exclude that this one holds the key
    have hclash : ∀ {o' c r p}, (s.trades.set o call).get? o' = some c →
        s.calls.get? c = some ⟨r, p⟩ → r.slot = some slot → request.slot = some slot →
          c = call := by
      intro o' c r p ho' hc hr hrequest
      by_contra hne
      have halone := (h.traded o' c r p slot (hold ho' hne) hc hr).2
      exact hne (halone call request .ordered hcall hrequest rfl).symm
    by_cases heq₁ : c₁ = call
    · subst heq₁
      rw [hcall] at hc₁
      cases hc₁
      have hsame := hclash ho₂ hc₂ hr₂ hr₁
      subst hsame
      exact (hown ho₂).trans (hown ho₁).symm
    · by_cases heq₂ : c₂ = call
      · subst heq₂
        rw [hcall] at hc₂
        cases hc₂
        exact absurd (hclash ho₁ hc₁ hr₁ hr₂) heq₁
      · exact h.once o₁ o₂ c₁ c₂ r₁ r₂ p₁ p₂ slot (hold ho₁ heq₁) (hold ho₂ heq₂) hc₁ hc₂ hr₁ hr₂

/-! ## Steps -/

/-- A call that goes on without taking its key or answering. -/
theorem onward (h : Sound cfg s) {old : Phase} (hcall : s.calls.get? call = some ⟨request, old⟩)
    (hholds : (phase.holds && !old.holds) = false)
    (hplaced : (old.placed && !phase.placed) = false) (hquiet : phase.answers = false) :
    Sound cfg (s.stage call request phase) := by
  apply h.stage
  constructor
  case same =>
    intro other hother
    rw [hcall, Option.some.injEq] at hother
    rw [← hother]
  case holds =>
    intro _ _ hp
    rw [hp, Bool.true_and, Bool.not_eq_false'] at hholds
    exact ⟨old, hcall, hholds⟩
  case placed =>
    intro other hother hp
    rw [hcall] at hother
    cases hother
    rw [hp, Bool.true_and, Bool.not_eq_false'] at hplaced
    exact hplaced
  case storing =>
    rintro id response _ rfl
    cases hquiet
  case returned =>
    rintro response _ rfl
    cases hquiet

/-- A query that answers from the row, or goes on. -/
theorem query (h : Sound cfg s) {old : Phase} (hcall : s.calls.get? call = some ⟨request, old⟩)
    (hnext : Sound cfg (s.stage call request phase)) :
    Sound cfg (s.query cfg call request phase) := by
  have hraise : ∀ failure, Sound cfg (s.stage call request (.raised failure)) := fun _ =>
    h.onward hcall rfl (Bool.and_false _) rfl
  unfold OrderState.query
  split
  · exact hraise _
  split
  · rename_i record hrecord
    rcases Option.bind_eq_some_iff.mp hrecord with ⟨slot, hslot, hget⟩
    unfold answer
    split
    · exact hraise _
    rename_i hhash
    split
    · rename_i response hresponse
      apply h.stage
      constructor
      case same =>
        intro other hother
        rw [hcall, Option.some.injEq] at hother
        rw [← hother]
      case holds => exact fun _ _ hp => by cases hp
      case placed => exact fun _ _ _ => rfl
      case storing => exact fun _ _ _ hp => by cases hp
      case returned =>
        intro response' slot' heq hslot'
        cases heq
        rw [hslot, Option.some.injEq] at hslot'
        subst hslot'
        exact ⟨record, ⟨hget, not_not.mp hhash⟩, hresponse⟩
    · exact hraise _
  · exact hnext

/-- `release_idempotency` of a call that has created no trade. -/
theorem release (h : Sound cfg s) {failure : Failure} {slot : Slot}
    (hcall : s.calls.get? call = some ⟨request, .releasing failure⟩)
    (hslot : request.slot = some slot) :
    Sound cfg ((s.releaseSlot slot).stage call request (.raised failure)) := by
  have hno : ∀ o, s.trades.get? o ≠ some call := by
    intro o ho
    rcases h.placed o call ho with ⟨r, p, hc, hp⟩
    rw [hcall] at hc
    cases hc
    cases hp
  rcases h.held call request _ slot hcall hslot rfl with ⟨record, ⟨hget, -⟩, hnone⟩
  have hrelease : (s.releaseSlot slot).stage call request (.raised failure) =
      { s.stage call request (.raised failure) with records := s.records.erase slot } := by
    simp only [OrderState.releaseSlot, hget, hnone]
    rfl
  rw [hrelease]
  exact h.conclude hcall hslot rfl rfl (fun hp => by cases hp)
    (fun slot' hne => Dict.get?_erase_ne s.records hne) (fun _ heq => by cases heq)
    fun o ho => absurd ho (hno o)

/-- The update of `complete_idempotency`. -/
theorem store (h : Sound cfg s) {id : ℕ} {response : Json} {slot : Slot}
    (hcall : s.calls.get? call = some ⟨request, .storing id response⟩)
    (hslot : request.slot = some slot) :
    Sound cfg (s.storeResponse call request slot id response) := by
  rcases h.held call request _ slot hcall hslot rfl with ⟨record, ⟨hget, hhash⟩, -⟩
  rcases h.storing call request id response slot hcall hslot with ⟨record', hget', hid⟩
  rw [hget, Option.some.injEq] at hget'
  subst hget'
  have hstore : s.storeResponse call request slot id response =
      { s.stage call request (.returned response) with
        records := s.records.set slot { record with responseJson := some response } } := by
    simp only [OrderState.storeResponse, hget, if_pos hid]
  rw [hstore]
  apply h.conclude hcall hslot rfl rfl (fun _ => rfl)
  · exact fun slot' hne => Dict.get?_set_ne s.records _ hne
  · intro response' heq
    cases heq
    exact ⟨_, ⟨Dict.get?_set_self .., hhash⟩, rfl⟩
  · exact fun _ _ => ⟨_, Dict.get?_set_self .., hhash⟩

/-- A committed trade. -/
theorem commitTrade (h : Sound cfg s) {o orderId : OrderId}
    (hcall : s.calls.get? call = some ⟨request, .vacant orderId⟩) :
    Sound cfg { s.stage call request .ordered with trades := s.trades.set o call } := by
  have hstage : Sound cfg (s.stage call request .ordered) :=
    h.onward hcall rfl rfl rfl
  apply hstage.trade (Dict.get?_set_self ..)
  intro o' ho'
  rcases h.placed o' call ho' with ⟨r, p, hc, hp⟩
  rw [hcall] at hc
  cases hc
  cases hp

/-- What every statement of every call preserves. -/
theorem step (h : Sound cfg s) {a : Action} {s' : OrderState}
    (hstep : Orders.step cfg s a = some s') : Sound cfg s' := by
  cases a with
  | submit call request =>
    simp only [Orders.step] at hstep
    split at hstep
    · cases hstep
    · rename_i hnone
      cases hstep
      apply h.stage
      constructor
      case same => intro old hold; rw [hnone] at hold; cases hold
      case holds => exact fun _ _ hp => by cases hp
      case placed => intro old hold; rw [hnone] at hold; cases hold
      case storing => exact fun _ _ _ hp => by cases hp
      case returned => exact fun _ _ hp => by cases hp
  | lookup call =>
    simp only [Orders.step] at hstep
    split at hstep
    · rename_i request hcall
      cases hstep
      apply h.query hcall
      exact h.onward hcall rfl rfl rfl
    · cases hstep
  | sign call orderId =>
    simp only [Orders.step] at hstep
    split at hstep
    · rename_i request hcall
      cases hstep
      exact h.onward hcall rfl rfl rfl
    · cases hstep
  | reserve call =>
    simp only [Orders.step] at hstep
    split at hstep
    · rename_i request orderId hcall
      split at hstep
      · rename_i hslot
        cases hstep
        apply h.query hcall
        apply h.stage
        constructor
        case same =>
          intro other hother
          rw [hcall, Option.some.injEq] at hother
          rw [← hother]
        case holds =>
          intro slot hsome _
          rw [hslot] at hsome
          cases hsome
        case placed =>
          intro other hother hp
          rw [hcall] at hother
          cases hother
          cases hp
        case storing => exact fun _ _ _ hp => by cases hp
        case returned => exact fun _ _ hp => by cases hp
      · cases hstep
        apply h.query hcall
        exact h.onward hcall rfl rfl rfl
    · cases hstep
  | insert call id =>
    simp only [Orders.step] at hstep
    split at hstep
    · rename_i request orderId hcall
      split at hstep
      · cases hstep
      · rename_i slot hslot
        split at hstep
        · cases hstep
        · cases hstep
          unfold OrderState.insertRecord
          split
          · exact h.onward hcall rfl rfl rfl
          · rename_i hfree
            exact h.reserve hcall hslot hfree
    · cases hstep
  | findTrade call =>
    simp only [Orders.step] at hstep
    split at hstep
    · rename_i request orderId hcall
      split at hstep
      · cases hstep
        exact h.onward hcall rfl rfl rfl
      · cases hstep
        exact h.onward hcall rfl rfl rfl
    · cases hstep
  | refuse call =>
    simp only [Orders.step] at hstep
    split at hstep
    · rename_i request orderId hcall
      cases hstep
      exact h.onward hcall rfl rfl rfl
    · cases hstep
  | commitTrade call =>
    simp only [Orders.step] at hstep
    split at hstep
    · rename_i request orderId hcall
      split at hstep
      · cases hstep
        exact h.onward hcall rfl rfl rfl
      · cases hstep
        exact h.commitTrade hcall
    · cases hstep
  | failTrade call failure =>
    simp only [Orders.step] at hstep
    split at hstep
    · rename_i request orderId hcall
      cases hstep
      exact h.onward hcall rfl rfl rfl
    · cases hstep
  | release call =>
    simp only [Orders.step] at hstep
    split at hstep
    · rename_i request failure hcall
      split at hstep
      · cases hstep
        exact h.onward hcall rfl rfl rfl
      · rename_i slot hslot
        cases hstep
        exact h.release hcall hslot
    · cases hstep
  | settle call response =>
    simp only [Orders.step] at hstep
    split at hstep
    · rename_i request hcall
      cases hstep
      exact h.onward hcall rfl rfl rfl
    · cases hstep
  | findRecord call =>
    simp only [Orders.step] at hstep
    split at hstep
    · rename_i request response hcall
      have hsame : ∀ old, s.calls.get? call = some old → old.request = request := by
        intro other hother
        rw [hcall, Option.some.injEq] at hother
        rw [← hother]
      split at hstep
      · rename_i hnone
        cases hstep
        apply h.stage
        constructor
        case same => exact hsame
        case holds => exact fun _ _ hp => by cases hp
        case placed => exact fun _ _ _ => rfl
        case storing => exact fun _ _ _ hp => by cases hp
        case returned =>
          -- the row of a call with a key is still there
          intro response' slot _ hslot
          rcases h.held call request _ slot hcall hslot rfl with ⟨record, ⟨hget, -⟩, -⟩
          rw [OrderState.recordOf, hslot] at hnone
          exact absurd (hget.symm.trans hnone) (by simp)
      · rename_i record hrecord
        cases hstep
        apply h.stage
        constructor
        case same => exact hsame
        case holds => exact fun _ _ _ => ⟨_, hcall, rfl⟩
        case placed => exact fun _ _ _ => rfl
        case storing =>
          intro id response' slot heq hslot
          cases heq
          rw [OrderState.recordOf, hslot] at hrecord
          exact ⟨record, hrecord, rfl⟩
        case returned => exact fun _ _ hp => by cases hp
    · cases hstep
  | store call =>
    simp only [Orders.step] at hstep
    split at hstep
    · rename_i request id response hcall
      split at hstep
      · cases hstep
      · rename_i slot hslot
        cases hstep
        exact h.store hcall hslot
    · cases hstep
  | fail call failure =>
    simp only [Orders.step] at hstep
    split at hstep
    · rename_i request phase hcall
      split at hstep
      · cases hstep
      · cases hstep
        exact h.onward hcall rfl (Bool.and_false _) rfl
    · cases hstep

end Sound

theorem sound_init (cfg : OrderConfig) : Sound cfg (submissions cfg).init where
  held := fun _ _ _ _ hc => by cases hc
  holder := fun _ _ _ _ _ _ _ hc => by cases hc
  storing := fun _ _ _ _ _ hc => by cases hc
  returned := fun _ _ _ _ hc => by cases hc
  placed := fun _ _ ho => by cases ho
  traded := fun _ _ _ _ _ ho => by cases ho
  once := fun _ _ _ _ _ _ _ _ _ ho => by cases ho

theorem sound_of_reachable {cfg : OrderConfig} {s : OrderState}
    (hs : (submissions cfg).Reachable s) : Sound cfg s :=
  hs.invariant (sound_init cfg) fun _ _ _ hstep hsound => hsound.step hstep

/-! ## Idempotency -/

/-- A call with a key has created a trade. -/
def OrderState.HasTrade (s : OrderState) (slot : Slot) (payload : Json) (o : OrderId) : Prop :=
  ∃ c request phase, s.calls.get? c = some ⟨request, phase⟩ ∧ request.slot = some slot ∧
    request.payload = payload ∧ s.trades.get? o = some c

/-- A call with a key has returned a response. -/
def OrderState.HasResponse (s : OrderState) (slot : Slot) (payload response : Json) : Prop :=
  ∃ c request, s.calls.get? c = some ⟨request, .returned response⟩ ∧ request.slot = some slot ∧
    request.payload = payload

/-- What an idempotency key guarantees. -/
structure Idempotent (cfg : OrderConfig) (s : OrderState) : Prop where
  /-- one trade is created for a key -/
  oneTrade : ∀ slot p p' o o', s.HasTrade slot p o → s.HasTrade slot p' o' → o' = o
  /-- every successful response is the same -/
  oneResponse : ∀ slot p p' r r', s.HasResponse slot p r → s.HasResponse slot p' r' → r' = r
  /-- a request with another payload than the one that holds the key creates no trade and gets
  no response -/
  onePayload : ∀ slot record p p', s.HeldFor cfg slot p record → p'.sorted ≠ p.sorted →
    (∀ o, ¬s.HasTrade slot p' o) ∧ ∀ r, ¬s.HasResponse slot p' r

/-- Submissions are idempotent in every reachable state. -/
theorem order_idempotent {cfg : OrderConfig}
    (hsha : ∀ a b, cfg.sha256 a = cfg.sha256 b → a = b) {s : OrderState}
    (hs : (submissions cfg).Reachable s) : Idempotent cfg s := by
  have h := sound_of_reachable hs
  constructor
  case oneTrade =>
    rintro slot p p' o o' ⟨c, r, ph, hc, hr, -, ho⟩ ⟨c', r', ph', hc', hr', -, ho'⟩
    exact h.once o o' c c' r r' ph ph' slot ho ho' hc hc' hr hr'
  case oneResponse =>
    rintro slot p p' x x' ⟨c, r, hc, hr, -⟩ ⟨c', r', hc', hr', -⟩
    rcases h.returned c r x slot hc hr with ⟨record, ⟨hget, -⟩, hresponse⟩
    rcases h.returned c' r' x' slot hc' hr' with ⟨record', ⟨hget', -⟩, hresponse'⟩
    rw [hget, Option.some.injEq] at hget'
    rw [← hget', hresponse, Option.some.injEq] at hresponse'
    exact hresponse'.symm
  case onePayload =>
    rintro slot record p p' ⟨hget, hhash⟩ hne
    -- the row of another payload has another hash
    have hother : ∀ record', ¬s.HeldFor cfg slot p' record' := by
      rintro record' ⟨hget', hhash'⟩
      rw [hget, Option.some.injEq] at hget'
      rw [← hget', hhash] at hhash'
      exact hne (requestHash_injective hsha hhash'.symm)
    constructor
    · rintro o ⟨c, r, ph, hc, hr, rfl, ho⟩
      rcases (h.traded o c r ph slot ho hc hr).1 with ⟨record', hheld⟩
      exact hother record' hheld
    · rintro x ⟨c, r, hc, hr, rfl⟩
      rcases h.returned c r x slot hc hr with ⟨record', hheld, -⟩
      exact hother record' hheld

/-! ## A replay -/

/-- A market order for some shares. -/
def samplePayload (quantity : FloatText) : Json :=
  .obj [("asset", .str "AAPL"), ("side", .str "buy"), ("quantity", .float quantity),
    ("order_type", .str "market"), ("limit_price", .null), ("stop_price", .null),
    ("time_in_force", .str "day"), ("order_id", .null), ("timestamp", .null),
    ("expires_at", .null), ("nonce", .null), ("key_id", .null)]

/-- The canonical text of such an order. -/
def sampleText (quantity : FloatText) : Bytes :=
  encodeChars (Json.dumps orderStyle (samplePayload quantity))

/-- A development deployment; the digests are those of SHA-256. -/
def sampleConfig : OrderConfig where
  production := false
  sha256 := Digests.hash ⟨[
    (sampleText ⟨['1', '.', '5'], by decide⟩,
       0x170fb2b7465a226ab44bee859d2dc9777305f6a69b630c6eb22d5911a76f22c8),
    (sampleText ⟨['2', '.', '5'], by decide⟩,
       0x5448921175eea63e06cef26eba0675cd78b52e05dcd3f87f4d92b0f5090b34e0)], by decide, by decide⟩

/-- A request for a market order, with a key. -/
def sampleRequest (quantity : FloatText) : Request where
  userId := "alice"
  idempotencyKey := some "retry-0001"
  payload := samplePayload quantity

/-- How a call has failed. -/
def Phase.failure? : Phase → Option Failure
  | .raised failure => some failure
  | _ => none

/-- An order, its replay, and another order under the same key. -/
theorem order_idempotent_replay : ∃ s, (submissions sampleConfig).Reachable s ∧
    s.trades.items = [("O1", 1)] ∧
      s.calls.values.map (fun call => (call.phase.isOver, call.phase.failure?)) =
        [(true, none), (true, none), (true, some (.http 409
          "Idempotency-Key was already used with different payload"))] ∧
        Idempotent sampleConfig s := by
  let first : Request := sampleRequest ⟨['1', '.', '5'], by decide⟩
  let second : Request := sampleRequest ⟨['2', '.', '5'], by decide⟩
  have hrun : ((submissions sampleConfig).exec (submissions sampleConfig).init
      [.submit 1 first, .lookup 1, .sign 1 "O1", .reserve 1, .insert 1 7, .submit 2 first,
        .findTrade 1, .commitTrade 1, .settle 1 (.obj [("order_id", .str "O1")]), .findRecord 1,
        .store 1, .lookup 2, .submit 3 second, .lookup 3]).map
      (fun s => (s.trades.items,
        s.calls.values.map fun call => (call.phase.isOver, call.phase.failure?))) =
      some ([("O1", 1)], [(true, none), (true, none), (true, some (.http 409
        "Idempotency-Key was already used with different payload"))]) := by
    decide +kernel
  rcases Option.map_eq_some_iff.mp hrun with ⟨s, hexec, hs⟩
  have hreach := Machine.reachable_of_exec hexec
  rw [Prod.mk.injEq] at hs
  exact ⟨s, hreach, hs.1, hs.2, order_idempotent (Digests.hash_injective _) hreach⟩

end QuantumSentinel.Orders
