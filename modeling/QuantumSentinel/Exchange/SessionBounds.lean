import QuantumSentinel.Exchange.ReplaySession

/-!
# Paper exchange: what a replayed strategy can hold

In every run of a replay session the position stays between nothing and one lot and at most one
order is working, whatever the strategy answers.  A passive order is cancelled in time when it is
larger than the tolerance; a smaller one stays accepted and is nowhere, so that no cancel finds
it.

Main results:

- Theorem `ReplaySession.cancelStale_spec`: what the loop over the passive orders leaves.
- Theorem `ReplaySession.replayEvent_onward`: what one event of the stream does.
- Theorem `ReplaySession.replay_session_bounded`: what holds in every run.
-/

namespace QuantumSentinel.Exchange

open Lib

variable {F : String → Prop}

namespace PaperExchange

variable {x y : PaperExchange} {flights : List Ref} {d d' : Desk} {r : Ref} {e : Entry} {q : ℚ}

/-! ## Orders and entries -/

/-- No order of the history is working. -/
theorem idle_of_any (h : Mirrors F x flights d)
    (hany : (x.orderHistory.any fun r => (x.order r).status.isWorking) = false) (r : Ref)
    (e : Entry) (hr : d.entries.get? r = some e) : e.ticket.status.isWorking = false := by
  have hidle := List.any_eq_false.mp hany r ((mem_orderHistory h).mpr ⟨e, hr⟩)
  rw [status_eq h hr] at hidle
  exact Bool.not_eq_true _ ▸ hidle

/-! ## The index of the orders -/

theorem advanceTo_byId (x : PaperExchange) (timestamp : ℚ) :
    (x.advanceTo timestamp).byId = x.byId := by
  obtain ⟨y, left, hreleased, hsame, -⟩ := releaseFrom_rule
    (I := fun y _ => y.byId = x.byId)
    (fun z f rest hz (_ : f.arrival ≤ timestamp + eps) =>
      (activate_kept _ f.order).byId.trans hz) x.inflight rfl
  rw [advanceTo_eq, hreleased]
  exact (expirePassed_kept _).byId.trans hsame

theorem onMarketEvent_byId (x : PaperExchange) (event : BookEvent) (uuid : HexId) :
    (x.onMarketEvent event uuid).byId = x.byId := by
  rw [onMarketEvent_eq]
  exact (applyEvent_kept _ event uuid).byId.trans (advanceTo_byId x event.timestamp)

theorem cancelOrder_byId (x : PaperExchange) (id : String) :
    (x.cancelOrder id).byId = x.byId := by
  unfold cancelOrder
  split <;> rfl

/-! ## The next order -/

/-- A submission adds one entry. -/
structure Entered (F : String → Prop) (x : PaperExchange) (d : Desk) (request : OrderRequest)
    (y : PaperExchange) (d' : Desk) (e : Entry) : Prop where
  reflects : Reflects F y d'
  entries : d'.entries.get? = Function.update d.entries.get? x.book.nextRef (some e)
  byId : y.byId = x.byId.set (paperId (x.orderSeq + 1)) x.book.nextRef
  orderId : e.ticket.orderId = paperId (x.orderSeq + 1)
  quantity : e.ticket.quantity = request.quantity
  orderType : e.ticket.orderType ≠ .market → request.orderType ≠ .market

/-- A submission when no order is working keeps the position in bounds. -/
theorem submitOrder_enters (h : Reflects F x d) (hfree : ¬F (paperId (x.orderSeq + 1)))
    (hd : LongOnly q d)
    (hidle : ∀ r e, d.entries.get? r = some e → e.ticket.status.isWorking = false)
    {request : OrderRequest} (hheld : (x.sentEntry request).Held q d.position) :
    ∃ d' e, Entered F x d request (x.submitOrder request) d' e ∧ LongOnly q d' := by
  cases hreason : x.pretradeRejectReason (x.requestedOrder request) with
  | some reason =>
    obtain ⟨-, hmirrors⟩ := refused_mirrors h hfree hreason
    have hfields : (x.submitOrder request).inflight = x.inflight ∧ (x.submitOrder request).byId =
        x.byId.set (paperId (x.orderSeq + 1)) x.book.nextRef := by
      rw [submitOrder_refused hreason]
      exact ⟨rfl, rfl⟩
    refine ⟨_, x.refusedEntry request, ⟨?_, d.get?_put _ _, hfields.2, rfl, rfl, id⟩,
      hd.enter hidle (Or.inl rfl) fun hplace => absurd rfl hplace⟩
    rw [Reflects, hfields.1]
    exact hmirrors
  | none =>
    obtain ⟨-, hmirrors⟩ := entered_mirrors h hfree hreason
    have hlong : LongOnly q (d.put x.book.nextRef (x.sentEntry request)) :=
      hd.enter hidle ⟨rfl, rfl⟩ fun _ => hheld
    rw [submitOrder_accepted hreason]
    split
    · exact ⟨_, x.sentEntry request,
        ⟨launched_mirrors h hfree hreason, d.get?_put _ _, rfl, rfl, rfl, id⟩, hlong⟩
    · obtain ⟨act, e', d', href, -, hlook, hstage⟩ := activate_stage hmirrors
      have hkept := activate_kept (x.entered request) x.book.nextRef
      have hself : d'.entries.get? x.book.nextRef = some e' := by
        rw [hlook, Function.update_self]
      have hsent : (d.put x.book.nextRef (x.sentEntry request)).entries.get? x.book.nextRef =
          some (x.sentEntry request) := by
        rw [d.get?_put, Function.update_self]
      obtain ⟨e₀, h₀, hsame⟩ := Desk.terms_of_path hstage.path hself
      rw [hsent] at h₀
      cases h₀
      refine ⟨d', e', ⟨?_, ?_, hkept.byId, hsame.orderId, hsame.quantity, fun htype => ?_⟩,
        hlong.path hstage.path⟩
      · rw [Reflects, hkept.inflight]
        exact hstage.mirrors
      · rw [hlook, d.get?_put, Function.update_idem]
      · exact (Desk.not_market_of_path hstage.path hself htype).elim fun e he => by
          rw [hsent] at he
          cases he.1
          exact he.2

end PaperExchange

namespace ReplaySession

open PaperExchange

variable {x y : PaperExchange} {flights : List Ref} {d d' : Desk} {r : Ref} {e : Entry} {q : ℚ}
  {working : Dict String ℕ} {n index : ℤ} {items : List (String × ℕ)}

/-! ## Orders on record -/

/-- Every working order is on record, and not yet too old. -/
structure Watched (n index : ℤ) (x : PaperExchange) (working : Dict String ℕ) (d : Desk) :
    Prop where
  sized : ∀ r e, d.entries.get? r = some e → e.ticket.orderType ≠ .market → eps < e.ticket.quantity
  listed : ∀ r e, d.entries.get? r = some e → e.ticket.status.isWorking = true →
    ∃ k, working.get? e.ticket.orderId = some k ∧ index ≤ k + n
  named : ∀ id k, working.get? id = some k →
    ∃ r e, x.byId.get? id = some r ∧ d.entries.get? r = some e ∧ e.ticket.orderId = id

/-- The orders that the loop has not looked at are those on its list. -/
structure Pending (n index : ℤ) (items : List (String × ℕ)) (x : PaperExchange)
    (working : Dict String ℕ) (d : Desk) : Prop where
  watched : Watched n index x working d
  left : ∀ r e k, d.entries.get? r = some e → e.ticket.status.isWorking = true →
    working.get? e.ticket.orderId = some k → (e.ticket.orderId, k) ∈ items ∨ index + 1 ≤ k + n

/-- Moves leave working orders on record. -/
theorem Watched.moved (h : Watched n index x working d) (hplaced : AllPlaced d.entries.get?)
    (hmoved : Moved F x d y flights d') (hbyId : y.byId = x.byId) :
    Watched n index y working d' := by
  obtain ⟨acts, hpath⟩ := hmoved.path
  refine ⟨fun r e hr htype => ?_, fun r e hr hworks => ?_, fun id k hk => ?_⟩
  · obtain ⟨e₀, h₀, hbefore⟩ := Desk.not_market_of_path hpath hr htype
    obtain ⟨e₁, h₁, hsame⟩ := Desk.terms_of_path hpath hr
    rw [h₀] at h₁
    cases h₁
    rw [hsame.quantity]
    exact h.sized r e₀ h₀ hbefore
  · obtain ⟨e₀, h₀, hbefore, hid⟩ := Desk.working_of_path hpath hplaced hr hworks
    rw [hid]
    exact h.listed r e₀ h₀ hbefore
  · obtain ⟨r, e, hr, he, hid⟩ := h.named id k hk
    obtain ⟨e', he', hsame, -⟩ := Desk.kept_of_path hpath he
    exact ⟨r, e', hbyId ▸ hr, he', hsame.orderId.trans hid⟩

theorem Pending.moved (h : Pending n index items x working d) (hplaced : AllPlaced d.entries.get?)
    (hmoved : Moved F x d y flights d') (hbyId : y.byId = x.byId) :
    Pending n index items y working d' := by
  refine ⟨h.watched.moved hplaced hmoved hbyId, fun r e k hr hworks hk => ?_⟩
  obtain ⟨acts, hpath⟩ := hmoved.path
  obtain ⟨e₀, h₀, hbefore, hid⟩ := Desk.working_of_path hpath hplaced hr hworks
  rw [hid] at hk ⊢
  exact h.left r e₀ k h₀ hbefore hk

/-- An order that has ended is taken off the record. -/
theorem Pending.drop {oid : String} {submittedAt : ℕ}
    (h : Pending n index ((oid, submittedAt) :: items) x working d)
    (hended : ∀ r e, d.entries.get? r = some e → e.ticket.status.isWorking = true →
      e.ticket.orderId ≠ oid) : Pending n index items x (working.erase oid) d := by
  refine ⟨⟨h.watched.sized, fun r e hr hworks => ?_, fun id k hk => ?_⟩,
    fun r e k hr hworks hk => ?_⟩
  · rw [Dict.get?_erase_ne _ (hended r e hr hworks)]
    exact h.watched.listed r e hr hworks
  · rw [Dict.get?_erase] at hk
    split at hk
    · cases hk
    · exact h.watched.named id k hk
  · rw [Dict.get?_erase_ne _ (hended r e hr hworks)] at hk
    rcases h.left r e k hr hworks hk with hmem | hyoung
    · rcases List.mem_cons.mp hmem with heq | hrest
      · exact absurd (congrArg Prod.fst heq) (hended r e hr hworks)
      · exact Or.inl hrest
    · exact Or.inr hyoung

/-- Of an order that is on record and not too old, nothing changes. -/
theorem Pending.keep {oid : String} {submittedAt : ℕ}
    (h : Pending n index ((oid, submittedAt) :: items) x working d)
    (hyoung : ¬n ≤ index - submittedAt) : Pending n index items x working d := by
  refine ⟨h.watched, fun r e k hr hworks hk => ?_⟩
  rcases h.left r e k hr hworks hk with hmem | hlater
  · rcases List.mem_cons.mp hmem with heq | hrest
    · rw [(Prod.mk.inj heq).2]
      exact Or.inr (by omega)
    · exact Or.inl hrest
  · exact Or.inr hlater

/-- A working order on record is found by its id. -/
theorem Pending.found (h : Pending n index items x working d) (hx : Reflects F x d)
    (hr : d.entries.get? r = some e) (hworks : e.ticket.status.isWorking = true) :
    ∃ p, x.byId.get? e.ticket.orderId = some p ∧ (x.order p).status.isWorking = true := by
  obtain ⟨k, hk, -⟩ := h.watched.listed r e hr hworks
  obtain ⟨p, f, hp, hf, hid⟩ := h.watched.named _ k hk
  have hsame : p = r := (hx.engine.book.sim.unique p r f e hf hr hid.symm).symm
  subst hsame
  refine ⟨p, hp, ?_⟩
  rw [status_eq hx hr]
  exact hworks

/-- What the loop over the passive orders leaves of an exchange and of the record. -/
structure Tended (F : String → Prop) (n : ℤ) (index : ℕ) (items : List (String × ℕ))
    (x : PaperExchange) (working : Dict String ℕ) (d : Desk) (result : PaperExchange × Dict String ℕ) (d' : Desk) :
    Prop where
  moved : Moved F x d result.1 (result.1.inflight.map Flight.order) d'
  byId : result.1.byId = x.byId
  records : ∀ id k, result.2.get? id = some k → working.get? id = some k
  watched : Pending n index items x working d → Watched n (index + 1) result.1 result.2 d'

/-- The loop leaves every working order on record, and none that is too old. -/
theorem cancelStale_spec (n : ℤ) (index : ℕ) (items : List (String × ℕ)) (hx : Reflects F x d)
    (hd : LongOnly q d) (working : Dict String ℕ) :
    ∃ d', Tended F n index items x working d (cancelStale n index items x working) d' := by
  induction items generalizing x working d with
  | nil =>
    refine ⟨d, Moved.refl hx, rfl, fun id k hk => hk, fun h => ⟨h.watched.sized, ?_,
      h.watched.named⟩⟩
    intro r e hr hworks
    obtain ⟨k, hk, -⟩ := h.watched.listed r e hr hworks
    exact ⟨k, hk, (h.left r e k hr hworks hk).resolve_left List.not_mem_nil⟩
  | cons item rest ih =>
    obtain ⟨oid, submittedAt⟩ := item
    have herased : ∀ id k, (working.erase oid).get? id = some k → working.get? id = some k := by
      intro id k hk
      rw [Dict.get?_erase] at hk
      split at hk
      · cases hk
      · exact hk
    -- the order has ended, and only the record changes
    have hdrop : (∀ p, x.byId.get? oid = some p → (x.order p).status.isWorking = false) →
        ∃ d', Tended F n index ((oid, submittedAt) :: rest) x working d
          (cancelStale n index rest x (working.erase oid)) d' := by
      intro hended
      obtain ⟨d', htended⟩ := ih hx hd (working.erase oid)
      refine ⟨d', htended.moved, htended.byId,
        fun id k hk => herased id k (htended.records id k hk),
        fun h => htended.watched (h.drop fun r e hr hworks hid => ?_)⟩
      obtain ⟨p, hp, hstill⟩ := h.found hx hr hworks
      rw [hid] at hp
      rw [hended p hp] at hstill
      cases hstill
    simp only [cancelStale]
    cases hfound : x.byId.get? oid with
    | none =>
      refine hdrop fun p hp => ?_
      rw [hfound] at hp
      cases hp
    | some p =>
      dsimp only
      split
      · rename_i hended
        refine hdrop fun p' hp' => ?_
        rw [hfound] at hp'
        cases hp'
        exact hended
      · split
        · obtain ⟨d₁, hcancelled, hgone⟩ := cancelOrder_moved hx oid
          have hsame := cancelOrder_byId x oid
          obtain ⟨acts, hpath⟩ := hcancelled.path
          have hd₁ := hd.path hpath
          obtain ⟨d', htended⟩ := ih hcancelled.mirrors hd₁ (working.erase oid)
          refine ⟨d', hcancelled.trans htended.moved, htended.byId.trans hsame,
            fun id k hk => herased id k (htended.records id k hk),
            fun h => htended.watched ?_⟩
          have hnext := h.moved hd.placed hcancelled hsame
          refine hnext.drop fun r e hr hworks hid => ?_
          have hstopped := (hd₁.placed r e hr).not_working (hgone r e hr hid) fun htype =>
            hnext.watched.sized r e hr (by rw [htype]; exact fun hf => by cases hf)
          rw [hstopped] at hworks
          cases hworks
        · rename_i hyoung
          obtain ⟨d', htended⟩ := ih hx hd working
          exact ⟨d', htended.moved, htended.byId, htended.records,
            fun h => htended.watched (h.keep hyoung)⟩

/-! ## One event of the stream -/

variable {config : ReplayConfig} {s t : ReplaySession} {input : ReplayInput}

theorem noted_exchange (config : ReplayConfig) (s : ReplaySession) :
    (s.noted config).exchange = s.exchange ∧ (s.noted config).working = s.working ∧
      (s.noted config).index = s.index := by
  unfold noted
  split <;> exact ⟨rfl, rfl, rfl⟩

/-- A signal that becomes no order. -/
theorem acted_none (input : ReplayInput) {signal : Signal}
    (hrequest : s.exchange.orderForSignal signal.signal config = none) :
    (s.acted config input signal).exchange = s.exchange ∧
      (s.acted config input signal).working = s.working := by
  unfold acted
  simp only [hrequest, and_self]

/-- A signal that becomes an order. -/
theorem acted_some (input : ReplayInput) {signal : Signal} {request : OrderRequest}
    (hrequest : s.exchange.orderForSignal signal.signal config = some request) :
    (s.acted config input signal).exchange = s.exchange.submitOrder request ∧
      (s.acted config input signal).working = if config.orderStyle = "passive" then
        s.working.set (paperId (s.exchange.orderSeq + 1)) s.index else s.working := by
  unfold acted
  simp only [hrequest]
  exact ⟨rfl, rfl⟩

/-- The order that an answer becomes is the next one, and is as large as the position allows. -/
theorem orderForSignal_spec (h : Mirrors F x flights d) (hd : LongOnly config.orderQuantity d)
    {signal : Option String} {request : OrderRequest}
    (hrequest : x.orderForSignal signal config = some request) :
    (∀ r e, d.entries.get? r = some e → e.ticket.status.isWorking = false) ∧
      (x.sentEntry request).Held config.orderQuantity d.position := by
  unfold orderForSignal at hrequest
  split at hrequest
  · cases hrequest
  · rename_i hany
    refine ⟨idle_of_any h (Bool.eq_false_iff.mpr hany), ?_⟩
    obtain ⟨⟨side, qty⟩, hsignal, hplaced⟩ := Option.bind_eq_some_iff.mp hrequest
    have hterms : request.side = side ∧ request.quantity = qty := by
      dsimp only at hplaced
      split at hplaced
      · obtain ⟨price, -, rfl⟩ := Option.map_eq_some_iff.mp hplaced
        exact ⟨rfl, rfl⟩
      · cases hplaced
        exact ⟨rfl, rfl⟩
    have hside : (x.sentEntry request).ticket.side = side := hterms.1
    have hquantity : (x.sentEntry request).ticket.quantity = qty := hterms.2
    have hfilled : (x.sentEntry request).ticket.filled = 0 := rfl
    unfold signalOrder at hsignal
    rw [h.position] at hsignal
    unfold Entry.Held
    rw [hside]
    dsimp only at hsignal
    split at hsignal
    · rename_i hbuy
      cases hsignal
      exact ⟨hquantity, (le_antisymm hbuy.2 hd.long).trans hfilled.symm⟩
    · split at hsignal
      · cases hsignal
        show d.position = _
        rw [Ticket.remaining, hquantity, hfilled, sub_zero]
      · cases hsignal

/-- What a part of a round does to the orders of a session: old ones stay, and the record of each
is dropped or stays. -/
structure Onward (F : String → Prop) (s : ReplaySession) (d : Desk) (t : ReplaySession)
    (d' : Desk) : Prop where
  reflects : Reflects F t.exchange d'
  kept : ∀ r e, d.entries.get? r = some e →
    ∃ e', d'.entries.get? r = some e' ∧ e'.ticket.orderId = e.ticket.orderId
  records : ∀ r e k, d.entries.get? r = some e → t.working.get? e.ticket.orderId = some k →
    s.working.get? e.ticket.orderId = some k

/-- Nothing happens to the orders. -/
theorem Onward.of_same (h : Reflects F s.exchange d) (hexchange : t.exchange = s.exchange)
    (hworking : t.working = s.working) : Onward F s d t d where
  reflects := hexchange ▸ h
  kept := fun _ e hr => ⟨e, hr, rfl⟩
  records := fun _ _ _ _ hk => hworking ▸ hk

/-- The event is applied, and old passive orders are cancelled. -/
theorem tended_onward (h : Reflects F s.exchange d) (hd : LongOnly q d)
    (hevent : F (input.event.idOr input.uuid)) (config : ReplayConfig) :
    ∃ d', Onward F s d ((s.received input).tended config) d' ∧ LongOnly q d' ∧
      (∀ r, d.entries.get? r = none → d'.entries.get? r = none) ∧
      ∀ n, config.cancelAfterEvents = some n → Watched n s.index s.exchange s.working d →
        Watched n (s.index + 1) ((s.received input).tended config).exchange
          ((s.received input).tended config).working d' := by
  obtain ⟨d₁, hreceived⟩ := onMarketEvent_moved h hevent
  obtain ⟨acts, hpath⟩ := hreceived.path
  have hd₁ := hd.path hpath
  unfold tended
  cases hcancel : config.cancelAfterEvents with
  | none =>
    refine ⟨d₁, ⟨hreceived.mirrors, fun r e hr => ?_, fun r e k _ hk => hk⟩, hd₁,
      fun r => Desk.none_of_path hpath, fun n hn => by cases hn⟩
    obtain ⟨e', hr', hsame, -⟩ := Desk.kept_of_path hpath hr
    exact ⟨e', hr', hsame.orderId⟩
  | some n =>
    obtain ⟨d', htended⟩ := cancelStale_spec n s.index s.working.items hreceived.mirrors hd₁
      s.working
    have hmoved := hreceived.trans htended.moved
    obtain ⟨acts', hpath'⟩ := hmoved.path
    refine ⟨d', ⟨htended.moved.mirrors, fun r e hr => ?_, fun r e k _ => htended.records _ k⟩,
      hd.path hpath', fun r => Desk.none_of_path hpath', ?_⟩
    · obtain ⟨e', hr', hsame, -⟩ := Desk.kept_of_path hpath' hr
      exact ⟨e', hr', hsame.orderId⟩
    · intro n' hn hwatched
      cases hn
      refine htended.watched ⟨hwatched.moved hd.placed hreceived (onMarketEvent_byId ..), ?_⟩
      exact fun r e k _ _ hk => Or.inl (Dict.get?_eq_some_iff.mp hk)

/-- What a round does to the orders on record, when passive orders are large enough: those that
are added are on record with the index of the event. -/
structure Recorded (n : ℤ) (s : ReplaySession) (d : Desk) (t : ReplaySession) (d' : Desk) :
    Prop where
  watched : Watched n (s.index + 1) t.exchange t.working d'
  added : ∀ r e k, d'.entries.get? r = some e → d.entries.get? r = none →
    t.working.get? e.ticket.orderId = some k → k = s.index

/-- An answer becomes the next order, or nothing. -/
theorem consulted_onward (h : Reflects F s.exchange d) (hd : LongOnly config.orderQuantity d)
    (input : ReplayInput) (hfree : (s.request config input).isSome = true →
      ¬F (paperId (s.exchange.orderSeq + 1))) :
    ∃ d', Onward F s d (s.consulted config input) d' ∧ LongOnly config.orderQuantity d' ∧
      ∀ n, 1 ≤ n → config.orderStyle = "passive" →
        (∀ request, s.request config input = some request → eps < request.quantity) →
          Watched n (s.index + 1) s.exchange s.working d →
            Recorded n s d (s.consulted config input) d' := by
  obtain ⟨hexchange, hworking, hindex⟩ := noted_exchange config s
  have hsame : ∀ {t : ReplaySession}, t.exchange = s.exchange → t.working = s.working →
      ∃ d', Onward F s d t d' ∧ LongOnly config.orderQuantity d' ∧
        ∀ n, 1 ≤ n → config.orderStyle = "passive" →
          (∀ request, s.request config input = some request → eps < request.quantity) →
            Watched n (s.index + 1) s.exchange s.working d → Recorded n s d t d' := by
    intro t he hw
    refine ⟨d, Onward.of_same h he hw, hd, fun n _ _ _ hwatched => ⟨by rwa [he, hw], ?_⟩⟩
    intro r e k hr hnone
    rw [hnone] at hr
    cases hr
  unfold consulted
  cases hanswer : s.answer config input with
  | none => exact hsame hexchange hworking
  | some signal =>
    dsimp only
    cases hrequest : s.exchange.orderForSignal signal.signal config with
    | none =>
      obtain ⟨he, hw⟩ := acted_none input (s := s.noted config) (hexchange.symm ▸ hrequest)
      exact hsame (he.trans hexchange) (hw.trans hworking)
    | some request =>
      obtain ⟨he, hw⟩ := acted_some input (s := s.noted config) (hexchange.symm ▸ hrequest)
      rw [hexchange] at he hw
      rw [hworking, hindex] at hw
      have hasked : s.request config input = some request := by
        rw [ReplaySession.request, hanswer]
        exact hrequest
      obtain ⟨hidle, hheld⟩ := orderForSignal_spec h hd hrequest
      obtain ⟨d', e, hentered, hd'⟩ := submitOrder_enters h (hfree (by rw [hasked]; rfl)) hd hidle
        hheld
      have hother : ∀ r f, d.entries.get? r = some f → r ≠ s.exchange.book.nextRef := by
        rintro r f hr rfl
        rw [get?_nextRef h] at hr
        cases hr
      have hlook : ∀ r f, d.entries.get? r = some f → d'.entries.get? r = some f :=
        fun r f hr => by rw [hentered.entries, Function.update_of_ne (hother r f hr), hr]
      have hself : d'.entries.get? s.exchange.book.nextRef = some e := by
        rw [hentered.entries, Function.update_self]
      have hcases : ∀ r f, d'.entries.get? r = some f →
          (r = s.exchange.book.nextRef ∧ f = e) ∨ d.entries.get? r = some f := by
        intro r f hr
        rw [hentered.entries] at hr
        exact (look_update hr).imp_right And.right
      refine ⟨d', ⟨he ▸ hentered.reflects, fun r f hr => ⟨f, hlook r f hr, rfl⟩, ?_⟩, hd', ?_⟩
      · intro r f k hr hk
        rw [hw] at hk
        split at hk
        · rwa [Dict.get?_set_ne _ _ (orderId_fresh h hr)] at hk
        · exact hk
      · intro n hn hstyle hsize hwatched
        rw [if_pos hstyle] at hw
        refine ⟨?_, fun r f k hr hnone hk => ?_⟩
        rotate_left
        · rcases hcases r f hr with ⟨-, rfl⟩ | hold
          · rw [hw, hentered.orderId, Dict.get?_set_self] at hk
            exact (Option.some.inj hk).symm
          · rw [hnone] at hold
            cases hold
        rw [he, hw]
        refine ⟨fun r f hr htype => ?_, fun r f hr hworks => ?_, fun id k hk => ?_⟩
        · rcases hcases r f hr with ⟨-, rfl⟩ | hold
          · rw [hentered.quantity]
            exact hsize request hasked
          · exact hwatched.sized r f hold htype
        · rcases hcases r f hr with ⟨-, rfl⟩ | hold
          · refine ⟨s.index, ?_, by omega⟩
            rw [hentered.orderId, Dict.get?_set_self]
          · rw [hidle r f hold] at hworks
            cases hworks
        · rw [hentered.byId]
          rw [Dict.get?_set] at hk
          split at hk
          · rename_i hid
            exact ⟨_, e, hid ▸ Dict.get?_set_self .., hself, hentered.orderId.trans hid.symm⟩
          · rename_i hid
            obtain ⟨r, f, hr, hf, hname⟩ := hwatched.named id k hk
            exact ⟨r, f, (Dict.get?_set_ne _ _ hid).trans hr, hlook r f hf, hname⟩

theorem Onward.trans {u : ReplaySession} {d'' : Desk} (h : Onward F s d t d')
    (h' : Onward F t d' u d'') : Onward F s d u d'' where
  reflects := h'.reflects
  kept := fun r e hr => by
    obtain ⟨e', hr', hid⟩ := h.kept r e hr
    obtain ⟨e'', hr'', hid'⟩ := h'.kept r e' hr'
    exact ⟨e'', hr'', hid'.trans hid⟩
  records := fun r e k hr hk => by
    obtain ⟨e', hr', hid⟩ := h.kept r e hr
    exact h.records r e k hr (hid ▸ h'.records r e' k hr' (hid.symm ▸ hk))

/-- The order that an event brings, if any. -/
def placedAt (config : ReplayConfig) (s : ReplaySession) (input : ReplayInput) :
    Option OrderRequest :=
  ((s.received input).tended config).request config input

/-- The event brings no passive order within the tolerance. -/
def NoDust (config : ReplayConfig) (s : ReplaySession) (input : ReplayInput) : Prop :=
  ∀ request ∈ s.placedAt config input, request.orderType = .limit → eps < request.quantity

instance (config : ReplayConfig) (s : ReplaySession) (input : ReplayInput) :
    Decidable (s.NoDust config input) :=
  inferInstanceAs (Decidable (∀ request ∈ s.placedAt config input,
    request.orderType = .limit → eps < request.quantity))

/-- The event has an id of a set, and the order that it brings has not. -/
def OwnIds (F : String → Prop) (config : ReplayConfig) (s : ReplaySession) (input : ReplayInput) :
    Prop :=
  F (input.event.idOr input.uuid) ∧ ((s.placedAt config input).isSome = true →
    ¬F (paperId (((s.received input).tended config).exchange.orderSeq + 1)))

instance [DecidablePred F] (config : ReplayConfig) (s : ReplaySession) (input : ReplayInput) :
    Decidable (s.OwnIds F config input) :=
  inferInstanceAs (Decidable (_ ∧ (_ → _)))

/-- The feed has ids of its own, and the order is not within the tolerance. -/
def Clear (F : String → Prop) (config : ReplayConfig) (s : ReplaySession) (input : ReplayInput) :
    Prop :=
  s.OwnIds F config input ∧ s.NoDust config input

instance [DecidablePred F] (config : ReplayConfig) (s : ReplaySession) (input : ReplayInput) :
    Decidable (s.Clear F config input) :=
  inferInstanceAs (Decidable (_ ∧ _))

/-- Passive orders are limit orders. -/
theorem orderForSignal_passive (hstyle : config.orderStyle = "passive") {signal : Option String}
    {request : OrderRequest} (hrequest : x.orderForSignal signal config = some request) :
    request.orderType = .limit := by
  unfold orderForSignal at hrequest
  split at hrequest
  · cases hrequest
  · obtain ⟨⟨side, qty⟩, -, hplaced⟩ := Option.bind_eq_some_iff.mp hrequest
    obtain ⟨price, -, rfl⟩ := Option.map_eq_some_iff.mp hplaced
    rfl

/-- One round of the loop. -/
theorem replayEvent_onward (h : Reflects F s.exchange d) (hd : LongOnly config.orderQuantity d)
    (hids : s.OwnIds F config input) :
    ∃ d', Onward F s d (s.replayEvent config input) d' ∧ LongOnly config.orderQuantity d' ∧
      ∀ n, config.cancelAfterEvents = some n → 1 ≤ n → config.orderStyle = "passive" →
        s.Clear F config input → Watched n s.index s.exchange s.working d →
          Watched n (s.replayEvent config input).index (s.replayEvent config input).exchange
            (s.replayEvent config input).working d' ∧
          ∀ r e, d'.entries.get? r = some e → d.entries.get? r = none →
            (s.replayEvent config input).index = s.index + 1 ∧
              ∀ k, (s.replayEvent config input).working.get? e.ticket.orderId = some k →
                k = s.index := by
  unfold replayEvent
  split
  · refine ⟨d, Onward.of_same h rfl rfl, hd, fun n _ _ _ _ hwatched => ⟨hwatched, ?_⟩⟩
    intro r e hr hnone
    rw [hnone] at hr
    cases hr
  · obtain ⟨d₁, htended, hd₁, hnone₁, hafter⟩ := tended_onward h hd hids.1 config
    have hindex : ((s.received input).tended config).index = s.index := by
      unfold tended
      split <;> rfl
    obtain ⟨d', hconsulted, hd', hrecorded⟩ := consulted_onward htended.reflects hd₁ input hids.2
    have hnext : (((s.received input).tended config).consulted config input).index = s.index := by
      unfold consulted
      split
      · exact (noted_exchange ..).2.2.trans hindex
      · unfold acted
        split <;> exact (noted_exchange ..).2.2.trans hindex
    have honward := htended.trans hconsulted
    refine ⟨d', ⟨honward.reflects, honward.kept, honward.records⟩, hd',
      fun n hcancel hn hstyle hclear hwatched => ?_⟩
    have hsize : ∀ request, ((s.received input).tended config).request config input =
        some request → eps < request.quantity := by
      intro request hrequest
      refine hclear.2 request hrequest ?_
      obtain ⟨signal, -, hsignal⟩ := Option.bind_eq_some_iff.mp hrequest
      exact orderForSignal_passive hstyle hsignal
    have hold := hafter n hcancel hwatched
    rw [← hindex] at hold
    have hround := hrecorded n hn hstyle hsize hold
    dsimp only
    rw [hnext]
    refine ⟨?_, fun r e hr hnone => ⟨rfl, fun k hk => ?_⟩⟩
    · have hw := hround.watched
      rw [hindex] at hw
      exact hw
    · exact (hround.added r e k hr (hnone₁ r hnone) hk).trans hindex

/-! ## Runs -/

/-- The position is between nothing and one lot, and at most one order is working. -/
structure Bounded (q : ℚ) (s : ReplaySession) : Prop where
  long : 0 ≤ s.exchange.positionQuantity
  bounded : s.exchange.positionQuantity ≤ q
  single : (s.exchange.orderHistory.filter fun r =>
    (s.exchange.order r).status.isWorking).length ≤ 1

theorem bounded_of_longOnly (h : Reflects F s.exchange d) (hd : LongOnly q d) : s.Bounded q where
  long := by rw [h.position]; exact hd.long
  bounded := by rw [h.position]; exact hd.bounded
  single := by
    have hnodup : s.exchange.orderHistory.Nodup := by
      rw [h.history]
      exact d.entries.nodup
    have hworks : ∀ r ∈ s.exchange.orderHistory.filter fun r =>
        (s.exchange.order r).status.isWorking, ∃ e, d.entries.get? r = some e ∧
          e.ticket.status.isWorking = true := by
      intro r hr
      obtain ⟨hmem, hstatus⟩ := List.mem_filter.mp hr
      obtain ⟨e, he⟩ := (mem_orderHistory h).mp hmem
      rw [status_eq h he] at hstatus
      exact ⟨e, he, hstatus⟩
    cases hfilter : s.exchange.orderHistory.filter fun r =>
        (s.exchange.order r).status.isWorking with
    | nil => exact Nat.zero_le _
    | cons p rest =>
      cases rest with
      | nil => exact le_rfl
      | cons p' rest =>
        rw [hfilter] at hworks
        have hfiltered := hnodup.filter fun r => (s.exchange.order r).status.isWorking
        rw [hfilter] at hfiltered
        obtain ⟨e, he, hw⟩ := hworks p (List.mem_cons_self ..)
        obtain ⟨e', he', hw'⟩ := hworks p' (List.mem_cons_of_mem _ (List.mem_cons_self ..))
        have hsame := hd.single p p' e e' he he' hw hw'
        exact absurd (hsame ▸ List.mem_cons_self ..) (List.nodup_cons.mp hfiltered).1

/-- In every run an order on record belongs to a working order, and no order is too old. -/
theorem watched_of_run {exchange : ExchangeConfig} {n : ℤ}
    (hcancel : config.cancelAfterEvents = some n) (hn : 1 ≤ n)
    (hstyle : config.orderStyle = "passive") {inputs : List ReplayInput}
    (hrun : (machine exchange config).Run (Clear F config) s inputs t) {id : String} {k : ℕ}
    (h : ∃ d, Reflects F s.exchange d ∧ LongOnly config.orderQuantity d ∧
      Watched n s.index s.exchange s.working d ∧ ∃ e, d.entries.get? r = some e ∧
        e.ticket.orderId = id ∧ ∀ k', s.working.get? id = some k' → k' = k) :
    ∃ d, Reflects F t.exchange d ∧ Watched n t.index t.exchange t.working d ∧
      ∃ e, d.entries.get? r = some e ∧ e.ticket.orderId = id ∧
        ∀ k', t.working.get? id = some k' → k' = k := by
  have hend := hrun.invariant (I := fun s => ∃ d, Reflects F s.exchange d ∧
    LongOnly config.orderQuantity d ∧ Watched n s.index s.exchange s.working d ∧
      ∃ e, d.entries.get? r = some e ∧ e.ticket.orderId = id ∧
        ∀ k', s.working.get? id = some k' → k' = k) ?_ h
  · obtain ⟨d, hreflects, -, hwatched, hentry⟩ := hend
    exact ⟨d, hreflects, hwatched, hentry⟩
  · rintro s input s' hclear hstep ⟨d, hreflects, hd, hwatched, e, he, hid, hrecord⟩
    cases hstep
    obtain ⟨d', honward, hd', hnext⟩ := replayEvent_onward hreflects hd hclear.1
    obtain ⟨e', he', hid'⟩ := honward.kept r e he
    refine ⟨d', honward.reflects, hd', (hnext n hcancel hn hstyle hclear hwatched).1, e', he',
      hid'.trans hid, fun k' hk' => hrecord k' ?_⟩
    rw [← hid] at hk' ⊢
    exact honward.records r e k' he hk'

/-- In every run with a feed of its own ids the position is between nothing and one lot and at
most one order is working; and where no passive order is within the tolerance, none is working
when as many events have followed as it may wait. -/
theorem replay_session_bounded {exchange : ExchangeConfig}
    (hquantity : 0 < config.orderQuantity) :
    (∀ s, (machine exchange config).ReachableUnder (OwnIds F config) s →
      s.Bounded config.orderQuantity) ∧
    ∀ n, config.cancelAfterEvents = some n → 1 ≤ n → config.orderStyle = "passive" →
      ∀ s input inputs t, (machine exchange config).ReachableUnder (Clear F config) s →
        s.Clear F config input →
        (machine exchange config).Run (Clear F config) (s.replayEvent config input) inputs t →
        (s.replayEvent config input).index + n ≤ t.index →
        ∀ r ∈ (s.replayEvent config input).exchange.orderHistory, r ∉ s.exchange.orderHistory →
          (t.exchange.order r).status.isWorking = false := by
  constructor
  · intro s hs
    obtain ⟨d, hreflects, hd⟩ := hs.invariant (I := fun s => ∃ d, Reflects F s.exchange d ∧
      LongOnly config.orderQuantity d) ⟨Desk.empty, reflects_empty exchange,
        LongOnly.empty hquantity.le⟩ (by
          rintro s input s' hids hstep ⟨d, hreflects, hd⟩
          cases hstep
          obtain ⟨d', honward, hd', -⟩ := replayEvent_onward hreflects hd hids
          exact ⟨d', honward.reflects, hd'⟩)
    exact bounded_of_longOnly hreflects hd
  · intro n hcancel hn hstyle s input inputs t hs hclear hrun hlater r hnew hold
    obtain ⟨d, hreflects, hd, hwatched⟩ := hs.invariant (I := fun s => ∃ d,
      Reflects F s.exchange d ∧ LongOnly config.orderQuantity d ∧
        Watched n s.index s.exchange s.working d) ⟨Desk.empty, reflects_empty exchange,
          LongOnly.empty hquantity.le, fun r e hr => (by cases hr), fun r e hr => (by cases hr),
          fun id k hk => (by cases hk)⟩ (by
            rintro s input s' hclear hstep ⟨d, hreflects, hd, hwatched⟩
            cases hstep
            obtain ⟨d', honward, hd', hnext⟩ := replayEvent_onward hreflects hd hclear.1
            exact ⟨d', honward.reflects, hd', (hnext n hcancel hn hstyle hclear hwatched).1⟩)
    obtain ⟨d', honward, hd', hnext⟩ := replayEvent_onward hreflects hd hclear.1
    obtain ⟨hwatched', hadded⟩ := hnext n hcancel hn hstyle hclear hwatched
    obtain ⟨e, he⟩ := (mem_orderHistory honward.reflects).mp hnew
    have hnone : d.entries.get? r = none := by
      cases hr : d.entries.get? r with
      | none => rfl
      | some f => exact absurd ((mem_orderHistory hreflects).mpr ⟨f, hr⟩) hold
    obtain ⟨d'', hreflects'', hwatched'', e', he', hid, hrecord⟩ :=
      watched_of_run hcancel hn hstyle hrun (k := s.index) ⟨d', honward.reflects, hd', hwatched', e,
        he, rfl, (hadded r e he hnone).2⟩
    rw [status_eq hreflects'' he']
    by_contra hworks
    obtain ⟨k, hk, hyoung⟩ := hwatched''.listed r e' he' (Bool.eq_true_of_not_eq_false hworks)
    rw [hid] at hk
    have hplaced := hrecord k hk
    have hindex := (hadded r e he hnone).1
    omega

/-- Orders of a size that join the best bid and wait for one event. -/
def joining (quantity : ℚ) : ReplayConfig where
  snapshotInterval := 1
  warmupEvents := 0
  maxEvents := none
  snapshotLevels := 10
  orderQuantity := quantity
  orderStyle := "passive"
  cancelAfterEvents := some 1
  interval_pos := Nat.one_pos

/-- A bid of the market, and the answer of the strategy. -/
def bidAt (timestamp : ℚ) (signal : Option String) : ReplayInput where
  event := ⟨timestamp, .add, .buy, 99, 10, some "m1"⟩
  uuid := OrderBook.zeros
  strategy := some fun _ _ => signal.map fun text => ⟨some text⟩

theorem replay_session_bounded_cancelled :
    ∃ t, (machine instant (joining 5)).execUnder (Clear (· = "m1") (joining 5)) (start instant)
        [bidAt 1 (some "BUY"), bidAt 2 none] = some t ∧ t.Bounded 5 ∧
      t.exchange.orderHistory = [1] ∧ (t.exchange.order 1).status.isWorking = false := by
  have hrun : ((machine instant (joining 5)).execUnder (Clear (· = "m1") (joining 5)) (start instant)
      [bidAt 1 (some "BUY"), bidAt 2 none]).map (fun t => (t.index, t.exchange.orderHistory)) =
        some (2, [1]) := by
    decide +kernel
  have hplaced : ((start instant).replayEvent (joining 5) (bidAt 1 (some "BUY"))).index = 1 ∧
      1 ∈ ((start instant).replayEvent (joining 5)
        (bidAt 1 (some "BUY"))).exchange.orderHistory := by
    decide +kernel
  obtain ⟨t, hexec, ht⟩ := Option.map_eq_some_iff.mp hrun
  obtain ⟨hindex, horders⟩ := Prod.mk.inj ht
  have hclear := Machine.run_of_execUnder hexec
  have hsize : 0 < (joining 5).orderQuantity := by decide
  obtain ⟨hbounded, htimely⟩ := replay_session_bounded hsize
  refine ⟨t, hexec, hbounded t ⟨_, hclear.mono fun _ _ h => h.1⟩, horders, ?_⟩
  cases hclear with
  | cons guard step rest =>
    cases step
    refine htimely 1 rfl le_rfl rfl _ _ _ t (Machine.ReachableUnder.init _ _) guard rest ?_ 1
      hplaced.2 (fun hf => by cases hf)
    show (((start instant).replayEvent (joining 5) (bidAt 1 (some "BUY"))).index : ℤ) + 1 ≤ _
    rw [hplaced.1, hindex]
    rfl

/-- A passive order within the tolerance is never cancelled. -/
theorem dust_left_working :
    0 < (joining (1 / 10000000000)).orderQuantity ∧
      ∃ t, (machine instant (joining (1 / 10000000000))).ReachableUnder
          (OwnIds (· = "m1") (joining (1 / 10000000000))) t ∧
        t = replaySession instant (joining (1 / 10000000000))
          [bidAt 1 (some "BUY"), bidAt 2 none, bidAt 3 none] ∧
        (replaySession instant (joining (1 / 10000000000)) [bidAt 1 (some "BUY")]).index + 1 <
          t.index ∧
        1 ∈ (replaySession instant (joining (1 / 10000000000))
          [bidAt 1 (some "BUY")]).exchange.orderHistory ∧
        (t.exchange.order 1).status.isWorking = true := by
  have hend : (replaySession instant (joining (1 / 10000000000)) [bidAt 1 (some "BUY")]).index + 1 <
        (replaySession instant (joining (1 / 10000000000))
          [bidAt 1 (some "BUY"), bidAt 2 none, bidAt 3 none]).index ∧
      1 ∈ (replaySession instant (joining (1 / 10000000000))
        [bidAt 1 (some "BUY")]).exchange.orderHistory ∧
      ((replaySession instant (joining (1 / 10000000000))
        [bidAt 1 (some "BUY"), bidAt 2 none, bidAt 3 none]).exchange.order 1).status.isWorking =
          true := by
    decide +kernel
  refine ⟨by decide +kernel, _, ⟨_, Machine.Run.cons ?_ rfl (Machine.Run.cons ?_ rfl
    (Machine.Run.cons ?_ rfl (Machine.Run.nil _)))⟩, rfl, hend⟩
  · decide +kernel
  · decide +kernel
  · decide +kernel

end ReplaySession

end QuantumSentinel.Exchange
