import QuantumSentinel.Exchange.LongOnly

/-!
# Paper exchange: invariants of the desk

What the moves of the desk keep, and the entries of new orders keep, holds of the desk that an
exchange reflects in every run.  The rule is stated once, for any condition on the submissions
and any property of desks.

Main results:

- Theorem `Desk.Moves.trades`: the executions of a move are those of one order.
- Theorem `DeskInvariant.apply`: every operation keeps an invariant of the desk.
- Theorem `DeskInvariant.run` and `DeskInvariant.reachable`: so do runs.
-/

namespace QuantumSentinel.Exchange

open Lib

variable {F : String → Prop}

/-! ## What a move fills -/

/-- The executions of a move: those of one order, which fills by their size. -/
structure Trades (e e' : Entry) (fills : List Execution) (t : Ticket) (hits : List Hit) :
    Prop where
  eq : fills = t.executions hits
  orderId : t.orderId = e.ticket.orderId
  side : t.side = e.ticket.side
  remaining : t.remaining = e.ticket.remaining
  fits : Fits e.ticket.remaining hits
  filled : e'.ticket.filled = e.ticket.filled + hitSize hits
  /-- the order is FILLED when nothing is left after an execution -/
  completed : e'.ticket.status = .filled ↔ hits ≠ [] ∧ e'.ticket.remaining ≤ eps

theorem Trades.none {e e' : Entry} (hfilled : e'.ticket.filled = e.ticket.filled)
    (hstatus : e'.ticket.status ≠ .filled) : Trades e e' [] e.ticket [] :=
  ⟨rfl, rfl, rfl, rfl, trivial, by rw [hfilled, hitSize_nil, add_zero],
    iff_of_false hstatus fun h => h.1 rfl⟩

/-- Every move fills one order. -/
theorem Desk.Moves.trades {config : ExchangeConfig} {e e' : Entry} {act : Act}
    {fills : List Execution} (h : Desk.Moves config e act e' fills) :
    ∃ t hits, Trades e e' fills t hits := by
  cases h with
  | close hplace hstatus =>
    refine ⟨_, _, Trades.none rfl ?_⟩
    rcases hstatus with rfl | rfl | rfl <;> exact fun hf => by cases hf
  | park => exact ⟨_, _, Trades.none rfl fun hf => by cases hf⟩
  | @execute _ _ hits ending hstart hticket hcommitted hfits hlimit hend =>
    refine ⟨e.ticket.started, hits, rfl, rfl, rfl, rfl, hfits, ?_, ?_⟩
    · have hfilled := filled_fillAll e.ticket.started hits
      cases ending with
      | done => exact hfilled
      | closed => exact hfilled
      | rests => exact hfilled
    · have hstatus : ∀ hne : hits ≠ [], (e.ticket.started.fillAll hits).status =
          if (e.ticket.started.fillAll hits).remaining ≤ eps then .filled
          else .partiallyFilled := fun hne => by
        rw [status_fillAll hne, Ticket.remaining, (sameTerms_fillAll _ _).quantity]
        rfl
      cases ending with
      | done =>
        by_cases hne : hits = []
        · subst hne
          exact iff_of_false (fun hf => by cases hf) fun hf => hf.1 rfl
        · exact iff_of_true ((hstatus hne).trans (if_pos hend.1)) ⟨hne, hend.1⟩
      | closed status =>
        refine iff_of_false ?_ ?_
        · rintro rfl
          rcases hend.1 with hf | ⟨hf, -⟩ <;> cases hf
        · rintro ⟨hne, hsmall⟩
          rcases hend.2 with hleft | ⟨hnone, -⟩
          · exact absurd hsmall (not_le.mpr hleft)
          · exact hne hnone
      | rests =>
        refine iff_of_false ?_ fun hf => absurd hf.2 (not_le.mpr hend.1)
        show (if (e.ticket.started.fillAll hits).filled ≤ 0 then OrderStatus.queued
          else (e.ticket.started.fillAll hits).status) ≠ .filled
        split
        · exact fun hf => by cases hf
        · by_cases hne : hits = []
          · subst hne
            exact fun hf => by cases hf
          · rw [hstatus hne, if_neg (not_le.mpr hend.1)]
            exact fun hf => by cases hf
  | @passive _ hit hplace hfits hlimit =>
    refine ⟨e.ticket, [hit], rfl, rfl, rfl, rfl, hfits, ?_, ?_⟩
    · rw [hitSize_cons, hitSize_nil, add_zero]
      rfl
    · show (if e.ticket.quantity - (e.ticket.filled + hit.quantity) ≤ eps then
        OrderStatus.filled else .partiallyFilled) = .filled ↔ _
      split
      · rename_i hdone
        exact iff_of_true rfl ⟨List.cons_ne_nil _ _, hdone⟩
      · rename_i hleft
        exact iff_of_false (fun hf => by cases hf) fun hf => hleft hf.2

/-! ## Sums over the entries -/

/-- A total of the entries after one changed. -/
theorem Desk.sum_put_old (d : Desk) {r : Ref} {e : Entry} (f : Entry → ℚ) (e' : Entry)
    (hr : d.entries.get? r = some e) :
    ((d.put r e').entries.items.map fun p => f p.2).sum =
      (d.entries.items.map fun p => f p.2).sum - f e + f e' :=
  Dict.sum_set_old (fun p => f p.2) e' hr

/-- A total of the entries with a new one. -/
theorem Desk.sum_put_new (d : Desk) {r : Ref} (f : Entry → ℚ) (e : Entry)
    (hr : d.entries.get? r = none) :
    ((d.put r e).entries.items.map fun p => f p.2).sum =
      (d.entries.items.map fun p => f p.2).sum + f e :=
  Dict.sum_set_new (fun p => f p.2) e hr

/-! ## Invariants -/

namespace PaperExchange

variable {x y : PaperExchange} {flights : List Ref} {d d' : Desk} {config : ExchangeConfig}
  {G : PaperExchange → OrderRequest → Prop} {I : Desk → Prop}

/-- The feed and the exchange have their own ids, and the submissions meet a condition. -/
def Guarded (F : String → Prop) (G : PaperExchange → OrderRequest → Prop) (x : PaperExchange) :
    Op → Prop
  | .submitOrder request => ¬F (paperId (x.orderSeq + 1)) ∧ G x request
  | .onMarketEvent event uuid => F (event.idOr uuid)
  | _ => True

instance [DecidablePred F] [∀ x request, Decidable (G x request)] (op : Op) :
    Decidable (x.Guarded F G op) :=
  match op with
  | .submitOrder request =>
    inferInstanceAs (Decidable (¬F (paperId (x.orderSeq + 1)) ∧ G x request))
  | .onMarketEvent event uuid => inferInstanceAs (Decidable (F (event.idOr uuid)))
  | .cancelOrder _ => isTrue trivial
  | .advanceTo _ => isTrue trivial

/-- The exchange of a configuration reflects a desk, and its log reports the executions. -/
structure Records (F : String → Prop) (config : ExchangeConfig) (x : PaperExchange) (d : Desk) :
    Prop where
  config : x.config = config
  reflects : Reflects F x d
  log : reported x.eventLog = d.fills
  /-- without latency no order is in flight between operations -/
  prompt : x.config.latencyMs = 0 → x.inflight = []

/-- The exchange records a desk with a property. -/
def Keeps (F : String → Prop) (config : ExchangeConfig) (I : Desk → Prop) (x : PaperExchange) :
    Prop :=
  ∃ d, Records F config x d ∧ I d

/-- What the actions of the desk keep when the submissions meet a condition. -/
structure DeskInvariant (F : String → Prop) (config : ExchangeConfig)
    (G : PaperExchange → OrderRequest → Prop) (I : Desk → Prop) : Prop where
  move : ∀ {d act d'}, AllPlaced d.entries.get? → Desk.MoveStep config d act d' → I d → I d'
  /-- the order passed the checks and goes on its way -/
  sent : ∀ {x : PaperExchange} {d : Desk} {request : OrderRequest}, Records F config x d →
    G x request → x.pretradeRejectReason (x.requestedOrder request) = none →
      I d → I (d.put x.book.nextRef (x.sentEntry request))
  refused : ∀ {x : PaperExchange} {d : Desk} {request : OrderRequest}, Records F config x d →
    G x request → I d → I (d.put x.book.nextRef (x.refusedEntry request))

theorem records_empty (config : ExchangeConfig) : Records F config (empty config) Desk.empty :=
  ⟨rfl, reflects_empty config, rfl, fun _ => rfl⟩

/-- The clock brings no order into flight. -/
theorem advanceTo_inflight (h : x.inflight = []) (timestamp : ℚ) :
    (x.advanceTo timestamp).inflight = [] := by
  rw [advanceTo_eq, h]
  exact (expirePassed_kept _).inflight

/-- A cancel brings no order into flight. -/
theorem cancelOrder_inflight (h : x.inflight = []) (id : String) :
    (x.cancelOrder id).inflight = [] := by
  unfold cancelOrder
  split
  · rename_i hfind
    rw [h] at hfind
    cases hfind
  · exact h

/-- Moves lead from one recorded desk to the next. -/
theorem Records.moved (h : Records F config x d)
    (hmoved : Moved F x d y (y.inflight.map Flight.order) d')
    (hprompt : x.inflight = [] → y.inflight = []) : Records F config y d' where
  config := hmoved.config.trans h.config
  reflects := hmoved.mirrors
  log := hmoved.logged h.log
  prompt := fun hzero => hprompt (h.prompt (hmoved.config ▸ hzero))

/-- A refused order is on record. -/
theorem Records.refused (h : Records F config x d) (hfree : ¬F (paperId (x.orderSeq + 1)))
    {request : OrderRequest} {reason : Reason}
    (hreason : x.pretradeRejectReason (x.requestedOrder request) = some reason) :
    Records F config (x.submitOrder request) (d.put x.book.nextRef (x.refusedEntry request)) := by
  have hmirrors := (refused_mirrors h.reflects hfree hreason).2
  have hlog : reported (x.submitOrder request).eventLog = reported x.eventLog := by
    rw [submitOrder_refused hreason]
    exact (reported_concat ..).trans (List.append_nil _)
  have hfields : (x.submitOrder request).inflight = x.inflight ∧
      (x.submitOrder request).config = x.config := by
    rw [submitOrder_refused hreason]
    exact ⟨rfl, rfl⟩
  refine ⟨hfields.2.trans h.config, ?_, hlog.trans h.log, fun hzero => ?_⟩
  · rw [Reflects, hfields.1]
    exact hmirrors
  · rw [hfields.1]
    exact h.prompt (hfields.2 ▸ hzero)

/-- An accepted order is on record, and in flight or moved on at once. -/
theorem Records.accepted (h : Records F config x d) (hfree : ¬F (paperId (x.orderSeq + 1)))
    {request : OrderRequest}
    (hpass : x.pretradeRejectReason (x.requestedOrder request) = none) :
    ∃ acts d', Path (Desk.MoveStep config) (d.put x.book.nextRef (x.sentEntry request)) acts d' ∧
      Records F config (x.submitOrder request) d' := by
  have hmirrors := (entered_mirrors h.reflects hfree hpass).2
  have hentered : (x.entered request).config = config := h.config
  rw [submitOrder_accepted hpass]
  split
  · rename_i hlatency
    have hlog : reported (x.launched request).eventLog = reported x.eventLog :=
      (reported_concat ..).trans (List.append_nil _)
    exact ⟨[], _, Path.nil _, hentered, launched_mirrors h.reflects hfree hpass, hlog.trans h.log,
      fun hzero => absurd hzero hlatency.ne'⟩
  · rename_i hlatency
    obtain ⟨act, e', d', -, -, -, hstage⟩ := activate_stage hmirrors
    have hkept := activate_kept (x.entered request) x.book.nextRef
    have hzero : x.config.latencyMs = 0 :=
      le_antisymm (not_lt.mp hlatency) x.config.latency_nonneg
    refine ⟨_, d', hentered ▸ hstage.path, hkept.config.trans hentered, ?_, hstage.logged h.log,
      fun _ => hkept.inflight.trans (h.prompt hzero)⟩
    rw [Reflects, hkept.inflight]
    exact hstage.mirrors

namespace DeskInvariant

/-- A run of the desk keeps an invariant. -/
theorem path (hI : DeskInvariant F config G I) {acts : List Act}
    (h : Path (Desk.MoveStep config) d acts d') (hplaced : AllPlaced d.entries.get?) (hd : I d) :
    I d' := by
  have hend := h.invariant (G := fun _ => True) (I := fun d => AllPlaced d.entries.get? ∧ I d)
    (fun _ _ _ _ hstep hd => ⟨hstep.placed hd.1, hI.move hd.1 hstep hd.2⟩) (fun _ _ => trivial)
    ⟨hplaced, hd⟩
  exact hend.2

/-- A submission keeps an invariant. -/
theorem submitOrder (hI : DeskInvariant F config G I) {request : OrderRequest}
    (hfree : ¬F (paperId (x.orderSeq + 1))) (hrequest : G x request) (h : Keeps F config I x) :
    Keeps F config I (x.submitOrder request) := by
  obtain ⟨d, hx, hd⟩ := h
  cases hreason : x.pretradeRejectReason (x.requestedOrder request) with
  | some reason => exact ⟨_, hx.refused hfree hreason, hI.refused hx hrequest hd⟩
  | none =>
    have hsent := hI.sent hx hrequest hreason hd
    have hplaced := (entered_mirrors hx.reflects hfree hreason).2.engine.placed
    obtain ⟨acts, d', hpath, hy⟩ := hx.accepted hfree hreason
    exact ⟨d', hy, hI.path hpath hplaced hsent⟩

/-- Every operation keeps an invariant. -/
theorem apply (hI : DeskInvariant F config G I) {op : Op} (hop : x.Guarded F G op)
    (h : Keeps F config I x) : Keeps F config I (x.apply op) := by
  obtain ⟨d, hx, hd⟩ := h
  have hof : ∀ {y : PaperExchange} {d' : Desk}, Moved F x d y (y.inflight.map Flight.order) d' →
      (x.inflight = [] → y.inflight = []) → Keeps F config I y := fun hmoved hprompt => by
    obtain ⟨acts, hpath⟩ := hmoved.path
    rw [hx.config] at hpath
    exact ⟨_, hx.moved hmoved hprompt, hI.path hpath hx.reflects.engine.placed hd⟩
  cases op with
  | submitOrder request => exact hI.submitOrder hop.1 hop.2 ⟨d, hx, hd⟩
  | cancelOrder id =>
    obtain ⟨d', hmoved, -⟩ := cancelOrder_moved hx.reflects id
    exact hof hmoved fun hnone => cancelOrder_inflight hnone id
  | advanceTo timestamp =>
    obtain ⟨d', hmoved⟩ := advanceTo_moved hx.reflects timestamp
    exact hof hmoved fun hnone => advanceTo_inflight hnone timestamp
  | onMarketEvent event uuid =>
    obtain ⟨d', hmoved⟩ := onMarketEvent_moved hx.reflects hop
    exact hof hmoved fun hnone => (applyEvent_kept _ event uuid).inflight.trans
      (advanceTo_inflight hnone event.timestamp)

/-- A run keeps an invariant. -/
theorem run (hI : DeskInvariant F config G I) {ops : List Op}
    (h : (machine config).Run (Guarded F G) x ops y) (hx : Keeps F config I x) :
    Keeps F config I y := by
  refine h.invariant (I := Keeps F config I) ?_ hx
  rintro x op y hop hstep hx
  cases hstep
  exact hI.apply hop hx

/-- Every reachable state has an invariant that a desk without orders has. -/
theorem reachable (hI : DeskInvariant F config G I) (hempty : I Desk.empty)
    (h : (machine config).ReachableUnder (Guarded F G) x) : Keeps F config I x := by
  obtain ⟨ops, hrun⟩ := h
  exact hI.run hrun ⟨Desk.empty, records_empty config, hempty⟩

/-- What the moves of an entry keep, and new entries have, holds of all entries. -/
theorem of_entries {E : Entry → Prop}
    (hmove : ∀ {e act e' fills}, e.Placed → Desk.Moves config e act e' fills → E e → E e')
    (hsent : ∀ {x : PaperExchange} {request : OrderRequest}, x.config = config → G x request →
      E (x.sentEntry request))
    (hrefused : ∀ {x : PaperExchange} {request : OrderRequest}, G x request →
      E (x.refusedEntry request)) :
    DeskInvariant F config G fun d => ∀ r e, d.entries.get? r = some e → E e := by
  have hput : ∀ {d : Desk} {r e}, (∀ r e, d.entries.get? r = some e → E e) → E e →
      ∀ q f, (d.put r e).entries.get? q = some f → E f := by
    intro d r e hd he q f hq
    rw [d.get?_put] at hq
    rcases look_update hq with ⟨-, rfl⟩ | ⟨-, hold⟩
    · exact he
    · exact hd q f hold
  refine ⟨fun hplaced hstep hd => ?_, fun hx hrequest _ hd => hput hd (hsent hx.config hrequest),
    fun _ hrequest hd => hput hd (hrefused hrequest)⟩
  cases hstep with
  | move hentry hmoves =>
    exact hput hd (hmove (hplaced _ _ hentry) hmoves (hd _ _ hentry))

/-- Two invariants are one. -/
theorem and {J : Desk → Prop} (hI : DeskInvariant F config G I) (hJ : DeskInvariant F config G J) :
    DeskInvariant F config G fun d => I d ∧ J d where
  move := fun hplaced hstep hd => ⟨hI.move hplaced hstep hd.1, hJ.move hplaced hstep hd.2⟩
  sent := fun hx hrequest hpass hd =>
    ⟨hI.sent hx hrequest hpass hd.1, hJ.sent hx hrequest hpass hd.2⟩
  refused := fun hx hrequest hd =>
    ⟨hI.refused hx hrequest hd.1, hJ.refused hx hrequest hd.2⟩

end DeskInvariant

end PaperExchange

end QuantumSentinel.Exchange
