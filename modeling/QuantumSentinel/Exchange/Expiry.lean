import QuantumSentinel.Exchange.Submissions

/-!
# Paper exchange: expiry

An order with an `expires_at` that rests or waits for its trigger is taken out before the
first event at or after that time.  The order that reaches the engine at or after its expiry
executes against the book all the same.

Main results:

- Theorem `PaperExchange.fills_before_expiry`: no order is filled at or after its expiry
  when every order reaches the engine before its own.
- Theorem `PaperExchange.late_fills`: an order that arrives after its expiry, and an order
  whose id the feed reuses, are filled after it.
-/

namespace QuantumSentinel.Exchange

open Lib

variable {F : String → Prop}

/-! ## Terms along a path -/

/-- The action closes an order. -/
def Act.Closes (act : Act) : Prop :=
  ∃ r status, act = .close r status

theorem Act.Closes.hits {act : Act} (h : act.Closes) : act.hits = [] := by
  obtain ⟨r, status, rfl⟩ := h
  rfl

section Paths

variable {config : ExchangeConfig} {d d' : Desk} {acts : List Act} {r : Ref} {e e' : Entry}

/-- The terms of an order are those it had. -/
theorem Desk.terms_of_path (h : Path (Desk.MoveStep config) d acts d')
    (hr : d'.entries.get? r = some e') :
    ∃ e, d.entries.get? r = some e ∧ SameOrder e.ticket e'.ticket := by
  induction h with
  | nil => exact ⟨e', hr, SameOrder.refl _⟩
  | @cons d₀ _ _ act _ step _ ih =>
    obtain ⟨e, he, hsame⟩ := ih hr
    cases step with
    | @move e₁ e₂ fills hentry hmoves =>
      have hput := (congrFun (d₀.get?_put act.ref e₂) r).symm.trans he
      rcases look_update hput with ⟨rfl, rfl⟩ | ⟨-, hold⟩
      · exact ⟨e₁, hentry, hmoves.terms.trans hsame⟩
      · exact ⟨e, hold, hsame⟩

/-- No order is forgotten, and its terms stay; one that is nowhere stays there. -/
theorem Desk.kept_of_path (h : Path (Desk.MoveStep config) d acts d')
    (hr : d.entries.get? r = some e) :
    ∃ e', d'.entries.get? r = some e' ∧ SameOrder e.ticket e'.ticket ∧
      (e.place = .gone → e'.place = .gone) := by
  induction h generalizing e with
  | nil => exact ⟨e, hr, SameOrder.refl _, id⟩
  | @cons d₀ _ _ act _ step _ ih =>
    cases step with
    | @move e₁ e₂ fills hentry hmoves =>
      have hput := d₀.get?_put act.ref e₂
      by_cases href : r = act.ref
      · rw [href, hentry] at hr
        cases hr
        obtain ⟨e', he', hsame, -⟩ := ih (e := e₂)
          ((congrFun hput r).trans (by rw [href, Function.update_self]))
        exact ⟨e', he', hmoves.terms.trans hsame, fun hgone => absurd hgone hmoves.not_gone⟩
      · exact ih ((congrFun hput r).trans ((Function.update_of_ne href ..).trans hr))

/-- Whoever is somewhere was so before, or moved in between. -/
theorem Desk.live_of_path (h : Path (Desk.MoveStep config) d acts d')
    (hr : d'.entries.get? r = some e') (hlive : e'.place ≠ .gone) :
    d.entries.get? r = some e' ∨ ∃ act ∈ acts, act.ref = r ∧ ¬act.Closes := by
  induction h with
  | nil => exact Or.inl hr
  | @cons d₀ _ _ act _ step _ ih =>
    rcases ih hr with hmid | ⟨later, hlater, href, hopen⟩
    · cases step with
      | @move e₁ e₂ fills hentry hmoves =>
        have hput := (congrFun (d₀.get?_put act.ref e₂) r).symm.trans hmid
        rcases look_update hput with ⟨rfl, rfl⟩ | ⟨-, hold⟩
        · refine Or.inr ⟨act, List.mem_cons_self .., rfl, ?_⟩
          rintro ⟨q, status, rfl⟩
          cases hmoves with
          | close => exact hlive rfl
        · exact Or.inl hold
    · exact Or.inr ⟨later, List.mem_cons_of_mem _ hlater, href, hopen⟩

end Paths

namespace PaperExchange

variable {x y : PaperExchange} {flights flights' : List Flight} {d d' : Desk} {r : Ref}

/-! ## Orders that are in time -/

/-- No fill of an order has a timestamp at or after the expiry of the order. -/
def NoLateFill (x : PaperExchange) : Prop :=
  ∀ r ∈ x.orderHistory, ∀ f ∈ x.fillHistory, f.orderId = (x.order r).orderId →
    ∀ expiresAt ∈ (x.order r).expiresAt, f.timestamp < expiresAt

/-- The flights that the clock releases reach the engine before their orders expire. -/
def InTime (x : PaperExchange) (timestamp : ℚ) : Prop :=
  ∀ f ∈ x.inflight, f.arrival ≤ timestamp + eps →
    ∀ expiresAt ∈ (x.order f.order).expiresAt, f.arrival < expiresAt

/-- Every order that the operation brings to the engine arrives before it expires. -/
def OnTime (x : PaperExchange) : Op → Prop
  | .submitOrder request =>
    x.config.latencyMs = 0 → ∀ expiresAt ∈ request.expiresAt, x.currentTime < expiresAt
  | .cancelOrder _ => True
  | .advanceTo timestamp => x.InTime timestamp
  | .onMarketEvent event _ => x.InTime event.timestamp

instance (x : PaperExchange) : Decidable x.NoLateFill :=
  inferInstanceAs (Decidable (∀ r ∈ x.orderHistory, ∀ f ∈ x.fillHistory,
    f.orderId = (x.order r).orderId → ∀ expiresAt ∈ (x.order r).expiresAt, f.timestamp < expiresAt))

instance (x : PaperExchange) (timestamp : ℚ) : Decidable (x.InTime timestamp) :=
  inferInstanceAs (Decidable (∀ f ∈ x.inflight, f.arrival ≤ timestamp + eps →
    ∀ expiresAt ∈ (x.order f.order).expiresAt, f.arrival < expiresAt))

instance (x : PaperExchange) : (op : Op) → Decidable (x.OnTime op)
  | .submitOrder request => inferInstanceAs (Decidable (x.config.latencyMs = 0 →
      ∀ expiresAt ∈ request.expiresAt, x.currentTime < expiresAt))
  | .cancelOrder _ => inferInstanceAs (Decidable True)
  | .advanceTo timestamp => inferInstanceAs (Decidable (x.InTime timestamp))
  | .onMarketEvent event _ => inferInstanceAs (Decidable (x.InTime event.timestamp))

/-- The orders are on time, and the feed has ids of its own. -/
def Timely (F : String → Prop) (x : PaperExchange) (op : Op) : Prop :=
  x.OwnIds F op ∧ x.OnTime op

instance [DecidablePred F] (x : PaperExchange) (op : Op) : Decidable (x.Timely F op) :=
  inferInstanceAs (Decidable (x.OwnIds F op ∧ x.OnTime op))

/-- What holds of the clock, the orders and the fills when every order is in time. -/
structure Punctual (F : String → Prop) (x : PaperExchange) (flights : List Flight) (d : Desk) :
    Prop where
  mirrors : Mirrors F x (flights.map Flight.order) d
  clock : 0 ≤ x.currentTime
  arrivals : ∀ f ∈ flights, 0 ≤ f.arrival ∧
    ∀ e, d.entries.get? f.order = some e → e.ticket.activeAt = some f.arrival
  /-- the clock looks for orders to expire -/
  watched : ∀ r e, d.entries.get? r = some e → e.place ≠ .gone →
    e.ticket.expiresAt.isSome = true → x.hasExpiring = true
  /-- an expiry of zero would be none -/
  expires : ∀ r e, d.entries.get? r = some e → e.AtEngine →
    ∀ expiresAt ∈ e.ticket.expiresAt, expiresAt ≠ 0
  settled : ∀ f ∈ x.fillHistory, ∃ r e, d.entries.get? r = some e ∧
    f.orderId = e.ticket.orderId ∧ ∀ expiresAt ∈ e.ticket.expiresAt, f.timestamp < expiresAt

/-- A stage whose executions come before the expiry keeps everything in time. -/
theorem Punctual.stage (h : Punctual F x flights d) {now : ℚ} {acts : List Act}
    (hstage : Stage F x d now acts y (flights'.map Flight.order) d')
    (hclock : y.currentTime = x.currentTime) (hwatch : y.hasExpiring = x.hasExpiring)
    (hsub : ∀ f ∈ flights', f ∈ flights)
    (hexpires : ∀ act ∈ acts, ¬act.Closes → ∀ e, d.entries.get? act.ref = some e →
      ∀ expiresAt ∈ e.ticket.expiresAt, expiresAt ≠ 0)
    (hbefore : ∀ act ∈ acts, act.hits ≠ [] → ∀ e, d.entries.get? act.ref = some e →
      ∀ expiresAt ∈ e.ticket.expiresAt, now < expiresAt) : Punctual F y flights' d' := by
  refine ⟨hstage.mirrors, hclock ▸ h.clock, ?_, ?_, ?_, ?_⟩
  · intro f hf
    refine ⟨(h.arrivals f (hsub f hf)).1, fun e he => ?_⟩
    obtain ⟨e₀, h₀, hsame⟩ := Desk.terms_of_path hstage.path he
    exact hsame.activeAt.trans ((h.arrivals f (hsub f hf)).2 e₀ h₀)
  · intro r e hr hplace hsome
    obtain ⟨e₀, h₀, hsame⟩ := Desk.terms_of_path hstage.path hr
    rw [hwatch]
    refine h.watched r e₀ h₀ (fun hgone => hplace ?_) (hsame.expiresAt ▸ hsome)
    obtain ⟨e', he', -, hstays⟩ := Desk.kept_of_path hstage.path h₀
    rw [hr] at he'
    cases he'
    exact hstays hgone
  · intro r e hr hat
    have hlive : e.place ≠ .gone := by
      rcases hat with hp | hp <;> rw [hp] <;> exact fun hf => by cases hf
    rcases Desk.live_of_path hstage.path hr hlive with hold | ⟨act, hact, rfl, hopen⟩
    · exact h.expires r e hold hat
    · obtain ⟨e₀, h₀, hsame⟩ := Desk.terms_of_path hstage.path hr
      rw [hsame.expiresAt]
      exact hexpires act hact hopen e₀ h₀
  · intro f hf
    obtain ⟨r, e, hr, hid, hbound⟩ : ∃ r e, d.entries.get? r = some e ∧
        f.orderId = e.ticket.orderId ∧ ∀ expiresAt ∈ e.ticket.expiresAt, f.timestamp < expiresAt := by
      rcases hstage.fills f hf with hold | ⟨hnow, act, hact, hhits, g, hg, hgid⟩
      · exact h.settled f hold
      · exact ⟨act.ref, g, hg, hgid, hnow ▸ hbefore act hact hhits g hg⟩
    obtain ⟨e', he', hsame, -⟩ := Desk.kept_of_path hstage.path hr
    exact ⟨r, e', he', hid.trans hsame.orderId.symm, hsame.expiresAt ▸ hbound⟩

/-- When every order is in time, no fill is late. -/
theorem Punctual.noLateFill (h : Punctual F x flights d) : x.NoLateFill := by
  intro r hr f hf hid
  rw [h.mirrors.history] at hr
  obtain ⟨e, he⟩ : ∃ e, d.entries.get? r = some e := by
    cases hlook : d.entries.get? r with
    | none => exact absurd hr (Dict.get?_eq_none_iff.mp hlook)
    | some e => exact ⟨e, rfl⟩
  have hticket := h.mirrors.engine.book.sim.ticket r e he
  obtain ⟨q, g, hg, hgid, hbound⟩ := h.settled f hf
  have hsame : q = r := h.mirrors.engine.book.sim.unique r q e g he hg
    (hgid.symm.trans (hid.trans (congrArg Ticket.orderId hticket).symm))
  rw [hsame, he] at hg
  cases hg
  have hexpires : (x.order r).expiresAt = e.ticket.expiresAt :=
    (congrArg Ticket.expiresAt hticket).symm
  rw [hexpires]
  exact hbound

/-! ## Activation and expiry -/

/-- The clock moves on. -/
theorem Punctual.later (h : Punctual F x flights d) (inflight : List Flight) {t : ℚ} (ht : 0 ≤ t) :
    Punctual F { x with inflight := inflight, currentTime := t } flights d :=
  ⟨mirrors_congr h.mirrors rfl rfl rfl rfl rfl rfl rfl rfl, ht, h.arrivals, h.watched, h.expires,
    h.settled⟩

/-- An order that arrives before its expiry executes in time. -/
theorem activate_punctual {f : Flight} {rest : List Flight} (h : Punctual F x (f :: rest) d)
    (htime : ∀ e, d.entries.get? f.order = some e →
      ∀ expiresAt ∈ e.ticket.expiresAt, f.arrival < expiresAt) :
    ∃ acts d', Path (Desk.MoveStep x.config) d acts d' ∧
      Punctual F (x.activate f.order) rest d' := by
  obtain ⟨act, e', d', href, -, -, hstage⟩ := activate_stage h.mirrors
  obtain ⟨e, he, -⟩ := (h.mirrors.flying f.order).mp (List.mem_cons_self ..)
  obtain ⟨hnonneg, hactive⟩ := h.arrivals f (List.mem_cons_self ..)
  have hnow : (x.order f.order).activeAt.getD x.currentTime = f.arrival := by
    have hticket : (x.order f.order).activeAt = e.ticket.activeAt :=
      (congrArg Ticket.activeAt (h.mirrors.engine.book.sim.ticket _ e he)).symm
    rw [hticket, hactive e he]
    rfl
  rw [hnow] at hstage
  have hkept := activate_kept x f.order
  refine ⟨_, d', hstage.path, h.stage hstage hkept.currentTime hkept.hasExpiring
    (fun g hg => List.mem_cons_of_mem f hg) ?_ ?_⟩
  · intro act' hact _ g hg expiresAt hexpires
    rw [List.mem_singleton.mp hact, href] at hg
    exact (hnonneg.trans_lt (htime g hg expiresAt hexpires)).ne'
  · intro act' hact _ g hg
    rw [List.mem_singleton.mp hact, href] at hg
    exact htime g hg

/-- The orders at the engine expire after the clock. -/
def Unexpired (d : Desk) (now : ℚ) : Prop :=
  ∀ r e, d.entries.get? r = some e → e.AtEngine →
    ∀ expiresAt ∈ e.ticket.expiresAt, now < expiresAt

/-- What the clock takes out is not filled, and what it leaves has not expired. -/
theorem expirePassed_punctual (h : Punctual F x flights d) :
    ∃ d', Punctual F x.expirePassed flights d' ∧ Unexpired d' x.currentTime := by
  obtain ⟨acts, d', hstage, hcloses, hlive⟩ := expirePassed_stage h.mirrors
  have hkept := expirePassed_kept x
  have hall : ∀ act ∈ acts, act.Closes := fun act hact => by
    obtain ⟨r, -, rfl, -⟩ := hcloses act hact
    exact ⟨r, .expired, rfl⟩
  have hpunctual : Punctual F x.expirePassed flights d' :=
    h.stage hstage hkept.currentTime hkept.hasExpiring (fun f hf => hf)
      (fun act hact hopen => absurd (hall act hact) hopen)
      (fun act hact hhits => absurd (hall act hact).hits hhits)
  refine ⟨d', hpunctual, fun r e hr hat expiresAt hexpires => ?_⟩
  have hne := hpunctual.expires r e hr hat expiresAt hexpires
  have hplace : e.place ≠ .gone := by
    rcases hat with hp | hp <;> rw [hp] <;> exact fun hf => by cases hf
  rw [Option.mem_def] at hexpires
  have hwatched := hpunctual.watched r e hr hplace (by rw [hexpires]; rfl)
  rw [hkept.hasExpiring] at hwatched
  have hnot := hlive hwatched r e hr hat
  rw [Ticket.isExpired, hexpires] at hnot
  by_contra hpassed
  have hdue : (decide (expiresAt ≠ 0) && decide (expiresAt ≤ x.currentTime)) = true := by
    rw [Bool.and_eq_true, decide_eq_true_eq, decide_eq_true_eq]
    exact ⟨hne, not_lt.mp hpassed⟩
  rw [Option.any_some, hdue] at hnot
  cases hnot

/-! ## Operations -/

/-- The clock keeps everything in time when what it releases is in time. -/
theorem advanceTo_punctual (h : Punctual F x x.inflight d) {timestamp : ℚ}
    (htime : x.InTime timestamp) :
    ∃ d', Punctual F (x.advanceTo timestamp) (x.advanceTo timestamp).inflight d' ∧
      Unexpired d' timestamp := by
  have hdue : ∀ f ∈ x.inflight, f.arrival ≤ timestamp + eps →
      ∀ e, d.entries.get? f.order = some e → ∀ expiresAt ∈ e.ticket.expiresAt,
        f.arrival < expiresAt := by
    intro f hf hle e he
    have hexpires : (x.order f.order).expiresAt = e.ticket.expiresAt :=
      (congrArg Ticket.expiresAt (h.mirrors.engine.book.sim.ticket _ e he)).symm
    exact hexpires ▸ htime f hf hle
  have hstep : ∀ (z : PaperExchange) (f : Flight) (rest : List Flight),
      (∃ d', Punctual F z (f :: rest) d' ∧ ∀ g ∈ f :: rest, g.arrival ≤ timestamp + eps →
        ∀ e, d'.entries.get? g.order = some e → ∀ expiresAt ∈ e.ticket.expiresAt,
          g.arrival < expiresAt) → f.arrival ≤ timestamp + eps →
      ∃ d', Punctual F ({ z with
          inflight := rest, currentTime := max z.currentTime f.arrival }.activate f.order) rest d' ∧
        ∀ g ∈ rest, g.arrival ≤ timestamp + eps →
          ∀ e, d'.entries.get? g.order = some e → ∀ expiresAt ∈ e.ticket.expiresAt,
            g.arrival < expiresAt := by
    rintro z f rest ⟨d', hz, hahead⟩ hle
    have hnow : 0 ≤ max z.currentTime f.arrival := le_max_of_le_left hz.clock
    obtain ⟨acts, d'', hpath, hnext⟩ := activate_punctual (hz.later rest hnow)
      (hahead f (List.mem_cons_self ..) hle)
    refine ⟨d'', hnext, fun g hg hgle e he => ?_⟩
    obtain ⟨e₀, h₀, hsame⟩ := Desk.terms_of_path hpath he
    rw [hsame.expiresAt]
    exact hahead g (List.mem_cons_of_mem f hg) hgle e₀ h₀
  obtain ⟨y, left, hreleased, ⟨d₁, hpunctual, -⟩, -⟩ := releaseFrom_rule
    (I := fun z flights => ∃ d', Punctual F z flights d' ∧
      ∀ g ∈ flights, g.arrival ≤ timestamp + eps → ∀ e, d'.entries.get? g.order = some e → ∀ expiresAt ∈ e.ticket.expiresAt,
        g.arrival < expiresAt) hstep x.inflight ⟨d, h, hdue⟩
  rw [advanceTo_eq, hreleased]
  have hnow : 0 ≤ max y.currentTime timestamp := le_max_of_le_left hpunctual.clock
  obtain ⟨d₂, hpassed, hlive⟩ := expirePassed_punctual (hpunctual.later left hnow)
  refine ⟨d₂, ?_, fun r e hr hat expiresAt hexpires =>
    (le_max_right _ _).trans_lt (hlive r e hr hat expiresAt hexpires)⟩
  rw [(expirePassed_kept _).inflight]
  exact hpassed

/-- A feed event fills orders that have not expired. -/
theorem onMarketEvent_punctual (h : Punctual F x x.inflight d) {event : BookEvent}
    (htime : x.InTime event.timestamp) {uuid : HexId} (hevent : F (event.idOr uuid)) :
    ∃ d', Punctual F (x.onMarketEvent event uuid) (x.onMarketEvent event uuid).inflight d' := by
  obtain ⟨d₁, hadvanced, hlive⟩ := advanceTo_punctual h htime
  obtain ⟨acts, d₂, hstage, hat⟩ := applyEvent_stage hadvanced.mirrors hevent
  have hkept := applyEvent_kept (x.advanceTo event.timestamp) event uuid
  have hentry : ∀ act ∈ acts, ∀ e, d₁.entries.get? act.ref = some e → e.AtEngine := by
    intro act hact e he
    obtain ⟨g, hg, hplace⟩ := hat act hact
    rw [he] at hg
    cases hg
    exact hplace
  refine ⟨d₂, ?_⟩
  rw [onMarketEvent_eq, hkept.inflight]
  exact hadvanced.stage hstage hkept.currentTime hkept.hasExpiring (fun f hf => hf)
    (fun act hact _ e he => hadvanced.expires _ e he (hentry act hact e he))
    (fun act hact _ e he => hlive _ e he (hentry act hact e he))

/-- A cancel fills nothing. -/
theorem cancelOrder_punctual (h : Punctual F x x.inflight d) (id : String) :
    ∃ d', Punctual F (x.cancelOrder id) (x.cancelOrder id).inflight d' := by
  obtain ⟨acts, d', hstage, hcloses, -⟩ := cancelOrder_stage h.mirrors id
  have hall : ∀ act ∈ acts, act.Closes := fun act hact => by
    obtain ⟨r, rfl⟩ := hcloses act hact
    exact ⟨r, .cancelled, rfl⟩
  have hkept : (x.cancelOrder id).currentTime = x.currentTime ∧
      (x.cancelOrder id).hasExpiring = x.hasExpiring ∧
        ∀ f ∈ (x.cancelOrder id).inflight, f ∈ x.inflight := by
    unfold cancelOrder
    split
    · exact ⟨rfl, rfl, fun f hf => List.mem_of_mem_eraseP hf⟩
    · exact ⟨rfl, rfl, fun f hf => hf⟩
  exact ⟨d', h.stage hstage hkept.1 hkept.2.1 hkept.2.2
    (fun act hact hopen => absurd (hall act hact) hopen)
    (fun act hact hhits => absurd (hall act hact).hits hhits)⟩

/-- A new order has no fills. -/
theorem Punctual.enter (h : Punctual F x flights d) {e : Entry}
    (hmirrors : Mirrors F y (flights'.map Flight.order) (d.put x.book.nextRef e))
    (hclock : y.currentTime = x.currentTime) (hfills : y.fillHistory = x.fillHistory)
    (hwatch : x.hasExpiring = true → y.hasExpiring = true) (hat : ¬e.AtEngine)
    (hwatched : e.place ≠ .gone → e.ticket.expiresAt.isSome = true → y.hasExpiring = true)
    (harrivals : ∀ f ∈ flights', f ∈ flights ∨ (f.order = x.book.nextRef ∧ 0 ≤ f.arrival ∧
      e.ticket.activeAt = some f.arrival)) : Punctual F y flights' (d.put x.book.nextRef e) := by
  have hnew := get?_nextRef h.mirrors
  have hlook := d.get?_put x.book.nextRef e
  refine ⟨hmirrors, hclock ▸ h.clock, ?_, ?_, ?_, ?_⟩
  · intro f hf
    rcases harrivals f hf with hold | ⟨horder, hnonneg, hactive⟩
    · refine ⟨(h.arrivals f hold).1, fun g hg => (h.arrivals f hold).2 g ?_⟩
      obtain ⟨g₀, h₀, -⟩ := (h.mirrors.flying f.order).mp (List.mem_map_of_mem hold)
      rw [hlook] at hg
      rcases look_update hg with ⟨horder, -⟩ | ⟨-, hkept⟩
      · rw [horder, hnew] at h₀
        cases h₀
      · exact hkept
    · refine ⟨hnonneg, fun g hg => ?_⟩
      rw [hlook, horder, Function.update_self] at hg
      cases hg
      exact hactive
  · intro r g hr hplace hsome
    rw [hlook] at hr
    rcases look_update hr with ⟨-, rfl⟩ | ⟨-, hold⟩
    · exact hwatched hplace hsome
    · exact hwatch (h.watched r g hold hplace hsome)
  · intro r g hr hplace
    rw [hlook] at hr
    rcases look_update hr with ⟨-, rfl⟩ | ⟨-, hold⟩
    · exact absurd hplace hat
    · exact h.expires r g hold hplace
  · intro f hf
    obtain ⟨r, g, hg, hsettled⟩ := h.settled f (hfills ▸ hf)
    refine ⟨r, g, ?_, hsettled⟩
    rw [hlook]
    refine (Function.update_of_ne ?_ ..).trans hg
    rintro rfl
    rw [hnew] at hg
    cases hg

/-- A submission keeps everything in time when an order that arrives at once is in time. -/
theorem submitOrder_punctual (h : Punctual F x x.inflight d)
    (hfree : ¬F (paperId (x.orderSeq + 1))) {request : OrderRequest}
    (htime : x.config.latencyMs = 0 → ∀ expiresAt ∈ request.expiresAt, x.currentTime < expiresAt) :
    ∃ d', Punctual F (x.submitOrder request) (x.submitOrder request).inflight d' := by
  have hlatency : 0 ≤ x.config.latencyMs / 1000 :=
    div_nonneg x.config.latency_nonneg (by norm_num)
  have harrival : 0 ≤ x.arrivalTime := add_nonneg h.clock hlatency
  cases hreason : x.pretradeRejectReason (x.requestedOrder request) with
  | some reason =>
    have hmirrors := (refused_mirrors h.mirrors hfree hreason).2
    refine ⟨d.put x.book.nextRef (x.refusedEntry request), ?_⟩
    rw [submitOrder_refused hreason] at hmirrors ⊢
    exact h.enter hmirrors rfl rfl id (fun hat => by rcases hat with hp | hp <;> cases hp)
      (fun hplace => absurd rfl hplace) fun f hf => Or.inl hf
  | none =>
    have hentered := (entered_mirrors h.mirrors hfree hreason).2
    have hflying : Punctual F (x.entered request)
        (⟨x.arrivalTime, x.seq, x.book.nextRef⟩ :: x.inflight)
        (d.put x.book.nextRef (x.sentEntry request)) := by
      refine h.enter hentered rfl rfl (fun hwatch => ?_)
        (fun hat => by rcases hat with hp | hp <;> cases hp) (fun _ hsome => ?_) fun f hf => ?_
      · show (x.hasExpiring || request.expiresAt.isSome) = true
        rw [hwatch, Bool.true_or]
      · show (x.hasExpiring || request.expiresAt.isSome) = true
        have hrequest : request.expiresAt.isSome = true := hsome
        rw [hrequest, Bool.or_true]
      · rcases List.mem_cons.mp hf with rfl | hold
        · exact Or.inr ⟨rfl, harrival, rfl⟩
        · exact Or.inl hold
    rw [submitOrder_accepted hreason]
    split
    · have hmirrors := launched_mirrors h.mirrors hfree hreason
      refine ⟨_, hmirrors, hflying.clock, fun f hf => hflying.arrivals f ?_, hflying.watched,
        hflying.expires, hflying.settled⟩
      exact (pushFlight_perm _ _).mem_iff.mp hf
    · rename_i hzero
      have hnone : x.config.latencyMs = 0 := le_antisymm (not_lt.mp hzero) x.config.latency_nonneg
      have hnow : x.arrivalTime = x.currentTime := by
        rw [arrivalTime, hnone, zero_div, add_zero]
      obtain ⟨acts, d', -, hpunctual⟩ := activate_punctual hflying fun e he => by
        rw [d.get?_put, Function.update_self] at he
        cases he
        exact hnow.symm ▸ htime hnone
      refine ⟨d', ?_⟩
      rw [(activate_kept _ _).inflight]
      exact hpunctual

/-- Every operation that is in time keeps everything in time. -/
theorem apply_punctual (h : Punctual F x x.inflight d) {op : Op} (hop : x.Timely F op) :
    ∃ d', Punctual F (x.apply op) (x.apply op).inflight d' := by
  cases op with
  | submitOrder request => exact submitOrder_punctual h hop.1 hop.2
  | cancelOrder id => exact cancelOrder_punctual h id
  | advanceTo timestamp =>
    obtain ⟨d', hpunctual, -⟩ := advanceTo_punctual h hop.2
    exact ⟨d', hpunctual⟩
  | onMarketEvent event uuid => exact onMarketEvent_punctual h hop.2 hop.1

/-- No order is filled at or after its expiry when every order is in time. -/
theorem fills_before_expiry {config : ExchangeConfig}
    (h : (machine config).ReachableUnder (Timely F) x) : x.NoLateFill := by
  obtain ⟨d, hpunctual⟩ : ∃ d, Punctual F x x.inflight d := by
    refine h.invariant (I := fun x => ∃ d, Punctual F x x.inflight d) ⟨Desk.empty, ?_⟩ ?_
    · exact ⟨reflects_empty config, le_rfl, fun f hf => (by cases hf), fun r e hr => (by cases hr),
        fun r e hr => (by cases hr), fun f hf => (by cases hf)⟩
    · rintro x op y hop hstep ⟨d, hpunctual⟩
      cases hstep
      exact apply_punctual hpunctual hop
  exact hpunctual.noLateFill

/-- An order that is filled before it expires. -/
def timelyRun : List Op :=
  [.onMarketEvent ⟨1, .add, .sell, 100, 10, some "m1"⟩ OrderBook.zeros,
    .submitOrder ⟨.buy, 1, .limit, some 99, none, .gtc, some 10⟩,
    .onMarketEvent ⟨5, .trade, .sell, 99, 10, none⟩ OrderBook.zeros,
    .advanceTo 12]

theorem fills_before_expiry_timely :
    ∃ x, (machine oneSecond).execUnder (Timely (· ≠ "P00000001")) (empty oneSecond) timelyRun =
        some x ∧ x.fillHistory.map Fill.timestamp = [5] ∧ x.NoLateFill := by
  have hrun : ((machine oneSecond).execUnder (Timely (· ≠ "P00000001")) (empty oneSecond)
      timelyRun).map (fun x => x.fillHistory.map Fill.timestamp) = some [5] := by
    decide +kernel
  obtain ⟨x, hexec, htimes⟩ := Option.map_eq_some_iff.mp hrun
  exact ⟨x, hexec, htimes, fills_before_expiry (Machine.reachableUnder_of_execUnder hexec)⟩

/-- The times of the feed. -/
def feedTimes (ops : List Op) : List ℚ :=
  ops.filterMap fun op =>
    match op with
    | .onMarketEvent event _ => some event.timestamp
    | .advanceTo timestamp => some timestamp
    | _ => none

/-- A market order that expires while it is in flight. -/
def lateArrival : List Op :=
  [.onMarketEvent ⟨1, .add, .sell, 100, 10, some "m1"⟩ OrderBook.zeros,
    .submitOrder ⟨.buy, 1, .market, none, none, .gtc, some (3 / 2)⟩,
    .advanceTo 3]

/-- A resting order whose id the feed uses for another order. -/
def reusedId : List Op :=
  [.submitOrder ⟨.buy, 1, .limit, some 99, none, .gtc, some 5⟩,
    .onMarketEvent ⟨3, .add, .buy, 98, 10, some "P00000001"⟩ OrderBook.zeros,
    .onMarketEvent ⟨7, .trade, .sell, 99, 10, none⟩ OrderBook.zeros]

/-- The order in flight is filled half a second after its expiry, and the resting one two
seconds after its own. -/
theorem late_fills :
    ((feedTimes lateArrival).Pairwise (· ≤ ·) ∧
      ∃ x, (machine oneSecond).exec (empty oneSecond) lateArrival = some x ∧
        x.fillHistory.map Fill.timestamp = [2] ∧ ¬x.NoLateFill) ∧
    (feedTimes reusedId).Pairwise (· ≤ ·) ∧
      ∃ x, (machine instant).exec (empty instant) reusedId = some x ∧
        x.fillHistory.map Fill.timestamp = [7] ∧ ¬x.NoLateFill := by
  have hlate : ((machine oneSecond).exec (empty oneSecond) lateArrival).map
      (fun x => (x.fillHistory.map Fill.timestamp, decide x.NoLateFill)) = some ([2], false) := by
    decide +kernel
  have hreused : ((machine instant).exec (empty instant) reusedId).map
      (fun x => (x.fillHistory.map Fill.timestamp, decide x.NoLateFill)) = some ([7], false) := by
    decide +kernel
  obtain ⟨x, hexec, hx⟩ := Option.map_eq_some_iff.mp hlate
  obtain ⟨y, hexec', hy⟩ := Option.map_eq_some_iff.mp hreused
  rw [Prod.mk.injEq, decide_eq_false_iff_not] at hx hy
  exact ⟨⟨by decide +kernel, x, hexec, hx⟩, by decide +kernel, y, hexec', hy⟩

end PaperExchange

end QuantumSentinel.Exchange
