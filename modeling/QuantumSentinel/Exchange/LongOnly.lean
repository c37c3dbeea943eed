import QuantumSentinel.Exchange.Expiry

/-!
# Paper exchange: one order at a time, long only

A strategy that buys one lot when it is flat, and sells what it holds otherwise, and waits until
its order is no longer working before it places the next one.  Whatever the desk does with such
orders, the position stays between nothing and one lot, and at most one order is working.

Main results:

- Theorem `LongOnly.move`: an action of the desk keeps the position in bounds.
- Theorem `LongOnly.enter`: so does the next order.
- Theorem `Desk.working_of_path`: no order that has ended works again.
-/

namespace QuantumSentinel.Exchange

open Lib

/-! ## Positions after executions -/

/-- A buy adds to a long position. -/
theorem nextQuantity_buy {position size : ℚ} (hlong : 0 ≤ position) (hsize : 0 < size) :
    nextQuantity position .buy size = position + size := by
  have hopens : ¬((0 < position ∧ PaperPosition.signed .buy size < 0) ∨
      (position < 0 ∧ 0 < PaperPosition.signed .buy size)) := by
    rintro (⟨-, hsell⟩ | ⟨hshort, -⟩)
    · exact absurd hsell (not_lt.mpr hsize.le)
    · exact absurd hshort (not_lt.mpr hlong)
  exact if_neg fun hcloses => hopens hcloses.1

/-- A sell within a long position takes its size away, or all that is left. -/
theorem nextQuantity_sell {position size : ℚ} (hle : size ≤ position) :
    nextQuantity position .sell size = position - size ∨
      (nextQuantity position .sell size = 0 ∧ position - size < PaperPosition.flatBelow) := by
  have hleft : 0 ≤ position - size := sub_nonneg.mpr hle
  unfold nextQuantity
  dsimp only
  split
  · rename_i hcloses
    have hflat := hcloses.2.2
    rw [PaperPosition.signed, ← sub_eq_add_neg, abs_of_nonneg hleft] at hflat
    exact Or.inr ⟨rfl, hflat⟩
  · exact Or.inl (sub_eq_add_neg position size).symm

/-- The executions of a buy add their size to a long position. -/
theorem positionAfter_buy {t : Ticket} {hits : List Hit} {position remaining : ℚ}
    (hside : t.side = .buy) (hfits : Fits remaining hits) (hlong : 0 ≤ position) :
    positionAfter position (t.executions hits) = position + hitSize hits := by
  induction hits generalizing t position remaining with
  | nil => exact (add_zero position).symm
  | cons hit rest ih =>
    have hpos : 0 < hit.quantity := eps_pos.trans hfits.1
    have hnext : nextQuantity position t.side hit.quantity = position + hit.quantity := by
      rw [hside]
      exact nextQuantity_buy hlong hpos
    have hrest := ih (t := t.fill hit) hside hfits.2.2 (add_nonneg hlong hpos.le)
    rw [hitSize_cons, ← add_assoc, ← hrest, ← hnext]
    rfl

/-- The executions of a sell take their size from the position, or all that is left. -/
theorem positionAfter_sell {t : Ticket} {hits : List Hit} {position : ℚ}
    (hside : t.side = .sell) (hfits : Fits position hits) (hlong : 0 ≤ position) :
    positionAfter position (t.executions hits) = position - hitSize hits ∨
      (positionAfter position (t.executions hits) = 0 ∧ position - hitSize hits ≤ eps) := by
  induction hits generalizing t position with
  | nil => exact Or.inl (sub_zero position).symm
  | cons hit rest ih =>
    have hpos : 0 < hit.quantity := eps_pos.trans hfits.1
    have hstep : positionAfter position (t.executions (hit :: rest)) =
        positionAfter (nextQuantity position .sell hit.quantity)
          ((t.fill hit).executions rest) := by
      rw [← hside]
      rfl
    have hleft : 0 ≤ position - hit.quantity := sub_nonneg.mpr hfits.2.1
    rw [hstep, hitSize_cons, ← sub_sub]
    rcases nextQuantity_sell hfits.2.1 with hnext | ⟨hnext, hflat⟩
    · rw [hnext]
      exact ih (t := t.fill hit) hside hfits.2.2 hleft
    · -- nothing that fits is left
      have hsmall : position - hit.quantity ≤ eps :=
        hflat.le.trans (by norm_num [PaperPosition.flatBelow, eps])
      have hnone : rest = [] := by
        cases rest with
        | nil => rfl
        | cons next later =>
          exact absurd (hfits.2.2.1.trans_le hfits.2.2.2.1) (not_lt.mpr hsmall)
      subst hnone
      rw [hnext, hitSize_nil, sub_zero]
      exact Or.inr ⟨rfl, hsmall⟩

/-! ## Working orders -/

/-- An order that is somewhere is working. -/
theorem Entry.Placed.working {e : Entry} (h : e.Placed) (hplace : e.place ≠ .gone) :
    e.ticket.status.isWorking = true := by
  rw [Entry.Placed] at h
  cases hcase : e.place with
  | flying =>
    rw [hcase] at h
    rw [h.1]
    rfl
  | stop =>
    rw [hcase] at h
    rw [h.1]
    rfl
  | book =>
    rw [hcase] at h
    rcases h.2.2 with hstatus | hstatus <;> rw [hstatus] <;> rfl
  | gone => exact absurd hcase hplace

/-- An order of more than the tolerance that is nowhere is not working. -/
theorem Entry.Placed.not_working {e : Entry} (h : e.Placed) (hplace : e.place = .gone)
    (hsize : e.ticket.orderType = .limit → eps < e.ticket.quantity) :
    e.ticket.status.isWorking = false := by
  rw [Entry.Placed, hplace] at h
  rcases h with hended | ⟨-, -, htype, hsmall⟩
  · cases hstatus : e.ticket.status <;> rw [hstatus] at hended <;> first | rfl | cases hended
  · exact absurd (hsize htype) (not_lt.mpr hsmall)

section Moves

variable {config : ExchangeConfig} {d d' : Desk} {acts : List Act} {act : Act} {r : Ref}
  {e e' : Entry} {q : ℚ}

/-- A limit order was a limit or a stop-limit order before it moved. -/
theorem Desk.Moves.not_market {fills : List Execution} (h : Desk.Moves config e act e' fills)
    (htype : e'.ticket.orderType ≠ .market) : e.ticket.orderType ≠ .market := by
  intro hmarket
  refine htype ?_
  cases h with
  | close => exact hmarket
  | park => exact hmarket
  | @execute _ _ hits ending =>
    have hstarted : (e.ticket.started.fillAll hits).orderType = .market := by
      rw [(sameTerms_fillAll _ _).orderType, Ticket.started, hmarket]
      rfl
    cases ending with
    | done => exact hstarted
    | closed => exact hstarted
    | rests => exact hstarted
  | passive => exact hmarket

/-- No market order becomes another one. -/
theorem Desk.not_market_of_path (h : Path (Desk.MoveStep config) d acts d')
    (hr : d'.entries.get? r = some e') (htype : e'.ticket.orderType ≠ .market) :
    ∃ e, d.entries.get? r = some e ∧ e.ticket.orderType ≠ .market := by
  induction h with
  | nil => exact ⟨e', hr, htype⟩
  | @cons d₀ _ _ act _ step _ ih =>
    obtain ⟨e, he, hbefore⟩ := ih hr
    cases step with
    | @move e₁ e₂ fills hentry hmoves =>
      have hput := (congrFun (d₀.get?_put act.ref e₂) r).symm.trans he
      rcases look_update hput with ⟨rfl, rfl⟩ | ⟨-, hold⟩
      · exact ⟨e₁, hentry, hmoves.not_market hbefore⟩
      · exact ⟨e, hold, hbefore⟩

/-- No entry appears. -/
theorem Desk.none_of_path (h : Path (Desk.MoveStep config) d acts d')
    (hr : d.entries.get? r = none) : d'.entries.get? r = none := by
  cases hr' : d'.entries.get? r with
  | none => rfl
  | some e =>
    obtain ⟨e₀, h₀, -⟩ := Desk.terms_of_path h hr'
    rw [hr] at h₀
    cases h₀

/-- Every entry is where its status says. -/
theorem Desk.MoveStep.placed (h : Desk.MoveStep config d act d') (hd : AllPlaced d.entries.get?) :
    AllPlaced d'.entries.get? := by
  cases h with
  | @move e₁ e₂ fills hentry hmoves =>
    intro q e hq
    have hput := (congrFun (d.get?_put act.ref e₂) q).symm.trans hq
    rcases look_update hput with ⟨-, rfl⟩ | ⟨-, hold⟩
    · exact hmoves.placed (hd _ _ hentry)
    · exact hd q e hold

/-- No order that has ended works again. -/
theorem Desk.working_of_path (h : Path (Desk.MoveStep config) d acts d')
    (hplaced : AllPlaced d.entries.get?) (hr : d'.entries.get? r = some e')
    (hworks : e'.ticket.status.isWorking = true) :
    ∃ e, d.entries.get? r = some e ∧ e.ticket.status.isWorking = true ∧
      e'.ticket.orderId = e.ticket.orderId := by
  induction h with
  | nil => exact ⟨e', hr, hworks, rfl⟩
  | @cons d₀ _ _ act _ step _ ih =>
    obtain ⟨e, he, hebefore, hid⟩ := ih (step.placed hplaced) hr
    cases step with
    | @move e₁ e₂ fills hentry hmoves =>
      have hput := (congrFun (d₀.get?_put act.ref e₂) r).symm.trans he
      rcases look_update hput with ⟨rfl, rfl⟩ | ⟨-, hold⟩
      · exact ⟨e₁, hentry, (hplaced _ _ hentry).working hmoves.not_gone,
          hid.trans hmoves.terms.orderId⟩
      · exact ⟨e, hold, hebefore, hid⟩

/-! ## The invariant -/

/-- What an open order of the strategy has made of the position. -/
def Entry.Held (q position : ℚ) (e : Entry) : Prop :=
  match e.ticket.side with
  | .buy => e.ticket.quantity = q ∧ position = e.ticket.filled
  | .sell => position = e.ticket.remaining

/-- The position is between nothing and one lot, and at most one order is working. -/
structure LongOnly (q : ℚ) (d : Desk) : Prop where
  placed : AllPlaced d.entries.get?
  long : 0 ≤ d.position
  bounded : d.position ≤ q
  single : ∀ r r' e e', d.entries.get? r = some e → d.entries.get? r' = some e' →
    e.ticket.status.isWorking = true → e'.ticket.status.isWorking = true → r = r'
  held : ∀ r e, d.entries.get? r = some e → e.place ≠ .gone → e.Held q d.position

namespace LongOnly

/-- The desk before the first order. -/
theorem empty (hq : 0 ≤ q) : LongOnly q Desk.empty where
  placed := fun r e hr => by cases hr
  long := le_rfl
  bounded := hq
  single := fun r r' e e' hr => by cases hr
  held := fun r e hr => by cases hr

/-- Executions that fit what remains of an open order leave the position in bounds. -/
theorem after {position : ℚ} (hheld : e.Held q position) (hlong : 0 ≤ position)
    (hbounded : position ≤ q) {t : Ticket} (hits : List Hit) (hside : t.side = e.ticket.side)
    (hfits : Fits e.ticket.remaining hits) {e' : Entry} (hside' : e'.ticket.side = e.ticket.side)
    (hquantity : e'.ticket.quantity = e.ticket.quantity)
    (hfilled : e'.ticket.filled = e.ticket.filled + hitSize hits)
    (hopen : e'.place ≠ .gone → hits = [] ∨ eps < e'.ticket.remaining) :
    0 ≤ positionAfter position (t.executions hits) ∧
      positionAfter position (t.executions hits) ≤ q ∧
        (e'.place ≠ .gone → e'.Held q (positionAfter position (t.executions hits))) := by
  have hsize := hfits.size_nonneg
  have hwithin : 0 ≤ e.ticket.remaining → hitSize hits ≤ e.ticket.remaining := by
    intro hnonneg
    by_cases hnone : hits = []
    · rw [hnone]
      exact hnonneg
    · exact hfits.size_le hnone
  have hleft : e'.ticket.remaining = e.ticket.remaining - hitSize hits := by
    rw [Ticket.remaining, hquantity, hfilled, ← sub_sub]
    rfl
  unfold Entry.Held at hheld ⊢
  rw [hside']
  cases hcase : e.ticket.side with
  | buy =>
    rw [hcase] at hheld hside
    obtain ⟨hlot, hposition⟩ := hheld
    rw [positionAfter_buy hside hfits hlong]
    refine ⟨add_nonneg hlong hsize, ?_, fun _ => ⟨hquantity.trans hlot, ?_⟩⟩
    · have hremaining : e.ticket.remaining = q - position := by
        rw [Ticket.remaining, hlot, hposition]
      rw [hremaining] at hwithin
      linarith [hwithin (sub_nonneg.mpr hbounded)]
    · rw [hfilled, hposition]
  | sell =>
    rw [hcase] at hheld hside
    dsimp only at hheld ⊢
    rw [← hheld] at hfits hleft hwithin
    have hall := hwithin hlong
    rcases positionAfter_sell hside hfits hlong with hsold | ⟨hflat, hsmall⟩
    · rw [hsold, hleft]
      exact ⟨sub_nonneg.mpr hall, (sub_le_self _ hsize).trans hbounded, fun _ => rfl⟩
    · rw [hflat]
      refine ⟨le_rfl, hlong.trans hbounded, fun hplace => ?_⟩
      rcases hopen hplace with rfl | hmore
      · rw [← hflat, hleft, hitSize_nil, sub_zero]
        rfl
      · rw [hleft] at hmore
        exact absurd hmore (not_lt.mpr hsmall)

/-- What a move makes of the position and of an open order. -/
theorem of_moves {position : ℚ} {fills : List Execution}
    (hmoves : Desk.Moves config e act e' fills) (hheld : e.Held q position)
    (hlong : 0 ≤ position) (hbounded : position ≤ q) :
    0 ≤ positionAfter position fills ∧ positionAfter position fills ≤ q ∧
      (e'.place ≠ .gone → e'.Held q (positionAfter position fills)) := by
  cases hmoves with
  | close => exact ⟨hlong, hbounded, fun hplace => absurd rfl hplace⟩
  | park => exact ⟨hlong, hbounded, fun _ => hheld⟩
  | @execute _ _ hits ending hstart hticket hcommitted hfits hlimit hend =>
    have hterms := sameTerms_fillAll e.ticket.started hits
    have hended : (e.ended (e.ticket.started.fillAll hits) ending).ticket.side =
          (e.ticket.started.fillAll hits).side ∧
        (e.ended (e.ticket.started.fillAll hits) ending).ticket.quantity =
          (e.ticket.started.fillAll hits).quantity ∧
        (e.ended (e.ticket.started.fillAll hits) ending).ticket.filled =
          (e.ticket.started.fillAll hits).filled := by
      cases ending <;> exact ⟨rfl, rfl, rfl⟩
    refine after (t := e.ticket.started) hheld hlong hbounded hits rfl hfits
      (hended.1.trans hterms.side)
      (hended.2.1.trans hterms.quantity) (hended.2.2.trans (filled_fillAll _ _)) fun hplace => ?_
    cases ending with
    | done => exact absurd rfl hplace
    | closed => exact absurd rfl hplace
    | rests => exact Or.inr hend.1
  | @passive _ hit hplace hfits hlimit =>
    have hfilled : (e.hit hit).ticket.filled = e.ticket.filled + hitSize [hit] := by
      rw [hitSize_cons, hitSize_nil, add_zero]
      rfl
    refine after (t := e.ticket) hheld hlong hbounded [hit] rfl hfits rfl rfl hfilled
      fun hopen => Or.inr ?_
    by_contra hsmall
    exact hopen (if_pos (not_lt.mp hsmall))

/-- An action of the desk keeps the position in bounds. -/
theorem move (h : LongOnly q d) (hstep : Desk.MoveStep config d act d') : LongOnly q d' := by
  have hplaced := hstep.placed h.placed
  cases hstep with
  | @move e e' fills hentry hmoves =>
    have hworks := (h.placed _ _ hentry).working hmoves.not_gone
    have hothers : ∀ p f, d.entries.get? p = some f → f.ticket.status.isWorking = true →
        p = act.ref := fun p f hf hfworks => h.single p act.ref f e hf hentry hfworks hworks
    have hposition : ((d.put act.ref e').withFills fills).position =
        positionAfter d.position fills := List.foldl_append ..
    have hlook : ∀ {p f}, ((d.put act.ref e').withFills fills).entries.get? p = some f →
        Function.update d.entries.get? act.ref (some e') p = some f := fun {p f} hf =>
      (congrFun (d.get?_put act.ref e') p).symm.trans hf
    obtain ⟨hlong, hbounded, hheld⟩ := of_moves hmoves
      (h.held _ _ hentry hmoves.not_gone) h.long h.bounded
    have hworking : ∀ p f, ((d.put act.ref e').withFills fills).entries.get? p = some f →
        f.ticket.status.isWorking = true → p = act.ref := by
      intro p f hf hfworks
      rcases look_update (hlook hf) with ⟨hp, -⟩ | ⟨-, hold⟩
      · exact hp
      · exact hothers p f hold hfworks
    refine ⟨hplaced, hposition ▸ hlong, hposition ▸ hbounded, ?_, ?_⟩
    · exact fun p p' f f' hf hf' hfworks hfworks' =>
        (hworking p f hf hfworks).trans (hworking p' f' hf' hfworks').symm
    · intro p f hf hplace
      rw [hposition]
      rcases look_update (hlook hf) with ⟨-, rfl⟩ | ⟨hne, hold⟩
      · exact hheld hplace
      · exact absurd (hothers p f hold ((h.placed p f hold).working hplace)) hne

/-- A run of the desk keeps the position in bounds. -/
theorem path (h : LongOnly q d) (hpath : Path (Desk.MoveStep config) d acts d') : LongOnly q d' :=
  hpath.invariant (G := fun _ => True) (fun _ _ _ _ hstep hd => hd.move hstep)
    (fun _ _ => trivial) h

/-- The next order, when no other is working. -/
theorem enter (h : LongOnly q d)
    (hidle : ∀ p f, d.entries.get? p = some f → f.ticket.status.isWorking = false)
    (hplaced : e.Placed) (hheld : e.place ≠ .gone → e.Held q d.position) :
    LongOnly q (d.put r e) := by
  have hlook : ∀ {p f}, (d.put r e).entries.get? p = some f →
      Function.update d.entries.get? r (some e) p = some f := fun {p f} hf =>
    (congrFun (d.get?_put r e) p).symm.trans hf
  have honly : ∀ p f, (d.put r e).entries.get? p = some f → f.ticket.status.isWorking = true →
      p = r := by
    intro p f hf hworks
    rcases look_update (hlook hf) with ⟨hp, -⟩ | ⟨-, hold⟩
    · exact hp
    · rw [hidle p f hold] at hworks
      cases hworks
  refine ⟨fun p f hf => ?_, h.long, h.bounded, ?_, fun p f hf hplace => ?_⟩
  · rcases look_update (hlook hf) with ⟨-, rfl⟩ | ⟨-, hold⟩
    · exact hplaced
    · exact h.placed p f hold
  · exact fun p p' f f' hf hf' hworks hworks' =>
      (honly p f hf hworks).trans (honly p' f' hf' hworks').symm
  · rcases look_update (hlook hf) with ⟨-, rfl⟩ | ⟨-, hold⟩
    · exact hheld hplace
    · have hworks := (h.placed p f hold).working hplace
      rw [hidle p f hold] at hworks
      cases hworks

end LongOnly

end Moves

end QuantumSentinel.Exchange
