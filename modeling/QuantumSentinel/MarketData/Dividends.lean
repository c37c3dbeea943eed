import QuantumSentinel.MarketData.Merging
import QuantumSentinel.MarketData.TotalReturn

/-!
# Market data: which dividends are refused

`total_return_factor` refuses a dividend that is not below the close of the last session
before its ex-date.  A series made of fewer parts has fewer sessions, and another close may come
last.

Main results:

- Theorem `adjusted_isOk_iff`: when a series is adjusted.
- Theorem `adjusted_same`: series with the same content are adjusted in the same way.
- Theorem `adjusted_of_fewer`: when fewer parts of an adjusted series are adjusted too.
-/

namespace QuantumSentinel.MarketData

open Lib

/-! ## The factor -/

section Factor

variable {sessions : List ℤ} {close : List ℚ} {symbol : String}

/-- A dividend between zero and the close before it, if there is one. -/
def Sound (sessions : List ℤ) (close : List ℚ) (d : ℤ × ℚ) : Prop :=
  (∃ s ∈ sessions, s < d.1) → 0 < d.2 ∧ d.2 < previousClose sessions close d.1

/-- A sound dividend is applied to any factors. -/
theorem exists_applyDividend (hsorted : sessions.Pairwise (· < ·))
    (hlength : sessions.length = close.length) {g : ℤ → ℚ} {d : ℤ × ℚ}
    (h : Sound sessions close d) :
    ∃ g', applyDividend sessions close symbol (sessions.map g) d = .ok (sessions.map g') := by
  by_cases hfirst : searchsorted sessions d.1 = 0
  · exact ⟨g, by rw [applyDividend]; exact if_pos hfirst⟩
  · have hbefore : ∃ s ∈ sessions, s < d.1 := by
      by_contra hnone
      refine hfirst (searchsorted_eq_zero_iff.mpr fun s hs => ?_)
      exact not_lt.mp fun hlt => hnone ⟨s, hs, hlt⟩
    refine ⟨fun s => g s * if s < d.1 then remainder sessions close d else 1, ?_⟩
    rw [← scalePrefix_map hsorted]
    simp only [applyDividend, if_neg hfirst, getElem?_previousClose hsorted hlength hfirst,
      if_pos (h hbefore), remainder]

/-- So are sound dividends one after the other. -/
theorem exists_foldlM_applyDividend (hsorted : sessions.Pairwise (· < ·))
    (hlength : sessions.length = close.length) {dividends : List (ℤ × ℚ)} {g : ℤ → ℚ}
    (h : ∀ d ∈ dividends, Sound sessions close d) :
    ∃ factor, dividends.foldlM (applyDividend sessions close symbol) (sessions.map g) =
      .ok factor := by
  induction dividends generalizing g with
  | nil => exact ⟨_, rfl⟩
  | cons d rest ih =>
    obtain ⟨hd, hrest⟩ := List.forall_mem_cons.mp h
    have hturn : ∃ g', applyDividend sessions close symbol (sessions.map g) d =
        .ok (sessions.map g') := exists_applyDividend hsorted hlength hd
    obtain ⟨g', hg'⟩ := hturn
    obtain ⟨factor, hfactor⟩ := ih (g := g') hrest
    refine ⟨factor, ?_⟩
    rw [List.foldlM_cons, hg']
    exact hfactor

/-- A factor is found unless a dividend is refused. -/
theorem totalReturnFactor_isOk_iff {exDates : List ℤ} {amounts : List ℚ}
    (hsorted : sessions.Pairwise (· < ·)) (hlength : sessions.length = close.length) :
    (∃ factor, totalReturnFactor sessions close exDates amounts symbol = .ok factor) ↔
      ∀ d ∈ exDates.zip amounts, Sound sessions close d := by
  constructor
  · rintro ⟨factor, hfactor⟩
    exact (totalReturnFactor_spec hsorted hlength hfactor).2
  · intro h
    have hones : List.replicate close.length (1 : ℚ) = sessions.map fun _ => 1 := by
      rw [List.map_const', hlength]
    rw [totalReturnFactor, hones]
    refine exists_foldlM_applyDividend hsorted hlength fun d hd => h d ?_
    exact (List.mergeSort_perm _ _).mem_iff.mp hd

end Factor

/-! ## Adjusted series -/

/-- The dividends that `total_return_factor` does not refuse. -/
def Series.SoundDividends (s : Series) : Prop :=
  ∀ d ∈ s.dividends.items, Sound (s.bars.map Bar.session) (s.bars.map Bar.close) d

/-- When a series is adjusted. -/
theorem adjusted_isOk_iff {symbol : String} {s : Series} :
    (∃ bars, adjusted symbol s = .ok bars) ↔
      s.identity.adjustment ∈ ["split", "split_dividend"] ∧
        (s.identity.adjustment = "split" → s.SoundDividends) := by
  by_cases hsupported : s.identity.adjustment ∉ ["split", "split_dividend"]
  · simp only [adjusted, if_pos hsupported]
    exact iff_of_false (by rintro ⟨_, h⟩; cases h) fun h => hsupported h.1
  · have hfactor : (∃ factor, totalReturnFactor (s.bars.map Bar.session) (s.bars.map Bar.close)
        s.dividends.keys s.dividends.values symbol = .ok factor) ↔ s.SoundDividends := by
      rw [totalReturnFactor_isOk_iff s.sessions_sorted s.sessions_length, s.zip_dividends]
      rfl
    simp only [adjusted, if_neg hsupported, map_eq_ok_iff]
    rw [and_iff_right (not_not.mp hsupported)]
    by_cases hdividends : s.identity.adjustment = "split" ∧ s.dividends.items ≠ []
    · rw [if_pos hdividends, forall_prop_of_true hdividends.1, ← hfactor]
      constructor
      · rintro ⟨_, factor, h, -⟩
        exact ⟨factor, h⟩
      · rintro ⟨factor, h⟩
        exact ⟨_, factor, h, rfl⟩
    · rw [if_neg hdividends]
      refine iff_of_true ⟨_, _, rfl, rfl⟩ fun hsplit => ?_
      have hnil : s.dividends.items = [] := by
        by_contra hne
        exact hdividends ⟨hsplit, hne⟩
      rw [Series.SoundDividends, hnil]
      exact List.forall_mem_nil _

theorem dividends_perm {s s' : Series} (h : s.Same s') :
    s.dividends.items.Perm s'.dividends.items := by
  have hnodup : ∀ d : Dict ℤ ℚ, d.items.Nodup := fun d => d.nodup.of_map
  rw [List.perm_ext_iff_of_nodup (hnodup _) (hnodup _)]
  rintro ⟨exDate, amount⟩
  rw [← Dict.get?_eq_some_iff, ← Dict.get?_eq_some_iff, h.dividends]

/-- Series with the same content are adjusted in the same way. -/
theorem adjusted_same (symbol : String) {s s' : Series} (h : s.Same s') :
    adjusted symbol s = adjusted symbol s' := by
  have hperm := dividends_perm h
  have hzip : (s.dividends.keys.zip s.dividends.values).Perm
      (s'.dividends.keys.zip s'.dividends.values) := by
    rw [s.zip_dividends, s'.zip_dividends]
    exact hperm
  have hfactor := totalReturnFactor_perm (s'.bars.map Bar.session) (s'.bars.map Bar.close) symbol
    hzip
  have hnil : s.dividends.items ≠ [] ↔ s'.dividends.items ≠ [] :=
    not_congr ⟨fun hs => (hs ▸ hperm).nil_eq.symm, fun hs => (hs ▸ hperm).eq_nil⟩
  simp only [adjusted, h.identity, h.bars, hfactor, hnil]

/-! ## The close before a dividend -/

/-- The last row before a day. -/
def IsPrevious (rows : List Bar) (exDate : ℤ) (b : Bar) : Prop :=
  b ∈ rows ∧ b.session < exDate ∧ ∀ b' ∈ rows, b'.session < exDate → b'.session ≤ b.session

/-- The last bar is the latest. -/
theorem session_le_getLast {bars : List Bar}
    (hascending : bars.Pairwise fun b b' => b.session < b'.session) (hbars : bars ≠ []) :
    ∀ b ∈ bars, b.session ≤ (bars.getLast hbars).session := by
  intro b hb
  rw [← List.dropLast_append_getLast hbars] at hascending hb
  rcases List.mem_append.mp hb with hfront | hlast
  · exact ((List.pairwise_append.mp hascending).2.2 b hfront _ (List.mem_singleton_self _)).le
  · rw [List.mem_singleton.mp hlast]

/-- The rows of a series before a day, the last of them first. -/
theorem getLast?_before (s : Series) (exDate : ℤ) (b : Bar) :
    (s.bars.filter fun b => decide (b.session < exDate)).getLast? = some b ↔
      IsPrevious s.bars exDate b := by
  have hascending := s.ascending.filter fun b => decide (b.session < exDate)
  have hmem : ∀ b, b ∈ (s.bars.filter fun b => decide (b.session < exDate)) ↔
      b ∈ s.bars ∧ b.session < exDate := fun b => by rw [List.mem_filter, decide_eq_true_eq]
  constructor
  · intro h
    have hb := (hmem b).mp (List.mem_of_getLast? h)
    refine ⟨hb.1, hb.2, fun b' hb' hlt => ?_⟩
    have hne := List.ne_nil_of_mem ((hmem b').mpr ⟨hb', hlt⟩)
    have hle := session_le_getLast hascending hne b' ((hmem b').mpr ⟨hb', hlt⟩)
    rw [List.getLast?_eq_some_getLast hne] at h
    rwa [Option.some.inj h] at hle
  · rintro ⟨hb, hlt, hlatest⟩
    have hne := List.ne_nil_of_mem ((hmem b).mpr ⟨hb, hlt⟩)
    obtain ⟨hlast, hlast'⟩ := (hmem _).mp (List.getLast_mem hne)
    have hle := session_le_getLast hascending hne b ((hmem b).mpr ⟨hb, hlt⟩)
    rw [List.getLast?_eq_some_getLast hne,
      s.eq_of_session hlast hb (le_antisymm (hlatest _ hlast hlast') hle)]

/-- The close before the ex-date is that of the bar before it. -/
theorem previousClose_eq {s : Series} {exDate : ℤ} {b : Bar} (h : IsPrevious s.bars exDate b) :
    previousClose (s.bars.map Bar.session) (s.bars.map Bar.close) exDate = b.close := by
  have hlast := (getLast?_before s exDate b).mpr h
  rw [previousClose, List.zip_map', List.filter_map, List.getLast?_map]
  exact congrArg (fun last : Option Bar =>
    ((last.map fun b => (b.session, b.close)).map Prod.snd).getD 0) hlast

/-- There is such a bar when any bar precedes the ex-date. -/
theorem exists_isPrevious {s : Series} {exDate : ℤ} (h : ∃ b ∈ s.bars, b.session < exDate) :
    ∃ b, IsPrevious s.bars exDate b := by
  obtain ⟨b, hb, hlt⟩ := h
  have hne : (s.bars.filter fun b => decide (b.session < exDate)) ≠ [] :=
    List.ne_nil_of_mem (List.mem_filter.mpr ⟨hb, decide_eq_true hlt⟩)
  exact ⟨_, (getLast?_before s exDate _).mp (List.getLast?_eq_some_getLast hne)⟩

/-- Dividends are compared with the row before them. -/
theorem soundDividends_iff {s : Series} :
    s.SoundDividends ↔ ∀ exDate amount, s.dividends.get? exDate = some amount →
      ∀ b, IsPrevious s.bars exDate b → 0 < amount ∧ amount < b.close := by
  constructor
  · intro h exDate amount hget b hb
    have hsound := h (exDate, amount) (Dict.get?_eq_some_iff.mp hget)
      ⟨b.session, List.mem_map_of_mem hb.1, hb.2.1⟩
    rwa [previousClose_eq hb] at hsound
  · rintro h ⟨exDate, amount⟩ hmem ⟨_, hsession, hlt⟩
    obtain ⟨b, hb, rfl⟩ := List.mem_map.mp hsession
    obtain ⟨c, hc⟩ := exists_isPrevious ⟨b, hb, hlt⟩
    rw [previousClose_eq hc]
    exact h exDate amount (Dict.get?_eq_some_iff.mpr hmem) c hc

/-! ## Fewer parts -/

/-- The dividends of split-adjusted parts are below the closes before them. -/
def DividendsBelow (parts : List Series) : Prop :=
  ∀ p ∈ parts, p.identity.adjustment = "split" → ∀ exDate amount,
    p.dividends.get? exDate = some amount →
      ∀ b, IsPrevious (allRows parts) exDate b → amount < b.close

/-- What is asked of the merged series is what is asked of its parts. -/
theorem isPrevious_union {parts : List Series} {s : Series} (hs : Union parts s) {exDate : ℤ}
    {b : Bar} : IsPrevious s.bars exDate b ↔ IsPrevious (allRows parts) exDate b := by
  simp only [IsPrevious, hs.bars, mem_allRows]

/-- Fewer parts of an adjusted series are adjusted, if their dividends are below the closes that
are left. -/
theorem adjusted_of_fewer {symbol : String} {parts fewer : List Series} (hfewer : fewer ⊆ parts)
    (hne : fewer ≠ []) {s s' : Series} (hs : Union parts s) (hs' : Union fewer s')
    (h : ∃ bars, adjusted symbol s = .ok bars) :
    (∃ bars, adjusted symbol s' = .ok bars) ↔ DividendsBelow fewer := by
  obtain ⟨hsupported, hsound⟩ := adjusted_isOk_iff.mp h
  obtain ⟨p, hp⟩ := List.exists_mem_of_ne_nil fewer hne
  have hidentity : s'.identity = s.identity :=
    (hs'.identity p hp).trans (hs.identity p (hfewer hp)).symm
  rw [adjusted_isOk_iff, hidentity, and_iff_right hsupported]
  constructor
  · intro hsound' q hq hsplit exDate amount hget b hb
    rw [← hs'.identity q hq, hidentity] at hsplit
    exact (soundDividends_iff.mp (hsound' hsplit) exDate amount
      ((hs'.dividends exDate amount).mpr ⟨q, hq, hget⟩) b ((isPrevious_union hs').mpr hb)).2
  · intro hbelow hsplit
    refine soundDividends_iff.mpr fun exDate amount hget b hb => ?_
    obtain ⟨q, hq, hget⟩ := (hs'.dividends exDate amount).mp hget
    have hsplit' : q.identity.adjustment = "split" := by
      rw [← hs'.identity q hq, hidentity, hsplit]
    -- the amount is positive, as some session of all parts comes before it
    obtain ⟨q', hq', hb'⟩ := (hs'.bars b).mp hb.1
    have hearlier : ∃ b ∈ s.bars, b.session < exDate :=
      ⟨b, (hs.bars b).mpr ⟨q', hfewer hq', hb'⟩, hb.2.1⟩
    obtain ⟨c, hc⟩ := exists_isPrevious hearlier
    have hpositive := (soundDividends_iff.mp (hsound hsplit) exDate amount
      ((hs.dividends exDate amount).mpr ⟨q, hfewer hq, hget⟩) c hc).1
    exact ⟨hpositive, hbelow q hq hsplit' exDate amount hget b ((isPrevious_union hs').mp hb)⟩

end QuantumSentinel.MarketData
