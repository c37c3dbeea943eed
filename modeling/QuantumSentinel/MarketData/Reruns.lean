import QuantumSentinel.MarketData.FrameRuns

/-!
# Market data: reruns

A result names the datasets that supplied its frame.  A rerun sees those only: a ticker without
sessions in the window may lose some of its parts, and with them the closes that its dividends
are compared with.

Main results:

- Theorem `Returns.matched`: what a rerun finds of a ticker.
- Theorem `rerun_iff`: when a rerun returns the same frame.
-/

namespace QuantumSentinel.MarketData

open Lib

/-! ## Fewer datasets -/

/-- The parts held by some of the datasets. -/
theorem heldParts_filter (datasets : List (String × Dataset)) (p : String → Bool)
    (ticker : String) :
    heldParts (datasets.filter fun item => p item.1) ticker =
      (heldParts datasets ticker).filter fun part => p part.1 := by
  rw [heldParts, List.filterMap_filter, heldParts, List.filter_filterMap]
  refine List.filterMap_congr fun item _ => ?_
  cases hpart : partOf ticker item with
  | none => rw [Option.filter_none, ite_self]
  | some part => rw [Option.filter_some, (partOf_eq_some_iff.mp hpart).1]

/-- The datasets that were used, in any order. -/
def Kept (used : List String) (datasets kept : List (String × Dataset)) : Prop :=
  kept.Perm (datasets.filter fun item => decide (item.1 ∈ used))

section Kept

variable {used : List String} {datasets kept : List (String × Dataset)} {ticker : String}

/-- The kept datasets hold the parts of the used ones. -/
theorem Kept.parts (h : Kept used datasets kept) (ticker : String) :
    (heldParts kept ticker).Perm
      ((heldParts datasets ticker).filter fun part => decide (part.1 ∈ used)) := by
  rw [← heldParts_filter datasets fun id => decide (id ∈ used)]
  exact h.filterMap _

theorem Kept.series_subset (h : Kept used datasets kept) (ticker : String) :
    heldSeries kept ticker ⊆ heldSeries datasets ticker := by
  intro s hs
  obtain ⟨part, hpart, rfl⟩ := List.mem_map.mp hs
  exact List.mem_map_of_mem (List.mem_filter.mp ((h.parts ticker).mem_iff.mp hpart)).1

/-- A ticker all of whose datasets were used keeps its parts. -/
theorem Kept.parts_perm (h : Kept used datasets kept)
    (hused : ∀ part ∈ heldParts datasets ticker, part.1 ∈ used) :
    (heldParts kept ticker).Perm (heldParts datasets ticker) := by
  have hall : (heldParts datasets ticker).filter (fun part => decide (part.1 ∈ used)) =
      heldParts datasets ticker :=
    List.filter_eq_self.mpr fun part hpart => decide_eq_true (hused part hpart)
  exact hall ▸ h.parts ticker

/-- Datasets that are kept stay readable. -/
theorem Kept.readable (h : Kept used datasets kept) (hreadable : Readable datasets ticker) :
    Readable kept ticker :=
  fun item hitem => hreadable item (List.mem_filter.mp (h.mem_iff.mp hitem)).1

/-- What could be found can be found in fewer datasets. -/
theorem Kept.exists_find (h : Kept used datasets kept) {outcome : Option Found}
    (hfind : find datasets ticker = .ok outcome) :
    ∃ outcome', find kept ticker = .ok outcome' := by
  refine MarketData.exists_find (h.readable (find_eq_ok_iff.mp hfind).1) fun p hp q hq => ?_
  have hp' := h.series_subset ticker hp
  rcases find_spec hfind with ⟨hnil, -⟩ | ⟨f, -, -, hundisputed, -⟩
  · rw [heldSeries, hnil] at hp'
    cases hp'
  · exact hundisputed p hp' q (h.series_subset ticker hq)

/-- Fewer parts have no later session. -/
theorem latest_le {parts fewer : List Series} (hfewer : fewer ⊆ parts) {s s' : Series}
    (hs : Union parts s) (hs' : Union fewer s') : s'.latest ≤ s.latest := by
  obtain ⟨p, hp, hb⟩ := (hs'.bars _).mp (List.getLast_mem s'.nonempty)
  exact session_le_getLast s.ascending s.nonempty _ ((hs.bars _).mpr ⟨p, hfewer hp, hb⟩)

/-- A ticker all of whose datasets were used is found as it was. -/
theorem Kept.exists_same (h : Kept used datasets kept)
    (hused : ∀ part ∈ heldParts datasets ticker, part.1 ∈ used) {f : Found}
    (hfind : find datasets ticker = .ok (some f)) :
    ∃ f', find kept ticker = .ok (some f') ∧ f.series.Same f'.series ∧
      ∀ id, id ∈ f.ids ↔ id ∈ f'.ids := by
  have hperm := h.parts_perm hused
  obtain ⟨outcome, hfind'⟩ := h.exists_find hfind
  rcases find_spec hfind with ⟨-, hnone⟩ | ⟨_, hsome, hne, -, hunion, hids⟩
  · cases hnone
  · cases hsome
    rcases find_spec hfind' with ⟨hnil', -⟩ | ⟨f', rfl, -, -, hunion', hids'⟩
    · rw [hnil'] at hperm
      exact absurd (by rw [heldSeries, hperm.nil_eq.symm]; rfl) hne
    · refine ⟨f', hfind', hunion.same hne (Union.perm (hperm.map Prod.snd).symm hunion'),
        fun id => ?_⟩
      rw [hids, hids', (hperm.map Prod.fst).mem_iff]

/-- A ticker found by a rerun was found before, and had no earlier end. -/
theorem Kept.found_before (h : Kept used datasets kept) {outcome : Option Found} {f' : Found}
    (hfind : find datasets ticker = .ok outcome) (hfind' : find kept ticker = .ok (some f')) :
    ∃ f, outcome = some f ∧ f'.series.latest ≤ f.series.latest ∧
      ((∃ bars, adjusted ticker f.series = .ok bars) →
        ((∃ bars, adjusted ticker f'.series = .ok bars) ↔
          DividendsBelow (heldSeries kept ticker))) := by
  have hsubset := h.series_subset ticker
  rcases find_spec hfind' with ⟨-, hnone⟩ | ⟨_, hsome, hne', -, hunion', -⟩
  · cases hnone
  · cases hsome
    rcases find_spec hfind with ⟨hnil, -⟩ | ⟨f, rfl, -, -, hunion, -⟩
    · rw [heldSeries, heldSeries, hnil] at hsubset
      exact absurd (List.subset_nil.mp hsubset) hne'
    · exact ⟨f, rfl, latest_le hsubset hunion hunion',
        adjusted_of_fewer hsubset hne' hunion hunion'⟩

/-- What a rerun finds of a ticker. -/
theorem Kept.matched (h : Kept used datasets kept) {start : ℤ} {outcome outcome' : Option Found}
    (hfind : find datasets ticker = .ok outcome) (hfind' : find kept ticker = .ok outcome')
    (hwindowed : ∀ f, outcome = some f → ∃ bars, windowed start ticker f.series = .ok bars)
    (hused : ∀ f, outcome = some f → start ≤ f.series.latest →
      ∀ part ∈ heldParts datasets ticker, part.1 ∈ used)
    (hbelow : DividendsBelow (heldSeries kept ticker)) :
    Matched start ticker outcome outcome' := by
  cases outcome with
  | none =>
    cases outcome' with
    | none => exact .absent
    | some f' =>
      obtain ⟨f, hnone, -⟩ := h.found_before hfind hfind'
      cases hnone
  | some f =>
    obtain ⟨bars, hbars⟩ := hwindowed f rfl
    by_cases hbefore : f.series.latest < start
    · -- no session of the ticker is in the window
      rw [(windowed_eq_nil_iff hbars).mpr hbefore] at hbars
      cases outcome' with
      | none => exact .dropped hbars
      | some f' =>
        obtain ⟨_, hsome, hlatest, hadjusted⟩ := h.found_before hfind hfind'
        cases hsome
        obtain ⟨bars', hbars'⟩ := windowed_of_adjusted start
          ((hadjusted (adjusted_of_windowed hbars)).mpr hbelow)
        rw [(windowed_eq_nil_iff hbars').mpr (hlatest.trans_lt hbefore)] at hbars'
        exact .idle hbars hbars'
    · -- the ticker is in the frame, and all of its parts are there again
      obtain ⟨f', hsome, hsame, hids⟩ := h.exists_same (hused f rfl (not_lt.mp hbefore)) hfind
      obtain rfl : outcome' = some f' := Except.ok.inj (hfind'.symm.trans hsome)
      have hbars' : windowed start ticker f'.series = .ok bars := by
        rw [← hbars, windowed, windowed, adjusted_same ticker hsame]
      exact .supplied hbars hbars' (mt (windowed_eq_nil_iff hbars).mp hbefore) hids

end Kept

/-! ## Two runs -/

theorem sortedSet_congr {names names' : List String} (h : ∀ name, name ∈ names ↔ name ∈ names') :
    sortedSet names = sortedSet names' := by
  have hperm : names.dedup.Perm names'.dedup := by
    rw [List.perm_ext_iff_of_nodup (List.nodup_dedup _) (List.nodup_dedup _)]
    intro name
    rw [List.mem_dedup, List.mem_dedup, h]
  refine List.Perm.eq_of_pairwise (fun a b _ _ => le_antisymm)
    (List.pairwise_insertionSort (· ≤ ·) _) (List.pairwise_insertionSort (· ≤ ·) _) ?_
  exact (List.perm_insertionSort _ _).trans (hperm.trans (List.perm_insertionSort _ _).symm)

/-- Sorting keeps the names. -/
theorem mem_sortedSet {names : List String} {name : String} :
    name ∈ sortedSet names ↔ name ∈ names := by
  rw [sortedSet, (List.perm_insertionSort _ _).mem_iff, List.mem_dedup]

section Rerun

variable {datasets kept : List (String × Dataset)} {tickers names : List String} {period : String}
  {start : ℤ} {s : Supplied}

/-- A run whose tickers are supplied as those of another returns its frame. -/
theorem frameFrom_of_alike {last : ℤ}
    (hfinds : ∀ ticker ∈ tickers, ∃ outcome, find kept ticker = .ok outcome)
    (hlatest : IsLatest (foundItems kept tickers) last)
    (hwindow : windowFrom last period = .ok start)
    (hsupply : ∀ missing, ∃ s', (foundItems kept tickers).foldlM (supply start)
      ⟨Dict.empty, [], missing⟩ = .ok s' ∧ Alike s s') (hne : s.columns.items ≠ []) :
    ∃ missing, frameFrom kept tickers period = .ok (layOut s.columns, sortedSet s.used, missing) := by
  obtain ⟨⟨found, missing⟩, hfound⟩ := exists_foldlM_lookUp hfinds (Dict.empty, Dict.empty)
  have hitems : found.items = foundItems kept tickers := items_lookUp hfound rfl
  obtain ⟨s', hs', halike⟩ := hsupply missing
  obtain ⟨item, hitem, -⟩ := hlatest.1
  have hall : supplyAll found missing period = .ok s' := by
    rw [← hitems] at hitem hlatest hs'
    exact (supplyAll_eq_ok_iff (List.ne_nil_of_mem hitem)).mpr ⟨last, start, hlatest, hwindow, hs'⟩
  refine ⟨s'.missing, bind_eq_ok_iff.mpr ⟨_, hfound, bind_eq_ok_iff.mpr ⟨s', hall, ?_⟩⟩⟩
  rw [if_neg (halike.columns ▸ hne), halike.columns, sortedSet_congr halike.used]
  rfl

namespace Returns

variable (h : Returns datasets tickers period start s)

include h

/-- Every ticker that was found has a window. -/
theorem windowed {ticker : String} (hticker : ticker ∈ tickers) {f : Found}
    (hfind : find datasets ticker = .ok (some f)) :
    ∃ bars, windowed start ticker f.series = .ok bars := by
  obtain ⟨missing, hfold⟩ := h.supplied
  exact (supply_used hfold).1 (ticker, f) (mem_foundItems.mpr ⟨hticker, outcomeOf_of_ok hfind⟩)

/-- The datasets that were used are those of the tickers in the window. -/
theorem mem_used {id : String} :
    id ∈ s.used ↔ ∃ ticker ∈ tickers, ∃ f, find datasets ticker = .ok (some f) ∧
      start ≤ f.series.latest ∧ id ∈ (heldParts datasets ticker).map Prod.fst := by
  obtain ⟨missing, hfold⟩ := h.supplied
  rw [(supply_used hfold).2, or_iff_right List.not_mem_nil]
  have hfinds : ∀ {ticker f}, ticker ∈ tickers → outcomeOf datasets ticker = some f →
      find datasets ticker = .ok (some f) ∧ f.ids = (heldParts datasets ticker).map Prod.fst := by
    intro ticker f hticker hf
    obtain ⟨outcome, houtcome⟩ := h.finds ticker hticker
    obtain rfl : outcome = some f := (outcomeOf_of_ok houtcome).symm.trans hf
    rcases find_spec houtcome with ⟨-, hnone⟩ | ⟨_, hsome, -, -, -, hids⟩
    · cases hnone
    · cases hsome
      exact ⟨houtcome, hids⟩
  constructor
  · rintro ⟨⟨ticker, f⟩, hitem, hlatest, hid⟩
    obtain ⟨hticker, hf⟩ := mem_foundItems.mp hitem
    obtain ⟨hfind, hids⟩ := hfinds hticker hf
    exact ⟨ticker, hticker, f, hfind, hlatest, hids ▸ hid⟩
  · rintro ⟨ticker, hticker, f, hfind, hlatest, hid⟩
    have hf := outcomeOf_of_ok hfind
    exact ⟨(ticker, f), mem_foundItems.mpr ⟨hticker, hf⟩, hlatest, (hfinds hticker hf).2 ▸ hid⟩

/-- The datasets behind a window are used. -/
theorem used_parts {ticker : String} (hticker : ticker ∈ tickers) {f : Found}
    (hfind : find datasets ticker = .ok (some f)) (hlatest : start ≤ f.series.latest) :
    ∀ part ∈ heldParts datasets ticker, part.1 ∈ s.used :=
  fun _ hpart => h.mem_used.mpr
    ⟨ticker, hticker, f, hfind, hlatest, List.mem_map_of_mem hpart⟩

/-- The latest session of all is that of a ticker in the window. -/
theorem isLatest_kept (hkept : Kept names datasets kept) (hnames : s.used ⊆ names) {last : ℤ}
    (hlast : IsLatest (foundItems datasets tickers) last)
    (hwindow : windowFrom last period = .ok start) : IsLatest (foundItems kept tickers) last := by
  constructor
  · obtain ⟨⟨ticker, f⟩, hitem, hf⟩ := hlast.1
    obtain ⟨hticker, houtcome⟩ := mem_foundItems.mp hitem
    obtain ⟨outcome, hfind⟩ := h.finds ticker hticker
    obtain rfl : outcome = some f := (outcomeOf_of_ok hfind).symm.trans houtcome
    have hstart : start ≤ f.series.latest := hf ▸ windowFrom_le hwindow
    obtain ⟨f', hfind', hsame, -⟩ := hkept.exists_same
      (fun part hpart => hnames (h.used_parts hticker hfind hstart part hpart)) hfind
    refine ⟨(ticker, f'), mem_foundItems.mpr ⟨hticker, outcomeOf_of_ok hfind'⟩, ?_⟩
    rw [← hf]
    simp only [Series.latest, hsame.bars]
  · rintro ⟨ticker, f'⟩ hitem
    obtain ⟨hticker, houtcome'⟩ := mem_foundItems.mp hitem
    obtain ⟨outcome, hfind⟩ := h.finds ticker hticker
    obtain ⟨outcome', hfind'⟩ := hkept.exists_find hfind
    obtain rfl : outcome' = some f' := (outcomeOf_of_ok hfind').symm.trans houtcome'
    obtain ⟨f, rfl, hlatest, -⟩ := hkept.found_before hfind hfind'
    exact hlatest.trans (hlast.2 (ticker, f) (mem_foundItems.mpr ⟨hticker, outcomeOf_of_ok hfind⟩))

/-- A rerun on the datasets that were used, and any others of the first run, returns the same
frame, unless it refuses a dividend. -/
theorem rerun (hkept : Kept names datasets kept) (hnames : s.used ⊆ names)
    (hbelow : ∀ ticker ∈ tickers, DividendsBelow (heldSeries kept ticker)) :
    ∃ missing, frameFrom kept tickers period =
      .ok (layOut s.columns, sortedSet s.used, missing) := by
  obtain ⟨last, hlast, hwindow⟩ := h.window
  obtain ⟨missing₀, hfold⟩ := h.supplied
  have hfinds' : ∀ ticker ∈ tickers, ∃ outcome, find kept ticker = .ok outcome := by
    intro ticker hticker
    obtain ⟨outcome, hfind⟩ := h.finds ticker hticker
    exact hkept.exists_find hfind
  have hmatched : ∀ ticker ∈ tickers.eraseDups,
      Matched start ticker (outcomeOf datasets ticker) (outcomeOf kept ticker) := by
    intro ticker hmem
    have hticker := List.mem_eraseDups.mp hmem
    obtain ⟨outcome, hfind⟩ := h.finds ticker hticker
    obtain ⟨outcome', hfind'⟩ := hfinds' ticker hticker
    rw [outcomeOf_of_ok hfind, outcomeOf_of_ok hfind']
    refine hkept.matched hfind hfind' ?_ ?_ (hbelow ticker hticker)
    · rintro f rfl
      exact h.windowed hticker hfind
    · rintro f rfl hstart part hpart
      exact hnames (h.used_parts hticker hfind hstart part hpart)
  refine frameFrom_of_alike hfinds' (h.isLatest_kept hkept hnames hlast hwindow) hwindow
    (fun missing => ?_) h.nonempty
  have halike : Alike ⟨Dict.empty, [], missing₀⟩ ⟨Dict.empty, [], missing⟩ :=
    ⟨rfl, fun _ => Iff.rfl⟩
  exact supply_lockstep hmatched halike hfold

/-- A rerun that returns has compared the dividends of all its parts. -/
theorem dividendsBelow (hkept : Kept names datasets kept) {start' : ℤ} {s' : Supplied}
    (h' : Returns kept tickers period start' s') {ticker : String} (hticker : ticker ∈ tickers) :
    DividendsBelow (heldSeries kept ticker) := by
  obtain ⟨outcome, hfind⟩ := h.finds ticker hticker
  obtain ⟨outcome', hfind'⟩ := h'.finds ticker hticker
  cases outcome' with
  | none =>
    rcases find_spec hfind' with ⟨hnil, -⟩ | ⟨_, hnone, -⟩
    · rw [heldSeries, hnil]
      exact fun p hp => absurd hp List.not_mem_nil
    · cases hnone
  | some f' =>
    obtain ⟨f, rfl, -, hadjusted⟩ := hkept.found_before hfind hfind'
    obtain ⟨bars, hbars⟩ := h.windowed hticker hfind
    obtain ⟨bars', hbars'⟩ := h'.windowed hticker hfind'
    exact (hadjusted (adjusted_of_windowed hbars)).mp (adjusted_of_windowed hbars')

end Returns

end Rerun

/-! ## Reruns -/

/-- A rerun on the datasets that a frame names, and any others of the first run, returns the same
frame; or it refuses, as one of them holds a dividend of a requested ticker that is not below the
close before it. -/
theorem rerun_iff {datasets kept : List (String × Dataset)} {tickers names : List String}
    {period : String} {frame : Frame} {used : List String} {missing : Dict String String}
    (h : frameFrom datasets tickers period = .ok (frame, used, missing)) (hnames : used ⊆ names)
    (hkept : kept.Perm (datasets.filter fun item => decide (item.1 ∈ names))) :
    ((∃ missing', frameFrom kept tickers period = .ok (frame, used, missing')) ↔
        ∀ ticker ∈ tickers, DividendsBelow (heldSeries kept ticker)) ∧
      ((¬∀ ticker ∈ tickers, DividendsBelow (heldSeries kept ticker)) →
        ∃ e, frameFrom kept tickers period = .error e) := by
  obtain ⟨start, s, hreturns, hresult⟩ := returns_of_frameFrom h
  cases hresult
  have hbelow : ∀ result, frameFrom kept tickers period = .ok result →
      ∀ ticker ∈ tickers, DividendsBelow (heldSeries kept ticker) := by
    intro result hrun ticker hticker
    obtain ⟨start', s', hreturns', -⟩ := returns_of_frameFrom hrun
    exact hreturns.dividendsBelow hkept hreturns' hticker
  refine ⟨⟨fun ⟨_, hrun⟩ => hbelow _ hrun, fun hdividends => ?_⟩, fun habove => ?_⟩
  · exact hreturns.rerun hkept (fun id hid => hnames (mem_sortedSet.mpr hid)) hdividends
  · cases hrun : frameFrom kept tickers period with
    | error e => exact ⟨e, rfl⟩
    | ok result => exact absurd (hbelow result hrun) habove

/-- A dataset of two tickers; one of them ended long ago, with a dividend after its last
session. -/
def twoTickers (dividend : ℚ) : Dataset where
  identity := ⟨"EQUITY_EOD", "yahoo", "yahoo-personal-use", "1d", "exchange-local", "split",
    "current_listings"⟩
  bars := some [("AAPL", ⟨60, some 10, some 11, some 9, 10, some 100⟩),
    ("KO", ⟨3, some 1, some 1, some 1, 1, some 100⟩)]
  corporateActions := some [⟨"KO", 10, "dividend", dividend⟩]
  ascending := by
    rintro rows ⟨⟩
    refine List.pairwise_pair.mpr (Or.inl ?_)
    exact String.lt_iff_toList_lt.mpr (by decide)

/-- A dataset of one session. -/
def oneSession (ticker : String) : Dataset where
  identity := (twoTickers 0).identity
  bars := some [(ticker, ⟨5, some 100, some 100, some 99, 100, none⟩)]
  corporateActions := none
  ascending := by
    rintro rows ⟨⟩
    exact List.pairwise_singleton _ _

/-- The datasets that a run has named. -/
def namedBy (datasets : List (String × Dataset)) (tickers : List String) (period : String) :
    Option (List String) :=
  match frameFrom datasets tickers period with
  | .ok result => some result.2.1
  | .error _ => none

/-- A dataset that supplied nothing is not needed. -/
theorem rerun_iff_three :
    ∃ frame missing, frameFrom [("qs-1", twoTickers (1 / 2)), ("qs-2", oneSession "IBM")]
        ["AAPL", "IBM", "KO"] "1mo" = .ok (frame, ["qs-1"], missing) ∧
      ∃ missing', frameFrom [("qs-1", twoTickers (1 / 2))] ["AAPL", "IBM", "KO"] "1mo" =
        .ok (frame, ["qs-1"], missing') := by
  have hnamed : namedBy [("qs-1", twoTickers (1 / 2)), ("qs-2", oneSession "IBM")]
      ["AAPL", "IBM", "KO"] "1mo" = some ["qs-1"] := by decide +kernel
  rw [namedBy] at hnamed
  split at hnamed
  · rename_i result hrun
    obtain ⟨frame, used, missing⟩ := result
    cases hnamed
    refine ⟨frame, missing, hrun, ?_⟩
    refine (rerun_iff hrun (List.Subset.refl _) (List.Perm.refl _)).1.mpr fun ticker hticker => ?_
    have hamounts : ∀ ticker ∈ ["AAPL", "IBM", "KO"], ∀ p ∈ heldSeries
        [("qs-1", twoTickers (1 / 2))] ticker,
        (∀ item ∈ p.dividends.items, item.2 < 1) ∧ ∀ b ∈ p.bars, 1 ≤ b.close := by
      decide +kernel
    intro p hp hsplit exDate amount hget b hb
    obtain ⟨q, hq, hbar⟩ := mem_allRows.mp hb.1
    exact ((hamounts ticker hticker p hp).1 _ (Dict.get?_eq_some_iff.mp hget)).trans_le
      ((hamounts ticker hticker q hq).2 b hbar)
  · cases hnamed

/-- The close before the dividend is only in the dataset that supplied nothing. -/
example : namedBy [("qs-1", twoTickers 2)] ["AAPL", "KO"] "1mo" = none := by
  decide +kernel

end QuantumSentinel.MarketData
