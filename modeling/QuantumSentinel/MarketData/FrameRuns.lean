import QuantumSentinel.MarketData.Dividends
import QuantumSentinel.MarketData.Frames

/-!
# Market data: runs of `frame_from`

What a run that returns a frame has gone through: the parts of every ticker, the latest session of
those that were found, and the tickers that were supplied in turn.

Main results:

- Theorem `find_spec`: what is found of a ticker.
- Theorem `supply_lockstep`: tickers that match are supplied in the same way.
- Theorem `supply_used`: the datasets that a run has used.
- Theorem `returns_of_frameFrom`: a run that returns a frame.
-/

namespace QuantumSentinel.MarketData

open Lib

/-! ## Parts -/

/-- What can be read of a ticker in one dataset. -/
def partOf (ticker : String) (item : String × Dataset) : Option (String × Series) :=
  match seriesOf item.2 ticker with
  | .ok part => part.map fun s => (item.1, s)
  | .error _ => none

/-- The parts of a ticker that can be read. -/
def heldParts (datasets : List (String × Dataset)) (ticker : String) : List (String × Series) :=
  datasets.filterMap (partOf ticker)

/-- Every dataset has a table of bars. -/
def Readable (datasets : List (String × Dataset)) (ticker : String) : Prop :=
  ∀ item ∈ datasets, ∃ part, seriesOf item.2 ticker = .ok part

section Parts

variable {datasets : List (String × Dataset)} {ticker : String}

theorem partOf_eq_some_iff {item : String × Dataset} {part : String × Series} :
    partOf ticker item = some part ↔
      part.1 = item.1 ∧ seriesOf item.2 ticker = .ok (some part.2) := by
  unfold partOf
  cases hseries : seriesOf item.2 ticker with
  | error e => simp
  | ok held =>
    cases held with
    | none => simp
    | some s =>
      simp only [Option.map_some, Option.some.injEq, Except.ok.injEq]
      constructor
      · rintro rfl
        exact ⟨rfl, rfl⟩
      · rintro ⟨hid, hs⟩
        exact Prod.ext hid.symm hs

/-- Readable datasets give the parts they hold. -/
theorem partsOf_of_readable (h : Readable datasets ticker) :
    partsOf datasets ticker = .ok (heldParts datasets ticker) := by
  have hmap := mapM_eq_ok_map (f := fun item : String × Dataset =>
    (fun part : Option Series => part.map fun s => (item.1, s)) <$> seriesOf item.2 ticker)
    (g := partOf ticker) (l := datasets) fun item hitem => by
      obtain ⟨part, hpart⟩ := h item hitem
      rw [partOf, hpart]
      rfl
  rw [partsOf, hmap]
  exact congrArg Except.ok List.filterMap_map

/-- The parts are found exactly when every dataset is readable. -/
theorem partsOf_eq_ok_iff {parts : List (String × Series)} :
    partsOf datasets ticker = .ok parts ↔
      Readable datasets ticker ∧ parts = heldParts datasets ticker := by
  constructor
  · intro h
    have hreadable : Readable datasets ticker := by
      obtain ⟨outcomes, houtcomes, -⟩ := map_eq_ok_iff.mp h
      intro item hitem
      obtain ⟨outcome, -, houtcome⟩ :=
        exists_right_of_forall₂ (mapM_eq_ok_iff.mp houtcomes) hitem
      obtain ⟨part, hpart, -⟩ := map_eq_ok_iff.mp houtcome
      exact ⟨part, hpart⟩
    rw [partsOf_of_readable hreadable] at h
    exact ⟨hreadable, (Except.ok.inj h).symm⟩
  · rintro ⟨hreadable, rfl⟩
    exact partsOf_of_readable hreadable

/-- What is found of a ticker: its parts, merged. -/
theorem find_eq_ok_iff {outcome : Option Found} :
    find datasets ticker = .ok outcome ↔
      Readable datasets ticker ∧
        ((heldParts datasets ticker = [] ∧ outcome = none) ∨
          heldParts datasets ticker ≠ [] ∧ ∃ s,
            merged ticker ((heldParts datasets ticker).map Prod.snd) = .ok s ∧
              outcome = some ⟨s, (heldParts datasets ticker).map Prod.fst⟩) := by
  rw [find, bind_eq_ok_iff]
  constructor
  · rintro ⟨parts, hparts, hrest⟩
    obtain ⟨hreadable, rfl⟩ := partsOf_eq_ok_iff.mp hparts
    refine ⟨hreadable, ?_⟩
    split at hrest
    · rename_i hnil
      cases hrest
      exact Or.inl ⟨hnil, rfl⟩
    · rename_i hnil
      obtain ⟨s, hs, houtcome⟩ := bind_eq_ok_iff.mp hrest
      cases houtcome
      exact Or.inr ⟨hnil, s, hs, rfl⟩
  · rintro ⟨hreadable, ⟨hnil, rfl⟩ | ⟨hnil, s, hs, rfl⟩⟩
    · exact ⟨_, partsOf_of_readable hreadable, if_pos hnil⟩
    · exact ⟨_, partsOf_of_readable hreadable, by rw [if_neg hnil, hs]; rfl⟩

end Parts

/-! ## The tickers in turn -/

section Fold

variable {κ ν : Type} [DecidableEq κ]

/-- A key gets what a function has for it. -/
def setEach (f : κ → Option ν) (d : Dict κ ν) (k : κ) : Dict κ ν :=
  match f k with
  | some v => d.set k v
  | none => d

theorem replace_lookup {k : κ} {v : ν} {l : List (κ × ν)} (h : Dict.lookup k l = some v) :
    Dict.replace k v l = l := by
  induction l with
  | nil => rfl
  | cons item rest ih =>
    obtain ⟨k', v'⟩ := item
    rw [Dict.lookup] at h
    rw [Dict.replace]
    split at h
    · rename_i hkey
      cases h
      rw [if_pos hkey]
    · rename_i hkey
      rw [if_neg hkey, ih h]

/-- Writing what is there changes nothing. -/
theorem set_get? {d : Dict κ ν} {k : κ} {v : ν} (h : d.get? k = some v) :
    (d.set k v).items = d.items := by
  have hmem : k ∈ d.items.map Prod.fst :=
    List.mem_map_of_mem (f := Prod.fst) (Dict.mem_of_lookup h)
  rw [Dict.set, dif_pos hmem]
  exact replace_lookup h

/-- The items are those of the keys, each where it occurs first. -/
theorem items_foldl_setEach (f : κ → Option ν) (keys : List κ) :
    (keys.foldl (setEach f) Dict.empty).items =
      keys.eraseDups.filterMap fun k => (f k).map fun v => (k, v) := by
  induction keys using List.reverseRecOn with
  | nil => rfl
  | append_singleton keys k ih =>
    rw [List.foldl_append, List.eraseDups_append, List.filterMap_append, ← ih, List.foldl_cons,
      List.foldl_nil, setEach]
    generalize hd : keys.foldl (setEach f) Dict.empty = d at ih ⊢
    by_cases hmem : k ∈ keys
    · have hnone : [k].removeAll keys = [] := by
        simp [List.removeAll, hmem]
      rw [hnone, List.eraseDups_nil, List.filterMap_nil, List.append_nil]
      cases hf : f k with
      | none => rfl
      | some v =>
        have hget : d.get? k = some v := by
          rw [Dict.get?_eq_some_iff, ih, List.mem_filterMap]
          exact ⟨k, List.mem_eraseDups.mpr hmem, by rw [hf]; rfl⟩
        exact set_get? hget
    · have hone : ([k].removeAll keys).eraseDups = [k] := by
        simp [List.removeAll, hmem, List.eraseDups_cons]
      rw [hone]
      cases hf : f k with
      | none => simp [hf]
      | some v =>
        have hkey : k ∉ d.items.map Prod.fst := by
          rw [ih, List.map_filterMap, List.mem_filterMap]
          rintro ⟨k', hk', hsome⟩
          obtain ⟨v', -, hv'⟩ := Option.map_eq_some_iff.mp (Option.map_map _ _ _ ▸ hsome)
          cases hv'
          exact hmem (List.mem_eraseDups.mp hk')
        simp only [Dict.set, dif_neg hkey, hf, List.filterMap_cons, List.filterMap_nil,
          Option.map_some]

end Fold

/-- What is found of a ticker, if nothing is raised. -/
def outcomeOf (datasets : List (String × Dataset)) (ticker : String) : Option Found :=
  match find datasets ticker with
  | .ok outcome => outcome
  | .error _ => none

/-- The tickers that were found, in the order in which they are first named. -/
def foundItems (datasets : List (String × Dataset)) (tickers : List String) :
    List (String × Found) :=
  tickers.eraseDups.filterMap fun ticker => (outcomeOf datasets ticker).map fun f => (ticker, f)

theorem outcomeOf_of_ok {datasets : List (String × Dataset)} {ticker : String}
    {outcome : Option Found} (h : find datasets ticker = .ok outcome) :
    outcomeOf datasets ticker = outcome := by
  rw [outcomeOf, h]

/-- Every ticker can be looked up, or an error is raised. -/
theorem foldlM_lookUp {datasets : List (String × Dataset)} {tickers : List String}
    {state state' : Dict String Found × Dict String String}
    (h : tickers.foldlM (lookUp datasets) state = .ok state') :
    (∀ ticker ∈ tickers, ∃ outcome, find datasets ticker = .ok outcome) ∧
      state'.1 = tickers.foldl (setEach (outcomeOf datasets)) state.1 := by
  induction tickers generalizing state with
  | nil =>
    cases h
    exact ⟨List.forall_mem_nil _, rfl⟩
  | cons ticker rest ih =>
    rw [List.foldlM_cons] at h
    obtain ⟨next, hnext, hrest⟩ := bind_eq_ok_iff.mp h
    obtain ⟨outcome, houtcome, rfl⟩ := map_eq_ok_iff.mp hnext
    obtain ⟨hall, hfold⟩ := ih hrest
    refine ⟨List.forall_mem_cons.mpr ⟨⟨outcome, houtcome⟩, hall⟩, ?_⟩
    rw [hfold, List.foldl_cons, setEach, outcomeOf_of_ok houtcome]
    cases outcome with
    | none => rfl
    | some f => rfl

/-- The search ends when that of every ticker does. -/
theorem exists_foldlM_lookUp {datasets : List (String × Dataset)} {tickers : List String}
    (h : ∀ ticker ∈ tickers, ∃ outcome, find datasets ticker = .ok outcome)
    (state : Dict String Found × Dict String String) :
    ∃ state', tickers.foldlM (lookUp datasets) state = .ok state' := by
  induction tickers generalizing state with
  | nil => exact ⟨state, rfl⟩
  | cons ticker rest ih =>
    obtain ⟨⟨outcome, houtcome⟩, hrest⟩ := List.forall_mem_cons.mp h
    obtain ⟨state', hstate'⟩ := ih hrest (note state ticker outcome)
    refine ⟨state', ?_⟩
    rw [List.foldlM_cons, lookUp, houtcome]
    exact hstate'

/-! ## The window -/

namespace Date

/-- A later date is so many days later. -/
theorem ordinal_later {d d' : Date} {n : ℕ} (h : d.later n = .ok d') :
    d'.ordinal = d.ordinal + n := by
  induction n generalizing d' with
  | zero =>
    cases h
    exact (add_zero _).symm
  | succ n ih =>
    obtain ⟨earlier, hearlier, hnext⟩ := bind_eq_ok_iff.mp h
    rw [ordinal_next hnext, ih hearlier]
    push_cast
    ring

theorem ordinal_ofOrdinal {n : ℤ} {d : Date} (h : ofOrdinal n = .ok d) : d.ordinal = n := by
  have hepoch : epoch.ordinal = 0 := by decide
  cases n with
  | ofNat n =>
    rw [ordinal_later h, hepoch, zero_add]
    rfl
  | negSucc n =>
    have hordinal := ordinal_earlier (d := epoch) h
    rw [hepoch] at hordinal
    omega

/-- A date in an earlier month is earlier. -/
theorem ordinal_lt {d d' : Date} (h : d.monthIndex < d'.monthIndex) : d.ordinal < d'.ordinal := by
  have hday := d.day_bounds
  have hday' := d'.day_bounds
  have hsucc := monthStart_succ d.month_bounds
  have hstart := monthStart_le (show 12 ≤ d.monthIndex + 1 from by have := d.month_bounds; omega) h
  rw [ordinal_eq, ordinal_eq]
  omega

end Date

/-- A period is a month at least. -/
theorem periodMonths_pos {period : String} {months : ℕ} (h : periodMonths period = some months) :
    1 ≤ months := by
  have hdigit : ∀ {a : Char}, '1' ≤ a → 1 ≤ Datasets.digitsValue [a] ∧
      ∀ b, 1 ≤ Datasets.digitsValue [a, b] := by
    intro a ha
    have hcode : 49 ≤ a.toNat := ha
    simp only [Datasets.digitsValue, List.foldl_cons, List.foldl_nil]
    exact ⟨by omega, fun b => by omega⟩
  unfold periodMonths at h
  split at h
  · obtain ⟨hrange, hsome⟩ := Option.ite_none_right_eq_some.mp h
    cases hsome
    exact Nat.mul_pos (hdigit hrange.1).1 (by norm_num)
  · obtain ⟨hrange, hsome⟩ := Option.ite_none_right_eq_some.mp h
    cases hsome
    exact Nat.mul_pos ((hdigit hrange.1.1).2 _) (by norm_num)
  · obtain ⟨hrange, hsome⟩ := Option.ite_none_right_eq_some.mp h
    cases hsome
    exact (hdigit hrange.1).1
  · obtain ⟨hrange, hsome⟩ := Option.ite_none_right_eq_some.mp h
    cases hsome
    exact (hdigit hrange.1.1).2 _
  · cases h

/-- A window contains the session that it ends at. -/
theorem windowFrom_le {last start : ℤ} {period : String} (h : windowFrom last period = .ok start) :
    start ≤ last := by
  obtain ⟨anchor, hanchor, hrest⟩ := bind_eq_ok_iff.mp h
  obtain ⟨first, hfirst, hstart⟩ := bind_eq_ok_iff.mp hrest
  obtain ⟨months, hmonths, hindex, -⟩ := periodStart_ok hfirst
  have hpositive := periodMonths_pos hmonths
  have hlt := Date.ordinal_lt (show first.monthIndex < anchor.monthIndex by omega)
  have hordinal := Date.ordinal_ofOrdinal hanchor
  cases hstart
  omega

/-- The latest session of what was found. -/
def IsLatest (items : List (String × Found)) (last : ℤ) : Prop :=
  (∃ item ∈ items, item.2.series.latest = last) ∧ ∀ item ∈ items, item.2.series.latest ≤ last

/-- Windows end at the latest session of the tickers that were found. -/
theorem supplyAll_eq_ok_iff {found : Dict String Found} {missing : Dict String String}
    {period : String} (hfound : found.items ≠ []) {s : Supplied} :
    supplyAll found missing period = .ok s ↔
      ∃ last start, IsLatest found.items last ∧ windowFrom last period = .ok start ∧
        found.items.foldlM (supply start) ⟨Dict.empty, [], missing⟩ = .ok s := by
  have hmax : ∀ last, (found.values.map fun f => f.series.latest).max? = some last ↔
      IsLatest found.items last := by
    intro last
    rw [List.max?_eq_some_iff, Dict.values, List.map_map]
    simp only [IsLatest, List.mem_map, Function.comp, forall_exists_index, and_imp,
      forall_apply_eq_imp_iff₂]
  unfold supplyAll
  cases hlast : (found.values.map fun f => f.series.latest).max? with
  | none =>
    rw [List.max?_eq_none_iff, List.map_eq_nil_iff, Dict.values, List.map_eq_nil_iff] at hlast
    exact absurd hlast hfound
  | some last =>
    simp only [bind_eq_ok_iff]
    constructor
    · rintro ⟨start, hstart, hfold⟩
      exact ⟨last, start, (hmax last).mp hlast, hstart, hfold⟩
    · rintro ⟨last', start, hlatest, hstart, hfold⟩
      cases (Option.some.inj (hlast.symm.trans ((hmax last').mpr hlatest)))
      exact ⟨start, hstart, hfold⟩

/-- A window is empty exactly when it starts behind the last session. -/
theorem windowed_eq_nil_iff {start : ℤ} {ticker : String} {s : Series} {bars : List Bar}
    (h : windowed start ticker s = .ok bars) : bars = [] ↔ s.latest < start := by
  obtain ⟨all, hall, rfl⟩ := map_eq_ok_iff.mp h
  rw [adjusted_eq hall]
  rw [List.filter_eq_nil_iff, List.forall_mem_map]
  simp only [decide_eq_true_eq, not_le]
  constructor
  · exact fun hbefore => hbefore _ (List.getLast_mem s.nonempty)
  · exact fun hlatest b hb => (session_le_getLast s.ascending s.nonempty b hb).trans_lt hlatest

theorem windowed_of_adjusted {ticker : String} {s : Series} (start : ℤ)
    (h : ∃ bars, adjusted ticker s = .ok bars) : ∃ bars, windowed start ticker s = .ok bars := by
  obtain ⟨bars, hbars⟩ := h
  exact ⟨_, by rw [windowed, hbars]; rfl⟩

theorem adjusted_of_windowed {ticker : String} {s : Series} {start : ℤ} {bars : List Bar}
    (h : windowed start ticker s = .ok bars) : ∃ bars, adjusted ticker s = .ok bars := by
  obtain ⟨all, hall, -⟩ := map_eq_ok_iff.mp h
  exact ⟨all, hall⟩

/-! ## Supplied in lockstep -/

/-- The same columns, from the same datasets. -/
structure Alike (s s' : Supplied) : Prop where
  columns : s.columns = s'.columns
  used : ∀ id, id ∈ s.used ↔ id ∈ s'.used

/-- What is found of a ticker in two runs, when it is in the frames of both or of neither. -/
inductive Matched (start : ℤ) (ticker : String) : Option Found → Option Found → Prop
  | absent : Matched start ticker none none
  | dropped {f : Found} (h : windowed start ticker f.series = .ok []) :
      Matched start ticker (some f) none
  | idle {f f' : Found} (h : windowed start ticker f.series = .ok [])
      (h' : windowed start ticker f'.series = .ok []) : Matched start ticker (some f) (some f')
  | supplied {f f' : Found} {bars : List Bar} (h : windowed start ticker f.series = .ok bars)
      (h' : windowed start ticker f'.series = .ok bars) (hbars : bars ≠ [])
      (hids : ∀ id, id ∈ f.ids ↔ id ∈ f'.ids) : Matched start ticker (some f) (some f')

/-- A ticker with a window is placed. -/
theorem supply_of_windowed {start : ℤ} {ticker : String} {f : Found} {bars : List Bar}
    (h : windowed start ticker f.series = .ok bars) (s : Supplied) :
    supply start s (ticker, f) = .ok (s.place ticker f.ids bars) := by
  rw [supply, h]
  rfl

namespace Alike

variable {s s' : Supplied}

/-- Nothing is supplied by an empty window. -/
theorem place_idle_left (h : Alike s s') (ticker : String) (ids : List String) :
    Alike (s.place ticker ids []) s' := by
  rw [Supplied.place, if_pos rfl]
  exact ⟨h.columns, h.used⟩

theorem place_idle_right (h : Alike s s') (ticker : String) (ids : List String) :
    Alike s (s'.place ticker ids []) := by
  rw [Supplied.place, if_pos rfl]
  exact ⟨h.columns, h.used⟩

/-- Equal windows keep the supplies alike. -/
theorem place (h : Alike s s') (ticker : String) {ids ids' : List String} {bars : List Bar}
    (hids : ∀ id, id ∈ ids ↔ id ∈ ids') :
    Alike (s.place ticker ids bars) (s'.place ticker ids' bars) := by
  by_cases hbars : bars = []
  · subst hbars
    have hleft : Alike (s.place ticker ids []) s' := h.place_idle_left ticker ids
    exact hleft.place_idle_right ticker ids'
  · constructor
    · simp only [Supplied.place, if_neg hbars, h.columns]
    · intro id
      simp only [Supplied.place, if_neg hbars, List.mem_append, h.used, hids]

end Alike

/-- Tickers that match are supplied in the same way. -/
theorem supply_lockstep {start : ℤ} {tickers : List String} {g g' : String → Option Found}
    (hmatched : ∀ ticker ∈ tickers, Matched start ticker (g ticker) (g' ticker))
    {s s' r : Supplied} (halike : Alike s s')
    (hr : (tickers.filterMap fun ticker => (g ticker).map fun f => (ticker, f)).foldlM
      (supply start) s = .ok r) :
    ∃ r', (tickers.filterMap fun ticker => (g' ticker).map fun f => (ticker, f)).foldlM
      (supply start) s' = .ok r' ∧ Alike r r' := by
  induction tickers generalizing s s' with
  | nil =>
    cases hr
    exact ⟨s', rfl, halike⟩
  | cons ticker rest ih =>
    obtain ⟨hfirst, hrest⟩ := List.forall_mem_cons.mp hmatched
    rw [List.filterMap_cons] at hr ⊢
    generalize g ticker = outcome, g' ticker = outcome' at hfirst hr ⊢
    cases hfirst with
    | absent =>
      simp only [Option.map_none] at hr ⊢
      exact ih hrest halike hr
    | dropped h =>
      simp only [Option.map_some, Option.map_none, List.foldlM_cons,
        supply_of_windowed h] at hr ⊢
      exact ih hrest (halike.place_idle_left _ _) hr
    | idle h h' =>
      simp only [Option.map_some, List.foldlM_cons, supply_of_windowed h,
        supply_of_windowed h'] at hr ⊢
      exact ih hrest ((halike.place_idle_left _ _).place_idle_right _ _) hr
    | supplied h h' hbars hids =>
      simp only [Option.map_some, List.foldlM_cons, supply_of_windowed h,
        supply_of_windowed h'] at hr ⊢
      exact ih hrest (halike.place _ hids) hr

/-- What a run has used, and that every ticker was adjusted. -/
theorem supply_used {start : ℤ} {items : List (String × Found)} {s r : Supplied}
    (hr : items.foldlM (supply start) s = .ok r) :
    (∀ item ∈ items, ∃ bars, windowed start item.1 item.2.series = .ok bars) ∧
      ∀ id, id ∈ r.used ↔ id ∈ s.used ∨
        ∃ item ∈ items, start ≤ item.2.series.latest ∧ id ∈ item.2.ids := by
  induction items generalizing s with
  | nil =>
    cases hr
    exact ⟨List.forall_mem_nil _, fun id => by simp⟩
  | cons item rest ih =>
    rw [List.foldlM_cons] at hr
    obtain ⟨next, hnext, hrest⟩ := bind_eq_ok_iff.mp hr
    obtain ⟨bars, hbars, rfl⟩ := map_eq_ok_iff.mp hnext
    obtain ⟨hall, hused⟩ := ih hrest
    refine ⟨List.forall_mem_cons.mpr ⟨⟨bars, hbars⟩, hall⟩, fun id => ?_⟩
    have hplace : id ∈ (s.place item.1 item.2.ids bars).used ↔
        id ∈ s.used ∨ start ≤ item.2.series.latest ∧ id ∈ item.2.ids := by
      by_cases hnil : bars = []
      · have hlatest := (windowed_eq_nil_iff hbars).mp hnil
        simp only [Supplied.place, if_pos hnil, not_le.mpr hlatest, false_and, or_false]
      · have hlatest := not_lt.mp (mt (windowed_eq_nil_iff hbars).mpr hnil)
        simp only [Supplied.place, if_neg hnil, List.mem_append, hlatest, true_and]
    rw [hused, hplace, or_assoc]
    simp only [List.mem_cons, exists_eq_or_imp]

/-! ## One run -/

section Run

variable {datasets : List (String × Dataset)} {tickers : List String} {period : String}

/-- The series of the parts. -/
def heldSeries (datasets : List (String × Dataset)) (ticker : String) : List Series :=
  (heldParts datasets ticker).map Prod.snd

/-- What a search finds: nothing, or the union of undisputed parts. -/
theorem find_spec {ticker : String} {outcome : Option Found}
    (h : find datasets ticker = .ok outcome) :
    (heldParts datasets ticker = [] ∧ outcome = none) ∨
      ∃ f, outcome = some f ∧ heldSeries datasets ticker ≠ [] ∧
        AllPairs Series.Undisputed (heldSeries datasets ticker) ∧
        Union (heldSeries datasets ticker) f.series ∧
        f.ids = (heldParts datasets ticker).map Prod.fst := by
  obtain ⟨-, hnone | ⟨hne, s, hs, houtcome⟩⟩ := find_eq_ok_iff.mp h
  · exact Or.inl hnone
  · refine Or.inr ⟨_, houtcome, mt List.map_eq_nil_iff.mp hne, ?_⟩
    rcases merged_spec ticker (heldSeries datasets ticker) with
      ⟨e, -, he⟩ | ⟨hnone, s', hs', hunion⟩
    · cases he.symm.trans hs
    · cases hs.symm.trans hs'
      exact ⟨(refusal_eq_none_iff.mp hnone).2, hunion, rfl⟩

/-- Readable and undisputed parts are found. -/
theorem exists_find {ticker : String} (hreadable : Readable datasets ticker)
    (h : AllPairs Series.Undisputed (heldSeries datasets ticker)) :
    ∃ outcome, find datasets ticker = .ok outcome := by
  by_cases hnil : heldParts datasets ticker = []
  · exact ⟨none, find_eq_ok_iff.mpr ⟨hreadable, Or.inl ⟨hnil, rfl⟩⟩⟩
  · have hne : heldSeries datasets ticker ≠ [] := mt List.map_eq_nil_iff.mp hnil
    rcases merged_spec ticker (heldSeries datasets ticker) with ⟨e, he, -⟩ | ⟨-, s, hs, -⟩
    · rw [refusal_eq_none_iff.mpr ⟨hne, h⟩] at he
      cases he
    · exact ⟨_, find_eq_ok_iff.mpr ⟨hreadable, Or.inr ⟨hnil, s, hs, rfl⟩⟩⟩

/-- The items found are those of the tickers with an outcome. -/
theorem mem_foundItems {ticker : String} {f : Found} :
    (ticker, f) ∈ foundItems datasets tickers ↔
      ticker ∈ tickers ∧ outcomeOf datasets ticker = some f := by
  simp only [foundItems, List.mem_filterMap, List.mem_eraseDups]
  constructor
  · rintro ⟨ticker', hmem, hsome⟩
    obtain ⟨f', hf', heq⟩ := Option.map_eq_some_iff.mp hsome
    cases heq
    exact ⟨hmem, hf'⟩
  · rintro ⟨hmem, hf⟩
    exact ⟨ticker, hmem, by rw [hf]; rfl⟩

/-- A run that returns a frame. -/
structure Returns (datasets : List (String × Dataset)) (tickers : List String) (period : String)
    (start : ℤ) (s : Supplied) : Prop where
  finds : ∀ ticker ∈ tickers, ∃ outcome, find datasets ticker = .ok outcome
  window : ∃ last, IsLatest (foundItems datasets tickers) last ∧
    windowFrom last period = .ok start
  supplied : ∃ missing, (foundItems datasets tickers).foldlM (supply start)
    ⟨Dict.empty, [], missing⟩ = .ok s
  nonempty : s.columns.items ≠ []

theorem items_lookUp {missing : Dict String String} {found : Dict String Found}
    {state : Dict String Found × Dict String String}
    (h : tickers.foldlM (lookUp datasets) (Dict.empty, missing) = .ok state)
    (hfound : state.1 = found) : found.items = foundItems datasets tickers := by
  rw [← hfound, (foldlM_lookUp h).2, items_foldl_setEach]
  rfl

/-- What `frame_from` returns is laid out from a run over the tickers. -/
theorem returns_of_frameFrom {result : Frame × List String × Dict String String}
    (h : frameFrom datasets tickers period = .ok result) :
    ∃ start s, Returns datasets tickers period start s ∧
      result = (layOut s.columns, sortedSet s.used, s.missing) := by
  obtain ⟨⟨found, missing⟩, hfound, hrest⟩ := bind_eq_ok_iff.mp h
  obtain ⟨s, hs, hrest⟩ := bind_eq_ok_iff.mp hrest
  have hitems := items_lookUp hfound rfl
  split at hrest
  · cases hrest
  · rename_i hcolumns
    cases hrest
    have hne : found.items ≠ [] := by
      intro hnil
      rw [supplyAll, Dict.values, hnil] at hs
      cases hs
      exact hcolumns rfl
    obtain ⟨last, start, hlatest, hstart, hfold⟩ := (supplyAll_eq_ok_iff hne).mp hs
    rw [hitems] at hlatest hfold
    exact ⟨start, s, ⟨(foldlM_lookUp hfound).1, ⟨last, hlatest, hstart⟩, ⟨missing, hfold⟩,
      hcolumns⟩, rfl⟩

end Run

end QuantumSentinel.MarketData
