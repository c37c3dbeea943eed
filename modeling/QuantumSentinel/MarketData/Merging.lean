import Mathlib.Data.List.Dedup
import Mathlib.Data.List.Nodup
import QuantumSentinel.MarketData.Series

/-!
# Market data: merging the parts of a symbol

`_merged` makes one series of all the datasets that hold a symbol.  It compares the
identities, the rows of common sessions and the amounts of common dividends.

Main results:

- Definition `merged`: the checks and the series.
- Theorem `merged_spec`: why parts are refused, and what a merged series holds.
- Theorem `only_agreeing_merged`: when a merge stands for agreement.

Current gaps:

- Dates outside the nanoseconds of pandas.
-/

namespace QuantumSentinel.MarketData

open Lib

/-! ## One series of several -/

/-- `nunique(dropna=False)` -/
def nunique (values : List (Option ℚ)) : ℕ :=
  values.dedup.length

/-- The rows of a session. -/
def rowsOf (rows : List Bar) (session : ℤ) : List Bar :=
  rows.filter fun b => decide (b.session = session)

/-- `bars[overlap]`: the rows whose session is on another row too. -/
def overlapping (rows : List Bar) : List Bar :=
  rows.filter fun b => decide (1 < (rowsOf rows b.session).length)

/-- Whether a column has two values in one session. -/
def barsDisagree (rows : List Bar) : Bool :=
  ((overlapping rows).map Bar.session).dedup.any fun session =>
    Bar.columns.any fun column =>
      decide (1 < nunique ((rowsOf (overlapping rows) session).map column))

/-- `dividends.setdefault` and the comparison behind it. -/
def addDividend (symbol : String) (dividends : Dict ℤ ℚ) (item : ℤ × ℚ) :
    Except Raised (Dict ℤ ℚ) :=
  match dividends.get? item.1 with
  | some amount => if amount = item.2 then .ok dividends else .error (.dividends symbol)
  | none => .ok (dividends.set item.1 item.2)

/-- `bars[~bars.index.duplicated()]` -/
def firstRows : List Bar → List Bar
  | [] => []
  | b :: rest => b :: (firstRows rest).filter fun b' => decide (b'.session ≠ b.session)

/-- `sort_index` -/
def sortIndex (rows : List Bar) : List Bar :=
  rows.mergeSort fun b b' => decide (b.session ≤ b'.session)

theorem mem_firstRows_sub {rows : List Bar} {b : Bar} (h : b ∈ firstRows rows) : b ∈ rows := by
  induction rows with
  | nil => exact h
  | cons b' rest ih =>
    rcases List.mem_cons.mp h with rfl | h
    · exact List.mem_cons_self
    · exact List.mem_cons_of_mem _ (ih (List.mem_filter.mp h).1)

/-- Every session keeps its first row. -/
theorem exists_firstRows {rows : List Bar} {b : Bar} (h : b ∈ rows) :
    ∃ b' ∈ firstRows rows, b'.session = b.session := by
  induction rows with
  | nil => cases h
  | cons first rest ih =>
    by_cases hsession : b.session = first.session
    · exact ⟨first, List.mem_cons_self, hsession.symm⟩
    · rcases List.mem_cons.mp h with rfl | h
      · exact absurd rfl hsession
      · obtain ⟨b', hb', hsame⟩ := ih h
        refine ⟨b', List.mem_cons_of_mem _ (List.mem_filter.mpr ⟨hb', ?_⟩), hsame⟩
        rw [decide_eq_true_eq, hsame]
        exact hsession

/-- One row is left for each session. -/
theorem firstRows_sessions (rows : List Bar) :
    (firstRows rows).Pairwise fun b b' => b.session ≠ b'.session := by
  induction rows with
  | nil => exact List.Pairwise.nil
  | cons b rest ih =>
    refine List.Pairwise.cons (fun b' hb' => ?_) (ih.filter _)
    have hne := (List.mem_filter.mp hb').2
    rw [decide_eq_true_eq] at hne
    exact hne.symm

/-- Then sorting makes the sessions ascend. -/
theorem sortIndex_ascending (rows : List Bar) :
    (sortIndex (firstRows rows)).Pairwise fun b b' => b.session < b'.session := by
  have hsorted : (sortIndex (firstRows rows)).Pairwise fun b b' => b.session ≤ b'.session := by
    refine (List.pairwise_mergeSort ?_ ?_ _).imp fun h => of_decide_eq_true h
    · intro a b c hab hbc
      rw [decide_eq_true_eq] at hab hbc ⊢
      exact hab.trans hbc
    · intro a b
      rw [Bool.or_eq_true, decide_eq_true_eq, decide_eq_true_eq]
      exact le_total _ _
  have hdistinct : (sortIndex (firstRows rows)).Pairwise fun b b' => b.session ≠ b'.session :=
    (List.mergeSort_perm _ _).symm.pairwise (firstRows_sessions rows) fun h => h.symm
  exact (hsorted.and hdistinct).imp fun h => lt_of_le_of_ne h.1 h.2

theorem sortIndex_ne_nil {rows : List Bar} (h : rows ≠ []) : sortIndex (firstRows rows) ≠ [] := by
  obtain ⟨b, rest, rfl⟩ := List.exists_cons_of_ne_nil h
  intro hnil
  have hmem : b ∈ sortIndex (firstRows (b :: rest)) :=
    (List.mergeSort_perm _ _).mem_iff.mpr List.mem_cons_self
  rw [hnil] at hmem
  cases hmem

/-- The rows of all parts. -/
def allRows (parts : List Series) : List Bar :=
  parts.flatMap Series.bars

theorem allRows_ne_nil (p : Series) (rest : List Series) : allRows (p :: rest) ≠ [] := by
  rw [allRows, List.flatMap_cons]
  exact List.append_ne_nil_of_left_ne_nil p.nonempty _

/-- `_merged` -/
def merged (symbol : String) (parts : List Series) : Except Raised Series :=
  match parts with
  | [] => .error .noObjects
  | [p] => .ok p
  | p :: q :: rest =>
    if (q :: rest).any fun part => decide (part.identity ≠ p.identity) then
      .error (.identities symbol)
    else if barsDisagree (allRows (p :: q :: rest)) then .error (.bars symbol)
    else
      (fun dividends => {
        identity := p.identity
        bars := sortIndex (firstRows (allRows (p :: q :: rest)))
        dividends := dividends
        ascending := sortIndex_ascending _
        nonempty := sortIndex_ne_nil (allRows_ne_nil p (q :: rest)) }) <$>
      ((p :: q :: rest).flatMap fun part => part.dividends.items).foldlM (addDividend symbol)
        Dict.empty

/-! ## Two values in one session -/

theorem one_lt_length {α : Type} {l : List α} {a b : α} (ha : a ∈ l) (hb : b ∈ l) (h : a ≠ b) :
    1 < l.length := by
  by_contra hshort
  rcases l with _ | ⟨x, _ | ⟨y, rest⟩⟩
  · cases ha
  · exact h ((List.mem_singleton.mp ha).trans (List.mem_singleton.mp hb).symm)
  · rw [List.length_cons, List.length_cons] at hshort
    omega

/-- More than one value: two that differ. -/
theorem one_lt_nunique_iff {values : List (Option ℚ)} :
    1 < nunique values ↔ ∃ a ∈ values, ∃ b ∈ values, a ≠ b := by
  constructor
  · intro h
    have hnodup := List.nodup_dedup values
    rw [nunique] at h
    rcases hvalues : values.dedup with _ | ⟨a, _ | ⟨b, rest⟩⟩
    · rw [hvalues, List.length_nil] at h
      omega
    · rw [hvalues, List.length_singleton] at h
      omega
    · rw [hvalues, List.nodup_cons] at hnodup
      refine ⟨a, List.mem_dedup.mp (hvalues ▸ List.mem_cons_self), b,
        List.mem_dedup.mp (hvalues ▸ List.mem_cons_of_mem _ List.mem_cons_self), ?_⟩
      rintro rfl
      exact hnodup.1 List.mem_cons_self
  · rintro ⟨a, ha, b, hb, hne⟩
    exact one_lt_length (List.mem_dedup.mpr ha) (List.mem_dedup.mpr hb) hne

theorem mem_rowsOf {rows : List Bar} {session : ℤ} {b : Bar} :
    b ∈ rowsOf rows session ↔ b ∈ rows ∧ b.session = session := by
  rw [rowsOf, List.mem_filter, decide_eq_true_eq]

/-- The rows of a session disagree when two of them do. -/
theorem barsDisagree_iff {rows : List Bar} :
    barsDisagree rows = true ↔
      ∃ b ∈ rows, ∃ b' ∈ rows, b.session = b'.session ∧ b.fields ≠ b'.fields := by
  simp only [barsDisagree, List.any_eq_true, decide_eq_true_eq, one_lt_nunique_iff]
  constructor
  · rintro ⟨session, -, column, hcolumn, _, hmem, _, hmem', hne⟩
    obtain ⟨b, hb, rfl⟩ := List.mem_map.mp hmem
    obtain ⟨b', hb', rfl⟩ := List.mem_map.mp hmem'
    obtain ⟨hb, hsession⟩ := mem_rowsOf.mp hb
    obtain ⟨hb', hsession'⟩ := mem_rowsOf.mp hb'
    refine ⟨b, (List.mem_filter.mp hb).1, b', (List.mem_filter.mp hb').1,
      hsession.trans hsession'.symm, fun hfields => hne ?_⟩
    exact List.map_inj_left.mp hfields column hcolumn
  · rintro ⟨b, hb, b', hb', hsession, hfields⟩
    obtain ⟨column, hcolumn, hne⟩ := Bar.exists_column hfields
    have hdistinct : b ≠ b' := fun h => hfields (h ▸ rfl)
    have hoverlap : ∀ c ∈ rows, c.session = b.session → c ∈ overlapping rows := by
      intro c hc hcsession
      rw [overlapping, List.mem_filter, decide_eq_true_eq, hcsession]
      exact ⟨hc, one_lt_length (mem_rowsOf.mpr ⟨hb, rfl⟩) (mem_rowsOf.mpr ⟨hb', hsession.symm⟩)
        hdistinct⟩
    have hrow := hoverlap b hb rfl
    have hrow' := hoverlap b' hb' hsession.symm
    exact ⟨b.session, List.mem_dedup.mpr (List.mem_map_of_mem hrow), column, hcolumn, column b,
      List.mem_map_of_mem (mem_rowsOf.mpr ⟨hrow, rfl⟩), column b',
      List.mem_map_of_mem (mem_rowsOf.mpr ⟨hrow', hsession.symm⟩), hne⟩

/-! ## Dividends -/

/-- The merged dividends are those of the items, and there is one amount for each day. -/
theorem foldlM_addDividend {symbol : String} {items : List (ℤ × ℚ)} {d merged : Dict ℤ ℚ}
    (h : items.foldlM (addDividend symbol) d = .ok merged) (exDate : ℤ) (amount : ℚ) :
    merged.get? exDate = some amount ↔
      d.get? exDate = some amount ∨ (exDate, amount) ∈ items := by
  induction items generalizing d with
  | nil =>
    cases h
    simp only [List.not_mem_nil, or_false]
  | cons item rest ih =>
    rw [List.foldlM_cons] at h
    obtain ⟨d', hd', hrest⟩ := bind_eq_ok_iff.mp h
    rw [ih hrest]
    unfold addDividend at hd'
    split at hd'
    · rename_i held hheld
      split at hd'
      · rename_i hequal
        cases hd'
        constructor
        · rintro (hget | hmem)
          · exact Or.inl hget
          · exact Or.inr (List.mem_cons_of_mem _ hmem)
        · rintro (hget | hmem)
          · exact Or.inl hget
          · rcases List.mem_cons.mp hmem with rfl | hmem
            · exact Or.inl (hheld.trans (congrArg some hequal))
            · exact Or.inr hmem
      · cases hd'
    · rename_i hnone
      cases hd'
      rw [Dict.get?_set]
      by_cases hkey : exDate = item.1
      · subst hkey
        rw [if_pos rfl, hnone]
        constructor
        · rintro (hget | hmem)
          · cases hget
            exact Or.inr List.mem_cons_self
          · exact Or.inr (List.mem_cons_of_mem _ hmem)
        · rintro (hget | hmem)
          · cases hget
          · rcases List.mem_cons.mp hmem with heq | hmem
            · exact Or.inl (by rw [← heq])
            · exact Or.inr hmem
      · have hother : (exDate, amount) ≠ item := fun h => hkey (congrArg Prod.fst h)
        rw [if_neg hkey, List.mem_cons, or_iff_right hother]

/-- Dividends are refused for a day with two amounts only. -/
theorem exists_of_addDividend_error {symbol : String} {items : List (ℤ × ℚ)} {d : Dict ℤ ℚ}
    {e : Raised} (h : items.foldlM (addDividend symbol) d = .error e) :
    e = .dividends symbol ∧ ∃ exDate amount amount', amount ≠ amount' ∧
      (d.get? exDate = some amount ∨ (exDate, amount) ∈ items) ∧ (exDate, amount') ∈ items := by
  induction items generalizing d with
  | nil => cases h
  | cons item rest ih =>
    rw [List.foldlM_cons] at h
    rcases bind_eq_error_iff.mp h with hitem | ⟨d', hd', hrest⟩
    · unfold addDividend at hitem
      split at hitem
      · rename_i held hheld
        split at hitem
        · cases hitem
        · rename_i hne
          cases hitem
          exact ⟨rfl, item.1, held, item.2, hne, Or.inl hheld, List.mem_cons_self⟩
      · cases hitem
    · obtain ⟨he, exDate, amount, amount', hne, hheld, hmem⟩ := ih hrest
      refine ⟨he, exDate, amount, amount', hne, ?_, List.mem_cons_of_mem _ hmem⟩
      rcases hheld with hget | hmem'
      · -- one item is folded before the rest
        have hone : [item].foldlM (addDividend symbol) d = .ok d' := by
          rw [List.foldlM_cons, hd']
          rfl
        rcases (foldlM_addDividend hone exDate amount).mp hget with hget | hmem'
        · exact Or.inl hget
        · exact Or.inr (List.mem_cons.mpr (Or.inl (List.mem_singleton.mp hmem')))
      · exact Or.inr (List.mem_cons_of_mem _ hmem')

/-! ## What two parts say of one another -/

namespace Series

/-- The rows of two parts are the same in every session that both contain. -/
def SameBars (p q : Series) : Prop :=
  ∀ b ∈ p.bars, ∀ b' ∈ q.bars, b.session = b'.session → b.fields = b'.fields

/-- The amounts of two parts are the same on every ex-date that both have. -/
def SameAmounts (p q : Series) : Prop :=
  ∀ exDate amount amount', p.dividends.get? exDate = some amount →
    q.dividends.get? exDate = some amount' → amount = amount'

/-- A day between the first and the last session of a part. -/
def Covers (p : Series) (day : ℤ) : Prop :=
  (∃ b ∈ p.bars, b.session ≤ day) ∧ ∃ b ∈ p.bars, day ≤ b.session

/-- Neither part is silent about a dividend of the other on a day that both cover. -/
def SamePresence (p q : Series) : Prop :=
  ∀ exDate, p.Covers exDate → q.Covers exDate →
    (p.dividends.get? exDate).isSome = (q.dividends.get? exDate).isSome

/-- Two parts agree wherever both cover a session. -/
structure Agree (p q : Series) : Prop where
  identity : p.identity = q.identity
  bars : p.SameBars q
  dividends : ∀ exDate, p.Covers exDate → q.Covers exDate →
    p.dividends.get? exDate = q.dividends.get? exDate

/-- What `_merged` compares. -/
structure Undisputed (p q : Series) : Prop where
  identity : p.identity = q.identity
  bars : p.SameBars q
  amounts : p.SameAmounts q

/-- Series with the same content; a dict has no order. -/
structure Same (p q : Series) : Prop where
  identity : p.identity = q.identity
  bars : p.bars = q.bars
  dividends : ∀ exDate, p.dividends.get? exDate = q.dividends.get? exDate

/-- A part has one row for each session. -/
theorem eq_of_session (p : Series) {b b' : Bar} (hb : b ∈ p.bars) (hb' : b' ∈ p.bars)
    (h : b.session = b'.session) : b = b' := by
  have hsymm : Std.Symm fun b b' : Bar => b.session = b'.session → b = b' :=
    ⟨fun _ _ h hsession => (h hsession.symm).symm⟩
  have hrows : p.bars.Pairwise fun b b' => b.session = b'.session → b = b' :=
    p.ascending.imp fun hlt heq => absurd heq hlt.ne
  exact hrows.forall_of_forall (fun _ _ _ => rfl) hb hb' h

theorem Undisputed.refl (p : Series) : p.Undisputed p where
  identity := rfl
  bars _ hb _ hb' h := congrArg Bar.fields (p.eq_of_session hb hb' h)
  amounts _ _ _ h h' := Option.some.inj (h.symm.trans h')

/-- What is not disputed and on no side passed over is agreed. -/
theorem Undisputed.agree {p q : Series} (h : p.Undisputed q) (hpresence : p.SamePresence q) :
    p.Agree q where
  identity := h.identity
  bars := h.bars
  dividends exDate hp hq := by
    have hsame := hpresence exDate hp hq
    cases hamount : p.dividends.get? exDate with
    | none =>
      rw [hamount] at hsame
      exact (Option.not_isSome_iff_eq_none.mp (by rw [← hsame]; exact Bool.false_ne_true)).symm
    | some amount =>
      rw [hamount] at hsame
      obtain ⟨amount', hamount'⟩ := Option.isSome_iff_exists.mp hsame.symm
      rw [hamount', h.amounts exDate amount amount' hamount hamount']

/-- Parts that agree have the same fields present. -/
theorem Agree.samePresence {p q : Series} (h : p.Agree q) : p.SamePresence q :=
  fun exDate hp hq => congrArg Option.isSome (h.dividends exDate hp hq)

end Series

/-! ## The outcome -/

/-- The rows are those of the parts. -/
theorem mem_allRows {parts : List Series} {b : Bar} :
    b ∈ allRows parts ↔ ∃ p ∈ parts, b ∈ p.bars :=
  List.mem_flatMap

/-- Rows that are not disputed are kept, all of them. -/
theorem mem_sortIndex {rows : List Bar} (h : barsDisagree rows = false) {b : Bar} :
    b ∈ sortIndex (firstRows rows) ↔ b ∈ rows := by
  rw [sortIndex, (List.mergeSort_perm _ _).mem_iff]
  refine ⟨mem_firstRows_sub, fun hb => ?_⟩
  obtain ⟨b', hb', hsession⟩ := exists_firstRows hb
  have hfields : b'.fields = b.fields := by
    by_contra hne
    have hdisagree := barsDisagree_iff.mpr ⟨b', mem_firstRows_sub hb', b, hb, hsession, hne⟩
    rw [h] at hdisagree
    cases hdisagree
  rwa [← Bar.eq_of_fields hsession hfields]

/-- What a merged series holds. -/
structure Union (parts : List Series) (s : Series) : Prop where
  identity : ∀ p ∈ parts, s.identity = p.identity
  bars : ∀ b, b ∈ s.bars ↔ ∃ p ∈ parts, b ∈ p.bars
  dividends : ∀ exDate amount, s.dividends.get? exDate = some amount ↔
    ∃ p ∈ parts, p.dividends.get? exDate = some amount

/-- A relation between any two parts. -/
def AllPairs (R : Series → Series → Prop) (parts : List Series) : Prop :=
  ∀ p ∈ parts, ∀ q ∈ parts, R p q

/-- The order of the parts does not matter to what holds of all pairs. -/
theorem AllPairs.perm {R : Series → Series → Prop} {parts parts' : List Series}
    (h : parts.Perm parts') : AllPairs R parts ↔ AllPairs R parts' := by
  simp only [AllPairs, h.mem_iff]

/-- The order of the parts does not matter to their union. -/
theorem Union.perm {parts parts' : List Series} (h : parts.Perm parts') {s : Series}
    (hs : Union parts' s) : Union parts s where
  identity p hp := hs.identity p (h.mem_iff.mp hp)
  bars b := by simp only [hs.bars, h.mem_iff]
  dividends exDate amount := by simp only [hs.dividends, h.mem_iff]

/-- There is one series that holds what the parts hold. -/
theorem Union.same {parts : List Series} (hparts : parts ≠ []) {s s' : Series}
    (hs : Union parts s) (hs' : Union parts s') : s.Same s' := by
  obtain ⟨p, rest, rfl⟩ := List.exists_cons_of_ne_nil hparts
  have hdistinct : ∀ s : Series, s.bars.Nodup := fun s =>
    s.ascending.imp fun hlt heq => hlt.ne (congrArg Bar.session heq)
  refine ⟨?_, ?_, fun exDate => ?_⟩
  · exact (hs.identity p List.mem_cons_self).trans (hs'.identity p List.mem_cons_self).symm
  · have hperm : s.bars.Perm s'.bars := by
      rw [List.perm_ext_iff_of_nodup (hdistinct s) (hdistinct s')]
      exact fun b => (hs.bars b).trans (hs'.bars b).symm
    exact hperm.eq_of_pairwise (fun a b _ _ hab hba => absurd hab hba.not_gt) s.ascending
      s'.ascending
  · exact Option.ext fun amount => (hs.dividends exDate amount).trans (hs'.dividends exDate amount).symm

/-- The rows of the parts disagree when two parts do. -/
theorem barsDisagree_allRows {parts : List Series} :
    barsDisagree (allRows parts) = true ↔ ¬AllPairs Series.SameBars parts := by
  rw [barsDisagree_iff]
  constructor
  · rintro ⟨b, hb, b', hb', hsession, hne⟩ hsame
    obtain ⟨p, hp, hb⟩ := mem_allRows.mp hb
    obtain ⟨q, hq, hb'⟩ := mem_allRows.mp hb'
    exact hne (hsame p hp q hq b hb b' hb' hsession)
  · intro hsame
    by_contra hnone
    refine hsame fun p hp q hq b hb b' hb' hsession => ?_
    by_contra hne
    exact hnone ⟨b, mem_allRows.mpr ⟨p, hp, hb⟩, b', mem_allRows.mpr ⟨q, hq, hb'⟩, hsession, hne⟩

/-- The dividends of all parts. -/
def allDividends (parts : List Series) : List (ℤ × ℚ) :=
  parts.flatMap fun part => part.dividends.items

/-- The dividends are those of the parts. -/
theorem mem_allDividends {parts : List Series} {exDate : ℤ} {amount : ℚ} :
    (exDate, amount) ∈ allDividends parts ↔
      ∃ p ∈ parts, p.dividends.get? exDate = some amount := by
  simp only [allDividends, List.mem_flatMap, Dict.get?_eq_some_iff]

/-- The merged dividends, or the refusal of two amounts for one day. -/
theorem merge_dividends (symbol : String) (parts : List Series) :
    (¬AllPairs Series.SameAmounts parts ∧
      (allDividends parts).foldlM (addDividend symbol) Dict.empty = .error (.dividends symbol)) ∨
    AllPairs Series.SameAmounts parts ∧ ∃ dividends,
      (allDividends parts).foldlM (addDividend symbol) Dict.empty = .ok dividends ∧
        ∀ exDate amount, dividends.get? exDate = some amount ↔
          ∃ p ∈ parts, p.dividends.get? exDate = some amount := by
  cases hfold : (allDividends parts).foldlM (addDividend symbol) Dict.empty with
  | error e =>
    obtain ⟨rfl, exDate, amount, amount', hne, hfirst, hsecond⟩ :=
      exists_of_addDividend_error hfold
    rw [Dict.get?_empty, or_iff_right (by simp)] at hfirst
    obtain ⟨p, hp, hfirst⟩ := mem_allDividends.mp hfirst
    obtain ⟨q, hq, hsecond⟩ := mem_allDividends.mp hsecond
    exact Or.inl ⟨fun h => hne (h p hp q hq exDate amount amount' hfirst hsecond), rfl⟩
  | ok dividends =>
    have hget : ∀ exDate amount, dividends.get? exDate = some amount ↔
        ∃ p ∈ parts, p.dividends.get? exDate = some amount := by
      intro exDate amount
      rw [foldlM_addDividend hfold, Dict.get?_empty, or_iff_right (by simp), mem_allDividends]
    refine Or.inr ⟨fun p hp q hq exDate amount amount' h h' => ?_, dividends, rfl, hget⟩
    have hone := (hget exDate amount).mpr ⟨p, hp, h⟩
    have htwo := (hget exDate amount').mpr ⟨q, hq, h'⟩
    exact Option.some.inj (hone.symm.trans htwo)

open Classical in
/-- Why some parts are not merged, if they are not; the order of the parts does not matter. -/
noncomputable def refusal (symbol : String) (parts : List Series) : Option Raised :=
  if parts = [] then some .noObjects
  else if ¬AllPairs (fun p q => p.identity = q.identity) parts then some (.identities symbol)
  else if ¬AllPairs Series.SameBars parts then some (.bars symbol)
  else if ¬AllPairs Series.SameAmounts parts then some (.dividends symbol)
  else none

open Classical in
/-- The order of the parts does not matter to a refusal. -/
theorem refusal_perm (symbol : String) {parts parts' : List Series} (h : parts.Perm parts') :
    refusal symbol parts = refusal symbol parts' := by
  have hnil : parts = [] ↔ parts' = [] :=
    ⟨fun hp => (hp ▸ h).nil_eq.symm, fun hp => (hp ▸ h).eq_nil⟩
  exact if_congr hnil rfl (if_congr (not_congr (AllPairs.perm h)) rfl
    (if_congr (not_congr (AllPairs.perm h)) rfl (if_congr (not_congr (AllPairs.perm h)) rfl rfl)))

/-- Nothing is refused when nothing is disputed. -/
theorem refusal_eq_none_iff {symbol : String} {parts : List Series} :
    refusal symbol parts = none ↔ parts ≠ [] ∧ AllPairs Series.Undisputed parts := by
  have hparts : AllPairs Series.Undisputed parts ↔
      AllPairs (fun p q => p.identity = q.identity) parts ∧ AllPairs Series.SameBars parts ∧
        AllPairs Series.SameAmounts parts := by
    constructor
    · exact fun h => ⟨fun p hp q hq => (h p hp q hq).identity, fun p hp q hq => (h p hp q hq).bars,
        fun p hp q hq => (h p hp q hq).amounts⟩
    · exact fun ⟨hidentity, hbars, hamounts⟩ p hp q hq =>
        ⟨hidentity p hp q hq, hbars p hp q hq, hamounts p hp q hq⟩
  rw [hparts]
  unfold refusal
  split_ifs with hnil hidentity hbars hamounts
  · exact iff_of_false (by simp) fun h => h.1 hnil
  · exact iff_of_true rfl ⟨hnil, hidentity, hbars, hamounts⟩
  · exact iff_of_false (by simp) fun h => hamounts h.2.2.2
  · exact iff_of_false (by simp) fun h => hbars h.2.2.1
  · exact iff_of_false (by simp) fun h => hidentity h.2.1

/-- A merge is refused for the reason there is, and holds what the parts hold otherwise. -/
theorem merged_spec (symbol : String) (parts : List Series) :
    (∃ e, refusal symbol parts = some e ∧ merged symbol parts = .error e) ∨
      (refusal symbol parts = none ∧ ∃ s, merged symbol parts = .ok s ∧ Union parts s) := by
  match parts with
  | [] => exact Or.inl ⟨.noObjects, if_pos rfl, rfl⟩
  | [p] =>
    refine Or.inr ⟨refusal_eq_none_iff.mpr ⟨List.cons_ne_nil _ _, ?_⟩, p, rfl, ?_, ?_, ?_⟩
    · intro p₁ hp₁ p₂ hp₂
      cases List.mem_singleton.mp hp₁
      cases List.mem_singleton.mp hp₂
      exact Series.Undisputed.refl p
    · intro p₁ hp₁
      rw [List.mem_singleton.mp hp₁]
    · intro b
      simp only [List.mem_singleton, exists_eq_left]
    · intro exDate amount
      simp only [List.mem_singleton, exists_eq_left]
  | p :: q :: rest =>
    have hmem : p ∈ p :: q :: rest := List.mem_cons_self
    have hnil : p :: q :: rest ≠ [] := List.cons_ne_nil _ _
    by_cases hidentity : ((q :: rest).any fun part => decide (part.identity ≠ p.identity)) = true
    · obtain ⟨part, hpart, hne⟩ := List.any_eq_true.mp hidentity
      have hdiffer : ¬AllPairs (fun p q => p.identity = q.identity) (p :: q :: rest) :=
        fun h => of_decide_eq_true hne (h part (List.mem_cons_of_mem p hpart) p hmem)
      refine Or.inl ⟨.identities symbol, ?_, if_pos hidentity⟩
      rw [refusal, if_neg hnil, if_pos hdiffer]
    · have hfirst : ∀ part ∈ p :: q :: rest, part.identity = p.identity := by
        intro part hpart
        rcases List.mem_cons.mp hpart with rfl | hpart
        · rfl
        · by_contra hne
          exact hidentity (List.any_eq_true.mpr ⟨part, hpart, decide_eq_true hne⟩)
      have hsame : AllPairs (fun p q => p.identity = q.identity) (p :: q :: rest) :=
        fun p₁ h₁ p₂ h₂ => (hfirst p₁ h₁).trans (hfirst p₂ h₂).symm
      by_cases hbars : barsDisagree (allRows (p :: q :: rest)) = true
      · refine Or.inl ⟨.bars symbol, ?_, (if_neg hidentity).trans (if_pos hbars)⟩
        rw [refusal, if_neg hnil, if_neg (not_not.mpr hsame),
          if_pos (barsDisagree_allRows.mp hbars)]
      · have hrows := not_not.mp (mt barsDisagree_allRows.mpr hbars)
        rcases merge_dividends symbol (p :: q :: rest) with
          ⟨hamounts, hfold⟩ | ⟨hamounts, dividends, hfold, hget⟩
        · refine Or.inl ⟨.dividends symbol, ?_, ((if_neg hidentity).trans (if_neg hbars)).trans ?_⟩
          · rw [refusal, if_neg hnil, if_neg (not_not.mpr hsame), if_neg (not_not.mpr hrows),
              if_pos hamounts]
          · exact congrArg _ hfold
        · refine Or.inr ⟨?_, _, ((if_neg hidentity).trans (if_neg hbars)).trans
            (congrArg _ hfold), ?_⟩
          · rw [refusal, if_neg hnil, if_neg (not_not.mpr hsame), if_neg (not_not.mpr hrows),
              if_neg (not_not.mpr hamounts)]
          · exact ⟨fun part hpart => (hfirst part hpart).symm,
              fun b => (mem_sortIndex (Bool.not_eq_true _ ▸ hbars)).trans mem_allRows, hget⟩

/-- The order of the parts does not matter. -/
theorem merged_perm (symbol : String) {parts parts' : List Series} (h : parts.Perm parts') :
    Both Series.Same (merged symbol parts) (merged symbol parts') := by
  have hrefusal := refusal_perm symbol h
  rcases merged_spec symbol parts with ⟨e, he, hmerged⟩ | ⟨hnone, s, hmerged, hs⟩
  · rcases merged_spec symbol parts' with ⟨e', he', hmerged'⟩ | ⟨hnone', -⟩
    · rw [hmerged, hmerged', Option.some.inj (he.symm.trans (hrefusal.trans he'))]
      exact Both.error e'
    · rw [hrefusal, hnone'] at he
      cases he
  · rcases merged_spec symbol parts' with ⟨e', he', -⟩ | ⟨-, s', hmerged', hs'⟩
    · rw [← hrefusal, hnone] at he'
      cases he'
    · rw [hmerged, hmerged']
      exact (hs.same (refusal_eq_none_iff.mp hnone).1 (hs'.perm h))

/-- A merge stands for agreement if and only if parts that are not disputed are not silent about
each other's dividends. -/
theorem only_agreeing_merged (symbol : String) (parts : List Series) :
    ((∀ s, merged symbol parts = .ok s → AllPairs Series.Agree parts) ∧
      ∀ parts', parts.Perm parts' →
        Both Series.Same (merged symbol parts) (merged symbol parts')) ↔
    (AllPairs Series.Undisputed parts → AllPairs Series.SamePresence parts) := by
  constructor
  · rintro ⟨hagree, -⟩ hundisputed
    rcases merged_spec symbol parts with ⟨e, he, -⟩ | ⟨-, s, hmerged, -⟩
    · rcases eq_or_ne parts [] with rfl | hnil
      · exact fun p hp => (by cases hp)
      · rw [refusal_eq_none_iff.mpr ⟨hnil, hundisputed⟩] at he
        cases he
    · exact fun p hp q hq => (hagree s hmerged p hp q hq).samePresence
  · intro hpresence
    refine ⟨fun s hs => ?_, fun parts' h => merged_perm symbol h⟩
    rcases merged_spec symbol parts with ⟨e, -, hmerged⟩ | ⟨hnone, -⟩
    · rw [hmerged] at hs
      cases hs
    · have hundisputed := (refusal_eq_none_iff.mp hnone).2
      exact fun p hp q hq => (hundisputed p hp q hq).agree (hpresence hundisputed p hp q hq)

/-- Three sessions of one dataset, with some dividends. -/
def threeSessions (dividends : Dict ℤ ℚ) : Series where
  identity := ⟨"EQUITY_EOD", "yahoo", "yahoo-personal-use", "1d", "exchange-local", "split",
    "current_listings"⟩
  bars := [⟨1, some 10, some 11, some 9, 10, some 100⟩, ⟨2, some 9, some 9, some 8, 9, some 100⟩,
    ⟨3, some 9, some 10, some 9, 9, none⟩]
  dividends := dividends
  ascending := by decide
  nonempty := by decide

/-- Only one of two datasets has the dividend of the second session. -/
theorem merged_silently :
    (∃ s, merged "KO" [threeSessions (Dict.empty.set 2 1), threeSessions Dict.empty] = .ok s) ∧
      ¬AllPairs Series.Agree [threeSessions (Dict.empty.set 2 1), threeSessions Dict.empty] := by
  refine ⟨⟨_, rfl⟩, fun h => ?_⟩
  have hagree := h _ List.mem_cons_self _ (List.mem_cons_of_mem _ List.mem_cons_self)
  have hcovers : ∀ dividends, (threeSessions dividends).Covers 2 := by
    intro dividends
    exact ⟨⟨_, List.mem_cons_self, by decide⟩, ⟨_, List.mem_cons_of_mem _
      (List.mem_cons_of_mem _ List.mem_cons_self), by decide⟩⟩
  have hdividend := hagree.dividends 2 (hcovers _) (hcovers _)
  rw [show (threeSessions (Dict.empty.set 2 1)).dividends.get? 2 = some 1 from rfl,
    show (threeSessions Dict.empty).dividends.get? 2 = none from rfl] at hdividend
  cases hdividend

end QuantumSentinel.MarketData
