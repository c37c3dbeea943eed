import Mathlib.Data.List.Sort
import Mathlib.Data.String.Basic
import QuantumSentinel.MarketData.Merging
import QuantumSentinel.MarketData.TotalReturn
import QuantumSentinel.MarketData.Windows

/-!
# Market data: frames

`frame_from` lays out the tickers of a request: it merges what the datasets hold of each of
them, cuts it to a window that ends at the latest session of all, and names the datasets behind
the columns.

Main results:

- Definition `seriesOf`: what one dataset holds of a symbol.
- Definition `frameFrom`: the frame, the ids of its datasets, and the missing tickers.

Current gaps:

- Tables are read by rows; dates outside the nanoseconds of pandas.
-/

namespace QuantumSentinel.MarketData

open Lib

/-! ## Datasets -/

/-- A row of `corporate_actions`; its announcement and source are not read. -/
structure CorporateAction where
  symbol : String
  exDate : ℤ
  action : String
  value : ℚ
deriving DecidableEq, Repr

/-- `Dataset`, as far as `_series` reads it: `Table.build` has sorted the bars by
symbol and session, and no two rows share both. -/
structure Dataset where
  identity : Datasets.IdentityFields
  bars : Option (List (String × Bar))
  corporateActions : Option (List CorporateAction)
  ascending : ∀ rows ∈ bars, rows.Pairwise fun row row' =>
    row.1 < row'.1 ∨ row.1 = row'.1 ∧ row.2.session < row'.2.session

/-- `dict(pairs)` -/
def dictOf (pairs : List (ℤ × ℚ)) : Dict ℤ ℚ :=
  pairs.foldl (fun d pair => d.set pair.1 pair.2) Dict.empty

/-- The rows of one symbol. -/
def symbolRows (rows : List (String × Bar)) (symbol : String) : List Bar :=
  (rows.filter fun row => decide (row.1 = symbol)).map Prod.snd

/-- The rows of a symbol ascend when the table is in key order. -/
theorem symbolRows_ascending {rows : List (String × Bar)}
    (h : rows.Pairwise fun row row' =>
      row.1 < row'.1 ∨ row.1 = row'.1 ∧ row.2.session < row'.2.session) (symbol : String) :
    (symbolRows rows symbol).Pairwise fun b b' => b.session < b'.session := by
  rw [symbolRows, List.pairwise_map]
  refine (h.filter _).imp_of_mem fun {row row'} hrow hrow' hlt => ?_
  have hsymbol := of_decide_eq_true (List.mem_filter.mp hrow).2
  have hsymbol' := of_decide_eq_true (List.mem_filter.mp hrow').2
  rw [hsymbol, hsymbol'] at hlt
  exact hlt.elim (fun hself => absurd hself (lt_irrefl symbol)) And.right

/-- `_series` -/
def seriesOf (dataset : Dataset) (symbol : String) : Except Raised (Option Series) :=
  match hbars : dataset.bars with
  | none => .error (.keyError "bars")
  | some rows =>
    if hrows : symbolRows rows symbol = [] then .ok none
    else
      let mine := (dataset.corporateActions.getD []).filter fun row =>
        decide (row.symbol = symbol) && decide (row.action = "dividend")
      .ok (some {
        identity := dataset.identity
        bars := symbolRows rows symbol
        dividends := dictOf (mine.map fun row => (row.exDate, row.value))
        ascending := symbolRows_ascending (dataset.ascending rows hbars) symbol
        nonempty := hrows })

/-! ## What is found of a ticker -/

/-- A merged series, and the ids of the datasets behind it. -/
structure Found where
  series : Series
  ids : List String

/-- The parts of a ticker, with the ids of their datasets. -/
def partsOf (datasets : List (String × Dataset)) (ticker : String) :
    Except Raised (List (String × Series)) :=
  (fun parts => parts.filterMap id) <$> datasets.mapM fun item =>
    (fun part => part.map fun s => (item.1, s)) <$> seriesOf item.2 ticker

/-- The parts of a ticker merged, if there are any. -/
def find (datasets : List (String × Dataset)) (ticker : String) : Except Raised (Option Found) := do
  let parts ← partsOf datasets ticker
  if parts = [] then return none
  else
    let series ← merged ticker (parts.map Prod.snd)
    return some ⟨series, parts.map Prod.fst⟩

/-- A ticker is found or missing. -/
def note (state : Dict String Found × Dict String String) (ticker : String) :
    Option Found → Dict String Found × Dict String String
  | some found => (state.1.set ticker found, state.2)
  | none => (state.1, state.2.set ticker "no data")

/-- One ticker is looked up. -/
def lookUp (datasets : List (String × Dataset))
    (state : Dict String Found × Dict String String) (ticker : String) :
    Except Raised (Dict String Found × Dict String String) :=
  note state ticker <$> find datasets ticker

/-! ## The window -/

namespace Date

/-- 1970-01-01 -/
def epoch : Date :=
  ⟨1970, 1, 1, by decide⟩

/-- A day a number of days after. -/
def later (d : Date) : ℕ → Except Raised Date
  | 0 => .ok d
  | n + 1 => do
      let earlier ← d.later n
      earlier.next

/-- The date of a number of days since 1970-01-01. -/
def ofOrdinal : ℤ → Except Raised Date
  | .ofNat n => epoch.later n
  | .negSucc n => epoch.earlier (n + 1)

end Date

/-- `series.bars.index.max()` -/
def Series.latest (s : Series) : ℤ :=
  (s.bars.getLast s.nonempty).session

/-- The first day of the window that ends at a session. -/
def windowFrom (last : ℤ) (period : String) : Except Raised ℤ := do
  let anchor ← Date.ofOrdinal (last + 1)
  let start ← periodStart anchor period
  return start.ordinal

/-- The adjusted bars in the window. -/
def windowed (start : ℤ) (ticker : String) (series : Series) : Except Raised (List Bar) :=
  (fun bars => bars.filter fun b => decide (start ≤ b.session)) <$> adjusted ticker series

/-! ## Columns -/

inductive Field
  | close
  | high
  | low
  | open
  | volume
deriving DecidableEq, Repr

/-- `FIELDS` -/
def fields : List Field :=
  [.close, .high, .low, .open, .volume]

/-- `bar[field]` -/
def Bar.field (b : Bar) : Field → Option ℚ
  | .close => some b.close
  | .high => b.high
  | .low => b.low
  | .open => b.openPrice
  | .volume => b.volume

/-- The values of a field and ticker, by session. -/
abbrev Column := List (ℤ × Option ℚ)

/-- What the loop over the tickers has put together; `used` is a set. -/
structure Supplied where
  columns : Dict (Field × String) Column
  used : List String
  missing : Dict String String

namespace Supplied

/-- `columns[(field, ticker)] = adjusted[field]` for every field. -/
def addColumns (columns : Dict (Field × String) Column) (ticker : String) (bars : List Bar) :
    Dict (Field × String) Column :=
  fields.foldl (fun columns field =>
    columns.set (field, ticker) (bars.map fun b => (b.session, b.field field))) columns

/-- The bars of a ticker are placed, if there are any. -/
def place (s : Supplied) (ticker : String) (ids : List String) (bars : List Bar) : Supplied :=
  if bars = [] then { s with missing := s.missing.set ticker "no sessions in the period" }
  else { s with used := s.used ++ ids, columns := addColumns s.columns ticker bars }

end Supplied

/-- One ticker is supplied. -/
def supply (start : ℤ) (s : Supplied) (item : String × Found) : Except Raised Supplied :=
  s.place item.1 item.2.ids <$> windowed start item.1 item.2.series

/-! ## The frame -/

/-- A frame: its index, and the columns under their names. -/
structure Frame where
  index : List ℤ
  columns : List ((Field × String) × List (Option ℚ))
deriving DecidableEq

/-- `(FIELDS.index(key[0]), key[1])` is in order. -/
def keyLe (key key' : Field × String) : Bool :=
  decide (fields.idxOf key.1 < fields.idxOf key'.1) ||
    (decide (key.1 = key'.1) && decide (key.2 ≤ key'.2))

/-- The union of the calendars. -/
def unionOfCalendars (columns : List Column) : List ℤ :=
  (columns.flatMap fun column => column.map Prod.fst).dedup.insertionSort (· ≤ ·)

/-- `pd.concat` of the columns in the order of their keys. -/
def layOut (columns : Dict (Field × String) Column) : Frame :=
  let order := columns.items.insertionSort fun item item' => keyLe item.1 item'.1
  let index := unionOfCalendars (order.map Prod.snd)
  { index := index
    columns := order.map fun item =>
      (item.1, index.map fun session => (Dict.lookup session item.2).join) }

/-- `sorted(set)` -/
def sortedSet (names : List String) : List String :=
  names.dedup.insertionSort (· ≤ ·)

/-- The tickers that were found, supplied. -/
def supplyAll (found : Dict String Found) (missing : Dict String String) (period : String) :
    Except Raised Supplied :=
  match (found.values.map fun f => f.series.latest).max? with
  | none => .ok ⟨Dict.empty, [], missing⟩
  | some last => do
      let start ← windowFrom last period
      found.items.foldlM (supply start) ⟨Dict.empty, [], missing⟩

/-- `frame_from` -/
def frameFrom (datasets : List (String × Dataset)) (tickers : List String) (period : String) :
    Except Raised (Frame × List String × Dict String String) := do
  let (found, missing) ← tickers.foldlM (lookUp datasets) (Dict.empty, Dict.empty)
  let s ← supplyAll found missing period
  if s.columns.items = [] then throw (.noData s.missing.items)
  else return (layOut s.columns, sortedSet s.used, s.missing)

end QuantumSentinel.MarketData
