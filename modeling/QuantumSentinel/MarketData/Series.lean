import QuantumSentinel.Lib.Dict
import QuantumSentinel.Lib.Outcomes
import QuantumSentinel.Datasets.Tables

/-!
# Market data: the series of a symbol

`market_data.py`: the daily bars and dividends of one symbol, as a dataset holds them.  A
missing price is `none`; a bar always has a close.

Main results:

- Definition `Series`: bars in the order of their sessions, and dividends by ex-date.
-/

namespace QuantumSentinel.MarketData

open Lib

/-- `MarketDataError`, and what the dates and an empty list or array raise. -/
inductive Raised
  | period (period : String)
  /-- a date outside the years 1 to 9999 -/
  | dateRange
  | dividend (symbol : String) (amount : ℚ) (exDate : ℤ) (previous : ℚ)
  | identities (symbol : String)
  | bars (symbol : String)
  | dividends (symbol : String)
  | adjustment (symbol adjustment : String)
  | indexError
  /-- `pd.concat` of nothing -/
  | noObjects
  | keyError (table : String)
  /-- the tickers without data, each with its reason -/
  | noData (missing : List (String × String))
  /-- a dataset that the store does not return -/
  | unreadable (datasetId : String)
deriving DecidableEq, Repr

/-- A row of the bars; sessions are days since 1970-01-01. -/
structure Bar where
  session : ℤ
  openPrice : Option ℚ
  high : Option ℚ
  low : Option ℚ
  close : ℚ
  volume : Option ℚ
deriving DecidableEq, Repr

/-- The columns behind the sessions. -/
def Bar.columns : List (Bar → Option ℚ) :=
  [Bar.openPrice, Bar.high, Bar.low, fun b => some b.close, Bar.volume]

/-- The row behind its session. -/
def Bar.fields (b : Bar) : List (Option ℚ) :=
  Bar.columns.map fun column => column b

/-- A bar is its session and its fields. -/
theorem Bar.eq_of_fields {b b' : Bar} (hsession : b.session = b'.session)
    (hfields : b.fields = b'.fields) : b = b' := by
  cases b
  cases b'
  simp only [fields, columns, List.map_cons, List.map_nil, List.cons.injEq, Option.some.injEq,
    and_true] at hfields
  simp only at hsession
  rw [hsession, hfields.1, hfields.2.1, hfields.2.2.1, hfields.2.2.2.1, hfields.2.2.2.2]

/-- Rows that differ do so in a column. -/
theorem Bar.exists_column {b b' : Bar} (h : b.fields ≠ b'.fields) :
    ∃ column ∈ Bar.columns, column b ≠ column b' := by
  by_contra hnone
  exact h (List.map_congr_left fun column hcolumn =>
    not_not.mp fun hne => hnone ⟨column, hcolumn, hne⟩)

/-- `_Series`: there are bars, one for each session, and the sessions ascend. -/
structure Series where
  identity : Datasets.IdentityFields
  bars : List Bar
  /-- by ex-date, in days since 1970-01-01 -/
  dividends : Dict ℤ ℚ
  ascending : bars.Pairwise fun b b' => b.session < b'.session
  nonempty : bars ≠ []

end QuantumSentinel.MarketData
