import Mathlib.Data.List.Basic
import QuantumSentinel.Lib.Json

/-!
# Datasets: schemas

Columns and table schemas of `dataset_format.py`, and the exceptions its functions raise.
A schema carries the proof that its constructor has accepted it.

Main results:

- Definition `TableSchema`: the accepted schemas.
- Theorem `TableSchema.find_column`: a column is found by its name.

Current gaps:

- The three market-data schemas, which no modelled function names.
-/

namespace QuantumSentinel.Datasets

open Lib

/-! ## Exceptions -/

/-- What Python or its libraries raise, by class. -/
inductive Builtin
  | valueError
  | keyError
  | typeError
  | indexError
  | attributeError
  | structError
  | zlibError
  | stopIteration
deriving DecidableEq, Repr

/-- The name of the class. -/
def Builtin.name : Builtin → String
  | .valueError => "ValueError"
  | .keyError => "KeyError"
  | .typeError => "TypeError"
  | .indexError => "IndexError"
  | .attributeError => "AttributeError"
  | .structError => "struct.error"
  | .zlibError => "zlib.error"
  | .stopIteration => "StopIteration"

/-- An exception. -/
inductive Raised
  /-- `DatasetError`: values that cannot form a table or dataset -/
  | dataset (text : String)
  /-- `DatasetIntegrityError`: a stored dataset whose bytes do not match its id -/
  | integrity (text : String)
  | builtin (error : Builtin)
deriving DecidableEq, Repr

/-! ## Columns -/

/-- `TYPES` -/
inductive ColumnType
  | utf8
  | date32
  | timestampNs
  | float64
deriving DecidableEq, Repr

namespace ColumnType

/-- A type as it is written. -/
def text : ColumnType → String
  | utf8 => "utf8"
  | date32 => "date32"
  | timestampNs => "timestamp_ns"
  | float64 => "float64"

/-- The type that is written so. -/
def ofText? (s : String) : Option ColumnType :=
  [utf8, date32, timestampNs, float64].find? fun type => type.text = s

@[simp]
theorem ofText?_text (type : ColumnType) : ofText? type.text = some type := by
  cases type <;> decide

theorem text_injective {type type' : ColumnType} (h : type.text = type'.text) :
    type = type' := by
  have hread := ofText?_text type
  rw [h, ofText?_text, Option.some.injEq] at hread
  exact hread.symm

end ColumnType

/-- `Column` -/
structure Column where
  name : String
  type : ColumnType
  nullable : Bool
deriving DecidableEq, Repr

/-! ## Names -/

/-- `[a-z]` -/
def isLowerLetter (c : Char) : Bool :=
  decide ('a' ≤ c) && decide (c ≤ 'z')

/-- `[A-Za-z0-9]` -/
def isAlphanumeric (c : Char) : Bool :=
  isLowerLetter c || (decide ('A' ≤ c) && decide (c ≤ 'Z')) || c.isDigit

/-- `_NAME.fullmatch` -/
def isName (s : String) : Bool :=
  match s.toList with
  | [] => false
  | c :: rest =>
    isLowerLetter c && decide (rest.length ≤ 62) &&
      rest.all fun d => isLowerLetter d || d.isDigit || d = '_'

/-- `_TOKEN.fullmatch` -/
def isToken (s : String) : Bool :=
  match s.toList with
  | [] => false
  | c :: rest =>
    isAlphanumeric c && decide (rest.length ≤ 63) &&
      rest.all fun d => isAlphanumeric d || d ∈ ['.', '_', ':', '+', '-']

/-! ## Schemas -/

/-- What `TableSchema.__post_init__` objects to. -/
def schemaError (name : String) (columns : List Column) (key : List String) : Option String :=
  let names := columns.map Column.name
  let nullable := (columns.filter Column.nullable).map Column.name
  if !isName name || !names.all isName then
    some "table and column names must match [a-z][a-z0-9_]*"
  else if ¬names.Nodup ∨ names = [] then
    some ("table " ++ name ++ " needs distinct column names")
  else if key = [] ∨ ¬key.Nodup ∨ ∃ k ∈ key, k ∉ names ∨ k ∈ nullable then
    some ("table " ++ name ++ " needs a key of distinct non-nullable columns")
  else none

/-- `TableSchema` -/
structure TableSchema where
  name : String
  columns : List Column
  key : List String
  valid : schemaError name columns key = none
deriving DecidableEq

namespace TableSchema

/-- The constructor. -/
def make (name : String) (columns : List Column) (key : List String) :
    Except Raised TableSchema :=
  match h : schemaError name columns key with
  | some text => .error (.dataset text)
  | none => .ok ⟨name, columns, key, h⟩

variable (schema : TableSchema)

/-- The names of the columns. -/
def names : List String :=
  schema.columns.map Column.name

/-- `TableSchema.column` -/
def column (name : String) : Except Raised Column :=
  match schema.columns.find? fun c => c.name = name with
  | some c => .ok c
  -- `next` of an exhausted generator
  | none => .error (.builtin .stopIteration)

/-- The constructor gives back an accepted schema. -/
theorem make_self : make schema.name schema.columns schema.key = .ok schema := by
  unfold make
  split
  · rename_i text h
    rw [schema.valid] at h
    cases h
  · rfl

/-- What the constructor has checked. -/
theorem checked : isName schema.name = true ∧ schema.names.all isName = true ∧
    schema.names.Nodup ∧ schema.columns ≠ [] ∧ schema.key ≠ [] ∧ schema.key.Nodup ∧
      ∀ k ∈ schema.key, ∃ c ∈ schema.columns, c.name = k ∧ c.nullable = false := by
  have h := schema.valid
  unfold schemaError at h
  simp only at h
  split at h
  · cases h
  rename_i hnames
  split at h
  · cases h
  rename_i hdistinct
  split at h
  · cases h
  rename_i hkey
  simp only [Bool.or_eq_true, Bool.not_eq_true', not_or, Bool.not_eq_false] at hnames
  push Not at hdistinct hkey
  refine ⟨hnames.1, hnames.2, hdistinct.1, ?_, hkey.1, hkey.2.1, fun k hk => ?_⟩
  · intro hnil
    apply hdistinct.2
    rw [hnil, List.map_nil]
  · rcases hkey.2.2 k hk with ⟨hmem, hnot⟩
    rcases List.mem_map.mp hmem with ⟨c, hc, rfl⟩
    refine ⟨c, hc, rfl, ?_⟩
    by_contra hnullable
    rw [Bool.not_eq_false] at hnullable
    exact hnot (List.mem_map.mpr ⟨c, List.mem_filter.mpr ⟨hc, hnullable⟩, rfl⟩)

/-- A column is found by its name. -/
theorem find_column {c : Column} (hc : c ∈ schema.columns) :
    schema.columns.find? (fun d => d.name = c.name) = some c := by
  have hnodup := schema.checked.2.2.1
  have hall : ∀ columns : List Column, (columns.map Column.name).Nodup → c ∈ columns →
      columns.find? (fun d => d.name = c.name) = some c := by
    intro columns hnodup hc
    induction columns with
    | nil => cases hc
    | cons d rest ih =>
      rw [List.map_cons, List.nodup_cons] at hnodup
      by_cases heq : d.name = c.name
      · rw [List.find?_cons_of_pos (by simpa using heq)]
        rcases List.mem_cons.mp hc with rfl | hrest
        · rfl
        · exact absurd (heq ▸ List.mem_map_of_mem hrest) hnodup.1
      · rw [List.find?_cons_of_neg (by simpa using heq)]
        rcases List.mem_cons.mp hc with rfl | hrest
        · exact absurd rfl heq
        · exact ih hnodup.2 hrest
  exact hall schema.columns hnodup hc

theorem column_of_mem {c : Column} (hc : c ∈ schema.columns) :
    schema.column c.name = .ok c := by
  rw [column, schema.find_column hc]

end TableSchema

end QuantumSentinel.Datasets
