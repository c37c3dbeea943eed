import Mathlib.Data.Prod.Lex
import QuantumSentinel.Lib.JsonRead

/-!
# Python values as JSON

The Python values that `json.dumps` takes, with dictionaries whose keys are texts, integers,
truth values or `None`.  Every key becomes a text; with `sort_keys` the entries are
sorted before that, by the keys themselves.  A text is a list of code points: two surrogates in
it are two characters where it is sorted, and one where it is read back.

Main results:

- Definition `PyObject.dumpsSorted`: `json.dumps` with `sort_keys=True`.
- Theorem `PyObject.toSortedJson_eq_iff`: sorting by the keys is sorting what is read back
  exactly when the keys are read back distinct, and in the order of the keys.

Current gaps:

- No floating-point keys, and no limit on nesting or on the digits of an integer.
-/

namespace QuantumSentinel.Lib

/-! ## Values -/

/-- A code point, surrogates among them. -/
abbrev CodePoint := Fin 0x110000

/-- A text. -/
abbrev PyStr := List CodePoint

/-- A text of Unicode characters. -/
def pyStr (s : String) : PyStr :=
  s.toList.map fun c => ⟨c.toNat, by
    have hvalid : c.toNat < 0xD800 ∨ 0xDFFF < c.toNat ∧ c.toNat < 1114112 := c.valid
    omega⟩

/-- A text as it is read back. -/
def PyStr.wide (s : PyStr) : WideText :=
  ⟨s.flatMap fun c : CodePoint => codeUnits c.val⟩

theorem wide_pyStr (s : String) : PyStr.wide (pyStr s) = JsonText.wide s := by
  rw [PyStr.wide, pyStr, List.flatMap_map]
  rfl

/-- A key of a dictionary. -/
inductive PyKey
  | none
  | bool (value : Bool)
  | int (value : ℤ)
  | str (value : PyStr)
deriving DecidableEq

/-- A value that `json.dumps` takes; the entries of a dictionary in the order they were put
in. -/
inductive PyObject
  | none
  | bool (value : Bool)
  | int (value : ℤ)
  | float (value : FloatText)
  | str (value : PyStr)
  | list (items : List PyObject)
  | tuple (items : List PyObject)
  | dict (entries : List (PyKey × PyObject))

namespace PyKey

/-- The text of a key, as it is read back. -/
def text : PyKey → WideText
  | .none => JsonText.wide "null"
  | .bool true => JsonText.wide "true"
  | .bool false => JsonText.wide "false"
  | .int n => JsonText.wide (String.ofList (intText n))
  | .str s => PyStr.wide s

/-- Whether `<` compares two keys. -/
def Comparable : PyKey → PyKey → Bool
  | .str _, .str _ => true
  | .int _, .int _ | .int _, .bool _ | .bool _, .int _ | .bool _, .bool _ => true
  | _, _ => false

/-- The place of a key: integers and truth values by their value, texts as texts.  Keys of one
place are equal for Python. -/
def place : PyKey → ℕ ×ₗ ℤ ×ₗ PyStr
  | .none => toLex (0, toLex (0, []))
  | .bool b => toLex (1, toLex (if b then 1 else 0, []))
  | .int n => toLex (1, toLex (n, []))
  | .str s => toLex (2, toLex (0, s))

end PyKey

namespace PyObject

mutual

/-- A property of the keys of every dictionary. -/
def allKeys (p : List PyKey → Bool) : PyObject → Bool
  | .list items | .tuple items => allKeysItems p items
  | .dict entries => p (entries.map Prod.fst) && allKeysEntries p entries
  | .none | .bool _ | .int _ | .float _ | .str _ => true

/-- In every item. -/
def allKeysItems (p : List PyKey → Bool) : List PyObject → Bool
  | [] => true
  | v :: rest => allKeys p v && allKeysItems p rest

/-- Under every key. -/
def allKeysEntries (p : List PyKey → Bool) : List (PyKey × PyObject) → Bool
  | [] => true
  | (_, v) :: rest => allKeys p v && allKeysEntries p rest

end

/-- No dictionary has a key twice. -/
def DistinctKeys (v : PyObject) : Prop :=
  v.allKeys (fun keys => (keys.map PyKey.place).Nodup) = true

/-- The keys of every dictionary can be sorted. -/
def Sortable (v : PyObject) : Prop :=
  v.allKeys (fun keys => keys.Pairwise fun a b => a.Comparable b) = true

/-- Some keys are read back in their order, and distinct. -/
def InOrder (keys : List PyKey) : Prop :=
  ∀ a ∈ keys, ∀ b ∈ keys, a.place < b.place → a.text < b.text

instance (keys : List PyKey) : Decidable (InOrder keys) :=
  inferInstanceAs (Decidable (∀ a ∈ keys, ∀ b ∈ keys, a.place < b.place → a.text < b.text))

/-- The keys of every dictionary are read back in their order, and distinct. -/
def TextOrdered (v : PyObject) : Prop :=
  v.allKeys (fun keys => InOrder keys) = true

instance (v : PyObject) : Decidable v.Sortable :=
  inferInstanceAs (Decidable (_ = true))

instance (v : PyObject) : Decidable v.DistinctKeys :=
  inferInstanceAs (Decidable (_ = true))

instance (v : PyObject) : Decidable v.TextOrdered :=
  inferInstanceAs (Decidable (_ = true))

/-! ## Writing -/

mutual

/-- What `json.dumps` writes: every key as a text. -/
def toJson : PyObject → WideJson
  | .none => .null
  | .bool b => .bool b
  | .int n => .int n
  | .float value => .float value
  | .str s => .str (PyStr.wide s)
  | .list items | .tuple items => .arr (toJsonItems items)
  | .dict entries => .obj (toJsonEntries entries)

/-- The items, each as it is written. -/
def toJsonItems : List PyObject → List WideJson
  | [] => []
  | v :: rest => toJson v :: toJsonItems rest

/-- The entries in the order they stand. -/
def toJsonEntries : List (PyKey × PyObject) → List (WideText × WideJson)
  | [] => []
  | (key, v) :: rest => (key.text, toJson v) :: toJsonEntries rest

end

/-- Order of entries by their keys. -/
def byKey (e e' : PyKey × WideJson) : Prop :=
  e.1.place ≤ e'.1.place

instance : DecidableRel byKey :=
  fun e e' => inferInstanceAs (Decidable (e.1.place ≤ e'.1.place))

/-- Entries sorted by their keys, with the keys as texts. -/
def sortEntries (entries : List (PyKey × WideJson)) : List (WideText × WideJson) :=
  (entries.insertionSort byKey).map fun e => (e.1.text, e.2)

mutual

/-- What `json.dumps` writes with `sort_keys`. -/
def toSortedJson : PyObject → WideJson
  | .none => .null
  | .bool b => .bool b
  | .int n => .int n
  | .float value => .float value
  | .str s => .str (PyStr.wide s)
  | .list items | .tuple items => .arr (toSortedItems items)
  | .dict entries => .obj (sortEntries (toSortedEntries entries))

/-- The items, each as it is written. -/
def toSortedItems : List PyObject → List WideJson
  | [] => []
  | v :: rest => toSortedJson v :: toSortedItems rest

/-- The entries before they are sorted. -/
def toSortedEntries : List (PyKey × PyObject) → List (PyKey × WideJson)
  | [] => []
  | (key, v) :: rest => (key, toSortedJson v) :: toSortedEntries rest

end

/-- The style of a call without separators. -/
def defaultStyle : JsonStyle where
  ensureAscii := true
  spaced := true

/-- `json.dumps` -/
def dumps (v : PyObject) : List Char :=
  defaultStyle.render v.toJson

/-- `json.dumps` with `sort_keys=True` -/
def dumpsSorted (v : PyObject) : Except String (List Char) :=
  if v.Sortable then .ok (defaultStyle.render v.toSortedJson)
  else .error "TypeError: '<' not supported between instances"

/-! ## Values one inside another -/

/-- What holds of a value when it holds of the values inside it. -/
theorem nested {P : PyObject → Prop} (none : P .none) (bool : ∀ b, P (.bool b))
    (int : ∀ n, P (.int n)) (float : ∀ value, P (.float value)) (str : ∀ s, P (.str s))
    (list : ∀ items, (∀ v ∈ items, P v) → P (.list items))
    (tuple : ∀ items, (∀ v ∈ items, P v) → P (.tuple items))
    (dict : ∀ entries, (∀ e ∈ entries, P e.2) → P (.dict entries)) (v : PyObject) : P v :=
  @PyObject.rec P (fun items => ∀ v ∈ items, P v) (fun entries => ∀ e ∈ entries, P e.2)
    (fun e => P e.2) none bool int float str list tuple dict
    (fun _ hv => absurd hv List.not_mem_nil)
    (fun _ _ hfirst hrest => List.forall_mem_cons.mpr ⟨hfirst, hrest⟩)
    (fun _ he => absurd he List.not_mem_nil)
    (fun _ _ hfirst hrest => List.forall_mem_cons.mpr ⟨hfirst, hrest⟩) (fun _ _ h => h) v

theorem toJsonItems_eq (items : List PyObject) : toJsonItems items = items.map toJson := by
  induction items with
  | nil => rfl
  | cons v rest ih => rw [toJsonItems, ih, List.map_cons]

theorem toSortedItems_eq (items : List PyObject) :
    toSortedItems items = items.map toSortedJson := by
  induction items with
  | nil => rfl
  | cons v rest ih => rw [toSortedItems, ih, List.map_cons]

theorem toJsonEntries_eq (entries : List (PyKey × PyObject)) :
    toJsonEntries entries = entries.map fun e => (e.1.text, e.2.toJson) := by
  induction entries with
  | nil => rfl
  | cons e rest ih =>
    rcases e with ⟨key, v⟩
    rw [toJsonEntries, ih, List.map_cons]

theorem toSortedEntries_eq (entries : List (PyKey × PyObject)) :
    toSortedEntries entries = entries.map fun e => (e.1, e.2.toSortedJson) := by
  induction entries with
  | nil => rfl
  | cons e rest ih =>
    rcases e with ⟨key, v⟩
    rw [toSortedEntries, ih, List.map_cons]

section AllKeys

variable (p : List PyKey → Bool)

theorem allKeysItems_iff (items : List PyObject) :
    allKeysItems p items = true ↔ ∀ v ∈ items, v.allKeys p = true := by
  induction items with
  | nil => simp [allKeysItems]
  | cons v rest ih => rw [allKeysItems, Bool.and_eq_true, ih, List.forall_mem_cons]

theorem allKeysEntries_iff (entries : List (PyKey × PyObject)) :
    allKeysEntries p entries = true ↔ ∀ e ∈ entries, e.2.allKeys p = true := by
  induction entries with
  | nil => simp [allKeysEntries]
  | cons e rest ih =>
    rcases e with ⟨key, v⟩
    rw [allKeysEntries, Bool.and_eq_true, ih, List.forall_mem_cons]

theorem allKeys_list (items : List PyObject) :
    (PyObject.list items).allKeys p = true ↔ ∀ v ∈ items, v.allKeys p = true := by
  rw [allKeys, allKeysItems_iff]

theorem allKeys_tuple (items : List PyObject) :
    (PyObject.tuple items).allKeys p = true ↔ ∀ v ∈ items, v.allKeys p = true := by
  rw [allKeys, allKeysItems_iff]

theorem allKeys_dict (entries : List (PyKey × PyObject)) :
    (PyObject.dict entries).allKeys p = true ↔
      p (entries.map Prod.fst) = true ∧ ∀ e ∈ entries, e.2.allKeys p = true := by
  rw [allKeys, Bool.and_eq_true, allKeysEntries_iff]

end AllKeys

/-! ## Sorting -/

instance : Std.Total byKey :=
  ⟨fun e e' => le_total e.1.place e'.1.place⟩

instance : IsTrans (PyKey × WideJson) byKey :=
  ⟨fun _ _ _ h h' => le_trans h h'⟩

/-- The members of one object sort into one list. -/
theorem insertionSort_byName_perm {l l' : List (WideText × WideJson)} (h : l.Perm l')
    (hnodup : (l.map Prod.fst).Nodup) :
    l.insertionSort Json.byName = l'.insertionSort Json.byName := by
  have hperm : (l.insertionSort Json.byName).Perm (l'.insertionSort Json.byName) :=
    ((List.perm_insertionSort _ l).trans h).trans (List.perm_insertionSort _ l').symm
  refine hperm.eq_of_pairwise ?_ (List.pairwise_insertionSort _ l)
    (List.pairwise_insertionSort _ l')
  intro m m' hm hm' hle hge
  have hleft : m ∈ l := (List.mem_insertionSort _).mp hm
  have hright : m' ∈ l := h.mem_iff.mpr ((List.mem_insertionSort _).mp hm')
  exact List.inj_on_of_nodup_map hnodup hleft hright (le_antisymm hle hge)

/-- Sorting keeps the entries. -/
theorem perm_sortEntries (entries : List (PyKey × PyObject)) :
    (sortEntries (toSortedEntries entries)).Perm
      (entries.map fun e => (e.1.text, e.2.toSortedJson)) := by
  refine ((List.perm_insertionSort byKey _).map _).trans (List.Perm.of_eq ?_)
  rw [toSortedEntries_eq, List.map_map]
  rfl

/-- Sorted entries stand in the strict order of their texts exactly when the keys are read back in
their order. -/
theorem pairwise_sortEntries_iff (entries : List (PyKey × WideJson))
    (hdistinct : ((entries.map Prod.fst).map PyKey.place).Nodup) :
    (sortEntries entries).Pairwise (fun m m' => m.1 < m'.1) ↔ InOrder (entries.map Prod.fst) := by
  have hperm := List.perm_insertionSort byKey entries
  have hne : (entries.insertionSort byKey).Pairwise fun x y => x.1.place ≠ y.1.place := by
    rw [List.map_map] at hdistinct
    exact List.pairwise_map.mp ((hperm.map _).nodup_iff.mpr hdistinct)
  have hplaces : (entries.insertionSort byKey).Pairwise fun x y => x.1.place < y.1.place :=
    ((List.pairwise_insertionSort byKey entries).and hne).imp fun h => lt_of_le_of_ne h.1 h.2
  rw [sortEntries, List.pairwise_map]
  constructor
  · intro htexts a ha b hb
    rw [List.mem_map] at ha hb
    obtain ⟨e, he, rfl⟩ := ha
    obtain ⟨e', he', rfl⟩ := hb
    have hlater : (entries.insertionSort byKey).Pairwise fun x y =>
        x.1.place < y.1.place → x.1.text < y.1.text :=
      htexts.imp fun {x y} h _ => show x.1.text < y.1.text from h
    -- a later key is at no earlier place
    have hearlier : (entries.insertionSort byKey).Pairwise fun x y =>
        y.1.place < x.1.place → y.1.text < x.1.text :=
      hplaces.imp fun h hgt => absurd h (lt_asymm hgt)
    exact hlater.forall_of_forall_of_flip (fun _ _ h => absurd h (lt_irrefl _)) hearlier
      (hperm.mem_iff.mpr he) (hperm.mem_iff.mpr he')
  · intro horder
    refine hplaces.imp_of_mem fun {e e'} he he' hlt => ?_
    exact horder e.1 (List.mem_map_of_mem (hperm.mem_iff.mp he)) e'.1
      (List.mem_map_of_mem (hperm.mem_iff.mp he')) hlt

/-- Keys that are read back in their order are read back distinct. -/
theorem nodup_texts {entries : List (PyKey × PyObject)}
    (hdistinct : ((entries.map Prod.fst).map PyKey.place).Nodup)
    (horder : InOrder (entries.map Prod.fst)) : (entries.map fun e => e.1.text).Nodup := by
  have hkeys : (toSortedEntries entries).map Prod.fst = entries.map Prod.fst := by
    rw [toSortedEntries_eq, List.map_map]
    rfl
  have hstrict := (pairwise_sortEntries_iff _ (by rw [hkeys]; exact hdistinct)).mpr
    (hkeys ▸ horder)
  have hnodup : ((sortEntries (toSortedEntries entries)).map Prod.fst).Nodup :=
    List.pairwise_map.mpr (hstrict.imp fun h => ne_of_lt h)
  rw [((perm_sortEntries entries).map Prod.fst).nodup_iff, List.map_map] at hnodup
  exact hnodup

/-- One dictionary: sorting by the keys is sorting what is read back. -/
theorem sortEntries_eq_iff {entries : List (PyKey × PyObject)}
    (hdistinct : ((entries.map Prod.fst).map PyKey.place).Nodup) :
    sortEntries (toSortedEntries entries) = (Json.sortedMembers (ofPairs
        (Json.collapsedMembers (toJsonEntries entries)))).insertionSort Json.byName ↔
      InOrder (entries.map Prod.fst) ∧
        ∀ e ∈ entries, e.2.toSortedJson = e.2.toJson.collapsed.sorted := by
  have hkeys : (toSortedEntries entries).map Prod.fst = entries.map Prod.fst := by
    rw [toSortedEntries_eq, List.map_map]
    rfl
  have hstrict := pairwise_sortEntries_iff (toSortedEntries entries) (by rw [hkeys]; exact hdistinct)
  have hcollapsed : Json.collapsedMembers (toJsonEntries entries) =
      entries.map fun e => (e.1.text, e.2.toJson.collapsed) := by
    rw [Json.collapsedMembers_eq, toJsonEntries_eq, List.map_map]
    rfl
  have hmembers : InOrder (entries.map Prod.fst) → Json.sortedMembers (ofPairs
      (Json.collapsedMembers (toJsonEntries entries))) =
        entries.map fun e => (e.1.text, e.2.toJson.collapsed.sorted) := by
    intro horder
    have htexts := nodup_texts hdistinct horder
    rw [hcollapsed, ofPairs_of_nodup, Json.sortedMembers_eq, List.map_map]
    · rfl
    · rw [List.map_map]
      exact htexts
  have hleft := perm_sortEntries entries
  constructor
  · intro heq
    have hread := List.perm_insertionSort Json.byName (Json.sortedMembers (ofPairs
      (Json.collapsedMembers (toJsonEntries entries))))
    have hnames : ((Json.sortedMembers (ofPairs
        (Json.collapsedMembers (toJsonEntries entries)))).map Prod.fst).Nodup := by
      rw [Json.sortedMembers_eq, List.map_map]
      exact nodup_ofPairs _
    have horder : InOrder (entries.map Prod.fst) := by
      rw [← hkeys, ← hstrict, heq]
      have hdifferent := List.pairwise_map.mp ((hread.map Prod.fst).nodup_iff.mpr hnames)
      exact ((List.pairwise_insertionSort Json.byName _).and hdifferent).imp
        fun h => lt_of_le_of_ne h.1 h.2
    have htexts := nodup_texts hdistinct horder
    refine ⟨horder, fun e he => ?_⟩
    rw [hmembers horder] at heq hread
    have hmem : (e.1.text, e.2.toSortedJson) ∈
        entries.map fun e => (e.1.text, e.2.toJson.collapsed.sorted) := by
      rw [← hread.mem_iff, ← heq, hleft.mem_iff]
      exact List.mem_map_of_mem he
    obtain ⟨e', he', hsame⟩ := List.mem_map.mp hmem
    rw [Prod.mk.injEq] at hsame
    rw [List.inj_on_of_nodup_map htexts he' he hsame.1] at hsame
    exact hsame.2.symm
  · rintro ⟨horder, hvalues⟩
    have hperm : (sortEntries (toSortedEntries entries)).Perm
        (entries.map fun e => (e.1.text, e.2.toJson.collapsed.sorted)) := by
      refine hleft.trans (List.Perm.of_eq (List.map_congr_left fun e he => ?_))
      rw [hvalues e he]
    have hnames : ((sortEntries (toSortedEntries entries)).map Prod.fst).Nodup := by
      rw [(hperm.map Prod.fst).nodup_iff, List.map_map]
      exact nodup_texts hdistinct horder
    have hsorted : (sortEntries (toSortedEntries entries)).Pairwise Json.byName :=
      (hstrict.mpr (hkeys ▸ horder)).imp fun h => le_of_lt h
    rw [hmembers horder, ← insertionSort_byName_perm hperm hnames, hsorted.insertionSort_eq]

/-- Sorting by the keys is sorting what is read back exactly when the keys are read back in their
order, and distinct. -/
theorem toSortedJson_eq_iff (v : PyObject) :
    v.DistinctKeys → (v.toSortedJson = v.toJson.collapsed.sorted ↔ v.TextOrdered) := by
  have hitems : ∀ items : List PyObject,
      (∀ v ∈ items, (v.toSortedJson = v.toJson.collapsed.sorted ↔ v.TextOrdered)) →
        (Json.arr (toSortedItems items) = (Json.arr (toJsonItems items)).collapsed.sorted ↔
          ∀ v ∈ items, v.TextOrdered) := by
    intro items h
    rw [Json.collapsed, Json.sorted, Json.collapsedItems_eq, Json.sortedItems_eq, Json.arr.injEq,
      toSortedItems_eq, toJsonItems_eq, List.map_map, List.map_map, List.map_inj_left]
    exact forall₂_congr h
  induction v using nested with
  | none => exact fun _ => iff_of_true rfl rfl
  | bool b => exact fun _ => iff_of_true rfl rfl
  | int n => exact fun _ => iff_of_true rfl rfl
  | float value => exact fun _ => iff_of_true rfl rfl
  | str s => exact fun _ => iff_of_true rfl rfl
  | list items ih =>
    intro hdistinct
    rw [DistinctKeys, allKeys_list] at hdistinct
    rw [toSortedJson, toJson, TextOrdered, allKeys_list]
    exact hitems items fun v hv => ih v hv (hdistinct v hv)
  | tuple items ih =>
    intro hdistinct
    rw [DistinctKeys, allKeys_tuple] at hdistinct
    rw [toSortedJson, toJson, TextOrdered, allKeys_tuple]
    exact hitems items fun v hv => ih v hv (hdistinct v hv)
  | dict entries ih =>
    intro hdistinct
    rw [DistinctKeys, allKeys_dict, decide_eq_true_eq] at hdistinct
    rw [toSortedJson, toJson, Json.collapsed, Json.sorted, Json.obj.injEq,
      sortEntries_eq_iff hdistinct.1, TextOrdered, allKeys_dict, decide_eq_true_eq]
    exact and_congr_right' (forall₂_congr fun e he => ih e he (hdistinct.2 e he))

/-! ## Reading back -/

/-- `json.loads` reads a text with sorted keys. -/
theorem loads_dumpsSorted {v : PyObject} {text : List Char} (h : v.dumpsSorted = .ok text) :
    text = defaultStyle.render v.toSortedJson ∧
      Json.loads text = some v.toSortedJson.collapsed := by
  unfold dumpsSorted at h
  split at h
  · cases h
    exact ⟨rfl, Json.loads_render defaultStyle v.toSortedJson⟩
  · cases h

end PyObject

end QuantumSentinel.Lib
