import Mathlib.Data.List.Sort
import QuantumSentinel.Lib.Dict
import QuantumSentinel.Lib.JsonText
import QuantumSentinel.Lib.PrefixCode

/-!
# JSON texts

JSON values as Python's `json.dumps` writes them: a number is the text of its digits,
text is escaped, and with `sort_keys` the members of an object are ordered by their
names.

Main results:

- Theorem `render_cancel`: a rendered value can be told from a text that starts with it.
- Theorem `dumps_injective`: values with the same sorted text are the same up to the
  order of members.
- Theorem `get?_sorted`: sorting keeps what a name leads to.
-/

namespace QuantumSentinel.Lib

/-! ## Values -/

/-- A character of a number text. -/
def isNumberChar (c : Char) : Bool :=
  c.isDigit || c ∈ ['-', '+', '.', 'e', 'N', 'a', 'I', 'n', 'f', 'i', 't', 'y']

/-- A character of an integer text. -/
def isIntChar (c : Char) : Bool :=
  c.isDigit || c = '-'

/-- A character a number text starts with. -/
def isNumberLead (c : Char) : Bool :=
  c.isDigit || c ∈ ['-', 'N', 'I']

/-- Whether a text is the text of a floating-point number, and of no integer. -/
def isFloatText (text : List Char) : Bool :=
  text.head?.any isNumberLead && text.all isNumberChar && !text.all isIntChar

/-- The shortest decimal text of a binary floating-point number, which determines it. -/
structure FloatText where
  text : List Char
  isFloat : isFloatText text = true
deriving DecidableEq

/-- A JSON value over a type of texts; the members of an object in the order they were put
in. -/
inductive Json (T : Type := String)
  | null
  | bool (value : Bool)
  | int (value : ℤ)
  | float (value : FloatText)
  | str (value : T)
  | arr (items : List (Json T))
  | obj (members : List (T × Json T))

/-- A value as `json.loads` gives it back. -/
abbrev WideJson := Json WideText

/-- How `json.dumps` was called: `ensure_ascii`, and whether its separators end with
a space. -/
structure JsonStyle where
  ensureAscii : Bool
  spaced : Bool

/-! ## Rendering -/

/-- The text of an integer. -/
def intText (n : ℤ) : List Char :=
  if n < 0 then '-' :: Nat.toDigits 10 n.natAbs else Nat.toDigits 10 n.natAbs

variable {T : Type}

namespace JsonStyle

variable [JsonText T] (style : JsonStyle)

/-- Between two items. -/
def itemSeparator : List Char :=
  if style.spaced then [',', ' '] else [',']

/-- Between a name and its value. -/
def keySeparator : List Char :=
  if style.spaced then [':', ' '] else [':']

/-- A string with its quotes. -/
def renderString (s : T) : List Char :=
  '"' :: JsonText.body style.ensureAscii s ++ ['"']

mutual

/-- `json.dumps` without sorting. -/
def render : Json T → List Char
  | .null => ['n', 'u', 'l', 'l']
  | .bool true => ['t', 'r', 'u', 'e']
  | .bool false => ['f', 'a', 'l', 's', 'e']
  | .int n => intText n
  | .float value => value.text
  | .str s => renderString style s
  | .arr items => '[' :: renderItems items
  | .obj members => '{' :: renderMembers members

/-- The items of an array and the bracket that closes it. -/
def renderItems : List (Json T) → List Char
  | [] => [']']
  | v :: rest => render v ++ renderMoreItems rest

/-- The items behind one. -/
def renderMoreItems : List (Json T) → List Char
  | [] => [']']
  | v :: rest => itemSeparator style ++ (render v ++ renderMoreItems rest)

/-- The members of an object and the brace that closes it. -/
def renderMembers : List (T × Json T) → List Char
  | [] => ['}']
  | (name, v) :: rest =>
    renderString style name ++ (keySeparator style ++ (render v ++ renderMoreMembers rest))

/-- The members behind one. -/
def renderMoreMembers : List (T × Json T) → List Char
  | [] => ['}']
  | (name, v) :: rest =>
    itemSeparator style ++ (renderString style name ++
      (keySeparator style ++ (render v ++ renderMoreMembers rest)))

end

end JsonStyle

/-! ## Telling values apart -/

/-- What the first character of a rendered value says about it. -/
def leadKind (c : Char) : ℕ :=
  if c = 'n' then 0
  else if c = 't' then 1
  else if c = 'f' then 2
  else if c = '"' then 3
  else if c = '[' then 4
  else if c = '{' then 5
  else if isNumberLead c then 6
  else 7

/-- The kind of a value. -/
def Json.kind : Json T → ℕ
  | .null => 0
  | .bool true => 1
  | .bool false => 2
  | .str _ => 3
  | .arr _ => 4
  | .obj _ => 5
  | .int _ | .float _ => 6

theorem leadKind_of_number {c : Char} (h : isNumberLead c = true) : leadKind c = 6 := by
  have hne : ∀ d, isNumberLead d = false → c ≠ d := by
    rintro d hd rfl
    rw [h] at hd
    cases hd
  simp only [leadKind, hne 'n' rfl, hne 't' rfl, hne 'f' rfl, hne '"' rfl, hne '[' rfl,
    hne '{' rfl, if_false, h, if_true]

theorem isNumberLead_of_isInt {c : Char} (h : isIntChar c = true) : isNumberLead c = true := by
  rw [isIntChar, Bool.or_eq_true, decide_eq_true_eq] at h
  rcases h with hdigit | rfl
  · rw [isNumberLead, hdigit, Bool.true_or]
  · rfl

theorem isNumberChar_of_isInt {c : Char} (h : isIntChar c = true) : isNumberChar c = true := by
  rw [isIntChar, Bool.or_eq_true, decide_eq_true_eq] at h
  rcases h with hdigit | rfl
  · rw [isNumberChar, hdigit, Bool.true_or]
  · rfl

theorem isInt_of_mem_digits {n : ℕ} {c : Char} (h : c ∈ Nat.toDigits 10 n) :
    isIntChar c = true := by
  have hdigit := Nat.isDigit_of_mem_toDigits (by decide) (by decide) h
  rw [isIntChar, hdigit, Bool.true_or]

/-- An integer text has digits and a sign only. -/
theorem isInt_of_mem_intText {n : ℤ} {c : Char} (h : c ∈ intText n) : isIntChar c = true := by
  unfold intText at h
  split at h
  · rcases List.mem_cons.mp h with rfl | hdigits
    · rfl
    · exact isInt_of_mem_digits hdigits
  · exact isInt_of_mem_digits h

theorem intText_ne_nil (n : ℤ) : intText n ≠ [] := by
  unfold intText
  split
  · exact List.cons_ne_nil _ _
  · exact Nat.toDigits_ne_nil

theorem toDigits_injective {m n : ℕ} (h : Nat.toDigits 10 m = Nat.toDigits 10 n) : m = n := by
  have hvalue := congrArg (fun text => Nat.ofDigitChars 10 text 0) h
  simpa only [Nat.ofDigitChars_ten_toDigits] using hvalue

/-- Integers with the same text are the same. -/
theorem intText_injective {m n : ℤ} (h : intText m = intText n) : m = n := by
  have hminus : ∀ k : ℕ, '-' ∉ Nat.toDigits 10 k := fun k hmem => by
    have hdigit := Nat.isDigit_of_mem_toDigits (by decide) (by decide) hmem
    cases hdigit
  unfold intText at h
  split at h
  · rename_i hm
    split at h
    · rename_i hn
      have habs := toDigits_injective (List.cons.inj h).2
      omega
    · have hmem : '-' ∈ Nat.toDigits 10 n.natAbs := h ▸ List.mem_cons_self
      exact absurd hmem (hminus _)
  · rename_i hm
    split at h
    · have hmem : '-' ∈ Nat.toDigits 10 m.natAbs := h ▸ List.mem_cons_self
      exact absurd hmem (hminus _)
    · rename_i hn
      have habs := toDigits_injective h
      omega

/-- What does not continue a number. -/
def Stops (text : List Char) : Prop :=
  ∀ c ∈ text.head?, isNumberChar c = false

theorem stops_cons {c : Char} (h : isNumberChar c = false) (text : List Char) :
    Stops (c :: text) := by
  intro d hd
  cases hd
  exact h

namespace JsonStyle

/-- The text of a number. -/
def numberText : Json T → Option (List Char)
  | .int n => some (intText n)
  | .float value => some value.text
  | _ => none

theorem numberText_chars {v : Json T} {text : List Char} (h : numberText v = some text) :
    ∀ c ∈ text, isNumberChar c = true := by
  intro c hc
  cases v with
  | int n =>
    cases h
    exact isNumberChar_of_isInt (isInt_of_mem_intText hc)
  | float value =>
    cases h
    have hfloat := value.isFloat
    rw [isFloatText, Bool.and_eq_true, Bool.and_eq_true] at hfloat
    exact List.all_eq_true.mp hfloat.1.2 c hc
  | _ => cases h

/-- Numbers with the same text are the same. -/
theorem numberText_injective {v w : Json T} {text : List Char} (hv : numberText v = some text)
    (hw : numberText w = some text) : v = w := by
  have hmixed : ∀ (n : ℤ) (value : FloatText), intText n ≠ value.text := by
    intro n value heq
    have hfloat := value.isFloat
    rw [← heq, isFloatText, Bool.and_eq_true, Bool.not_eq_true'] at hfloat
    have hall : (intText n).all isIntChar = true :=
      List.all_eq_true.mpr fun c hc => isInt_of_mem_intText hc
    rw [hall] at hfloat
    cases hfloat.2
  cases v with
  | int m =>
    cases w with
    | int n =>
      rw [intText_injective ((Option.some.inj hv).trans (Option.some.inj hw).symm)]
    | float value =>
      exact absurd ((Option.some.inj hv).trans (Option.some.inj hw).symm) (hmixed m value)
    | _ => cases hw
  | float value =>
    cases w with
    | int n =>
      exact absurd ((Option.some.inj hw).trans (Option.some.inj hv).symm) (hmixed n value)
    | float value' =>
      have htext : value.text = value'.text :=
        (Option.some.inj hv).trans (Option.some.inj hw).symm
      cases value
      cases value'
      cases htext
      rfl
    | _ => cases hw
  | _ => cases hv

variable [JsonText T] {style : JsonStyle}

/-- The first character of a rendered value shows its kind. -/
theorem render_lead (v : Json T) :
    ∃ c rest, render style v = c :: rest ∧ leadKind c = v.kind := by
  cases v with
  | null => exact ⟨_, _, rfl, rfl⟩
  | bool b => cases b <;> exact ⟨_, _, rfl, rfl⟩
  | str s => exact ⟨'"', _, rfl, rfl⟩
  | arr items => exact ⟨'[', _, by rw [render], rfl⟩
  | obj members => exact ⟨'{', _, by rw [render], rfl⟩
  | int n =>
    rcases List.exists_cons_of_ne_nil (intText_ne_nil n) with ⟨c, rest, htext⟩
    have hint : isIntChar c = true := isInt_of_mem_intText (htext ▸ List.mem_cons_self)
    exact ⟨c, rest, by rw [render, htext], leadKind_of_number (isNumberLead_of_isInt hint)⟩
  | float value =>
    have hfloat := value.isFloat
    rw [isFloatText, Bool.and_eq_true, Bool.and_eq_true] at hfloat
    cases htext : value.text with
    | nil =>
      rw [htext] at hfloat
      cases hfloat.1.1
    | cons c rest =>
      rw [htext] at hfloat
      exact ⟨c, rest, by rw [render, htext], leadKind_of_number hfloat.1.1⟩

/-- Values whose texts start alike are of one kind. -/
theorem kind_of_render {v w : Json T} {x y : List Char}
    (h : render style v ++ x = render style w ++ y) : v.kind = w.kind := by
  rcases @render_lead T _ style v with ⟨c, rest, hv, hkind⟩
  rcases @render_lead T _ style w with ⟨d, rest', hw, hkind'⟩
  rw [hv, hw, List.cons_append, List.cons_append, List.cons.injEq] at h
  rw [← hkind, ← hkind', h.1]

/-- A string can be told from a text that starts with it. -/
theorem renderString_cancel {s t : T} {x y : List Char}
    (h : renderString style s ++ x = renderString style t ++ y) : s = t ∧ x = y := by
  simp only [renderString, List.cons_append, List.append_assoc, List.nil_append,
    List.cons.injEq, true_and] at h
  exact JsonText.cancel style.ensureAscii h

/-- A separator and what follows it can be told from a closing bracket. -/
theorem itemSeparator_lead (style : JsonStyle) :
    ∃ rest, itemSeparator style = ',' :: rest := by
  cases hspaced : style.spaced with
  | true => exact ⟨[' '], by rw [itemSeparator, hspaced]; rfl⟩
  | false => exact ⟨[], by rw [itemSeparator, hspaced]; rfl⟩

theorem stops_moreItems (items : List (Json T)) (x : List Char) :
    Stops (renderMoreItems style items ++ x) := by
  cases items with
  | nil => exact stops_cons rfl _
  | cons v rest =>
    rcases itemSeparator_lead style with ⟨tail, hsep⟩
    rw [renderMoreItems, hsep]
    exact stops_cons rfl _

theorem stops_moreMembers (members : List (T × Json T)) (x : List Char) :
    Stops (renderMoreMembers style members ++ x) := by
  cases members with
  | nil => exact stops_cons rfl _
  | cons m rest =>
    rcases itemSeparator_lead style with ⟨tail, hsep⟩
    rcases m with ⟨name, v⟩
    rw [renderMoreMembers, hsep]
    exact stops_cons rfl _

/-- A closing bracket starts no value. -/
theorem render_ne_close {v : Json T} {x y : List Char} {c : Char} (hc : leadKind c = 7) :
    render style v ++ x ≠ c :: y := by
  rcases @render_lead T _ style v with ⟨d, rest, hv, hkind⟩
  rw [hv, List.cons_append]
  intro heq
  rw [(List.cons.inj heq).1, hc] at hkind
  cases v with
  | bool b => cases b <;> cases hkind
  | _ => cases hkind

mutual

/-- A rendered value can be told from a text that starts with it. -/
theorem render_cancel (v w : Json T) {x y : List Char} (hx : Stops x) (hy : Stops y)
    (h : render style v ++ x = render style w ++ y) : v = w ∧ x = y := by
  have hkind := kind_of_render h
  have hnumber : ∀ text text', numberText v = some text → numberText w = some text' →
      render style v = text → render style w = text' → v = w ∧ x = y := by
    intro text text' hv hw hrv hrw
    rw [hrv, hrw] at h
    rcases word_inj (numberText_chars hv) (numberText_chars hw) hx hy h with ⟨rfl, hrest⟩
    exact ⟨numberText_injective hv hw, hrest⟩
  match v, w with
  | .null, .null => exact ⟨rfl, List.append_cancel_left h⟩
  | .bool true, .bool true => exact ⟨rfl, List.append_cancel_left h⟩
  | .bool false, .bool false => exact ⟨rfl, List.append_cancel_left h⟩
  | .str s, .str t =>
    rw [render, render] at h
    rcases renderString_cancel h with ⟨rfl, hrest⟩
    exact ⟨rfl, hrest⟩
  | .arr items, .arr items' =>
    rw [render, render, List.cons_append, List.cons_append, List.cons.injEq] at h
    rcases renderItems_cancel items items' h.2 with ⟨rfl, hrest⟩
    exact ⟨rfl, hrest⟩
  | .obj members, .obj members' =>
    rw [render, render, List.cons_append, List.cons_append, List.cons.injEq] at h
    rcases renderMembers_cancel members members' h.2 with ⟨rfl, hrest⟩
    exact ⟨rfl, hrest⟩
  | .int m, .int n => exact hnumber _ _ rfl rfl (by rw [render]) (by rw [render])
  | .int m, .float value => exact hnumber _ _ rfl rfl (by rw [render]) (by rw [render])
  | .float value, .int n => exact hnumber _ _ rfl rfl (by rw [render]) (by rw [render])
  | .float value, .float value' =>
    exact hnumber _ _ rfl rfl (by rw [render]) (by rw [render])

theorem renderItems_cancel (items items' : List (Json T)) {x y : List Char}
    (h : renderItems style items ++ x = renderItems style items' ++ y) :
    items = items' ∧ x = y := by
  match items, items' with
  | [], [] =>
    rw [renderItems] at h
    exact ⟨rfl, List.append_cancel_left h⟩
  | [], w :: rest' =>
    rw [renderItems, renderItems, List.append_assoc] at h
    exact absurd h.symm (render_ne_close rfl)
  | v :: rest, [] =>
    rw [renderItems, renderItems, List.append_assoc] at h
    exact absurd h (render_ne_close rfl)
  | v :: rest, w :: rest' =>
    rw [renderItems, renderItems, List.append_assoc, List.append_assoc] at h
    rcases render_cancel v w (stops_moreItems rest x) (stops_moreItems rest' y) h with
      ⟨rfl, hmore⟩
    rcases renderMoreItems_cancel rest rest' hmore with ⟨rfl, hrest⟩
    exact ⟨rfl, hrest⟩

theorem renderMoreItems_cancel (items items' : List (Json T)) {x y : List Char}
    (h : renderMoreItems style items ++ x = renderMoreItems style items' ++ y) :
    items = items' ∧ x = y := by
  rcases itemSeparator_lead style with ⟨tail, hsep⟩
  match items, items' with
  | [], [] =>
    rw [renderMoreItems] at h
    exact ⟨rfl, List.append_cancel_left h⟩
  | [], w :: rest' =>
    rw [renderMoreItems, renderMoreItems, hsep] at h
    cases (List.cons.inj h).1
  | v :: rest, [] =>
    rw [renderMoreItems, renderMoreItems, hsep] at h
    cases (List.cons.inj h).1
  | v :: rest, w :: rest' =>
    rw [renderMoreItems, renderMoreItems] at h
    simp only [List.append_assoc] at h
    have hvalue := List.append_cancel_left h
    rcases render_cancel v w (stops_moreItems rest x) (stops_moreItems rest' y) hvalue with
      ⟨rfl, hmore⟩
    rcases renderMoreItems_cancel rest rest' hmore with ⟨rfl, hrest⟩
    exact ⟨rfl, hrest⟩

theorem renderMembers_cancel (members members' : List (T × Json T)) {x y : List Char}
    (h : renderMembers style members ++ x = renderMembers style members' ++ y) :
    members = members' ∧ x = y := by
  match members, members' with
  | [], [] =>
    rw [renderMembers] at h
    exact ⟨rfl, List.append_cancel_left h⟩
  | [], (name', w) :: rest' =>
    rw [renderMembers, renderMembers] at h
    cases (List.cons.inj h).1
  | (name, v) :: rest, [] =>
    rw [renderMembers, renderMembers] at h
    cases (List.cons.inj h).1
  | (name, v) :: rest, (name', w) :: rest' =>
    rw [renderMembers, renderMembers] at h
    simp only [List.append_assoc] at h
    rcases renderString_cancel h with ⟨rfl, hbehind⟩
    have hvalue := List.append_cancel_left hbehind
    rcases render_cancel v w (stops_moreMembers rest x) (stops_moreMembers rest' y) hvalue with
      ⟨rfl, hmore⟩
    rcases renderMoreMembers_cancel rest rest' hmore with ⟨rfl, hrest⟩
    exact ⟨rfl, hrest⟩

theorem renderMoreMembers_cancel (members members' : List (T × Json T)) {x y : List Char}
    (h : renderMoreMembers style members ++ x = renderMoreMembers style members' ++ y) :
    members = members' ∧ x = y := by
  rcases itemSeparator_lead style with ⟨tail, hsep⟩
  match members, members' with
  | [], [] =>
    rw [renderMoreMembers] at h
    exact ⟨rfl, List.append_cancel_left h⟩
  | [], (name', w) :: rest' =>
    rw [renderMoreMembers, renderMoreMembers, hsep] at h
    cases (List.cons.inj h).1
  | (name, v) :: rest, [] =>
    rw [renderMoreMembers, renderMoreMembers, hsep] at h
    cases (List.cons.inj h).1
  | (name, v) :: rest, (name', w) :: rest' =>
    rw [renderMoreMembers, renderMoreMembers] at h
    simp only [List.append_assoc] at h
    rcases renderString_cancel (List.append_cancel_left h) with ⟨rfl, hbehind⟩
    have hvalue := List.append_cancel_left hbehind
    rcases render_cancel v w (stops_moreMembers rest x) (stops_moreMembers rest' y) hvalue with
      ⟨rfl, hmore⟩
    rcases renderMoreMembers_cancel rest rest' hmore with ⟨rfl, hrest⟩
    exact ⟨rfl, hrest⟩

end

/-- Values with the same text are the same. -/
theorem render_injective {v w : Json T} (h : render style v = render style w) : v = w := by
  have hstops : Stops [] := fun _ hc => by cases hc
  have happend : render style v ++ [] = render style w ++ [] := by rw [h]
  exact (render_cancel v w hstops hstops happend).1

end JsonStyle

/-! ## Sorted members -/

namespace Json

variable [LinearOrder T]

/-- Order of members by their names. -/
def byName (m m' : T × Json T) : Prop :=
  m.1 ≤ m'.1

instance : DecidableRel (@byName T _) :=
  fun m m' => inferInstanceAs (Decidable (m.1 ≤ m'.1))

mutual

/-- The value with the members of every object ordered by their names. -/
def sorted : Json T → Json T
  | .arr items => .arr (sortedItems items)
  | .obj members => .obj ((sortedMembers members).insertionSort byName)
  | .null => .null
  | .bool b => .bool b
  | .int n => .int n
  | .float value => .float value
  | .str s => .str s

/-- The items, each sorted. -/
def sortedItems : List (Json T) → List (Json T)
  | [] => []
  | v :: rest => sorted v :: sortedItems rest

/-- The members, each sorted, in the order they stand. -/
def sortedMembers : List (T × Json T) → List (T × Json T)
  | [] => []
  | (name, v) :: rest => (name, sorted v) :: sortedMembers rest

end

/-- `json.dumps` with `sort_keys=True`. -/
def dumps [JsonText T] (style : JsonStyle) (v : Json T) : List Char :=
  style.render v.sorted

/-- The value under a name. -/
def get? [DecidableEq T] (name : T) : Json T → Option (Json T)
  | .obj members => Dict.lookup name members
  | _ => none

/-- Values with the same sorted text are the same up to the order of members. -/
theorem dumps_injective [JsonText T] {style : JsonStyle} {v w : Json T}
    (h : dumps style v = dumps style w) : v.sorted = w.sorted :=
  JsonStyle.render_injective h

theorem sortedItems_eq (items : List (Json T)) : sortedItems items = items.map sorted := by
  induction items with
  | nil => rfl
  | cons v rest ih => rw [sortedItems, ih, List.map_cons]

theorem sortedMembers_eq (members : List (T × Json T)) :
    sortedMembers members = members.map fun m => (m.1, m.2.sorted) := by
  induction members with
  | nil => rfl
  | cons m rest ih =>
    rcases m with ⟨name, v⟩
    rw [sortedMembers, ih, List.map_cons]

/-- Sorting keeps what a name leads to. -/
theorem get?_sorted [DecidableEq T] {members : List (T × Json T)} (hnodup : (members.map Prod.fst).Nodup)
    (name : T) :
    (Json.obj members).sorted.get? name = ((Json.obj members).get? name).map sorted := by
  have hkeys : ((sortedMembers members).map Prod.fst).Nodup := by
    rw [sortedMembers_eq, Dict.mapValues_keys fun _ v => sorted v]
    exact hnodup
  have hperm := (List.perm_insertionSort byName (sortedMembers members)).symm
  rw [sorted, get?, get?, ← Dict.lookup_perm hperm hkeys, sortedMembers_eq]
  exact Dict.lookup_map (fun _ v => sorted v) name members

/-- What sorted objects agree on. -/
theorem get?_of_sorted_eq [DecidableEq T] {members members' : List (T × Json T)}
    (hnodup : (members.map Prod.fst).Nodup) (hnodup' : (members'.map Prod.fst).Nodup)
    (h : (Json.obj members).sorted = (Json.obj members').sorted) (name : T) :
    (Dict.lookup name members).map sorted = (Dict.lookup name members').map sorted := by
  have hget := get?_sorted hnodup name
  rw [h, get?_sorted hnodup'] at hget
  exact hget.symm

/-- The members of sorted objects are the same up to their order. -/
theorem perm_of_sorted_eq {members members' : List (T × Json T)}
    (h : (Json.obj members).sorted = (Json.obj members').sorted) :
    (sortedMembers members).Perm (sortedMembers members') := by
  rw [sorted, sorted, Json.obj.injEq] at h
  have hperm := List.perm_insertionSort byName (sortedMembers members)
  rw [h] at hperm
  exact hperm.symm.trans (List.perm_insertionSort byName (sortedMembers members'))

/-- Members that stand in order stay as they are. -/
theorem sorted_obj_of_pairwise {members : List (T × Json T)}
    (h : (members.map Prod.fst).Pairwise (· ≤ ·)) :
    (Json.obj members).sorted = .obj (members.map fun m => (m.1, m.2.sorted)) := by
  rw [sorted, sortedMembers_eq]
  congr 1
  apply List.Pairwise.insertionSort_eq
  rw [List.pairwise_map] at h ⊢
  exact h

instance : Std.Total (@byName T _) :=
  ⟨fun m m' => le_total m.1 m'.1⟩

instance : IsTrans (T × Json T) byName :=
  ⟨fun _ _ _ h h' => le_trans h h'⟩

mutual

/-- Sorting twice is sorting once. -/
theorem sorted_sorted (v : Json T) : v.sorted.sorted = v.sorted := by
  cases v with
  | null => rfl
  | bool b => rfl
  | int n => rfl
  | float value => rfl
  | str s => rfl
  | arr items =>
    rw [sorted, sorted, sortedItems_sortedItems items]
  | obj members =>
    have hpairs := List.pairwise_insertionSort byName (sortedMembers members)
    have hfixed : ∀ m ∈ (sortedMembers members).insertionSort byName,
        (m.1, m.2.sorted) = m := by
      intro m hm
      exact sorted_of_mem_sortedMembers members m ((List.mem_insertionSort byName).mp hm)
    rw [sorted, sorted, sortedMembers_eq, List.map_congr_left hfixed, List.map_id'',
      hpairs.insertionSort_eq]
    exact fun _ => rfl

theorem sortedItems_sortedItems (items : List (Json T)) :
    sortedItems (sortedItems items) = sortedItems items := by
  cases items with
  | nil => rfl
  | cons v rest =>
    rw [sortedItems, sortedItems, sorted_sorted v, sortedItems_sortedItems rest]

theorem sorted_of_mem_sortedMembers (members : List (T × Json T)) :
    ∀ m ∈ sortedMembers members, (m.1, m.2.sorted) = m := by
  cases members with
  | nil => exact fun m hm => absurd hm List.not_mem_nil
  | cons first rest =>
    rcases first with ⟨name, v⟩
    intro m hm
    rw [sortedMembers, List.mem_cons] at hm
    rcases hm with rfl | hrest
    · rw [sorted_sorted v]
    · exact sorted_of_mem_sortedMembers rest m hrest

end

end Json

end QuantumSentinel.Lib
