import QuantumSentinel.Lib.Json

/-!
# Reading JSON texts

Python's `json.loads`: a value of nested tokens with spaces between them, where of two
members with one name the later one counts.

Main results:

- Definition `Json.loads`: the value of a text.
- Theorem `Json.loads_render`: a rendered value is read back, up to names that occur twice.

Current gaps:

- A number with a fraction or an exponent is kept as it is written.
-/

namespace QuantumSentinel.Lib

/-! ## Values -/

/-- Without the spaces in front. -/
def skipSpaces (text : List Char) : List Char :=
  text.dropWhile (· ∈ [' ', '\t', '\n', '\r'])

/-- The integer of a text: digits without leading zeros. -/
def readInt (word : List Char) : Option ℤ :=
  let digits := word.dropWhile (· = '-')
  let value : ℤ := Nat.ofDigitChars 10 digits 0
  let n := if word.head? = some '-' then -value else value
  if word = intText n ∨ word = ['-', '0'] then some n else none

/-- A number, up to the first character that continues none. -/
def readNumber (text : List Char) : Option (WideJson × List Char) :=
  let word := text.takeWhile isNumberChar
  let rest := text.dropWhile isNumberChar
  if word.all isIntChar then (readInt word).map fun n => (.int n, rest)
  else if h : isFloatText word then some (.float ⟨word, h⟩, rest)
  else none

/-- The members of an object: of two with one name the later value, in the earlier place. -/
def ofPairs (pairs : List (WideText × WideJson)) : List (WideText × WideJson) :=
  (pairs.foldl (fun (d : Dict WideText WideJson) pair => d.set pair.1 pair.2) Dict.empty).items

mutual

/-- A value. -/
def readValue : ℕ → List Char → Option (WideJson × List Char)
  | 0, _ => none
  | fuel + 1, text =>
    match text with
    | 'n' :: 'u' :: 'l' :: 'l' :: rest => some (.null, rest)
    | 't' :: 'r' :: 'u' :: 'e' :: rest => some (.bool true, rest)
    | 'f' :: 'a' :: 'l' :: 's' :: 'e' :: rest => some (.bool false, rest)
    | '"' :: rest => (readString rest).map fun read => (.str read.1, read.2)
    | '[' :: rest => (readItems fuel (skipSpaces rest)).map fun read => (.arr read.1, read.2)
    | '{' :: rest =>
      (readMembers fuel (skipSpaces rest)).map fun read => (.obj (ofPairs read.1), read.2)
    | text => readNumber text

/-- The items of an array and the bracket that closes it. -/
def readItems : ℕ → List Char → Option (List WideJson × List Char)
  | 0, _ => none
  | _ + 1, ']' :: rest => some ([], rest)
  | fuel + 1, text => do
      let (v, rest) ← readValue fuel text
      let (more, rest) ← readMoreItems fuel (skipSpaces rest)
      some (v :: more, rest)

/-- The items behind one. -/
def readMoreItems : ℕ → List Char → Option (List WideJson × List Char)
  | 0, _ => none
  | _ + 1, ']' :: rest => some ([], rest)
  | fuel + 1, ',' :: rest => do
      let (v, rest) ← readValue fuel (skipSpaces rest)
      let (more, rest) ← readMoreItems fuel (skipSpaces rest)
      some (v :: more, rest)
  | _ + 1, _ => none

/-- A member of an object. -/
def readMember : ℕ → List Char → Option ((WideText × WideJson) × List Char)
  | fuel + 1, '"' :: rest => do
      let (name, rest) ← readString rest
      match skipSpaces rest with
      | ':' :: rest =>
        let (v, rest) ← readValue fuel (skipSpaces rest)
        some ((name, v), rest)
      | _ => none
  | _, _ => none

/-- The members of an object and the brace that closes it. -/
def readMembers : ℕ → List Char → Option (List (WideText × WideJson) × List Char)
  | 0, _ => none
  | _ + 1, '}' :: rest => some ([], rest)
  | fuel + 1, text => do
      let (m, rest) ← readMember fuel text
      let (more, rest) ← readMoreMembers fuel (skipSpaces rest)
      some (m :: more, rest)

/-- The members behind one. -/
def readMoreMembers : ℕ → List Char → Option (List (WideText × WideJson) × List Char)
  | 0, _ => none
  | _ + 1, '}' :: rest => some ([], rest)
  | fuel + 1, ',' :: rest => do
      let (m, rest) ← readMember fuel (skipSpaces rest)
      let (more, rest) ← readMoreMembers fuel (skipSpaces rest)
      some (m :: more, rest)
  | _ + 1, _ => none

end

/-- `json.loads` -/
def Json.loads (text : List Char) : Option WideJson := do
  let (v, rest) ← readValue (text.length + 1) (skipSpaces text)
  if skipSpaces rest = [] then some v else none

/-! ## Reading back -/

/-- No space stands in front. -/
theorem skipSpaces_cons {c : Char} (h : c ∉ [' ', '\t', '\n', '\r']) (rest : List Char) :
    skipSpaces (c :: rest) = c :: rest := by
  rw [skipSpaces, List.dropWhile_cons, if_neg]
  rw [decide_eq_true_eq]
  exact h

/-- The word of a number ends where nothing continues it. -/
theorem takeWhile_word {word rest : List Char} (hword : ∀ c ∈ word, isNumberChar c = true)
    (hrest : Stops rest) : (word ++ rest).takeWhile isNumberChar = word ∧
      (word ++ rest).dropWhile isNumberChar = rest := by
  have hend : rest.takeWhile isNumberChar = [] ∧ rest.dropWhile isNumberChar = rest := by
    cases rest with
    | nil => exact ⟨rfl, rfl⟩
    | cons c tail =>
      have hc : ¬isNumberChar c = true := by
        rw [hrest c rfl]
        exact Bool.false_ne_true
      rw [List.takeWhile_cons, List.dropWhile_cons, if_neg hc, if_neg hc]
      exact ⟨rfl, rfl⟩
  rw [List.takeWhile_append_of_pos hword, List.dropWhile_append_of_pos hword, hend.1, hend.2,
    List.append_nil]
  exact ⟨rfl, rfl⟩

/-- An integer is read back. -/
theorem readInt_intText (n : ℤ) : readInt (intText n) = some n := by
  have hdigit : ∀ (k : ℕ), ∀ c ∈ Nat.toDigits 10 k, c ≠ '-' := by
    rintro k c hc rfl
    cases Nat.isDigit_of_mem_toDigits (by decide) (by decide) hc
  have hdrop : ∀ k : ℕ, (Nat.toDigits 10 k).dropWhile (· = '-') = Nat.toDigits 10 k := by
    intro k
    cases hdigits : Nat.toDigits 10 k with
    | nil => rfl
    | cons c rest =>
      have hc : c ≠ '-' := hdigit k c (hdigits ▸ List.mem_cons_self)
      rw [List.dropWhile_cons, if_neg]
      rw [decide_eq_true_eq]
      exact hc
  have hhead : ∀ k : ℕ, (Nat.toDigits 10 k).head? ≠ some '-' :=
    fun k hk => hdigit k _ (List.mem_of_head? hk) rfl
  by_cases hn : n < 0
  · have hword : intText n = '-' :: Nat.toDigits 10 n.natAbs := if_pos hn
    have hvalue : -(n.natAbs : ℤ) = n := by omega
    rw [readInt, hword, List.dropWhile_cons, if_pos (decide_eq_true rfl), hdrop,
      Nat.ofDigitChars_ten_toDigits, List.head?_cons]
    simp only [if_true, hvalue, hword, true_or]
  · have hword : intText n = Nat.toDigits 10 n.natAbs := if_neg hn
    have hvalue : (n.natAbs : ℤ) = n := by omega
    rw [readInt, hword, hdrop, Nat.ofDigitChars_ten_toDigits]
    simp only [hhead, if_false, hvalue, hword, true_or, if_true]

/-- A number is read back. -/
theorem readNumber_render {v : WideJson} {word rest : List Char} (hv : JsonStyle.numberText v = some word)
    (hrest : Stops rest) : readNumber (word ++ rest) = some (v, rest) := by
  obtain ⟨htake, hdrop⟩ := takeWhile_word (JsonStyle.numberText_chars hv) hrest
  rw [readNumber]
  simp only [htake, hdrop]
  cases v with
  | int n =>
    cases hv
    have hall : (intText n).all isIntChar = true :=
      List.all_eq_true.mpr fun c hc => isInt_of_mem_intText hc
    rw [if_pos hall, readInt_intText]
    rfl
  | float value =>
    cases hv
    have hfloat := value.isFloat
    have hall : ¬value.text.all isIntChar = true := by
      intro hall
      rw [isFloatText, hall, Bool.not_true, Bool.and_false] at hfloat
      cases hfloat
    rw [if_neg hall, dif_pos hfloat]
  | _ => cases hv

/-- The first character of a value is no space and closes nothing. -/
theorem skipSpaces_render (style : JsonStyle) (v : WideJson) (rest : List Char) :
    skipSpaces (style.render v ++ rest) = style.render v ++ rest := by
  obtain ⟨c, tail, hlead, hkind⟩ := @JsonStyle.render_lead WideText _ style v
  rw [hlead, List.cons_append]
  refine skipSpaces_cons (fun hspace => ?_) _
  have hseven : leadKind c = 7 := by
    simp only [List.mem_cons, List.not_mem_nil, or_false] at hspace
    rcases hspace with rfl | rfl | rfl | rfl
    all_goals rfl
  rw [hseven] at hkind
  cases v with
  | bool b => cases b <;> cases hkind
  | _ => cases hkind

/-- No space stands before a string. -/
theorem skipSpaces_string (style : JsonStyle) (s : WideText) (rest : List Char) :
    skipSpaces (style.renderString s ++ rest) = style.renderString s ++ rest :=
  skipSpaces_cons (by decide) _

/-- Spaces behind a separator are skipped. -/
theorem skipSpaces_separator (style : JsonStyle) {text : List Char}
    (htext : skipSpaces text = text) :
    (∃ tail, style.itemSeparator ++ text = ',' :: tail ∧ skipSpaces tail = text) ∧
      ∃ tail, style.keySeparator ++ text = ':' :: tail ∧ skipSpaces tail = text := by
  have hspace : skipSpaces (' ' :: text) = text := by
    rw [skipSpaces, List.dropWhile_cons, if_pos (by decide)]
    exact htext
  unfold JsonStyle.itemSeparator JsonStyle.keySeparator
  cases style.spaced with
  | true => exact ⟨⟨_, rfl, hspace⟩, _, rfl, hspace⟩
  | false => exact ⟨⟨_, rfl, htext⟩, _, rfl, htext⟩

/-- No name occurs twice among the members of an object that was read. -/
theorem nodup_ofPairs (pairs : List (WideText × WideJson)) :
    ((ofPairs pairs).map Prod.fst).Nodup := by
  rw [ofPairs]
  exact Dict.nodup _

/-- Every member of an object that was read stood in its text. -/
theorem mem_of_mem_ofPairs {pairs : List (WideText × WideJson)}
    {m : WideText × WideJson} (h : m ∈ ofPairs pairs) : m ∈ pairs := by
  have hfold : ∀ (pairs : List (WideText × WideJson)) (d : Dict WideText WideJson),
      m ∈ (pairs.foldl (fun d pair => d.set pair.1 pair.2) d).items → m ∈ d.items ∨ m ∈ pairs := by
    intro pairs
    induction pairs with
    | nil => exact fun d hm => Or.inl hm
    | cons pair rest ih =>
      intro d hm
      rcases ih _ hm with hset | hrest
      · rcases Dict.mem_set hset with rfl | hold
        · exact Or.inr List.mem_cons_self
        · exact Or.inl hold
      · exact Or.inr (List.mem_cons_of_mem _ hrest)
  rcases hfold pairs Dict.empty h with hempty | hin
  · cases hempty
  · exact hin

/-- Members with distinct names stay as they are. -/
theorem ofPairs_of_nodup {pairs : List (WideText × WideJson)} (h : (pairs.map Prod.fst).Nodup) :
    ofPairs pairs = pairs := by
  have hfold : ∀ (pairs : List (WideText × WideJson)) (d : Dict WideText WideJson),
      (d.keys ++ pairs.map Prod.fst).Nodup →
        (pairs.foldl (fun d pair => d.set pair.1 pair.2) d).items = d.items ++ pairs := by
    intro pairs
    induction pairs with
    | nil => exact fun d _ => (List.append_nil _).symm
    | cons pair rest ih =>
      intro d hnodup
      have hnew : pair.1 ∉ d.keys := by
        intro hmem
        exact (List.nodup_append.mp hnodup).2.2 _ hmem _ (List.mem_cons_self ..) rfl
      have hset : d.set pair.1 pair.2 = ⟨d.items ++ [pair], _⟩ := dif_neg hnew
      have hkeys := Dict.keys_set_of_notMem pair.2 hnew
      rw [List.foldl_cons, ih, hset, List.append_assoc, List.singleton_append]
      rw [hkeys, List.append_assoc, List.singleton_append]
      exact hnodup
  exact hfold pairs Dict.empty h

namespace Json

mutual

/-- A value as it is read back: of the members of an object with one name the last value, in the
place of the first. -/
def collapsed : WideJson → WideJson
  | .arr items => .arr (collapsedItems items)
  | .obj members => .obj (ofPairs (collapsedMembers members))
  | .null => .null
  | .bool b => .bool b
  | .int n => .int n
  | .float value => .float value
  | .str s => .str s

/-- The items, each as it is read back. -/
def collapsedItems : List WideJson → List WideJson
  | [] => []
  | v :: rest => collapsed v :: collapsedItems rest

/-- The members, each as it is read back. -/
def collapsedMembers : List (WideText × WideJson) → List (WideText × WideJson)
  | [] => []
  | (name, v) :: rest => (name, collapsed v) :: collapsedMembers rest

end

theorem collapsedItems_eq (items : List WideJson) :
    collapsedItems items = items.map collapsed := by
  induction items with
  | nil => rfl
  | cons v rest ih => rw [collapsedItems, ih, List.map_cons]

theorem collapsedMembers_eq (members : List (WideText × WideJson)) :
    collapsedMembers members = members.map fun m => (m.1, m.2.collapsed) := by
  induction members with
  | nil => rfl
  | cons m rest ih =>
    rcases m with ⟨name, v⟩
    rw [collapsedMembers, ih, List.map_cons]

mutual

/-- What was read back is sorted without another change of its members. -/
theorem collapsed_sorted_collapsed (v : WideJson) :
    v.collapsed.sorted.collapsed = v.collapsed.sorted := by
  cases v with
  | null => rfl
  | bool b => rfl
  | int n => rfl
  | float value => rfl
  | str s => rfl
  | arr items =>
    rw [collapsed, sorted, collapsed, collapsedItems_eq, collapsedItems_eq, sortedItems_eq,
      List.map_congr_left (g := id), List.map_id]
    intro v hv
    rw [List.map_map, List.mem_map] at hv
    obtain ⟨w, hw, rfl⟩ := hv
    exact collapsed_of_mem items w hw
  | obj members =>
    have hperm := List.perm_insertionSort byName
      (sortedMembers (ofPairs (collapsedMembers members)))
    have hfixed : collapsedMembers ((sortedMembers (ofPairs (collapsedMembers members))).insertionSort
        byName) = (sortedMembers (ofPairs (collapsedMembers members))).insertionSort byName := by
      rw [collapsedMembers_eq, List.map_congr_left (g := id), List.map_id]
      intro m hm
      rw [hperm.mem_iff, sortedMembers_eq, List.mem_map] at hm
      obtain ⟨m', hm', rfl⟩ := hm
      have hin := mem_of_mem_ofPairs hm'
      rw [collapsedMembers_eq, List.mem_map] at hin
      obtain ⟨m, hmember, rfl⟩ := hin
      exact Prod.ext rfl (collapsed_of_mem_members members m hmember)
    have hnames : (((sortedMembers (ofPairs (collapsedMembers members))).insertionSort
        byName).map Prod.fst).Nodup := by
      rw [(hperm.map Prod.fst).nodup_iff, sortedMembers_eq, List.map_map]
      exact nodup_ofPairs _
    rw [collapsed, sorted, collapsed, hfixed, ofPairs_of_nodup hnames]

theorem collapsed_of_mem (items : List WideJson) :
    ∀ v ∈ items, v.collapsed.sorted.collapsed = v.collapsed.sorted := by
  cases items with
  | nil => exact fun v hv => absurd hv List.not_mem_nil
  | cons first rest =>
    exact List.forall_mem_cons.mpr ⟨collapsed_sorted_collapsed first, collapsed_of_mem rest⟩

theorem collapsed_of_mem_members (members : List (WideText × WideJson)) :
    ∀ m ∈ members, m.2.collapsed.sorted.collapsed = m.2.collapsed.sorted := by
  cases members with
  | nil => exact fun m hm => absurd hm List.not_mem_nil
  | cons first rest =>
    rcases first with ⟨name, v⟩
    exact List.forall_mem_cons.mpr ⟨collapsed_sorted_collapsed v, collapsed_of_mem_members rest⟩

end

/-- A text that starts like a number is read as one. -/
theorem readValue_number {c : Char} (hkind : leadKind c = 6) (fuel : ℕ) (rest : List Char) :
    readValue (fuel + 1) (c :: rest) = readNumber (c :: rest) := by
  rw [readValue]
  all_goals
    intro tail heq
    rw [(List.cons.inj heq).1] at hkind
    cases hkind

section Render

variable (style : JsonStyle)

/-- Every value has a text, and something stands behind every item and every member. -/
theorem render_length_pos (v : WideJson) (items : List WideJson)
    (members : List (WideText × WideJson)) :
    0 < (style.render v).length ∧ 0 < (style.renderMoreItems items).length ∧
      0 < (style.renderMoreMembers members).length := by
  refine ⟨?_, ?_, ?_⟩
  · obtain ⟨c, tail, hlead, -⟩ := @JsonStyle.render_lead WideText _ style v
    rw [hlead, List.length_cons]
    exact Nat.succ_pos _
  · obtain ⟨tail, hseparator⟩ := JsonStyle.itemSeparator_lead style
    cases items with
    | nil => exact Nat.succ_pos _
    | cons v more =>
      rw [JsonStyle.renderMoreItems, hseparator, List.length_append, List.length_cons]
      omega
  · obtain ⟨tail, hseparator⟩ := JsonStyle.itemSeparator_lead style
    cases members with
    | nil => exact Nat.succ_pos _
    | cons m more =>
      rw [JsonStyle.renderMoreMembers, hseparator, List.length_append, List.length_cons]
      omega

/-- A string with its quotes, and what stands behind it. -/
theorem renderString_append (s : WideText) (rest : List Char) : style.renderString s ++ rest =
    '"' :: (JsonText.body style.ensureAscii s ++ '"' :: rest) := by
  rw [JsonStyle.renderString, List.cons_append, List.cons_append, List.append_assoc,
    List.singleton_append]

/-- A member is read back when its value is. -/
theorem readMember_render (name : WideText) {v w : WideJson} {fuel : ℕ} {rest : List Char}
    (h : readValue fuel (style.render v ++ rest) = some (w, rest)) :
    readMember (fuel + 1) (style.renderString name ++
      (style.keySeparator ++ (style.render v ++ rest))) = some ((name, w), rest) := by
  obtain ⟨-, tail, hkey, htail⟩ := skipSpaces_separator style (skipSpaces_render style v rest)
  have htext := renderString_append style name (':' :: tail)
  have hread := JsonText.readString_body style.ensureAscii name (':' :: tail)
  have hcolon : skipSpaces (':' :: tail) = ':' :: tail := skipSpaces_cons (by decide) tail
  rw [hkey, htext, readMember]
  refine Option.bind_eq_some_iff.mpr ⟨_, hread, ?_⟩
  simp only [hcolon, htail]
  exact Option.bind_eq_some_iff.mpr ⟨_, h, rfl⟩

mutual

/-- A rendered value is read back. -/
theorem readValue_render (v : WideJson) {fuel : ℕ} {rest : List Char}
    (hfuel : (style.render v).length ≤ fuel) (hrest : Stops rest) :
    readValue fuel (style.render v ++ rest) = some (v.collapsed, rest) := by
  obtain ⟨fuel, rfl⟩ : ∃ left, fuel = left + 1 :=
    Nat.exists_eq_succ_of_ne_zero (by have := (render_length_pos style v [] []).1; omega)
  have hnumber : ∀ word, JsonStyle.numberText v = some word → style.render v = word →
      readValue (fuel + 1) (style.render v ++ rest) = some (v, rest) := by
    intro word hword hrender
    obtain ⟨c, tail, hlead, hkind⟩ := @JsonStyle.render_lead WideText _ style v
    have hsix : leadKind c = 6 := by
      rw [hkind]
      cases v with
      | int n => rfl
      | float value => rfl
      | _ => cases hword
    rw [hlead, List.cons_append, readValue_number hsix, ← List.cons_append, ← hlead, hrender]
    exact readNumber_render hword hrest
  match v with
  | .null => rfl
  | .bool true => rfl
  | .bool false => rfl
  | .int n => exact hnumber _ rfl (by rw [JsonStyle.render])
  | .float value => exact hnumber _ rfl (by rw [JsonStyle.render])
  | .str s =>
    have hread := JsonText.readString_body style.ensureAscii s rest
    rw [JsonStyle.render, renderString_append, readValue, hread]
    rfl
  | .arr items =>
    rw [JsonStyle.render, List.length_cons] at hfuel
    have hitems : readItems fuel (skipSpaces (style.renderItems items ++ rest)) =
        some (collapsedItems items, rest) :=
      readItems_render items (Nat.le_of_succ_le_succ hfuel)
    rw [JsonStyle.render, List.cons_append, readValue, hitems]
    rfl
  | .obj members =>
    rw [JsonStyle.render, List.length_cons] at hfuel
    have hmembers : readMembers fuel (skipSpaces (style.renderMembers members ++ rest)) =
        some (collapsedMembers members, rest) :=
      readMembers_render members (Nat.le_of_succ_le_succ hfuel)
    rw [JsonStyle.render, List.cons_append, readValue, hmembers]
    rfl

theorem readItems_render (items : List WideJson) {fuel : ℕ} {rest : List Char}
    (hfuel : (style.renderItems items).length ≤ fuel) :
    readItems fuel (skipSpaces (style.renderItems items ++ rest)) =
      some (collapsedItems items, rest) := by
  match items with
  | [] =>
    rw [JsonStyle.renderItems] at hfuel
    obtain ⟨fuel, rfl⟩ := Nat.exists_eq_succ_of_ne_zero (Nat.ne_of_gt hfuel)
    rw [JsonStyle.renderItems, List.singleton_append, skipSpaces_cons (by decide)]
    rfl
  | v :: more =>
    obtain ⟨hv, hmore, -⟩ := render_length_pos style v more []
    rw [JsonStyle.renderItems, List.length_append] at hfuel
    obtain ⟨fuel, rfl⟩ : ∃ left, fuel = left + 1 := ⟨fuel - 1, by omega⟩
    have hvalue : readValue fuel (style.render v ++ (style.renderMoreItems more ++ rest)) =
        some (v.collapsed, style.renderMoreItems more ++ rest) :=
      readValue_render v (by omega) (JsonStyle.stops_moreItems more rest)
    have hitems' : readMoreItems fuel (skipSpaces (style.renderMoreItems more ++ rest)) =
        some (collapsedItems more, rest) :=
      readMoreItems_render more (by omega)
    rw [JsonStyle.renderItems, List.append_assoc, skipSpaces_render, readItems]
    · exact Option.bind_eq_some_iff.mpr
        ⟨_, hvalue, Option.bind_eq_some_iff.mpr ⟨_, hitems', rfl⟩⟩
    · exact fun _ => JsonStyle.render_ne_close rfl

theorem readMoreItems_render (items : List WideJson) {fuel : ℕ} {rest : List Char}
    (hfuel : (style.renderMoreItems items).length ≤ fuel) :
    readMoreItems fuel (skipSpaces (style.renderMoreItems items ++ rest)) =
      some (collapsedItems items, rest) := by
  match items with
  | [] =>
    rw [JsonStyle.renderMoreItems] at hfuel
    obtain ⟨fuel, rfl⟩ := Nat.exists_eq_succ_of_ne_zero (Nat.ne_of_gt hfuel)
    rw [JsonStyle.renderMoreItems, List.singleton_append, skipSpaces_cons (by decide)]
    rfl
  | v :: more =>
    obtain ⟨hv, hmore, -⟩ := render_length_pos style v more []
    obtain ⟨⟨tail, hseparator, htail⟩, -⟩ := skipSpaces_separator style
      (skipSpaces_render style v (style.renderMoreItems more ++ rest))
    have hcomma : 0 < style.itemSeparator.length := by
      obtain ⟨tail, hlead⟩ := JsonStyle.itemSeparator_lead style
      rw [hlead]
      exact Nat.succ_pos _
    rw [JsonStyle.renderMoreItems, List.length_append, List.length_append] at hfuel
    obtain ⟨fuel, rfl⟩ : ∃ left, fuel = left + 1 := ⟨fuel - 1, by omega⟩
    have hvalue : readValue fuel (style.render v ++ (style.renderMoreItems more ++ rest)) =
        some (v.collapsed, style.renderMoreItems more ++ rest) :=
      readValue_render v (by omega) (JsonStyle.stops_moreItems more rest)
    have hitems' : readMoreItems fuel (skipSpaces (style.renderMoreItems more ++ rest)) =
        some (collapsedItems more, rest) :=
      readMoreItems_render more (by omega)
    rw [JsonStyle.renderMoreItems, List.append_assoc, List.append_assoc, hseparator,
      skipSpaces_cons (by decide), readMoreItems, htail]
    exact Option.bind_eq_some_iff.mpr
      ⟨_, hvalue, Option.bind_eq_some_iff.mpr ⟨_, hitems', rfl⟩⟩

theorem readMembers_render (members : List (WideText × WideJson)) {fuel : ℕ}
    {rest : List Char} (hfuel : (style.renderMembers members).length ≤ fuel) :
    readMembers fuel (skipSpaces (style.renderMembers members ++ rest)) =
      some (collapsedMembers members, rest) := by
  match members with
  | [] =>
    rw [JsonStyle.renderMembers] at hfuel
    obtain ⟨fuel, rfl⟩ := Nat.exists_eq_succ_of_ne_zero (Nat.ne_of_gt hfuel)
    rw [JsonStyle.renderMembers, List.singleton_append, skipSpaces_cons (by decide)]
    rfl
  | (name, v) :: more =>
    obtain ⟨hv, -, hmore⟩ := render_length_pos style v [] more
    rw [JsonStyle.renderMembers, List.length_append, List.length_append, List.length_append]
      at hfuel
    have hquote : 0 < (style.renderString name).length := Nat.succ_pos _
    obtain ⟨fuel, rfl⟩ : ∃ left, fuel = left + 2 := ⟨fuel - 2, by omega⟩
    have hvalue : readValue fuel (style.render v ++ (style.renderMoreMembers more ++ rest)) =
        some (v.collapsed, style.renderMoreMembers more ++ rest) :=
      readValue_render v (by omega) (JsonStyle.stops_moreMembers more rest)
    have hmember := readMember_render style name hvalue
    have hmembers' : readMoreMembers (fuel + 1)
        (skipSpaces (style.renderMoreMembers more ++ rest)) =
          some (collapsedMembers more, rest) :=
      readMoreMembers_render more (by omega)
    rw [JsonStyle.renderMembers, List.append_assoc, List.append_assoc, List.append_assoc,
      skipSpaces_string, readMembers]
    · exact Option.bind_eq_some_iff.mpr
        ⟨_, hmember, Option.bind_eq_some_iff.mpr ⟨_, hmembers', rfl⟩⟩
    · exact fun _ heq => by cases (List.cons.inj heq).1

theorem readMoreMembers_render (members : List (WideText × WideJson)) {fuel : ℕ}
    {rest : List Char} (hfuel : (style.renderMoreMembers members).length ≤ fuel) :
    readMoreMembers fuel (skipSpaces (style.renderMoreMembers members ++ rest)) =
      some (collapsedMembers members, rest) := by
  match members with
  | [] =>
    rw [JsonStyle.renderMoreMembers] at hfuel
    obtain ⟨fuel, rfl⟩ := Nat.exists_eq_succ_of_ne_zero (Nat.ne_of_gt hfuel)
    rw [JsonStyle.renderMoreMembers, List.singleton_append, skipSpaces_cons (by decide)]
    rfl
  | (name, v) :: more =>
    obtain ⟨hv, -, hmore⟩ := render_length_pos style v [] more
    obtain ⟨⟨tail, hseparator, htail⟩, -⟩ := skipSpaces_separator style
      (skipSpaces_string style name
        (style.keySeparator ++ (style.render v ++ (style.renderMoreMembers more ++ rest))))
    rw [JsonStyle.renderMoreMembers, List.length_append, List.length_append,
      List.length_append, List.length_append] at hfuel
    have hquote : 0 < (style.renderString name).length := Nat.succ_pos _
    have hcomma : 0 < style.itemSeparator.length := by
      obtain ⟨tail, hlead⟩ := JsonStyle.itemSeparator_lead style
      rw [hlead]
      exact Nat.succ_pos _
    obtain ⟨fuel, rfl⟩ : ∃ left, fuel = left + 2 := ⟨fuel - 2, by omega⟩
    have hvalue : readValue fuel (style.render v ++ (style.renderMoreMembers more ++ rest)) =
        some (v.collapsed, style.renderMoreMembers more ++ rest) :=
      readValue_render v (by omega) (JsonStyle.stops_moreMembers more rest)
    have hmember := readMember_render style name hvalue
    have hmembers' : readMoreMembers (fuel + 1)
        (skipSpaces (style.renderMoreMembers more ++ rest)) =
          some (collapsedMembers more, rest) :=
      readMoreMembers_render more (by omega)
    rw [JsonStyle.renderMoreMembers, List.append_assoc, List.append_assoc, List.append_assoc,
      List.append_assoc, hseparator, skipSpaces_cons (by decide), readMoreMembers, htail]
    exact Option.bind_eq_some_iff.mpr
      ⟨_, hmember, Option.bind_eq_some_iff.mpr ⟨_, hmembers', rfl⟩⟩

end

/-- `json.loads` reads what `json.dumps` wrote. -/
theorem loads_render (v : WideJson) : loads (style.render v) = some v.collapsed := by
  have hskip := skipSpaces_render style v []
  rw [List.append_nil] at hskip
  have hread : readValue ((style.render v).length + 1) (style.render v ++ []) =
      some (v.collapsed, []) :=
    readValue_render style v (Nat.le_succ _) (fun _ hc => by cases hc)
  rw [List.append_nil] at hread
  rw [loads, hskip]
  exact Option.bind_eq_some_iff.mpr ⟨_, hread, if_pos rfl⟩

end Render

end Json

end QuantumSentinel.Lib
