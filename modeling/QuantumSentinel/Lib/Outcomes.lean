import Mathlib.Data.List.Forall2

/-!
# Computations that may fail

Equations for `Except`, in the form proofs about modelled functions use them.

Main results:

- Theorem `bind_eq_ok_iff`: a sequence succeeds when both parts do.
- Theorem `mapM_eq_ok_iff`: a loop succeeds when every turn does.
- Theorem `exists_of_mapM_error`: a loop fails as one of its turns does.
- Theorem `forall₂_join`: lists are told apart item by item.
-/

namespace QuantumSentinel.Lib

universe u v w

variable {ε : Type u} {α β : Type v} {γ : Type w}

/-- A sequence succeeds when both parts do. -/
theorem bind_eq_ok_iff {x : Except ε α} {f : α → Except ε β} {b : β} :
    x >>= f = .ok b ↔ ∃ a, x = .ok a ∧ f a = .ok b := by
  cases x with
  | error e =>
    constructor
    · intro h
      cases h
    · rintro ⟨a, h, -⟩
      cases h
  | ok a =>
    constructor
    · intro h
      exact ⟨a, rfl, h⟩
    · rintro ⟨a', h, hf⟩
      cases h
      exact hf

/-- A sequence fails when its first part does, or its second part after it. -/
theorem bind_eq_error_iff {x : Except ε α} {f : α → Except ε β} {e : ε} :
    x >>= f = .error e ↔ x = .error e ∨ ∃ a, x = .ok a ∧ f a = .error e := by
  cases x with
  | error e' =>
    constructor
    · intro h
      cases h
      exact Or.inl rfl
    · rintro (h | ⟨a, h, -⟩)
      · cases h
        rfl
      · cases h
  | ok a =>
    constructor
    · intro h
      exact Or.inr ⟨a, rfl, h⟩
    · rintro (h | ⟨a', h, hf⟩)
      · cases h
      · cases h
        exact hf

theorem map_eq_ok_iff {x : Except ε α} {f : α → β} {b : β} :
    f <$> x = .ok b ↔ ∃ a, x = .ok a ∧ f a = b := by
  cases x with
  | error e =>
    constructor
    · intro h
      cases h
    · rintro ⟨a, h, -⟩
      cases h
  | ok a =>
    constructor
    · intro h
      cases h
      exact ⟨a, rfl, rfl⟩
    · rintro ⟨a', h, hf⟩
      cases h
      rw [← hf]
      rfl

/-- Renaming failures leaves results alone. -/
theorem mapError_eq_ok_iff {ε' : Type w} {x : Except ε α} {f : ε → ε'} {a : α} :
    x.mapError f = .ok a ↔ x = .ok a := by
  cases x with
  | error e =>
    constructor
    · intro h
      cases h
    · intro h
      cases h
  | ok b => exact Iff.rfl.trans (by rw [Except.mapError, Except.ok.injEq, Except.ok.injEq])

/-- A loop succeeds when every turn does. -/
theorem mapM_eq_ok_iff {f : γ → Except ε β} {l : List γ} {r : List β} :
    l.mapM f = .ok r ↔ List.Forall₂ (fun c b => f c = .ok b) l r := by
  induction l generalizing r with
  | nil =>
    rw [List.mapM_nil, List.forall₂_nil_left_iff]
    constructor
    · intro h
      cases h
      rfl
    · rintro rfl
      rfl
  | cons c rest ih =>
    rw [List.mapM_cons, bind_eq_ok_iff]
    constructor
    · rintro ⟨b, hb, hrest⟩
      rcases bind_eq_ok_iff.mp hrest with ⟨bs, hbs, hr⟩
      cases hr
      exact List.Forall₂.cons hb (ih.mp hbs)
    · intro h
      cases h with
      | cons hb hbs =>
        exact ⟨_, hb, bind_eq_ok_iff.mpr ⟨_, ih.mpr hbs, rfl⟩⟩

/-- A loop fails as one of its turns does. -/
theorem exists_of_mapM_error {f : γ → Except ε β} {l : List γ} {e : ε}
    (h : l.mapM f = .error e) : ∃ c ∈ l, f c = .error e := by
  induction l with
  | nil => cases h
  | cons c rest ih =>
    rw [List.mapM_cons, bind_eq_error_iff] at h
    rcases h with hturn | ⟨b, -, hrest⟩
    · exact ⟨c, List.mem_cons_self, hturn⟩
    · rcases bind_eq_error_iff.mp hrest with hloop | ⟨bs, -, hpure⟩
      · rcases ih hloop with ⟨d, hd, hfail⟩
        exact ⟨d, List.mem_cons_of_mem _ hd, hfail⟩
      · cases hpure

/-- A loop whose turns have known results. -/
theorem mapM_eq_ok_map {f : γ → Except ε β} {g : γ → β} {l : List γ}
    (h : ∀ c ∈ l, f c = .ok (g c)) : l.mapM f = .ok (l.map g) := by
  rw [mapM_eq_ok_iff, List.forall₂_map_right_iff, List.forall₂_same]
  exact h

/-- A loop whose turns are the same on its items. -/
theorem mapM_congr {f g : γ → Except ε β} {l : List γ} (h : ∀ c ∈ l, f c = g c) :
    l.mapM f = l.mapM g := by
  induction l with
  | nil => rfl
  | cons c rest ih =>
    rw [List.mapM_cons, List.mapM_cons, h c List.mem_cons_self,
      ih fun d hd => h d (List.mem_cons_of_mem _ hd)]

/-- Every result comes from an item. -/
theorem exists_of_forall₂ {α' β' : Type} {R : α' → β' → Prop} {l : List α'} {r : List β'}
    (h : List.Forall₂ R l r) {b : β'} (hb : b ∈ r) : ∃ a ∈ l, R a b := by
  induction h with
  | nil => cases hb
  | cons hab _ ih =>
    rcases List.mem_cons.mp hb with rfl | hrest
    · exact ⟨_, List.mem_cons_self, hab⟩
    · rcases ih hrest with ⟨a, ha, hR⟩
      exact ⟨a, List.mem_cons_of_mem _ ha, hR⟩

/-- Every item has its result. -/
theorem exists_right_of_forall₂ {α' β' : Type} {R : α' → β' → Prop} {l : List α'}
    {r : List β'} (h : List.Forall₂ R l r) {a : α'} (ha : a ∈ l) : ∃ b ∈ r, R a b :=
  exists_of_forall₂ h.flip ha

/-- Items that all have a result. -/
theorem exists_forall₂ {α' β' : Type} {R : α' → β' → Prop} {l : List α'}
    (h : ∀ a ∈ l, ∃ b, R a b) : ∃ r, List.Forall₂ R l r := by
  induction l with
  | nil => exact ⟨[], List.Forall₂.nil⟩
  | cons a rest ih =>
    rcases h a List.mem_cons_self with ⟨b, hb⟩
    rcases ih fun c hc => h c (List.mem_cons_of_mem _ hc) with ⟨r, hr⟩
    exact ⟨b :: r, List.Forall₂.cons hb hr⟩

/-- Lists whose items are told apart by what they are related to. -/
theorem forall₂_join {α' β' δ : Type} {R R' : α' → β' → Prop} {P : α' → Prop} {f : β' → δ}
    {l l' : List α'} {r r' : List β'} (h : List.Forall₂ R l r) (h' : List.Forall₂ R' l' r')
    (heq : r.map f = r'.map f)
    (hone : ∀ a b a' b', R a b → R' a' b' → f b = f b' → a = a' ∧ P a) :
    l = l' ∧ ∀ a ∈ l, P a := by
  induction h generalizing l' r' with
  | nil =>
    cases h' with
    | nil => exact ⟨rfl, fun _ ha => by cases ha⟩
    | cons _ _ => cases heq
  | cons hab _ ih =>
    cases h' with
    | nil => cases heq
    | cons hab' hrest' =>
      rw [List.map_cons, List.map_cons, List.cons.injEq] at heq
      rcases hone _ _ _ _ hab hab' heq.1 with ⟨rfl, hP⟩
      rcases ih hrest' heq.2 with ⟨rfl, hall⟩
      refine ⟨rfl, fun a ha => ?_⟩
      rcases List.mem_cons.mp ha with rfl | hmem
      · exact hP
      · exact hall a hmem

/-! ## Two runs -/

/-- Both fail in the same way, or both succeed with related results. -/
def Both {α' β' : Type*} (R : α' → β' → Prop) : Except ε α' → Except ε β' → Prop
  | .ok a, .ok b => R a b
  | .error e, .error e' => e = e'
  | _, _ => False

namespace Both

variable {α' β' : Type v} {R : α → β → Prop} {S : α' → β' → Prop}

theorem error (e : ε) : Both R (.error e) (.error e) :=
  rfl

theorem refl {R : α → α → Prop} (hR : ∀ a, R a a) (x : Except ε α) : Both R x x := by
  cases x with
  | error e => rfl
  | ok a => exact hR a

theorem mono {R' : α → β → Prop} {x : Except ε α} {y : Except ε β} (h : Both R x y)
    (hR : ∀ a b, R a b → R' a b) : Both R' x y := by
  cases x with
  | error e =>
    cases y with
    | error e' => exact h
    | ok b => exact h
  | ok a =>
    cases y with
    | error e' => exact h
    | ok b => exact hR a b h

/-- One computation after another. -/
theorem bind {x : Except ε α} {y : Except ε β} (h : Both R x y) {f : α → Except ε α'}
    {g : β → Except ε β'} (hf : ∀ a b, R a b → Both S (f a) (g b)) :
    Both S (x >>= f) (y >>= g) := by
  cases x with
  | error e =>
    cases y with
    | error e' => exact h
    | ok b => exact h.elim
  | ok a =>
    cases y with
    | error e' => exact h.elim
    | ok b => exact hf a b h

theorem map {x : Except ε α} {y : Except ε β} (h : Both R x y) {f : α → α'} {g : β → β'}
    (hf : ∀ a b, R a b → S (f a) (g b)) : Both S (f <$> x) (g <$> y) := by
  cases x with
  | error e =>
    cases y with
    | error e' => exact h
    | ok b => exact h.elim
  | ok a =>
    cases y with
    | error e' => exact h.elim
    | ok b => exact hf a b h

theorem mapError {ε' : Type w} {x : Except ε α} {y : Except ε β} (h : Both R x y)
    (f : ε → ε') : Both R (x.mapError f) (y.mapError f) := by
  cases x with
  | error e =>
    cases y with
    | error e' => exact congrArg f h
    | ok b => exact h.elim
  | ok a =>
    cases y with
    | error e' => exact h.elim
    | ok b => exact h

/-- Results that are always the same. -/
theorem eq {x y : Except ε α} (h : Both (fun a b => a = b) x y) : x = y := by
  cases x with
  | error e =>
    cases y with
    | error e' => exact congrArg Except.error h
    | ok b => exact h.elim
  | ok a =>
    cases y with
    | error e' => exact h.elim
    | ok b => exact congrArg Except.ok h

/-- Two loops over related items. -/
theorem mapM_related {R : α → β → Prop} {δ : Type*} {P : γ → δ → Prop} {l : List γ} {l' : List δ}
    (hl : List.Forall₂ P l l') {f : γ → Except ε α} {g : δ → Except ε β}
    (h : ∀ c d, P c d → Both R (f c) (g d)) : Both (List.Forall₂ R) (l.mapM f) (l'.mapM g) := by
  induction hl with
  | nil => exact List.Forall₂.nil
  | cons hitem _ ih =>
    rw [List.mapM_cons, List.mapM_cons]
    refine (h _ _ hitem).bind fun a b hab => ?_
    refine ih.bind fun as bs hrest => ?_
    exact List.Forall₂.cons hab hrest

/-- Two loops over the same items. -/
theorem mapM {R : α → β → Prop} {l : List γ} {f : γ → Except ε α} {g : γ → Except ε β}
    (h : ∀ c ∈ l, Both R (f c) (g c)) : Both (List.Forall₂ R) (l.mapM f) (l.mapM g) :=
  mapM_related (P := fun c d => c = d ∧ c ∈ l) (List.forall₂_same.mpr fun _ hc => ⟨rfl, hc⟩)
    fun c _ hcd => hcd.1 ▸ h c hcd.2

/-- Two loops over the same items that carry related states. -/
theorem foldlM {R : α → β → Prop} {l : List γ} {f : α → γ → Except ε α} {g : β → γ → Except ε β}
    (h : ∀ a b, R a b → ∀ c ∈ l, Both R (f a c) (g b c)) {a : α} {b : β} (hab : R a b) :
    Both R (l.foldlM f a) (l.foldlM g b) := by
  induction l generalizing a b with
  | nil => exact hab
  | cons c rest ih =>
    rw [List.foldlM_cons, List.foldlM_cons]
    refine (h a b hab c List.mem_cons_self).bind fun a' b' hstep => ?_
    exact ih (fun a b hab d hd => h a b hab d (List.mem_cons_of_mem _ hd)) hstep

end Both

end QuantumSentinel.Lib
