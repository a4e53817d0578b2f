import Mathlib.Data.List.Forall2
import ResourceQuery.Compile.Filters

/-!
# Request — filters that differ in their values

Two filters have the same shape when they ask the same of the same keys in the same order, and ask for
values of the same shape: the null for the null, a text for a text with as many pieces between commas,
a list for a list with its nulls in the same places (`FilterValue.SameShape`).  The text `null` is part
of the shape, whether it is a piece or the whole, since JSON attributes take it for the null.

What a filter is asked has answers of the same shape: the values to choose from
(`FilterValue.SameShape.values`) and the value to compare with (`FilterValue.SameShape.scalar?`), the
keys (`Filter.SameShape.keys`), what stands under a key (`Filter.SameShape.equality?`,
`Filter.SameShape.typed?`) and the terms (`Filter.SameShape.terms`).
-/

namespace ResourceQuery

/-! ### Related lists -/

section

variable {α β γ δ : Type} {R : α → β → Prop} {S : γ → δ → Prop} {xs : List α} {ys : List β}

theorem map_eq_of_rel {f : α → γ} {g : β → γ} (h : List.Forall₂ R xs ys)
    (hfg : ∀ x y, R x y → f x = g y) : xs.map f = ys.map g := by
  rw [← List.forall₂_eq_eq_eq, List.forall₂_map_left_iff, List.forall₂_map_right_iff]
  exact h.imp hfg

theorem isEmpty_of_rel (h : List.Forall₂ R xs ys) : xs.isEmpty = ys.isEmpty := by
  cases h with
  | nil => rfl
  | cons _ _ => rfl

/-- The first things that are found in related lists are related. -/
theorem rel_findSome? {f : α → Option γ} {g : β → Option δ} (h : List.Forall₂ R xs ys)
    (hfg : ∀ x y, R x y → Option.Rel S (f x) (g y)) :
    Option.Rel S (xs.findSome? f) (ys.findSome? g) := by
  induction h with
  | nil => exact .none
  | @cons x y xs ys hxy _ ih =>
      rw [List.findSome?_cons, List.findSome?_cons]
      have hhead := hfg x y hxy
      generalize f x = a at hhead
      generalize g y = b at hhead
      cases hhead with
      | none => exact ih
      | some hab => exact .some hab

/-- What is given in related lists is related. -/
theorem rel_given {xs : List (Option α)} {ys : List (Option β)}
    (h : List.Forall₂ (Option.Rel R) xs ys) :
    List.Forall₂ R (xs.filterMap id) (ys.filterMap id) := by
  induction h with
  | nil => exact .nil
  | cons hxy _ ih =>
      cases hxy with
      | none => exact ih
      | some hab => exact .cons hab ih

theorem isSome_of_rel {x : Option α} {y : Option β} (h : Option.Rel R x y) :
    x.isSome = y.isSome := by
  cases h with
  | none => rfl
  | some _ => rfl

/-- What is found under a key of related entries is related. -/
theorem rel_find? {key : String} {xs : Entries α} {ys : Entries β}
    (h : List.Forall₂ (fun x y => x.1 = y.1 ∧ R x.2 y.2) xs ys) :
    Option.Rel R (Entries.find? key xs) (Entries.find? key ys) := by
  induction h with
  | nil => exact .none
  | @cons x y xs ys hxy _ ih =>
      obtain ⟨k, v⟩ := x
      obtain ⟨_, w⟩ := y
      obtain ⟨rfl, hvalue⟩ := hxy
      rw [Entries.find?, Entries.find?]
      split
      · exact .some hvalue
      · exact ih

end

/-! ### Values -/

/-- Both texts are `null`, or neither is. -/
def SameNull (s t : String) : Prop :=
  s = "null" ↔ t = "null"

namespace FilterValue

/-- The values differ at most in texts that are not `null`. -/
inductive SameShape : FilterValue → FilterValue → Prop where
  | null : SameShape .null .null
  | single {s t : String} (whole : SameNull s t)
      (pieces : List.Forall₂ SameNull (Text.split ',' s) (Text.split ',' t)) :
      SameShape (.single s) (.single t)
  | many {vs ws : List (Option String)} (items : List.Forall₂ (Option.Rel SameNull) vs ws) :
      SameShape (.many vs) (.many ws)

variable {v w : FilterValue}

theorem SameShape.values (h : v.SameShape w) :
    List.Forall₂ (Option.Rel SameNull) v.values w.values := by
  cases h with
  | null => exact .cons .none .nil
  | single _ pieces =>
      rw [values, values, List.forall₂_map_left_iff, List.forall₂_map_right_iff]
      exact pieces.imp fun _ _ hst => .some hst
  | many items => exact items

theorem SameShape.scalar? (h : v.SameShape w) : Option.Rel SameNull v.scalar? w.scalar? := by
  cases h with
  | null => exact .none
  | single whole _ => exact .some whole
  | many items => exact rel_findSome? items fun _ _ hvw => hvw

end FilterValue

/-! ### Filters -/

/-- The clauses ask the same of the same keys, for values of the same shape. -/
inductive FilterClause.SameShape : FilterClause → FilterClause → Prop where
  | equality (key : String) {v w : FilterValue} (value : v.SameShape w) :
      SameShape (.equality key v) (.equality key w)
  | typed (op : FilterOperator) {es fs : Entries FilterValue}
      (entries : List.Forall₂ (fun e f => e.1 = f.1 ∧ e.2.SameShape f.2) es fs) :
      SameShape (.typed op es) (.typed op fs)

/-- The terms ask the same of the same key, for values of the same shape. -/
inductive FilterTerm.SameShape : FilterTerm → FilterTerm → Prop where
  | equality (key : String) {v w : FilterValue} (value : v.SameShape w) :
      SameShape (.equality key v) (.equality key w)
  | typed (op : FilterOperator) (key : String) {v w : FilterValue} (value : v.SameShape w) :
      SameShape (.typed op key v) (.typed op key w)

/-- Clauses of one shape have terms of one shape. -/
theorem FilterClause.SameShape.terms {c d : FilterClause} (h : c.SameShape d) :
    List.Forall₂ FilterTerm.SameShape c.terms d.terms := by
  cases h with
  | equality key value => exact .cons (.equality key value) .nil
  | typed op entries =>
      rw [FilterClause.terms, FilterClause.terms, List.forall₂_map_left_iff,
        List.forall₂_map_right_iff]
      refine entries.imp ?_
      rintro ⟨key, v⟩ ⟨_, w⟩ ⟨rfl, hvalue⟩
      exact .typed op key hvalue

theorem FilterClause.SameShape.keys {c d : FilterClause} (h : c.SameShape d) : c.keys = d.keys := by
  cases h with
  | equality => rfl
  | typed op entries => exact map_eq_of_rel entries fun _ _ he => he.1

namespace Filter

/-- The filters differ at most in texts that are not `null`. -/
def SameShape (f g : Filter) : Prop :=
  List.Forall₂ FilterClause.SameShape f.clauses g.clauses

variable {f g : Filter}

theorem SameShape.keys (h : f.SameShape g) : f.keys = g.keys := by
  obtain ⟨cs⟩ := f
  obtain ⟨ds⟩ := g
  simp only [SameShape] at h
  induction h with
  | nil => rfl
  | cons hcd _ ih =>
      simp only [Filter.keys, List.flatMap_cons] at ih ⊢
      rw [hcd.keys, ih]

/-- Filters of one shape have terms of one shape. -/
theorem SameShape.terms (h : f.SameShape g) :
    List.Forall₂ FilterTerm.SameShape f.terms g.terms := by
  obtain ⟨cs⟩ := f
  obtain ⟨ds⟩ := g
  simp only [SameShape] at h
  induction h with
  | nil => exact .nil
  | cons hcd _ ih =>
      simp only [Filter.terms, List.flatMap_cons] at ih ⊢
      exact List.rel_append hcd.terms ih

theorem SameShape.equality? (h : f.SameShape g) (key : String) :
    Option.Rel FilterValue.SameShape (f.equality? key) (g.equality? key) := by
  refine rel_findSome? h fun c d hcd => ?_
  cases hcd with
  | typed => exact .none
  | equality k value =>
      by_cases hkey : k = key
      · simpa only [if_pos hkey] using .some value
      · simpa only [if_neg hkey] using .none

theorem SameShape.typed? (h : f.SameShape g) (op : FilterOperator) (key : String) :
    Option.Rel FilterValue.SameShape (f.typed? op key) (g.typed? op key) := by
  refine rel_findSome? h fun c d hcd => ?_
  cases hcd with
  | equality => exact .none
  | typed o entries =>
      by_cases hop : o = op
      · simpa only [if_pos hop] using rel_find? entries
      · simpa only [if_neg hop] using .none

end Filter

end ResourceQuery
