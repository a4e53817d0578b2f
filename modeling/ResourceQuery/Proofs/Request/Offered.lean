import ResourceQuery.Request.Filter

/-!
# Request — what a filter offers

What the values and the clauses of a filter mean is said here without the functions that read them.  A
single text offers what stands between its commas, a list the texts in it (`FilterValue.Offers`); the null
is offered by the null and by the lists that hold it (`OffersNull`).  A comparison is made with a single
text as a whole, or with the first text of a list (`ComparesWith`).  A filter equates a key with the value of
the first equality on it (`Filter.Equates`), and matches the keys that a `like` has entries for (`Matches`).

* `FilterValue.offers_iff`, `offersNull_iff`, `comparesWith_iff`: the values, the null among them and the
  scalar of a filter value are these.
* `Filter.equality?_eq_some_iff`, `typed?_like_isSome_iff`: so are the clauses that a filter looks up.
-/

namespace ResourceQuery

namespace FilterValue

/-- The text is one of those to choose from. -/
inductive Offers : FilterValue → String → Prop where
  /-- It has no comma and stands between two of them, with one put before and one behind all texts. -/
  | piece {texts text : String} (whole : ',' ∉ text.toList)
      (between : ("," ++ text ++ ",").toList <:+: ("," ++ texts ++ ",").toList) :
      Offers (.single texts) text
  | listed {values : List (Option String)} {text : String} (h : some text ∈ values) :
      Offers (.many values) text

/-- The null is one of the values to choose from. -/
inductive OffersNull : FilterValue → Prop where
  | null : OffersNull .null
  | listed {values : List (Option String)} (h : none ∈ values) : OffersNull (.many values)

/-- A comparison is made with the text. -/
inductive ComparesWith : FilterValue → String → Prop where
  | whole (text : String) : ComparesWith (.single text) text
  | first {before : List (Option String)} (text : String) (after : List (Option String))
      (nulls : ∀ v ∈ before, v = none) : ComparesWith (.many (before ++ some text :: after)) text

variable {value : FilterValue} {text : String}

/-- The texts to choose from are those among the values. -/
theorem offers_iff : value.Offers text ↔ some text ∈ value.values := by
  cases value with
  | null => exact iff_of_false nofun (by simp [values])
  | single texts =>
      have hpiece : some text ∈ (single texts).values ↔ text ∈ Text.split ',' texts := by
        rw [values, List.mem_map]
        exact ⟨fun ⟨v, hv, h⟩ => Option.some.inj h ▸ hv, fun h => ⟨text, h, rfl⟩⟩
      have hcommas (s : String) : ("," ++ s ++ ",").toList = ',' :: (s.toList ++ [',']) := by
        simp
      rw [hpiece, Text.mem_split_iff, ← hcommas, ← hcommas]
      exact ⟨fun | .piece whole between => ⟨whole, between⟩, fun h => .piece h.1 h.2⟩
  | many values => exact ⟨fun | .listed h => h, .listed⟩

/-- The null is offered when it is among the values. -/
theorem offersNull_iff : value.OffersNull ↔ none ∈ value.values := by
  cases value with
  | null => exact iff_of_true .null (List.mem_singleton.mpr rfl)
  | single texts => exact iff_of_false nofun (by simp [values])
  | many values => exact ⟨fun | .listed h => h, .listed⟩

/-- What is compared with is the scalar. -/
theorem comparesWith_iff : value.ComparesWith text ↔ value.scalar? = some text := by
  cases value with
  | null => exact iff_of_false nofun nofun
  | single texts =>
      rw [scalar?, Option.some.injEq]
      exact ⟨fun | .whole _ => rfl, fun h => h ▸ .whole texts⟩
  | many values =>
      rw [scalar?, List.findSome?_eq_some_iff]
      constructor
      · intro h
        cases h with
        | first text after nulls => exact ⟨_, some text, after, rfl, rfl, nulls⟩
      · rintro ⟨before, v, after, rfl, rfl, nulls⟩
        exact .first text after nulls

end FilterValue

namespace Filter

variable {f : Filter} {key : String} {value : FilterValue}

/-- The value is that of the first equality on the key. -/
def Equates (f : Filter) (key : String) (value : FilterValue) : Prop :=
  ∃ before after, f.clauses = before ++ .equality key value :: after ∧
    ∀ v, .equality key v ∉ before

/-- The key has an entry under `like`. -/
def Matches (f : Filter) (key : String) : Prop :=
  ∃ entries value, .typed .like entries ∈ f.clauses ∧ (key, value) ∈ entries

/-- The equality that a filter finds under a key is the first one on it. -/
theorem equality?_eq_some_iff : f.equality? key = some value ↔ f.Equates key value := by
  rw [equality?, List.findSome?_eq_some_iff]
  constructor
  · rintro ⟨before, c, after, hclauses, hfound, hnone⟩
    cases c with
    | typed op entries => cases hfound
    | equality k v =>
        obtain ⟨rfl, hvalue⟩ := Option.ite_none_right_eq_some.mp hfound
        obtain rfl := Option.some.inj hvalue
        refine ⟨before, after, hclauses, fun v hv => ?_⟩
        simpa using hnone _ hv
  · rintro ⟨before, after, hclauses, hfirst⟩
    refine ⟨before, _, after, hclauses, if_pos rfl, fun c hc => ?_⟩
    cases c with
    | typed op entries => rfl
    | equality k v =>
        refine if_neg ?_
        rintro rfl
        exact hfirst v hc

/-- Something is found for an operator exactly if the clause is of that operator and has the key. -/
theorem isSome_typed_iff {op o : FilterOperator} {entries : Entries FilterValue} :
    (if o = op then Entries.find? key entries else none).isSome ↔
      o = op ∧ key ∈ Entries.keys entries := by
  split
  case isTrue ho => rw [Entries.find?_isSome_iff, and_iff_right ho]
  case isFalse ho => exact iff_of_false nofun fun h => ho h.1

/-- A filter finds a key under `like` when there is an entry for it. -/
theorem typed?_like_isSome_iff : (f.typed? .like key).isSome ↔ f.Matches key := by
  rw [typed?, List.findSome?_isSome_iff]
  constructor
  · rintro ⟨c, hc, hfound⟩
    cases c with
    | equality k v => cases hfound
    | typed op entries =>
        obtain ⟨hop, hentry⟩ := isSome_typed_iff.mp hfound
        obtain ⟨⟨k, value⟩, hmem, rfl⟩ := List.mem_map.mp hentry
        exact ⟨entries, value, hop ▸ hc, hmem⟩
  · rintro ⟨entries, value, hclause, hentry⟩
    exact ⟨_, hclause, isSome_typed_iff.mpr ⟨rfl, List.mem_map.mpr ⟨_, hentry, rfl⟩⟩⟩

end Filter

end ResourceQuery
