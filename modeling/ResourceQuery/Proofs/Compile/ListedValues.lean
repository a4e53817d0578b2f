import ResourceQuery.Proofs.Compile.FilterValues

/-!
# Compile — a text with commas and the list of its pieces

Equalities, `like` and `not` choose among values, and a text offers the values between its commas.  Any
such value can be written out as the list of what it offers (`Filter.listed`): the keys of the filter
stay, and so do the conditions of each of its terms (`termConditions_listed`), also where an equality is
folded into a `like`.  So a request whose filter is written out has the same result
(`compile_listed`).

A list of texts without commas and the text that is glued from them are written out alike.  Hence one
can stand for the other in any one place of a filter (`commas_list_values`).  Comparisons are not among
these places: they do not cut a text.
-/

namespace ResourceQuery

open Sql (Condition)

/-! ### Filters with their values written out -/

/-- The operator chooses among values, rather than comparing with one. -/
def FilterOperator.chooses : FilterOperator → Bool
  | .like | .not => true
  | _            => false

namespace FilterValue

/-- The list of the values to choose from. -/
def listed (v : FilterValue) : FilterValue :=
  .many v.values

/-- The value as an operator takes it, written out if it chooses. -/
def listedUnder (op : FilterOperator) (v : FilterValue) : FilterValue :=
  if op.chooses then v.listed else v

@[simp] theorem values_listed (v : FilterValue) : v.listed.values = v.values := rfl

/-- A list of texts without commas is written out like the text that is glued from them. -/
theorem listed_joinWith {vs : List String} (hne : vs ≠ []) (hvs : ∀ v ∈ vs, ',' ∉ v.toList) :
    (single (Text.joinWith "," vs)).listed = (many (vs.map some)).listed := by
  rw [listed, listed, values, values, show "," = String.singleton ',' from rfl,
    Text.split_joinWith hvs hne]

end FilterValue

/-- The clause with the values that are chosen from written out. -/
def FilterClause.listed : FilterClause → FilterClause
  | .equality key value => .equality key value.listed
  | .typed op entries   => .typed op (entries.map fun (key, value) => (key, value.listedUnder op))

/-- The term with the values that are chosen from written out. -/
def FilterTerm.listed : FilterTerm → FilterTerm
  | .equality key value => .equality key value.listed
  | .typed op key value => .typed op key (value.listedUnder op)

/-- The filter with the values that are chosen from written out. -/
def Filter.listed (f : Filter) : Filter :=
  ⟨f.clauses.map FilterClause.listed⟩

/-- What is found among changed values is the change of what was found. -/
theorem Entries.find?_map {α β : Type} (key : String) (f : α → β) (es : Entries α) :
    find? key (es.map fun (k, v) => (k, f v)) = (find? key es).map f := by
  induction es with
  | nil => rfl
  | cons e es ih =>
      obtain ⟨k, v⟩ := e
      rw [List.map_cons, find?, find?, ih]
      split <;> rfl

theorem FilterClause.keys_listed (c : FilterClause) : c.listed.keys = c.keys := by
  cases c with
  | equality key value => rfl
  | typed op entries => simp [listed, keys, Entries.keys]

/-- The terms of a listed clause are its terms, listed. -/
theorem FilterClause.terms_listed (c : FilterClause) :
    c.listed.terms = c.terms.map FilterTerm.listed := by
  cases c with
  | equality key value => rfl
  | typed op entries =>
      rw [listed, terms, terms, List.map_map, List.map_map]
      rfl

namespace Filter

variable (f : Filter)

theorem keys_listed : f.listed.keys = f.keys := by
  simp [keys, listed, List.flatMap_map, FilterClause.keys_listed]

theorem terms_listed : f.listed.terms = f.terms.map FilterTerm.listed := by
  simp [terms, listed, List.flatMap_map, List.map_flatMap, FilterClause.terms_listed]

/-- What is asked to be equal under a key is listed. -/
theorem equality?_listed (key : String) :
    f.listed.equality? key = (f.equality? key).map FilterValue.listed := by
  rw [equality?, equality?, listed, List.findSome?_map, List.map_findSome?]
  congr 1
  funext c
  cases c with
  | typed => rfl
  | equality k value =>
      simp only [Function.comp_apply, FilterClause.listed]
      split <;> rfl

/-- What an operator says of a key is listed if the operator splits texts. -/
theorem typed?_listed (op : FilterOperator) (key : String) :
    f.listed.typed? op key = (f.typed? op key).map (FilterValue.listedUnder op) := by
  rw [typed?, typed?, listed, List.findSome?_map, List.map_findSome?]
  congr 1
  funext c
  cases c with
  | equality => rfl
  | typed o entries =>
      simp only [Function.comp_apply, FilterClause.listed]
      split
      case isTrue ho => rw [Entries.find?_map, ho]
      case isFalse => rfl

end Filter

/-! ### Their conditions -/

namespace AttributeTarget

variable (t : AttributeTarget) (value : FilterValue)

theorem equalityConditions_listed :
    t.equalityConditions value.listed = t.equalityConditions value := by
  cases t <;> rfl

/-- Where an operator chooses, it looks at what it can choose from alone. -/
theorem typedConditions_listed (op : FilterOperator) (folded : Option FilterValue) :
    t.typedConditions op (value.listedUnder op) (folded.map FilterValue.listed) =
      t.typedConditions op value folded := by
  have hvalues : (folded.map FilterValue.listed).map FilterValue.values =
      folded.map FilterValue.values := by
    rw [Option.map_map]
    rfl
  cases t with
  | json a =>
      rw [typedConditions, typedConditions, hvalues]
      cases op <;> rfl
  | column c => cases folded <;> cases op <;> rfl

end AttributeTarget

namespace Context

variable (ctx : Context) (f : Filter)

/-- A term has the conditions of its listed form. -/
theorem termConditions_listed (term : FilterTerm) :
    ctx.termConditions f.listed term.listed = ctx.termConditions f term := by
  cases term with
  | equality key value =>
      simp only [FilterTerm.listed, termConditions, f.typed?_listed, Option.isSome_map,
        AttributeTarget.equalityConditions_listed]
  | typed op key value =>
      have hfolded : (if op = .like then f.listed.equality? key else none) =
          (if op = .like then f.equality? key else none).map FilterValue.listed := by
        rw [f.equality?_listed]
        split <;> rfl
      simp only [FilterTerm.listed, termConditions, hfolded,
        AttributeTarget.typedConditions_listed]

/-- A filter restricts as its listed form does. -/
theorem filterStage_listed : ctx.filterStage f.listed = ctx.filterStage f := by
  rw [filterStage, filterStage, f.terms_listed, List.map_map]
  simp only [Function.comp_def, termConditions_listed]

end Context

/-! ### Their results -/

theorem Request.withFilter_withFilter (r : Request) (f g : Filter) :
    (r.withFilter f).withFilter g = r.withFilter g := rfl

namespace Compiler

variable (c : Compiler) (r : Request)

/-- A filter matters by its keys and by the stage that restricts a query by it. -/
theorem prepare_withFilter {f : Filter} (hkeys : f.keys = r.params.filter.keys)
    (hstage : ∀ ctx : Context, ctx.filterStage f = ctx.filterStage r.params.filter) :
    c.prepare (r.withFilter f) = c.prepare r := by
  simp only [prepare, Request.withFilter, Context.dependencyTree, paramStages, hkeys, hstage]
  rfl

/-- A request compiles as its listed form does. -/
theorem compile_listed : c.compile (r.withFilter r.params.filter.listed) = c.compile r := by
  rw [compile, compile, c.prepare_withFilter r r.params.filter.keys_listed
    fun ctx => ctx.filterStage_listed r.params.filter]

/-- Filters that are written out alike have the same results. -/
theorem compile_eq_of_listed {f : Filter} (h : f.listed = r.params.filter.listed) :
    c.compile (r.withFilter f) = c.compile r := by
  calc c.compile (r.withFilter f)
    _ = c.compile ((r.withFilter f).withFilter f.listed) := (c.compile_listed (r.withFilter f)).symm
    _ = c.compile (r.withFilter r.params.filter.listed) := by rw [Request.withFilter_withFilter, h]
    _ = c.compile r := c.compile_listed r

end Compiler

/-- The second filter is the first one with `new` in the place of `old`, in one equality or in one entry
of an operator that chooses. -/
inductive Filter.Replaces (old new : FilterValue) : Filter → Filter → Prop where
  | equality (before : List FilterClause) (key : String) (after : List FilterClause) :
      Replaces old new ⟨before ++ .equality key old :: after⟩ ⟨before ++ .equality key new :: after⟩
  | typed (before : List FilterClause) {op : FilterOperator} (chooses : op = .like ∨ op = .not)
      (front : Entries FilterValue) (key : String) (back : Entries FilterValue)
      (after : List FilterClause) :
      Replaces old new ⟨before ++ .typed op (front ++ (key, old) :: back) :: after⟩
        ⟨before ++ .typed op (front ++ (key, new) :: back) :: after⟩

/-- A replacement by a value with the same list leaves the listed filter as it is. -/
theorem Filter.Replaces.listed {old new : FilterValue} {f g : Filter} (h : f.Replaces old new g)
    (hvalues : old.listed = new.listed) : f.listed = g.listed := by
  cases h with
  | equality before key after => simp [Filter.listed, FilterClause.listed, hvalues]
  | typed before chooses front key back after =>
      rcases chooses with rfl | rfl <;>
        simp [Filter.listed, FilterClause.listed, FilterValue.listedUnder, FilterOperator.chooses,
          hvalues]

namespace Compiler

/-- **Commas list values.**  In one equality, or in one entry under `like` or `not`, let a filter have
the list of some texts without commas, at least one.  The text that is glued from them with commas can
stand in its place: the request is compiled to the same statements, or fails with the same error. -/
theorem commas_list_values (c : Compiler) (r : Request) {f : Filter} {vs : List String}
    (hne : vs ≠ []) (hvs : ∀ v ∈ vs, ',' ∉ v.toList)
    (h : r.params.filter.Replaces (.many (vs.map some)) (.single (Text.joinWith "," vs)) f) :
    c.compile (r.withFilter f) = c.compile r :=
  c.compile_eq_of_listed r (h.listed (FilterValue.listed_joinWith hne hvs).symm).symm

/-- Two places, one of them empty, as a list and as a text that are folded into a `like`. -/
theorem places_listed :
    ∃ out, Blog.compiler.compile (Blog.inPlace (.many [some "10115", some ""])) = .ok out ∧
      Blog.compiler.compile (Blog.inPlace (.single "10115,")) = .ok out := by
  have hruns : ((Blog.compiler.compile (Blog.inPlace (.many [some "10115", some ""]))).toOption.any
      fun _ => true) = true := by decide +kernel
  obtain ⟨out, hout, -⟩ := exists_ok_of_any hruns
  have hsame : Blog.compiler.compile (Blog.inPlace (.single "10115,")) =
      Blog.compiler.compile (Blog.inPlace (.many [some "10115", some ""])) :=
    commas_list_values Blog.compiler (Blog.inPlace (.many [some "10115", some ""]))
      (List.cons_ne_nil "10115" [""]) (by decide)
      (.equality [] "meta:zip" [.typed .like [("meta:zip", .single "x")]])
  exact ⟨out, hout, hsame.trans hout⟩

end Compiler

end ResourceQuery
