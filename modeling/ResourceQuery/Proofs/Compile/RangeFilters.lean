import ResourceQuery.Proofs.Compile.Accepted
import ResourceQuery.Proofs.Compile.JsonFilters

/-!
# Compile — comparisons with one of a list of values

A range operator compares with a single value.  Of a list of values a JSON attribute takes the first
text that does not stand for SQL's null, and compares with nothing if there is none
(`JsonAttribute.conditions_range`, `JsonAttribute.comparison_eq`).  But a list that is asked for does not
get that far: a term hands on the first text of the list alone (`AttributeTarget.jsonValues_range`), and
for this choice the text `null` is a text like any other.  So nothing is compared if the first text is
`null`, whatever stands behind it.

* `range_filters_compare`: what a filter adds for lists of values, and when it is what the attribute
  makes of the whole list.
* `not_range_filters_compare`: a number behind the text `null`.
-/

namespace ResourceQuery

open Sql (Condition Comparison JsonAttribute Query)

/-- How a range operator compares. -/
def FilterOperator.comparison? : FilterOperator → Option Comparison
  | .lt          => some .lt
  | .lte         => some .le
  | .gt          => some .gt
  | .gte         => some .ge
  | .like | .not => none

namespace Sql.JsonAttribute

variable (a : JsonAttribute) {op : FilterOperator} {order : Comparison}

/-- The comparison of the value with a text. -/
def compared (order : Comparison) (v : String) : Condition :=
  .raw (a.expression.append (" " ++ order.sql ++ " ?") [.text v])

/-- Comparisons tell their texts. -/
theorem compared_inj {v w : Option String} :
    (v.map (a.compared order)).toList = (w.map (a.compared order)).toList ↔ v = w := by
  cases v <;> cases w <;> simp [compared, Fragment.append]

/-! ### The first value -/

/-- The value is compared with the first text that does not stand for the null. -/
theorem comparison_eq (order : Comparison) (values : List (Option String)) :
    a.comparison order values =
      (((values.filterMap id).find? (· ≠ "null")).map (a.compared order)).toList := by
  rw [comparison, ← List.head?_filter, texts]
  cases (values.filterMap id).filter (· ≠ "null") <;> rfl

/-- An operator with an order compares. -/
theorem conditions_range (h : op.comparison? = some order) (values : List (Option String))
    (folded : Option (List (Option String))) :
    a.conditions (.typed op) values folded = a.comparison order values := by
  cases op <;> cases h <;> rfl

/-- Of a single value there is no choice. -/
theorem comparison_single (order : Comparison) (value : Option String) :
    a.comparison order [value] = ((value.filter (· ≠ "null")).map (a.compared order)).toList := by
  rw [comparison_eq]
  cases value with
  | none => rfl
  | some v => by_cases hv : v = "null" <;> simp [Option.filter, hv]

end Sql.JsonAttribute

/-- An operator with an order takes the first value. -/
theorem AttributeTarget.jsonValues_range {op : FilterOperator} {order : Comparison}
    (h : op.comparison? = some order) (value : FilterValue) :
    jsonValues op value = [value.scalar?] := by
  cases op <;> cases h <;> rfl

/-- The first text is the first one other than `null`, unless it is `null` and others follow. -/
theorem filter_head?_eq_find? {given : List String} :
    given.head?.filter (· ≠ "null") = given.find? (· ≠ "null") ↔
      (given.head? = some "null" → ∀ v ∈ given, v = "null") := by
  cases given with
  | nil => simp
  | cons v given =>
      by_cases hv : v = "null"
      · simp [hv, Option.filter, @eq_comm _ none]
      · simp [hv, Option.filter]

namespace Context

variable {ctx : Context} {f : Filter} {q q' : Query}

/-! ### Filters -/

/-- The term compares a JSON attribute with one of a list of values. -/
inductive ComparesAttribute (ctx : Context) (a : JsonAttribute) (op : FilterOperator)
    (order : Comparison) (values : List (Option String)) : FilterTerm → Prop where
  | range {key : String} (range : op.comparison? = some order)
      (json : ctx.qualify key = .ok (some (.json a))) :
      ComparesAttribute ctx a op order values (.typed op key (.many values))

/-- The term adds the block.  If it compares a JSON attribute with one of a list of values, that is the
comparison with the first text, and nothing if there is none or it is `null`.  The attribute makes of the
whole list the comparison with the first text other than `null`, so there is a difference where such a
text stands behind a `null`. -/
def AddsFirst (ctx : Context) (f : Filter) (term : FilterTerm) (block : List Condition) : Prop :=
  ctx.termConditions f term = .ok block ∧
    ∀ a op order values, ctx.ComparesAttribute a op order values term →
      block = (((values.findSome? id).filter (· ≠ "null")).map (a.compared order)).toList ∧
      a.conditions (.typed op) values none =
        (((values.filterMap id).find? (· ≠ "null")).map (a.compared order)).toList ∧
      (block = a.conditions (.typed op) values none ↔
        (values.findSome? id = some "null" → ∀ v, some v ∈ values → v = "null"))

/-- The conditions of a term compare with its first value, if there is one. -/
theorem addsFirst {term : FilterTerm} {block : List Condition}
    (h : ctx.termConditions f term = .ok block) : ctx.AddsFirst f term block := by
  refine ⟨h, fun a op order values hterm => ?_⟩
  obtain ⟨range, json⟩ := hterm
  have hwhole : a.conditions (.typed op) values none =
      (((values.filterMap id).find? (· ≠ "null")).map (a.compared order)).toList :=
    (a.conditions_range range values none).trans (a.comparison_eq order values)
  have hblock : block =
      (((values.findSome? id).filter (· ≠ "null")).map (a.compared order)).toList := by
    rw [termConditions_typed ctx f op _ _ json] at h
    rw [← Except.ok.inj h, AttributeTarget.typedConditions, AttributeTarget.jsonValues_range range,
      a.conditions_range range, a.comparison_single]
    rfl
  refine ⟨hblock, hwhole, ?_⟩
  rw [hblock, hwhole, a.compared_inj, ← List.head?_filterMap, filter_head?_eq_find?]
  simp

/-- **Which of the listed values is compared with.**  A filter adds a block for each of its terms, in
order.  Where a JSON attribute is compared with one of a list of values, the block is the comparison with
the first text of the list, and empty if there is none or it is `null`.  That is what the attribute makes
of the whole list, unless the first text is `null` and another text follows. -/
theorem range_filters_compare (h : (ctx.filterStage f).Runs q q') :
    ∃ conditions, q'.conditions = q.conditions ++ conditions ∧
      InTurn (ctx.AddsFirst f) f.terms conditions := by
  refine h.inTurn (I := fun _ => True) trivial fun term _ u v _ hrun => ⟨trivial, ?_⟩
  obtain ⟨block, hblock, rfl⟩ := Stage.runs_add.mp hrun
  exact ⟨block, by rw [Query.foldl_restrict], addsFirst hblock⟩

/-- The views of an article, as a number inside a JSON column. -/
def views : JsonAttribute :=
  ⟨.of "articles" "meta", ["views"], some .numeric⟩

/-- A filter on articles with more views than one of the values. -/
def viewsAbove (values : List (Option String)) : Filter :=
  ⟨[.typed .gt [("meta:views:numeric", .many values)]]⟩

theorem views_comparesAttribute (values : List (Option String)) :
    (Blog.context false).ComparesAttribute views .gt .gt values
      (.typed .gt "meta:views:numeric" (.many values)) :=
  .range rfl (by decide +kernel)

/-- A null in front of the numbers is passed over. -/
theorem views_compared :
    ∃ q', ((Blog.context false).filterStage (viewsAbove [none, some "5", some "7"])).Runs
        (.ofTable "articles" "articles") q' ∧ q'.conditions = [views.compared .gt "5"] := by
  have hfailure : ((Blog.context false).filterStage (viewsAbove [none, some "5", some "7"])
      (.ofTable "articles" "articles")).failure = none := by decide +kernel
  have hrun := Stage.runs_of_failure hfailure
  obtain ⟨conditions, hconditions, blocks, hblocks, rfl⟩ := range_filters_compare hrun
  obtain ⟨block, _, hblock, hnone, rfl⟩ := List.forall₂_cons_left_iff.mp hblocks
  obtain rfl := List.forall₂_nil_left_iff.mp hnone
  obtain ⟨hfirst, -⟩ := hblock.2 _ _ _ _ (views_comparesAttribute _)
  refine ⟨_, hrun, ?_⟩
  rw [hconditions, hfirst]
  rfl

/-- The text `null` in front of a number hides it. -/
theorem not_range_filters_compare :
    (Blog.context false).ComparesAttribute views .gt .gt [some "null", some "5"]
        (.typed .gt "meta:views:numeric" (.many [some "null", some "5"])) ∧
      views.conditions (.typed .gt) [some "null", some "5"] none = [views.compared .gt "5"] ∧
      ((Blog.context false).filterStage (viewsAbove [some "null", some "5"])).Runs
        (.ofTable "articles" "articles") (.ofTable "articles" "articles") := by
  obtain ⟨range, json⟩ := views_comparesAttribute [some "null", some "5"]
  have hnothing : (Blog.context false).termConditions (viewsAbove [some "null", some "5"])
      (.typed .gt "meta:views:numeric" (.many [some "null", some "5"])) = .ok [] := by
    rw [termConditions_typed _ _ _ _ _ json]
    rfl
  refine ⟨.range range json, ?_,
    Stage.runs_cons.mpr ⟨_, Stage.runs_add.mpr ⟨[], hnothing, rfl⟩, Stage.runs_nil.mpr rfl⟩⟩
  rw [views.conditions_range range, views.comparison_eq]
  rfl

end Context

end ResourceQuery
