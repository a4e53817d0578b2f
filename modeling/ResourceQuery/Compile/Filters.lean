import ResourceQuery.Compile.Context
import ResourceQuery.Compile.Stage

/-!
# Compile — filters

Each equality and each typed entry of a filter gives conditions, in the order of the filter.  A key that
is both an equality and under `like` is compiled once: the equality joins the alternatives of the
`like`.
-/

namespace ResourceQuery

open Sql (Column Condition Comparison)

/-! ### Conditions on a plain column -/

namespace Sql.Column

/-- The column equals one of the values, the null among them or not. -/
def equality (c : Column) (values : List (Option String)) : Condition :=
  let given := (values.filterMap id).map Value.text
  if values.contains none then
    if given.isEmpty then .isNull c else .anyOf [.isNull c, .isIn c given]
  else .isIn c given

/-- The comparison of the column with a value, if there is one. -/
def comparison (c : Column) (op : Comparison) : Option String → List Condition
  | some v => [.compare c op (.text v)]
  | none   => []

/-- The conditions of a typed entry.  Under `like`, the values of an equality on the same key join the
alternatives. -/
def conditions (c : Column) (op : FilterOperator) (value : FilterValue)
    (folded : Option FilterValue) : List Condition :=
  match op with
  | .like =>
    let alternatives :=
      (value.values.filterMap id).map (fun v => .like c ("%" ++ v ++ "%")) ++
        (folded.map fun f => c.equality f.values).toList
    if alternatives.isEmpty then [] else [.anyOf alternatives]
  | .not  =>
    let given := (value.values.filterMap id).map Value.text
    (if value.values.contains none then [.isNotNull c] else []) ++
      (if given.isEmpty then [] else [.notIn c given])
  | .lt   => c.comparison .lt value.scalar?
  | .lte  => c.comparison .le value.scalar?
  | .gt   => c.comparison .gt value.scalar?
  | .gte  => c.comparison .ge value.scalar?

end Sql.Column

/-! ### Conditions on what a key stands for -/

namespace AttributeTarget

/-- The condition of an equality. -/
def equalityConditions (t : AttributeTarget) (value : FilterValue) : List Condition :=
  match t with
  | .column c => [c.equality value.values]
  | .json a   => a.conditions .equal value.values none

/-- The values of a typed entry that a JSON attribute is filtered by. -/
def jsonValues (op : FilterOperator) (value : FilterValue) : List (Option String) :=
  match op with
  | .like | .not => value.values
  | _            => [value.scalar?]

/-- The conditions of a typed entry. -/
def typedConditions (t : AttributeTarget) (op : FilterOperator) (value : FilterValue)
    (folded : Option FilterValue) : List Condition :=
  match t with
  | .column c => c.conditions op value folded
  | .json a   =>
    a.conditions (.typed op) (jsonValues op value) (folded.map FilterValue.values)

end AttributeTarget

/-! ### The filter of a request -/

/-- One key of a filter with what is asked of it. -/
inductive FilterTerm where
  | equality (key : String) (value : FilterValue)
  | typed (operator : FilterOperator) (key : String) (value : FilterValue)

/-- The terms of a clause. -/
def FilterClause.terms : FilterClause → List FilterTerm
  | .equality key value => [.equality key value]
  | .typed op entries   => entries.map fun (key, value) => .typed op key value

/-- The terms of a filter, in order. -/
def Filter.terms (f : Filter) : List FilterTerm :=
  f.clauses.flatMap FilterClause.terms

namespace Context

/-- The conditions of a term. -/
def termConditions (ctx : Context) (f : Filter) : FilterTerm → Except QueryError (List Condition)
  | .equality key value =>
    if (f.typed? .like key).isSome then .ok []
    else do return (← ctx.qualify key).elim [] fun t => t.equalityConditions value
  | .typed op key value => do
    let folded := if op = .like then f.equality? key else none
    return (← ctx.qualify key).elim [] fun t => t.typedConditions op value folded

/-- Restricts a query by a filter. -/
def filterStage (ctx : Context) (f : Filter) : Stage :=
  .all (f.terms.map fun term =>
    .add (ctx.termConditions f term) fun q conditions => conditions.foldl Sql.Query.restrict q)

end Context

end ResourceQuery
