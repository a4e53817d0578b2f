import ResourceQuery.Compile.Context
import ResourceQuery.Compile.Stage

/-!
# Compile — ordering and grouping

Each sort entry and each group key that stands for something gives one term, in order.
-/

namespace ResourceQuery

/-- The key and the direction of a sort entry: `-` or `_` in front of the key means descending. -/
def sortEntry (entry : String) : String × Sql.SortOrder :=
  match entry.toList with
  | '-' :: key => (String.ofList key, .desc)
  | '_' :: key => (String.ofList key, .desc)
  | _          => (entry, .asc)

namespace AttributeTarget

/-- The `ORDER BY` term of a target. -/
def orderTerm (order : Sql.SortOrder) : AttributeTarget → Sql.OrderTerm
  | .column c => .column c order
  | .json a   => .expression a.expression order

/-- The `GROUP BY` term of a target. -/
def groupTerm : AttributeTarget → Sql.GroupTerm
  | .column c => .column c
  | .json a   => .expression a.expression

end AttributeTarget

namespace Context

/-- The term of a sort entry, if its key stands for something. -/
def orderTerm? (ctx : Context) (entry : String) : Except QueryError (Option Sql.OrderTerm) := do
  let (key, order) := sortEntry entry
  return (← ctx.qualify key).map (AttributeTarget.orderTerm order)

/-- The term of a group key, if it stands for something. -/
def groupTerm? (ctx : Context) (key : String) : Except QueryError (Option Sql.GroupTerm) := do
  return (← ctx.qualify key).map AttributeTarget.groupTerm

/-- Orders a query. -/
def sortStage (ctx : Context) (sort : List String) : Stage :=
  .all (sort.map fun entry =>
    .add (ctx.orderTerm? entry) fun q term => (term.toList).foldl Sql.Query.orderBy q)

/-- Groups a query. -/
def groupStage (ctx : Context) (group : List String) : Stage :=
  .all (group.map fun key =>
    .add (ctx.groupTerm? key) fun q term => (term.toList).foldl Sql.Query.groupBy q)

end Context

end ResourceQuery
