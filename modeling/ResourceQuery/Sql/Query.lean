import ResourceQuery.Page
import ResourceQuery.Sql.Condition

/-!
# Sql — queries

A query is a `SELECT` from one table, with left joins, conditions, grouping and ordering, together
with the relations to load for its rows and the limits on its size.  A join is added only if its alias
is new (`join`).

* `foldl_restrict`: conditions that are added one by one stand in order behind those before.
-/

namespace ResourceQuery.Sql

/-- An aggregate function. -/
inductive Aggregate where
  | count
  | sum
  | avg
  | max
  | min
  deriving DecidableEq

namespace Aggregate

/-- The function in SQL. -/
def name : Aggregate → String
  | .count => "count"
  | .sum   => "sum"
  | .avg   => "avg"
  | .max   => "max"
  | .min   => "min"

/-- The function of a name. -/
def ofName? : String → Option Aggregate
  | "count" => some .count
  | "sum"   => some .sum
  | "avg"   => some .avg
  | "max"   => some .max
  | "min"   => some .min
  | _       => none

end Aggregate

/-- An entry of the `SELECT` list. -/
inductive Projection where
  | column (column : Column)
  | aggregate (function : Aggregate) (column : Column) (result : String)
  /-- An expression with its alias. -/
  | expression (fragment : Fragment)
  deriving Inhabited

/-- A direction of sorting. -/
inductive SortOrder where
  | asc
  | desc
  deriving DecidableEq, Inhabited

/-- The direction in SQL. -/
def SortOrder.sql : SortOrder → String
  | .asc  => "ASC"
  | .desc => "DESC"

/-- An entry of the `GROUP BY` list. -/
inductive GroupTerm where
  | column (column : Column)
  | expression (fragment : Fragment)
  deriving Inhabited

/-- An entry of the `ORDER BY` list. -/
inductive OrderTerm where
  | column (column : Column) (order : SortOrder)
  | expression (fragment : Fragment) (order : SortOrder)
  deriving Inhabited

/-- A predicate in the `ON` of a join. -/
inductive JoinCondition where
  | columns (left right : Column)
  | value (column : Column) (value : Value)
  deriving Inhabited

/-- A left outer join of a table under an alias. -/
structure Join where
  table      : String
  tableAlias : String
  on         : List JoinCondition := []
  deriving Inhabited

/-- A relation to load for the rows of a query, with all columns or only some. -/
structure EagerLoad where
  /-- The names of the relations on the way, with points between them. -/
  relation : String
  columns  : Option (List String) := none
  deriving DecidableEq, Inhabited

/-- A relation to load as a tree. -/
def EagerLoad.toDocument (e : EagerLoad) : Document :=
  .map [("relation", e.relation), ("columns", .ofOption (fun names => names) e.columns)]

/-- A query under construction. -/
structure Query where
  table         : String
  tableAlias    : String
  /-- The database schema that qualifies every table. -/
  schema        : Option String := none
  distinct      : Bool := false
  projections   : List Projection := []
  joins         : List Join := []
  conditions    : List Condition := []
  groupTerms    : List GroupTerm := []
  orderTerms    : List OrderTerm := []
  eagerLoads    : List EagerLoad := []
  limit         : Option UInt64 := none
  offset        : Option UInt64 := none
  maxJoins      : Nat := 16
  maxConditions : Nat := 100
  deriving Inhabited

namespace Query

/-- The query for all rows of a table. -/
def ofTable (table tableAlias : String) : Query :=
  { table, tableAlias }

/-- Adds an entry to the `SELECT` list. -/
def select (q : Query) (p : Projection) : Query :=
  { q with projections := q.projections ++ [p] }

/-- Adds a column to the `SELECT` list. -/
def selectColumn (q : Query) (c : Column) : Query :=
  q.select (.column c)

/-- Drops repeated rows. -/
def makeDistinct (q : Query) : Query :=
  { q with distinct := true }

/-- The column is itself an entry of the `SELECT` list. -/
def selectsColumn (q : Query) (c : Column) : Bool :=
  q.projections.any fun
    | .column d => d = c
    | _         => false

/-- A join has the alias. -/
def hasJoin (q : Query) (tableAlias : String) : Bool :=
  q.joins.any fun j => j.tableAlias = tableAlias

/-- Adds a join unless its alias is joined already. -/
def join (q : Query) (j : Join) : Query :=
  if q.hasJoin j.tableAlias then q else { q with joins := q.joins ++ [j] }

/-- Adds a condition; all conditions of a query must hold. -/
def restrict (q : Query) (c : Condition) : Query :=
  { q with conditions := q.conditions ++ [c] }

/-- Conditions that are added one by one stand behind those that were there, in their order. -/
theorem foldl_restrict (q : Query) (cs : List Condition) :
    cs.foldl restrict q = { q with conditions := q.conditions ++ cs } := by
  induction cs generalizing q with
  | nil => simp
  | cons c cs ih => simp [ih, restrict]

/-- Adds an entry to the `GROUP BY` list. -/
def groupBy (q : Query) (t : GroupTerm) : Query :=
  { q with groupTerms := q.groupTerms ++ [t] }

/-- Adds an entry to the `ORDER BY` list. -/
def orderBy (q : Query) (t : OrderTerm) : Query :=
  { q with orderTerms := q.orderTerms ++ [t] }

/-- Asks for a relation to be loaded. -/
def load (q : Query) (e : EagerLoad) : Query :=
  { q with eagerLoads := q.eagerLoads ++ [e] }

/-- Restricts the result to a window. -/
def paginate (q : Query) (limit offset : UInt64) : Query :=
  { q with limit := some limit, offset := some offset }

/-- The number of predicates in the conditions. -/
def conditionCount (q : Query) : Nat :=
  Condition.leafCounts q.conditions

/-- Reports a query with too many predicates or, after that, too many joins. -/
def validate (q : Query) : Except SqlError Unit :=
  if q.conditionCount > q.maxConditions then
    .error (.tooManyConditions q.conditionCount q.maxConditions)
  else if q.joins.length > q.maxJoins then .error (.tooManyJoins q.joins.length q.maxJoins)
  else .ok ()

end Query

end ResourceQuery.Sql
