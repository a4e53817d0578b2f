import ResourceQuery.Request.Filter
import ResourceQuery.Sql.Query

/-!
# Sql — values inside JSON columns

A JSON attribute is a value at a path inside a JSON column, read as text and possibly cast.  The path is
always a bound parameter.  Filters treat the null and the text `null` alike: both stand for SQL's null.
-/

namespace ResourceQuery

/-- How a filter restricts a JSON attribute. -/
inductive JsonFilter where
  | equal
  | typed (operator : FilterOperator)
  deriving DecidableEq

/-- The filter of a name. -/
def JsonFilter.ofName? : String → Option JsonFilter
  | "equal" => some .equal
  | s       => (FilterOperator.ofName? s).map .typed

namespace Sql

/-- The types that a JSON value can be cast to. -/
inductive JsonCast where
  | numeric
  | date
  | timestamp
  deriving DecidableEq

namespace JsonCast

/-- The type in SQL. -/
def sql : JsonCast → String
  | .numeric   => "numeric"
  | .date      => "date"
  | .timestamp => "timestamp"

/-- The type of a name. -/
def ofName? : String → Option JsonCast
  | "numeric"   => some .numeric
  | "date"      => some .date
  | "timestamp" => some .timestamp
  | _           => none

end JsonCast

/-- A value at a path inside a JSON column. -/
structure JsonAttribute where
  column : Column
  path   : List String
  cast   : Option JsonCast
  deriving DecidableEq

namespace JsonAttribute

/-- The value at a dotted path; an unknown type is no cast. -/
def of (column : Column) (path : String) (type : Option String) : JsonAttribute :=
  ⟨column, Text.split '.' path, type.bind JsonCast.ofName?⟩

/-- The last element of the path. -/
def leaf (a : JsonAttribute) : String :=
  (a.path.getLast?).getD ""

/-- The expression that reads the value. -/
def expression (a : JsonAttribute) : Fragment :=
  let extract := "(" ++ a.column.sql ++ " #>> ?)"
  match a.cast with
  | some cast => ⟨extract ++ "::" ++ cast.sql, [.texts a.path]⟩
  | none      => ⟨extract, [.texts a.path]⟩

/-- The expression with the leaf as its alias. -/
def aliased (a : JsonAttribute) : Fragment :=
  a.expression.mapSql fun sql => sql ++ " AS " ++ quoteIdentifier a.leaf

/-! ### Conditions -/

/-- The texts that do not stand for SQL's null. -/
def texts (values : List (Option String)) : List String :=
  (values.filterMap id).filter fun v => v ≠ "null"

/-- Some value stands for SQL's null. -/
def hasNull (values : List (Option String)) : Bool :=
  values.any fun
    | none   => true
    | some v => v = "null"

/-- The value is the null. -/
def isNull (a : JsonAttribute) : Condition :=
  .raw (a.expression.mapSql fun sql => sql ++ " IS NULL")

/-- The value is not the null. -/
def isNotNull (a : JsonAttribute) : Condition :=
  .raw (a.expression.mapSql fun sql => sql ++ " IS NOT NULL")

/-- Membership in a list of texts under `keyword`. -/
def membership (a : JsonAttribute) (keyword : String) (values : List String) : Condition :=
  let slots := Text.joinWith ", " (values.map fun _ => "?")
  .raw (a.expression.append (" " ++ keyword ++ " (" ++ slots ++ ")") (values.map .text))

/-- The value is one of those given, the null among them or not. -/
def equality (a : JsonAttribute) (values : List (Option String)) : Condition :=
  let given := texts values
  if hasNull values then
    if given.isEmpty then a.isNull else .anyOf [a.isNull, a.membership "IN" given]
  else if given.isEmpty then .never
  else a.membership "IN" given

/-- The value contains a text, in either case. -/
def containing (a : JsonAttribute) (value : String) : Condition :=
  .raw ((a.expression.mapSql fun sql => "LOWER((" ++ sql ++ ")::text) LIKE LOWER(?)").append ""
    [.text ("%" ++ value ++ "%")])

/-- The comparison of the value with the first text given, if there is one. -/
def comparison (a : JsonAttribute) (op : Comparison) (values : List (Option String)) :
    List Condition :=
  match texts values with
  | []     => []
  | v :: _ => [.raw (a.expression.append (" " ++ op.sql ++ " ?") [.text v])]

/-- The conditions of a filter.  Under `like`, the values of an equality on the same key join the
alternatives. -/
def conditions (a : JsonAttribute) (filter : JsonFilter) (values : List (Option String))
    (folded : Option (List (Option String))) : List Condition :=
  match filter with
  | .equal       => [a.equality values]
  | .typed .like =>
    let alternatives := (texts values).map a.containing ++ (folded.map a.equality).toList
    if alternatives.isEmpty then [] else [.anyOf alternatives]
  | .typed .not  =>
    (if hasNull values then [a.isNotNull] else []) ++
      (if (texts values).isEmpty then [] else [a.membership "NOT IN" (texts values)])
  | .typed .lt   => a.comparison .lt values
  | .typed .lte  => a.comparison .le values
  | .typed .gt   => a.comparison .gt values
  | .typed .gte  => a.comparison .ge values

end JsonAttribute

namespace Query

/-- Adds the conditions of a filter on a JSON attribute. -/
def filterJson (q : Query) (a : JsonAttribute) (filter : JsonFilter)
    (values : List (Option String)) (folded : Option (List (Option String))) : Query :=
  (a.conditions filter values folded).foldl restrict q

/-- Adds a JSON attribute to the `SELECT` list. -/
def selectJson (q : Query) (a : JsonAttribute) : Query :=
  q.select (.expression a.aliased)

/-- Orders by a JSON attribute. -/
def orderByJson (q : Query) (a : JsonAttribute) (order : SortOrder) : Query :=
  q.orderBy (.expression a.expression order)

end Query

/-- The direction of a name: anything but `desc` is ascending. -/
def SortOrder.ofName (s : String) : SortOrder :=
  if s = "desc" then .desc else .asc

end Sql

end ResourceQuery
