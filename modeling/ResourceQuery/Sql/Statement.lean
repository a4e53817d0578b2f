import ResourceQuery.Sql.Query

/-!
# Sql — writing a query down

Three statements come from a query: the query itself (`build`), one page of it (`buildPage`) and the
number of its rows (`buildCount`).  The count of a distinct or grouped query is taken over the query
as a subquery, so that it counts the rows that the query returns.  Nothing is written when the query
exceeds its limits; otherwise the first fragment that does not fit its parameters, in the order of the
text, is the error.

The parts of a query are written in the order of the text, so that their values are bound in this order.
-/

namespace ResourceQuery.Sql

namespace Projection

/-- Writes an entry of the `SELECT` list. -/
def write : Projection → Writer String
  | .column c             => return c.sql
  | .aggregate f c result => return f.name ++ "(" ++ c.sql ++ ") AS " ++ quoteIdentifier result
  | .expression fragment  => fragment.write

end Projection

namespace GroupTerm

/-- Writes an entry of the `GROUP BY` list. -/
def write : GroupTerm → Writer String
  | .column c            => return c.sql
  | .expression fragment => fragment.write

end GroupTerm

namespace OrderTerm

/-- Writes an entry of the `ORDER BY` list. -/
def write : OrderTerm → Writer String
  | .column c order            => return c.sql ++ " " ++ order.sql
  | .expression fragment order => do
    let sql ← fragment.write
    return sql ++ " " ++ order.sql

end OrderTerm

namespace JoinCondition

/-- Writes a predicate in the `ON` of a join. -/
def write : JoinCondition → Writer String
  | .columns left right => return left.sql ++ " = " ++ right.sql
  | .value c v          => do
    let place ← Writer.place v
    return c.sql ++ " = " ++ place

end JoinCondition

namespace Query

/-- A table with its schema, under an alias unless that is its name. -/
def tableSql (q : Query) (table tableAlias : String) : String :=
  let qualified := match q.schema with
    | some schema => quoteIdentifier schema ++ "." ++ quoteIdentifier table
    | none        => quoteIdentifier table
  if table = tableAlias then qualified else qualified ++ " AS " ++ quoteIdentifier tableAlias

/-- Writes one join. -/
def writeJoin (q : Query) (j : Join) : Writer String := do
  let on ← j.on.mapM JoinCondition.write
  return " LEFT OUTER JOIN " ++ q.tableSql j.table j.tableAlias ++ " ON " ++ Text.joinWith " AND " on

/-- Writes the table and its joins. -/
def writeFrom (q : Query) : Writer String := do
  let joins ← q.joins.mapM q.writeJoin
  return q.tableSql q.table q.tableAlias ++ Text.joinWith "" joins

/-- Writes the `WHERE` clause, empty without conditions. -/
def writeWhere (q : Query) : Writer String :=
  if q.conditions.isEmpty then return ""
  else do
    let conditions ← Condition.writeEach q.conditions
    return " WHERE " ++ Text.joinWith " AND " conditions

/-- Writes the `SELECT` list. -/
def writeList (q : Query) : Writer String :=
  if q.projections.isEmpty then return "*"
  else do
    let entries ← q.projections.mapM Projection.write
    return Text.joinWith ", " entries

/-- Writes the `GROUP BY` clause, empty without entries. -/
def writeGroups (q : Query) : Writer String :=
  if q.groupTerms.isEmpty then return ""
  else do
    let entries ← q.groupTerms.mapM GroupTerm.write
    return " GROUP BY " ++ Text.joinWith ", " entries

/-- Writes the `ORDER BY` clause, empty without entries. -/
def writeOrders (q : Query) : Writer String :=
  if q.orderTerms.isEmpty then return ""
  else do
    let entries ← q.orderTerms.mapM OrderTerm.write
    return " ORDER BY " ++ Text.joinWith ", " entries

/-- Writes the query without ordering and window. -/
def writeSelect (q : Query) : Writer String := do
  let list ← q.writeList
  let tables ← q.writeFrom
  let condition ← q.writeWhere
  let grouping ← q.writeGroups
  return ("SELECT " ++ if q.distinct then "DISTINCT " else "") ++ list ++ " FROM " ++ tables ++
    condition ++ grouping

/-- The limit and the offset; an offset of zero is not written. -/
def windowSql (q : Query) : String :=
  let limit := match q.limit with
    | some n => " LIMIT " ++ toString n.toNat
    | none   => ""
  let offset := match q.offset with
    | some n => if 0 < n then " OFFSET " ++ toString n.toNat else ""
    | none   => ""
  limit ++ offset

/-- Writes the whole query. -/
def write (q : Query) : Writer String := do
  let select ← q.writeSelect
  let ordering ← q.writeOrders
  return select ++ ordering ++ q.windowSql

/-- Writes the count of the rows. -/
def writeCount (q : Query) : Writer String :=
  if q.distinct || !q.groupTerms.isEmpty then do
    let select ← q.writeSelect
    return "SELECT COUNT(*) AS total FROM (" ++ select ++ ") AS counted"
  else do
    let tables ← q.writeFrom
    let condition ← q.writeWhere
    return "SELECT COUNT(*) AS total FROM " ++ tables ++ condition

/-- The statement of the query. -/
def build (q : Query) : Except SqlError Statement := do
  q.validate
  q.write.statement

/-- The statement of one page of the query. -/
def buildPage (q : Query) (page : PageRequest) : Except SqlError Statement :=
  let (limit, offset) := page.limitOffset
  (q.paginate limit offset).build

/-- The statement that counts the rows of the query. -/
def buildCount (q : Query) : Except SqlError Statement := do
  q.validate
  q.writeCount.statement

end Query

end ResourceQuery.Sql
