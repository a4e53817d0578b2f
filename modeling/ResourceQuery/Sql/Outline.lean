import ResourceQuery.Sql.Query

/-!
# Sql — outlines of queries

A query that is still under construction is shown as a tree, part by part and with nothing written as
SQL but the fragments that were given as SQL.  Who adjusts a query or logs it reads from its outline
what it holds so far.  The limits, the schema and the window are settings and stay out of it.
-/

namespace ResourceQuery.Sql

/-- A column as a tree. -/
def Column.outline (c : Column) : Document :=
  .map [("table", c.table), ("column", c.name)]

namespace Condition

mutual

/-- A condition as a tree. -/
def outline : Condition → Document
  | .compare column op value =>
    .map
      [("t", "compare"), ("column", column.outline), ("op", op.sql), ("value", value.toDocument)]
  | .isIn column values      =>
    .map [("t", "in"), ("column", column.outline), ("values", Value.listToDocument values)]
  | .notIn column values     =>
    .map [("t", "not_in"), ("column", column.outline), ("values", Value.listToDocument values)]
  | .isNull column           => .map [("t", "is_null"), ("column", column.outline)]
  | .isNotNull column        => .map [("t", "is_not_null"), ("column", column.outline)]
  | .like column pattern     =>
    .map [("t", "like"), ("column", column.outline), ("pattern", pattern)]
  | .raw fragment            =>
    .map [("t", "raw"), ("sql", fragment.sql), ("params", Value.listToDocument fragment.params)]
  | .or parts                => .map [("t", "or"), ("conditions", .list (outlines parts))]
  | .and parts               => .map [("t", "and"), ("conditions", .list (outlines parts))]
  | .not part                => .map [("t", "not"), ("condition", outline part)]
  | .always                  => .map [("t", "true")]
  | .never                   => .map [("t", "false")]

/-- Conditions as trees. -/
def outlines : List Condition → List Document
  | []      => []
  | c :: cs => outline c :: outlines cs

end

end Condition

/-- An entry of the `SELECT` list as a tree. -/
def Projection.outline : Projection → Document
  | .column c             => .map [("column", c.outline)]
  | .aggregate f c result =>
    .map [("aggregate", f.name), ("column", c.outline), ("alias", result)]
  | .expression fragment  => .map [("expression", fragment.toDocument)]

/-- A predicate of a join as a tree. -/
def JoinCondition.outline : JoinCondition → Document
  | .columns left right => [left.display, right.display]
  | .value c v          => .map [("column", c.display), ("value", v.toDocument)]

/-- A join as a tree. -/
def Join.outline (j : Join) : Document :=
  .map [("table", j.table), ("alias", j.tableAlias), ("on", j.on.map JoinCondition.outline)]

/-- An entry of the `GROUP BY` list as a tree. -/
def GroupTerm.outline : GroupTerm → Document
  | .column c            => .map [("column", c.outline)]
  | .expression fragment => .map [("expression", fragment.toDocument)]

/-- An entry of the `ORDER BY` list as a tree. -/
def OrderTerm.outline : OrderTerm → Document
  | .column c order            => .map [("column", c.outline), ("order", order.sql)]
  | .expression fragment order => .map [("expression", fragment.toDocument), ("order", order.sql)]

/-- A query as a tree; beside the conditions stand the numbers of their predicates. -/
def Query.outline (q : Query) : Document :=
  .map
    [("table", q.table),
     ("alias", q.tableAlias),
     ("distinct", q.distinct),
     ("projections", q.projections.map Projection.outline),
     ("joins", q.joins.map Join.outline),
     ("conditions", q.conditions.map Condition.outline),
     ("leaves", q.conditions.map fun c => (c.leafCount : Document)),
     ("group", q.groupTerms.map GroupTerm.outline),
     ("order", q.orderTerms.map OrderTerm.outline),
     ("eager", q.eagerLoads.map EagerLoad.toDocument)]

end ResourceQuery.Sql
