import ResourceQuery.Sql.Error
import ResourceQuery.Sql.Value
import ResourceQuery.Text.Split

/-!
# Sql — writing with placeholders

The values of a statement do not stand in its text but beside it, and the text has a numbered placeholder
for each of them.  A value is bound when the writing comes to it: it goes behind the values bound before,
and its placeholder has the number of its place among them (`Writer.place`).  The numbers tell the order in
which values were bound, wherever the placeholders are put in the text afterwards.
-/

namespace ResourceQuery.Sql

/-- SQL text with numbered placeholders and the values that go with them. -/
structure Statement where
  sql    : String
  params : List Value
  deriving Inhabited

/-- A statement as a tree. -/
def Statement.toDocument (s : Statement) : Document :=
  .map [("sql", s.sql), ("params", Value.listToDocument s.params)]

/-- What is written goes on from the values bound so far, and may fail. -/
abbrev Writer := StateT (List Value) (Except SqlError)

namespace Writer

/-- Binds a value and writes its placeholder. -/
def place (v : Value) : Writer String :=
  modifyGet fun bound => ("$" ++ toString (bound.length + 1), bound ++ [v])

/-- The placeholders of several values, with commas between them. -/
def places (values : List Value) : Writer String := do
  let placeholders ← values.mapM place
  return Text.joinWith ", " placeholders

/-- What is written when nothing is bound yet, with the values that it binds. -/
def statement (w : Writer String) : Except SqlError Statement := do
  let (sql, params) ← w.run []
  return ⟨sql, params⟩

end Writer

end ResourceQuery.Sql
