import ResourceQuery.Text.Split

/-!
# Sql — quoted identifiers and columns

An identifier stands between double quotes, a quote inside it being doubled.  A column is a name,
qualified by a table alias or bare; the name `*` stands for all columns and is not quoted.
-/

namespace ResourceQuery.Sql

/-- The characters with each double quote written twice. -/
def doubleQuotes : List Char → List Char
  | []      => []
  | c :: cs => if c = '"' then '"' :: '"' :: doubleQuotes cs else c :: doubleQuotes cs

/-- A name as a quoted identifier. -/
def quoteIdentifier (name : String) : String :=
  String.ofList ('"' :: doubleQuotes name.toList ++ ['"'])

theorem toList_quoteIdentifier (name : String) :
    (quoteIdentifier name).toList = '"' :: (doubleQuotes name.toList ++ ['"']) := by
  simp [quoteIdentifier]

/-- A column, qualified by the alias of its table or bare. -/
structure Column where
  table : Option String := none
  name  : String
  deriving DecidableEq, Inhabited

namespace Column

/-- A column of a table. -/
def of (table name : String) : Column :=
  { table := some table, name }

/-- A column without its table. -/
def bare (name : String) : Column :=
  { name }

/-- All columns of a table. -/
def all (table : String) : Column :=
  of table "*"

/-- The column of a text, cut at its last point. -/
def ofText (s : String) : Column :=
  match Text.splitLast '.' s.toList with
  | some (table, name) => of (String.ofList table) (String.ofList name)
  | none               => bare s

/-- The column in SQL. -/
def sql (c : Column) : String :=
  let name := if c.name = "*" then "*" else quoteIdentifier c.name
  match c.table with
  | some table => quoteIdentifier table ++ "." ++ name
  | none       => name

/-- The column as plain text. -/
def display (c : Column) : String :=
  match c.table with
  | some table => table ++ "." ++ c.name
  | none       => c.name

end Column

end ResourceQuery.Sql
