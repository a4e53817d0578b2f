import ResourceQuery.Sql.Fragment
import ResourceQuery.Sql.Identifier

/-!
# Sql — conditions

Conditions are predicates on columns combined by `AND`, `OR` and `NOT`.  Membership in nothing is
false and exclusion from nothing is true; an empty `OR` is false and an empty `AND` is true.  Every
nonempty combination stands in parentheses.
-/

namespace ResourceQuery.Sql

/-- A comparison of a column with a value. -/
inductive Comparison where
  | eq
  | ne
  | gt
  | lt
  | ge
  | le
  deriving DecidableEq

/-- The comparison in SQL. -/
def Comparison.sql : Comparison → String
  | .eq => "="
  | .ne => "!="
  | .gt => ">"
  | .lt => "<"
  | .ge => ">="
  | .le => "<="

/-- A condition of a `WHERE` clause. -/
inductive Condition where
  | compare (column : Column) (op : Comparison) (value : Value)
  | isIn (column : Column) (values : List Value)
  | notIn (column : Column) (values : List Value)
  | isNull (column : Column)
  | isNotNull (column : Column)
  /-- A match that ignores case, with `%` for any text. -/
  | like (column : Column) (pattern : String)
  | raw (fragment : Fragment)
  | or (parts : List Condition)
  | and (parts : List Condition)
  | not (part : Condition)
  | always
  | never
  deriving Inhabited

namespace Condition

/-- The disjunction of conditions, without a combination around none or one. -/
def anyOf : List Condition → Condition
  | []  => .never
  | [c] => c
  | cs  => .or cs

/-- The conjunction of conditions, without a combination around none or one. -/
def allOf : List Condition → Condition
  | []  => .always
  | [c] => c
  | cs  => .and cs

mutual

/-- The number of predicates in a condition. -/
def leafCount : Condition → Nat
  | .or parts  => leafCounts parts
  | .and parts => leafCounts parts
  | .not part  => leafCount part
  | _          => 1

/-- The number of predicates in a list of conditions. -/
def leafCounts : List Condition → Nat
  | []      => 0
  | c :: cs => leafCount c + leafCounts cs

end

mutual

/-- Writes a condition. -/
def write : Condition → Writer String
  | .compare column op value => do
    let place ← Writer.place value
    return column.sql ++ " " ++ op.sql ++ " " ++ place
  | .isIn column values      =>
    if values.isEmpty then return "FALSE"
    else do
      let places ← Writer.places values
      return column.sql ++ " IN (" ++ places ++ ")"
  | .notIn column values     =>
    if values.isEmpty then return "TRUE"
    else do
      let places ← Writer.places values
      return column.sql ++ " NOT IN (" ++ places ++ ")"
  | .isNull column           => return column.sql ++ " IS NULL"
  | .isNotNull column        => return column.sql ++ " IS NOT NULL"
  | .like column pattern     => do
    let place ← Writer.place (.text pattern)
    return "LOWER(" ++ column.sql ++ "::text) LIKE LOWER(" ++ place ++ ")"
  | .raw fragment            => fragment.write
  | .or parts                =>
    if parts.isEmpty then return "FALSE"
    else do
      let texts ← writeEach parts
      return "(" ++ Text.joinWith " OR " texts ++ ")"
  | .and parts               =>
    if parts.isEmpty then return "TRUE"
    else do
      let texts ← writeEach parts
      return "(" ++ Text.joinWith " AND " texts ++ ")"
  | .not part                => do
    let text ← write part
    return "(NOT " ++ text ++ ")"
  | .always                  => return "TRUE"
  | .never                   => return "FALSE"

/-- Writes conditions one after the other. -/
def writeEach : List Condition → Writer (List String)
  | []      => pure []
  | c :: cs => do
    let first ← write c
    let later ← writeEach cs
    return first :: later

end

end Condition

end ResourceQuery.Sql
