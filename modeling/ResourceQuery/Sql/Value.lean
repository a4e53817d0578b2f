import ResourceQuery.Decimal.Layout
import ResourceQuery.Document.Decode
import ResourceQuery.Document.Encode
import ResourceQuery.Text.Split

/-!
# Sql — parameter values
-/

namespace ResourceQuery.Sql

/-- A value that is bound to a placeholder. -/
inductive Value where
  | null
  | bool (value : Bool)
  | int (value : Int)
  | float (value : Float)
  | text (value : String)
  | texts (items : List String)
  deriving Inhabited

namespace Value

/-- The value as plain text. -/
def display : Value → String
  | .null        => "NULL"
  | .bool b      => if b then "true" else "false"
  | .int n       => toString n
  | .float x     => Decimal.Layout.plain.write x
  | .text s      => s
  | .texts items => "\x7b" ++ Text.joinWith "," items ++ "\x7d"

/-- Reads a value: a scalar or a list of texts.  A whole number beyond the signed 64-bit words
becomes a double. -/
def ofDocument? : Document → Option Value
  | .null       => some .null
  | .bool b     => some (.bool b)
  | .int n      =>
    if -0x8000000000000000 ≤ n ∧ n < 0x8000000000000000 then some (.int n)
    else if 0 ≤ n ∧ n < UInt64.size then some (.float (UInt64.ofNat n.toNat).toFloat)
    else none
  | .float x    => some (.float x)
  | .text s     => some (.text s)
  | .list items => (items.mapM Document.text?).map .texts
  | _           => none

/-- The value as a tree. -/
def toDocument : Value → Document
  | .null        => .null
  | .bool b      => .bool b
  | .int n       => .int n
  | .float x     => .float x
  | .text s      => .text s
  | .texts items => items

/-- Values as a tree. -/
def listToDocument (values : List Value) : Document :=
  values.map toDocument

end Value

end ResourceQuery.Sql
