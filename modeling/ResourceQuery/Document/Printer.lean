import ResourceQuery.Decimal.Layout
import ResourceQuery.Document
import ResourceQuery.Text.Split

/-!
# Document — compact JSON text

A tree is written as JSON without blanks, entries in their order.  Of the characters of a text only
quotation marks, backslashes and control characters are escaped.
-/

namespace ResourceQuery.Document

/-- A lower-case hexadecimal digit. -/
def hexChar (n : Nat) : Char :=
  if n < 10 then Char.ofNat (n + 48) else Char.ofNat (n + 87)

/-- A character as it stands between quotation marks. -/
def escapeChar (c : Char) : List Char :=
  if c = '"' then ['\\', '"']
  else if c = '\\' then ['\\', '\\']
  else if c = '\n' then ['\\', 'n']
  else if c = '\r' then ['\\', 'r']
  else if c = '\t' then ['\\', 't']
  else if c.toNat = 0x08 then ['\\', 'b']
  else if c.toNat = 0x0C then ['\\', 'f']
  else if c.toNat < 0x20 then ['\\', 'u', '0', '0', hexChar (c.toNat / 16), hexChar (c.toNat % 16)]
  else [c]

/-- A text between quotation marks. -/
def quoted (s : String) : String :=
  String.ofList ('"' :: s.toList.flatMap escapeChar ++ ['"'])

mutual

/-- The compact JSON text of a tree. -/
def render : Document → String
  | .null        => "null"
  | .bool b      => if b then "true" else "false"
  | .int n       => toString n
  | .float x     => Decimal.Layout.json.write x
  | .text s      => quoted s
  | .list items  => "[" ++ Text.joinWith "," (renderItems items) ++ "]"
  | .map entries => "\x7b" ++ Text.joinWith "," (renderEntries entries) ++ "\x7d"
  | .unreadable  => "null"

/-- The texts of the items. -/
def renderItems : List Document → List String
  | []            => []
  | item :: items => item.render :: renderItems items

/-- The texts of the entries. -/
def renderEntries : List (String × Document) → List String
  | []                     => []
  | (key, item) :: entries => (quoted key ++ ":" ++ item.render) :: renderEntries entries

end

end ResourceQuery.Document
