import ResourceQuery.Text.Split
import ResourceQuery.Text.Utf8

/-!
# Text — form-encoded pairs

A form-encoded text is a sequence of segments between `&`; empty segments are skipped and the first
`=` of a segment ends its key.  In keys and values a `+` is a space, `%` with two hexadecimal digits
is a byte, any other `%` stands for itself, and the bytes are UTF-8 with replacement.  Each segment
is decoded on its own (`pairs`).
-/

namespace ResourceQuery.Text.Form

/-- The value of a byte that is an ASCII hexadecimal digit. -/
def hexDigit? (b : UInt8) : Option UInt8 :=
  if 0x30 ≤ b ∧ b ≤ 0x39 then some (b - 0x30)
  else if 0x41 ≤ b ∧ b ≤ 0x46 then some (b - 0x37)
  else if 0x61 ≤ b ∧ b ≤ 0x66 then some (b - 0x57)
  else none

/-- The bytes with each `%` and two hexadecimal digits replaced by the byte they denote. -/
def unescape : List UInt8 → List UInt8
  | []                 => []
  | b :: high :: low :: rest =>
    if b = 0x25 then
      match hexDigit? high, hexDigit? low with
      | some h, some l => (16 * h + l) :: unescape rest
      | _,      _      => b :: unescape (high :: low :: rest)
    else b :: unescape (high :: low :: rest)
  | b :: rest          => b :: unescape rest

/-- The text that a key or a value denotes. -/
def decode (cs : List Char) : List Char :=
  Utf8.decode (unescape ((Utf8.encode cs).map fun b => if b = 0x2B then 0x20 else b))

/-- The key and the value of one segment; without `=` the value is empty. -/
def pair (segment : List Char) : List Char × List Char :=
  match splitFirst '=' segment with
  | some (key, value) => (decode key, decode value)
  | none              => (decode segment, [])

/-- The decoded pairs of a form-encoded text, in order. -/
def pairs (cs : List Char) : List (List Char × List Char) :=
  ((splitOn '&' cs).filter fun segment => !segment.isEmpty).map pair

end ResourceQuery.Text.Form
