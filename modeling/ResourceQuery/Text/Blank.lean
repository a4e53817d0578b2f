import ResourceQuery.Text.Split

/-!
# Text — blanks and comma lists

The blank characters are those with the Unicode property White_Space.  A comma list is cut at its
commas, each piece is freed of blanks at both ends, and pieces that are then empty are dropped
(`commaList`).
-/

namespace ResourceQuery.Text

/-- A character with the Unicode property White_Space. -/
def isBlank (c : Char) : Bool :=
  let n := c.toNat
  (0x09 ≤ n && n ≤ 0x0D) || n = 0x20 || n = 0x85 || n = 0xA0 || n = 0x1680 ||
  (0x2000 ≤ n && n ≤ 0x200A) || n = 0x2028 || n = 0x2029 || n = 0x202F || n = 0x205F || n = 0x3000

/-- The text without the blanks at its ends. -/
def trimChars (cs : List Char) : List Char :=
  ((cs.dropWhile isBlank).reverse.dropWhile isBlank).reverse

/-- `trimChars` on strings. -/
def trim (s : String) : String :=
  String.ofList (trimChars s.toList)

/-- The entries of a comma list: cut at commas, trimmed, empty ones dropped. -/
def commaList (s : String) : List String :=
  ((split ',' s).map trim).filter fun item => !item.isEmpty

end ResourceQuery.Text
