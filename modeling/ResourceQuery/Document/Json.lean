import ResourceQuery.Decimal.Reading
import ResourceQuery.Document

/-!
# Document — reading JSON text

The grammar is that of JSON, without byte order mark, comments or trailing commas.  A whole number
that fits a signed or unsigned 64-bit word is an integer; every other number, and `-0`, is a double.
A number beyond the largest double, a text with an escaped surrogate that has no partner and a
container inside 127 others are unreadable parts; everything else that breaks the grammar makes the
whole text unreadable, and the reader answers `none`.

Each reading function takes a number of steps that it may still take; every step consumes a
character, so the length of the text is enough (`ofJson?`).
-/

namespace ResourceQuery.Document

namespace Json

open ResourceQuery.Text ResourceQuery.Decimal

/-- The blanks of JSON. -/
def isBlank (c : Char) : Bool :=
  c = ' ' || c = '\t' || c = '\n' || c = '\r'

/-- The text after leading blanks. -/
def skipBlanks (cs : List Char) : List Char :=
  cs.dropWhile isBlank

/-! ### Numbers -/

/-- The leading digits of a text and the text after them. -/
def digits : List Char → List Nat × List Char
  | []      => ([], [])
  | c :: cs =>
    match digit? c with
    | some d => let (ds, rest) := digits cs; (d :: ds, rest)
    | none   => ([], c :: cs)

/-- The fraction after a whole part: its digits, of which there is at least one after a point, and
the rest. -/
def fraction? : List Char → Option (Option (List Nat) × List Char)
  | '.' :: cs =>
    match digits cs with
    | ([], _)    => none
    | (ds, rest) => some (some ds, rest)
  | cs        => some (none, cs)

/-- The exponent at the end of a number: its value, written with at least one digit, and the
rest. -/
def exponent? : List Char → Option (Option Int × List Char)
  | []      => some (none, [])
  | c :: cs =>
    if c = 'e' ∨ c = 'E' then
      let (sign, unsigned) : Int × List Char := match cs with
        | '+' :: r => (1, r)
        | '-' :: r => (-1, r)
        | r        => (1, r)
      match digits unsigned with
      | ([], _)    => none
      | (ds, rest) => some (some (sign * valueOf 10 ds), rest)
    else some (none, c :: cs)

/-- The value of a number from its sign, whole part, fraction and exponent. -/
def numberOf (negative : Bool) (whole : List Nat) (part : Option (List Nat)) (power : Option Int) :
    Document :=
  let n := valueOf 10 whole
  if part.isNone && power.isNone && !negative && n < UInt64.size then .int n
  else if part.isNone && power.isNone && negative && 0 < n && n ≤ 0x8000000000000000 then .int (-n)
  else
    match read? whole (part.getD []) (power.getD 0) with
    | some x => .float (if negative then -x else x)
    | none   => .unreadable

/-- Reads a number: no leading zero before another digit. -/
def number? (cs : List Char) : Option (Document × List Char) :=
  let (negative, unsigned) := match cs with
    | '-' :: r => (true, r)
    | r        => (false, r)
  match digits unsigned with
  | ([], _)         => none
  | (0 :: _ :: _, _) => none
  | (whole, afterWhole)   =>
    (fraction? afterWhole).bind fun (part, afterPart) =>
      (exponent? afterPart).map fun (power, rest) => (numberOf negative whole part power, rest)

/-! ### Texts -/

/-- Four hexadecimal digits. -/
def unit? : List Char → Option (Nat × List Char)
  | a :: b :: c :: d :: rest =>
    match hexDigit? a, hexDigit? b, hexDigit? c, hexDigit? d with
    | some a, some b, some c, some d => some (((a * 16 + b) * 16 + c) * 16 + d, rest)
    | _, _, _, _                     => none
  | _ => none

/-- The trailing surrogate that completes a pair, if the text goes on with one. -/
def partner? : List Char → Option (Nat × List Char)
  | '\\' :: 'u' :: cs =>
    (unit? cs).bind fun (n, rest) => if 0xDC00 ≤ n ∧ n ≤ 0xDFFF then some (n, rest) else none
  | _ => none

/-- The character of a one-letter escape. -/
def escape? : Char → Option Char
  | '"'  => some '"'
  | '\\' => some '\\'
  | '/'  => some '/'
  | 'b'  => some '\x08'
  | 'f'  => some '\x0C'
  | 'n'  => some '\n'
  | 'r'  => some '\r'
  | 't'  => some '\t'
  | _    => none

/-- Reads the inside of a text up to its closing quotation mark.  A surrogate without a partner
leaves the text without a value. -/
def chars? : Nat → List Char → Option (Option (List Char) × List Char)
  | 0,         _       => none
  | _ + 1,     []      => none
  | steps + 1, c :: cs =>
    if c = '"' then some (some [], cs)
    else if c = '\\' then
      match cs with
      | []        => none
      | 'u' :: cs =>
        (unit? cs).bind fun (n, rest) =>
          if 0xD800 ≤ n ∧ n ≤ 0xDBFF then
            match partner? rest with
            | some (m, rest) =>
              let code := 0x10000 + (n - 0xD800) * 0x400 + (m - 0xDC00)
              (chars? steps rest).map fun (s, r) => (s.map (Char.ofNat code :: ·), r)
            | none           => (chars? steps rest).map fun (_, r) => (none, r)
          else if 0xDC00 ≤ n ∧ n ≤ 0xDFFF then (chars? steps rest).map fun (_, r) => (none, r)
          else (chars? steps rest).map fun (s, r) => (s.map (Char.ofNat n :: ·), r)
      | e :: cs   =>
        (escape? e).bind fun c => (chars? steps cs).map fun (s, r) => (s.map (c :: ·), r)
    else if c.toNat < 0x20 then none
    else (chars? steps cs).map fun (s, r) => (s.map (c :: ·), r)

/-! ### Values -/

/-- The largest number of containers around a readable container. -/
def maxDepth : Nat := 127

/-- A container with `depth` others around it. -/
def contained (depth : Nat) (d : Document) : Document :=
  if depth < maxDepth then d else .unreadable

/-- A map from its read entries; a key without a value leaves the map without one. -/
def mapOf (entries : List (Option (List Char) × Document)) : Document :=
  match entries.mapM fun (key, item) => key.map fun k => (String.ofList k, item) with
  | some entries => .map entries
  | none         => .unreadable

mutual

/-- Reads a value that has `depth` containers around it. -/
def value? : Nat → Nat → List Char → Option (Document × List Char)
  | 0,         _,     _  => none
  | steps + 1, depth, cs =>
    match skipBlanks cs with
    | []        => none
    | '[' :: cs =>
      match skipBlanks cs with
      | ']' :: rest => some (contained depth (.list []), rest)
      | cs          =>
        (items? steps (depth + 1) cs).map fun (items, rest) =>
          (contained depth (.list items), rest)
    | '{' :: cs =>
      match skipBlanks cs with
      | '}' :: rest => some (contained depth (.map []), rest)
      | cs          =>
        (entries? steps (depth + 1) cs).map fun (entries, rest) =>
          (contained depth (mapOf entries), rest)
    | '"' :: cs =>
      (chars? steps cs).map fun (s, rest) =>
        (match s with
          | some s => .text (String.ofList s)
          | none   => .unreadable, rest)
    | 'n' :: 'u' :: 'l' :: 'l' :: rest        => some (.null, rest)
    | 't' :: 'r' :: 'u' :: 'e' :: rest        => some (.bool true, rest)
    | 'f' :: 'a' :: 'l' :: 's' :: 'e' :: rest => some (.bool false, rest)
    | cs        => number? cs

/-- Reads the items of a list up to its closing bracket. -/
def items? : Nat → Nat → List Char → Option (List Document × List Char)
  | 0,         _,     _  => none
  | steps + 1, depth, cs =>
    (value? steps depth cs).bind fun (item, rest) =>
      match skipBlanks rest with
      | ',' :: rest => (items? steps depth rest).map fun (items, rest) => (item :: items, rest)
      | ']' :: rest => some ([item], rest)
      | _           => none

/-- Reads the entries of a map up to its closing brace. -/
def entries? :
    Nat → Nat → List Char → Option (List (Option (List Char) × Document) × List Char)
  | 0,         _,     _  => none
  | steps + 1, depth, cs =>
    match skipBlanks cs with
    | '"' :: cs =>
      (chars? steps cs).bind fun (key, rest) =>
        match skipBlanks rest with
        | ':' :: rest =>
          (value? steps depth rest).bind fun (item, rest) =>
            match skipBlanks rest with
            | ',' :: rest =>
              (entries? steps depth rest).map fun (entries, rest) => ((key, item) :: entries, rest)
            | '}' :: rest => some ([(key, item)], rest)
            | _           => none
        | _           => none
    | _         => none

end

end Json

/-- The tree of a JSON text. -/
def ofJson? (s : String) : Option Document :=
  let cs := s.toList
  match Json.value? (cs.length + 1) 0 cs with
  | some (d, rest) => if (Json.skipBlanks rest).isEmpty then some d else none
  | none           => none

end ResourceQuery.Document
