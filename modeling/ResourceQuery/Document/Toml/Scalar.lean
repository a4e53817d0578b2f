import ResourceQuery.Decimal.Nearest
import ResourceQuery.Document
import ResourceQuery.Document.Toml.Lexical
import ResourceQuery.Text.Split

/-!
# Document — TOML scalars without quotes

Truth values, numbers and dates.  Underscores may stand between two digits.  Whole numbers are decimal
with an optional sign and no leading zero, or hexadecimal, octal or binary without a sign.  A number that
is scanned but has no value is unreadable: a double beyond the largest one, a whole number beyond 128 bits,
a base without digits, digits that other characters follow after an underscore.  A date, a time or both are
written as in `1979-05-27T07:32:00.5Z`, seconds being optional, and become a map from `datetime` to their
text, which no decoder asks for.
-/

namespace ResourceQuery.Document.Toml

open ResourceQuery.Text ResourceQuery.Decimal

/-! ### Numbers -/

/-- A decimal digit. -/
def isDigit (c : Char) : Bool :=
  (digit? c).isSome

/-- A hexadecimal digit. -/
def isHexDigit (c : Char) : Bool :=
  (hexDigit? c).isSome

/-- The text without its underscores, each of which must stand between two digits; `afterDigit` says that
a digit stands in front. -/
def unseparated? (digit : Char → Bool) (afterDigit : Bool) : List Char → Option (List Char)
  | []      => some []
  | c :: cs =>
    if c = '_' then
      if afterDigit && cs.head?.any digit then unseparated? digit false cs else none
    else (unseparated? digit (digit c) cs).map (c :: ·)

/-- The sign in front of a number, and the number. -/
def signOf : List Char → Option Bool × List Char
  | '+' :: cs => (some false, cs)
  | '-' :: cs => (some true, cs)
  | cs        => (none, cs)

/-- A whole number, unreadable beyond 128 bits. -/
def sized (n : Int) : Document :=
  if -Int.ofNat (Nat.pow 2 127) ≤ n ∧ n < Int.ofNat (Nat.pow 2 128) then .int n else .unreadable

/-- A digit below `base`. -/
def digitBelow (base : Nat) (c : Char) : Option Nat :=
  (hexDigit? c).filter (· < base)

/-- A whole number in the given base, after its mark; without digits it is unreadable. -/
def based? (base : Nat) (cs : List Char) : Option Document :=
  if cs.isEmpty then some .unreadable
  else
    (unseparated? isHexDigit false cs).bind fun cs =>
      (cs.mapM (digitBelow base)).map fun ds => sized (valueOf base ds)

/-- A character that makes a number a double. -/
def marksDouble (c : Char) : Bool :=
  c = '.' || c = 'e' || c = 'E'

/-- A decimal whole number.  All that follows an underscore between hexadecimal digits belongs to it, with
the exception of spaces; if that is not all decimal digits, the number is unreadable. -/
def decimal? (cs : List Char) : Option Document :=
  let (sign, unsigned) := signOf cs
  let tail := unsigned.dropWhile isDigit
  if unsigned.isEmpty || tail.any marksDouble || tail.contains ' ' then none
  else if !tail.isEmpty && tail.head? ≠ some '_' then none
  else if unsigned.head? = some '0' && 1 < unsigned.length then none
  else
    (unseparated? isHexDigit false unsigned).map fun text =>
      match digits? text with
      | some n => sized (if sign = some true then -(n : Int) else n)
      | none   => .unreadable

/-- A whole number. -/
def integer? : List Char → Option Document
  | '0' :: 'x' :: cs => based? 16 cs
  | '0' :: 'o' :: cs => based? 8 cs
  | '0' :: 'b' :: cs => based? 2 cs
  | cs               => decimal? cs

/-- The digits of a sequence that has some. -/
def digitsOf? (cs : List Char) : Option (List Nat) :=
  if cs.isEmpty then none else cs.mapM digit?

/-- The exponent at the end of a double. -/
def exponentOf? (cs : List Char) : Option Int :=
  let (sign, unsigned) := signOf cs
  (digits? unsigned).map fun n => if sign = some true then -(n : Int) else n

/-- The digits before and after the point and the exponent of a double: it has a fraction, an exponent,
or both. -/
def doubleParts? (cs : List Char) : Option (List Nat × List Nat × Int) :=
  let mantissa := cs.takeWhile fun c => !(c = 'e' || c = 'E')
  let tail := cs.drop mantissa.length
  let digits := match splitFirst '.' mantissa with
    | some (whole, part) => (digitsOf? whole).bind fun w => (digitsOf? part).map fun p => (w, p)
    | none               =>
      if tail.isEmpty then none else (digitsOf? mantissa).map fun w => (w, [])
  digits.bind fun (whole, part) =>
    if tail.isEmpty then some (whole, part, 0)
    else (exponentOf? (tail.drop 1)).map fun power => (whole, part, power)

/-- A double, unreadable beyond the largest one. -/
def float? (cs : List Char) : Option Document :=
  let (sign, unsigned) := signOf cs
  let signed := fun (x : Float) => Document.float (if sign = some true then -x else x)
  if unsigned = ['i', 'n', 'f'] then some (signed (1.0 / 0.0))
  else if unsigned = ['n', 'a', 'n'] then some (signed (0.0 / 0.0))
  else
    ((unseparated? isDigit false unsigned).bind doubleParts?).bind fun (whole, part, power) =>
      if unsigned.head? = some '0' ∧ 1 < whole.length then none
      else
        match nearest? whole part power with
        | some x => some (signed x)
        | none   => some .unreadable

/-! ### Dates and times -/

/-- Exactly `n` digits. -/
def fixed? : Nat → List Char → Option (Nat × List Char)
  | n, cs =>
    (digits? (cs.take n)).bind fun v => if (cs.take n).length = n then some (v, cs.drop n) else none

/-- The text after a given character. -/
def after? (c : Char) : List Char → Option (List Char)
  | d :: cs => if d = c then some cs else none
  | []      => none

/-- The number of days of a month. -/
def daysOf (year month : Nat) : Nat :=
  if month = 2 then
    if year % 4 = 0 ∧ (year % 100 ≠ 0 ∨ year % 400 = 0) then 29 else 28
  else if month = 4 ∨ month = 6 ∨ month = 9 ∨ month = 11 then 30
  else 31

/-- The text after a date. -/
def date? (cs : List Char) : Option (List Char) := do
  let (year, cs) ← fixed? 4 cs
  let (month, cs) ← fixed? 2 (← after? '-' cs)
  let (day, cs) ← fixed? 2 (← after? '-' cs)
  if 1 ≤ month ∧ month ≤ 12 ∧ 1 ≤ day ∧ day ≤ daysOf year month then some cs else none

/-- The text after the fraction of a second, if there is one. -/
def subsecond? (cs : List Char) : Option (List Char) :=
  match cs with
  | '.' :: cs =>
    let rest := cs.dropWhile isDigit
    if rest.length = cs.length then none else some rest
  | cs        => some cs

/-- The text after a time of day. -/
def time? (cs : List Char) : Option (List Char) := do
  let (hour, cs) ← fixed? 2 cs
  let (minute, cs) ← fixed? 2 (← after? ':' cs)
  if hour ≤ 23 ∧ minute ≤ 59 then
    match cs with
    | ':' :: cs =>
      let (second, cs) ← fixed? 2 cs
      if second ≤ 60 then subsecond? cs else none
    | cs        => some cs
  else none

/-- The text after an offset from universal time, if there is one. -/
def offset? (cs : List Char) : Option (List Char) :=
  match cs with
  | []      => some []
  | c :: cs =>
    if c = 'Z' ∨ c = 'z' then some cs
    else if c = '+' ∨ c = '-' then do
      let (hour, cs) ← fixed? 2 cs
      let (minute, cs) ← fixed? 2 (← after? ':' cs)
      if hour ≤ 23 ∧ minute ≤ 59 then some cs else none
    else some (c :: cs)

/-- The text after a date with a time or without. -/
def dateTime? (cs : List Char) : Option (List Char) :=
  (date? cs).bind fun rest =>
    match rest with
    | []        => some []
    | c :: rest =>
      if c = 'T' ∨ c = 't' ∨ c = ' ' then (time? rest).bind offset? else some (c :: rest)

/-- A date, a time or both. -/
def moment? (cs : List Char) : Option Document :=
  if dateTime? cs = some [] ∨ time? cs = some [] then
    some (.map [("datetime", .text (String.ofList cs))])
  else none

/-! ### Scalars -/

/-- The value of a bare scalar. -/
def scalarOf? (cs : List Char) : Option Document :=
  if cs = ['t', 'r', 'u', 'e'] then some (.bool true)
  else if cs = ['f', 'a', 'l', 's', 'e'] then some (.bool false)
  else (integer? cs).or ((float? cs).or (moment? cs))

/-- A character that ends a bare scalar. -/
def endsScalar (c : Char) : Bool :=
  [' ', '\t', '\n', '\r', '#', ',', '=', '[', ']', '{', '}'].contains c

/-- A character with which a bare scalar goes on after blanks. -/
def resumesScalar (c : Char) : Bool :=
  !(endsScalar c || c = '.' || c = '"' || c = '\'')

/-- The bare scalar in front of a text.  Blanks belong to it where it goes on after them, as between a date
and a time. -/
def bareText : List Char → List Char
  | []      => []
  | c :: cs =>
    if isSpace c then
      if (skipSpaces cs).head?.any resumesScalar then c :: bareText cs else []
    else if endsScalar c then []
    else c :: bareText cs

/-- Reads a bare scalar. -/
def bareScalar? (cs : List Char) : Option (Document × List Char) :=
  let text := bareText cs
  (scalarOf? text).map fun d => (d, cs.drop text.length)

end ResourceQuery.Document.Toml
