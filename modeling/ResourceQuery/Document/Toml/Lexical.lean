import ResourceQuery.Text.Word

/-!
# Document — the lexical parts of TOML

Blanks, comments, line ends, keys and strings.  A line ends in a line feed, which a carriage return may
precede.  Control characters other than the tab stand nowhere, and a carriage return only before a line
feed.  A reading function answers with what it read and the text that remains.
-/

namespace ResourceQuery.Document.Toml

open ResourceQuery.Text

/-- A space or a tab. -/
def isSpace (c : Char) : Bool :=
  c = ' ' || c = '\t'

/-- A character that comments and strings may hold within a line. -/
def isPrintable (c : Char) : Bool :=
  c = '\t' || (0x20 ≤ c.toNat && c.toNat ≠ 0x7F)

/-- The text after leading spaces and tabs. -/
def skipSpaces (cs : List Char) : List Char :=
  cs.dropWhile isSpace

/-- The text after one line end. -/
def lineFeed? : List Char → Option (List Char)
  | '\n' :: cs         => some cs
  | '\r' :: '\n' :: cs => some cs
  | _                  => none

/-- The text after spaces, line ends and comments; `comment` says that a comment is open. -/
def skipFiller? (comment : Bool) : List Char → Option (List Char)
  | []                 => some []
  | '\n' :: cs         => skipFiller? false cs
  | '\r' :: '\n' :: cs => skipFiller? false cs
  | c :: cs            =>
    if comment then if isPrintable c then skipFiller? true cs else none
    else if isSpace c then skipFiller? false cs
    else if c = '#' then skipFiller? true cs
    else some (c :: cs)

/-- The text after the rest of a line, which may hold only spaces and a comment. -/
def endOfLine? (comment : Bool) : List Char → Option (List Char)
  | []                 => some []
  | '\n' :: cs         => some cs
  | '\r' :: '\n' :: cs => some cs
  | c :: cs            =>
    if comment then if isPrintable c then endOfLine? true cs else none
    else if isSpace c then endOfLine? false cs
    else if c = '#' then endOfLine? true cs
    else none

/-! ### Escapes -/

/-- The value of `n` hexadecimal digits read after those of `acc`. -/
def hex? (acc : Nat) : Nat → List Char → Option (Nat × List Char)
  | 0,     cs      => some (acc, cs)
  | _ + 1, []      => none
  | n + 1, c :: cs => (hexDigit? c).bind fun d => hex? (16 * acc + d) n cs

/-- The character with a code, unless the code is a surrogate's or too large. -/
def scalar? (n : Nat) : Option Char :=
  if n < 0xD800 ∨ (0xDFFF < n ∧ n < 0x110000) then some (Char.ofNat n) else none

/-- The character of an escape, after its backslash. -/
def escape? : List Char → Option (Char × List Char)
  | 'b' :: cs  => some ('\x08', cs)
  | 't' :: cs  => some ('\t', cs)
  | 'n' :: cs  => some ('\n', cs)
  | 'f' :: cs  => some ('\x0C', cs)
  | 'r' :: cs  => some ('\r', cs)
  | 'e' :: cs  => some ('\x1B', cs)
  | '"' :: cs  => some ('"', cs)
  | '\\' :: cs => some ('\\', cs)
  | 'x' :: cs  => code 2 cs
  | 'u' :: cs  => code 4 cs
  | 'U' :: cs  => code 8 cs
  | _          => none
where
  /-- The character whose code is written in `n` hexadecimal digits. -/
  code (n : Nat) (cs : List Char) : Option (Char × List Char) :=
    (hex? 0 n cs).bind fun (v, rest) => (scalar? v).map fun c => (c, rest)

/-! ### Strings -/

/-- Reads a basic string after its opening quote. -/
def basic? : Nat → List Char → Option (List Char × List Char)
  | 0,         _       => none
  | _ + 1,     []      => none
  | steps + 1, c :: cs =>
    if c = '"' then some ([], cs)
    else if c = '\\' then
      (escape? cs).bind fun (e, rest) => (basic? steps rest).map fun (s, r) => (e :: s, r)
    else if isPrintable c then (basic? steps cs).map fun (s, r) => (c :: s, r)
    else none

/-- Reads a literal string after its opening quote. -/
def literal? : List Char → Option (List Char × List Char)
  | []      => none
  | c :: cs =>
    if c = '\'' then some ([], cs)
    else if isPrintable c then (literal? cs).map fun (s, r) => (c :: s, r)
    else none

/-- The text after the first line end, if it starts with one. -/
def dropFirstLineFeed (cs : List Char) : List Char :=
  (lineFeed? cs).getD cs

/-- The text after blanks and line ends. -/
def skipBlankLines : List Char → List Char
  | []                 => []
  | '\r' :: '\n' :: cs => skipBlankLines cs
  | c :: cs            => if isSpace c || c = '\n' then skipBlankLines cs else c :: cs

/-- Three quotes that close a string of several lines, with up to two more before them that belong to
it. -/
def closing? (quote : Char) (cs : List Char) : Option (List Char × List Char) :=
  let run := (cs.takeWhile (· = quote)).length
  if run < 3 then none
  else
    let extra := min (run - 3) 2
    some (List.replicate extra quote, cs.drop (extra + 3))

/-- Reads a basic string of several lines after its opening.  A backslash at the end of a line takes
the blanks and line ends after it out of the string. -/
def longBasic? : Nat → List Char → Option (List Char × List Char)
  | 0,         _       => none
  | _ + 1,     []      => none
  | steps + 1, c :: cs =>
    match closing? '"' (c :: cs) with
    | some done => some done
    | none      =>
      if c = '\\' then
        match lineFeed? (skipSpaces cs) with
        | some rest => longBasic? steps (skipBlankLines rest)
        | none      =>
          (escape? cs).bind fun (e, rest) => (longBasic? steps rest).map fun (s, r) => (e :: s, r)
      else if isPrintable c || c = '\n' || (c = '\r' && cs.head? = some '\n') then
        (longBasic? steps cs).map fun (s, r) => (c :: s, r)
      else none

/-- Reads a literal string of several lines after its opening. -/
def longLiteral? : List Char → Option (List Char × List Char)
  | []      => none
  | c :: cs =>
    match closing? '\'' (c :: cs) with
    | some done => some done
    | none      =>
      if isPrintable c || c = '\n' || (c = '\r' && cs.head? = some '\n') then
        (longLiteral? cs).map fun (s, r) => (c :: s, r)
      else none

/-- Reads a string of one line. -/
def shortString? : List Char → Option (List Char × List Char)
  | '"' :: cs  => basic? (cs.length + 1) cs
  | '\'' :: cs => literal? cs
  | _          => none

/-- Reads a string of any form. -/
def string? : List Char → Option (List Char × List Char)
  | '"' :: '"' :: '"' :: cs    => longBasic? (cs.length + 1) (dropFirstLineFeed cs)
  | '\'' :: '\'' :: '\'' :: cs => longLiteral? (dropFirstLineFeed cs)
  | cs                         => shortString? cs

/-! ### Keys -/

/-- A character of a bare key. -/
def isBare (c : Char) : Bool :=
  c.isAlphanum || c = '_' || c = '-'

/-- Reads one part of a key. -/
def keyPart? : List Char → Option (String × List Char)
  | []      => none
  | c :: cs =>
    if c = '"' ∨ c = '\'' then
      (shortString? (c :: cs)).map fun (s, rest) => (String.ofList s, rest)
    else
      let bare := (c :: cs).takeWhile isBare
      if bare.isEmpty then none else some (String.ofList bare, (c :: cs).drop bare.length)

/-- Reads at most `n` parts of a key, with points between them and spaces around the points. -/
def keyParts? : Nat → List Char → Option (List String × List Char)
  | 0,     _  => none
  | n + 1, cs =>
    (keyPart? (skipSpaces cs)).bind fun (part, rest) =>
      match skipSpaces rest with
      | '.' :: rest => (keyParts? n rest).map fun (parts, rest) => (part :: parts, rest)
      | rest        => some ([part], rest)

/-- The largest number of parts of a key. -/
def maxKeyParts : Nat := 80

/-- Reads a key and the spaces around it. -/
def key? (cs : List Char) : Option (List String × List Char) :=
  keyParts? maxKeyParts cs

end ResourceQuery.Document.Toml
