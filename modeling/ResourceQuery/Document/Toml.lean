import ResourceQuery.Document.Toml.Lexical
import ResourceQuery.Document.Toml.Scalar
import ResourceQuery.Document.Toml.Table

/-!
# Document — reading TOML text

The grammar is that of TOML 1.1: inline tables may span lines and end in a comma.  A document is a list
of assignments and of sections that headers begin; what may follow what is the rule of
`ResourceQuery.Document.Toml.Table`.  Arrays and inline tables may be nested eighty deep, and a key may
have eighty parts.

Each reading function takes a number of steps that it may still take; every step consumes a
character, so the length of the text is enough (`ofToml?`).
-/

namespace ResourceQuery.Document

namespace Toml

/-- The largest number of arrays and inline tables inside each other. -/
def maxNesting : Nat := 80

/-- The text after what may surround an equals sign: spaces, and inside an array or an inline table line
ends and comments as well. -/
def skipGap? (depth : Nat) (cs : List Char) : Option (List Char) :=
  if depth = 0 then some (skipSpaces cs) else skipFiller? false cs

mutual

/-- Reads a value that stands in `depth` arrays and inline tables. -/
def value? : Nat → Nat → List Char → Option (Document × List Char)
  | 0,         _,     _  => none
  | steps + 1, depth, cs =>
    match cs with
    | []        => none
    | '"' :: _  => (string? cs).map fun (s, rest) => (.text (String.ofList s), rest)
    | '\'' :: _ => (string? cs).map fun (s, rest) => (.text (String.ofList s), rest)
    | '[' :: cs =>
      if depth < maxNesting then
        (items? steps (depth + 1) cs).map fun (items, rest) => (.list items, rest)
      else none
    | '{' :: cs =>
      if depth < maxNesting then
        (assignments? steps (depth + 1) cs).bind fun (assignments, rest) =>
          (assignAll [] assignments).map fun ns => (mapOfNodes ns, rest)
      else none
    | cs        => bareScalar? cs

/-- Reads the values of an array up to its closing bracket. -/
def items? : Nat → Nat → List Char → Option (List Document × List Char)
  | 0,         _,     _  => none
  | steps + 1, depth, cs =>
    match skipFiller? false cs with
    | none               => none
    | some (']' :: rest) => some ([], rest)
    | some cs            =>
      (value? steps depth cs).bind fun (item, rest) =>
        match skipFiller? false rest with
        | some (',' :: rest) =>
          (items? steps depth rest).map fun (items, rest) => (item :: items, rest)
        | some (']' :: rest) => some ([item], rest)
        | _                  => none

/-- Reads the assignments of an inline table up to its closing brace. -/
def assignments? : Nat → Nat → List Char → Option (List (List String × Document) × List Char)
  | 0,         _,     _  => none
  | steps + 1, depth, cs =>
    match skipFiller? false cs with
    | none               => none
    | some ('}' :: rest) => some ([], rest)
    | some cs            =>
      (assignment? steps depth cs).bind fun (assignment, rest) =>
        match skipFiller? false rest with
        | some (',' :: rest) =>
          (assignments? steps depth rest).map fun (later, rest) => (assignment :: later, rest)
        | some ('}' :: rest) => some ([assignment], rest)
        | _                  => none

/-- Reads a key, an equals sign and a value. -/
def assignment? : Nat → Nat → List Char → Option ((List String × Document) × List Char)
  | 0,         _,     _  => none
  | steps + 1, depth, cs =>
    (key? cs).bind fun (path, rest) =>
      match skipGap? depth rest with
      | some ('=' :: rest) =>
        (skipGap? depth rest).bind fun rest =>
          (value? steps depth rest).map fun (value, rest) => ((path, value), rest)
      | _                  => none

end

/-- A line of a document. -/
inductive Line where
  | header (path : List String) (isArray : Bool)
  | assignment (path : List String) (value : Document)

/-- Reads the path and the end of a header. -/
def header? (isArray : Bool) (cs : List Char) : Option (Line × List Char) :=
  match isArray, key? cs with
  | false, some (path, ']' :: rest)        => (endOfLine? false rest).map (⟨.header path false, ·⟩)
  | true,  some (path, ']' :: ']' :: rest) => (endOfLine? false rest).map (⟨.header path true, ·⟩)
  | _,     _                               => none

/-- Reads a line that is not blank. -/
def line? (cs : List Char) : Option (Line × List Char) :=
  match cs with
  | '[' :: '[' :: cs => header? true cs
  | '[' :: cs        => header? false cs
  | cs               =>
    (assignment? (2 * cs.length + 2) 0 cs).bind fun (a, rest) =>
      (endOfLine? false rest).map (⟨.assignment a.1 a.2, ·⟩)

/-- Reads all lines. -/
def lines? : Nat → List Char → Option (List Line)
  | 0,         _  => none
  | steps + 1, cs =>
    match skipFiller? false cs with
    | none    => none
    | some [] => some []
    | some cs =>
      (line? cs).bind fun (line, rest) => (lines? steps rest).map (line :: ·)

/-- The assignments before the first header, and the sections. -/
def sections : List Line → List (List String × Document) × List Section
  | []                        => ([], [])
  | .assignment path v :: ls  =>
    let (top, rest) := sections ls
    ((path, v) :: top, rest)
  | .header path isArray :: ls =>
    let (assignments, rest) := sections ls
    ([], ⟨path, isArray, assignments⟩ :: rest)

end Toml

/-- The tree of a TOML document; a byte order mark in front is passed over. -/
def ofToml? (s : String) : Option Document :=
  let cs := match s.toList with
    | '\uFEFF' :: cs => cs
    | cs             => cs
  (Toml.lines? (cs.length + 1) cs).bind fun lines =>
    let (top, sections) := Toml.sections lines
    (Toml.assignAll [] top).bind fun root =>
      (sections.foldlM (fun root (s : Toml.Section) => s.addTo root) root).map Toml.mapOfNodes

end ResourceQuery.Document
