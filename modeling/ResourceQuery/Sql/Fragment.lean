import ResourceQuery.Sql.Writer

/-!
# Sql — raw fragments

A fragment is SQL text in which each `?` is a placeholder for one parameter.  A `?` inside a quoted
identifier or a string literal is text: a double quote opens or closes an identifier unless it stands
in a literal, a single quote a literal unless it stands in an identifier.

A fragment is written from left to right, and each placeholder binds the next parameter.  The writing
fails at the first placeholder without a parameter, or at the end when parameters are left over; the
error tells how many placeholders have been read by then.
-/

namespace ResourceQuery.Sql

/-- What the characters of SQL text are part of. -/
inductive Quoting where
  | outside
  | identifier
  | literal
  deriving DecidableEq

/-- What the text after a character is part of. -/
def Quoting.next : Quoting → Char → Quoting
  | .outside,    '"'  => .identifier
  | .outside,    '\'' => .literal
  | .identifier, '"'  => .outside
  | .literal,    '\'' => .outside
  | q,           _    => q

/-- SQL text with `?` for each parameter. -/
structure Fragment where
  sql    : String
  params : List Value
  deriving Inhabited

namespace Fragment

/-- A fragment as a tree. -/
def toDocument (f : Fragment) : Document :=
  .map [("sql", f.sql), ("params", Value.listToDocument f.params)]

/-- The error of a fragment of whose placeholders so many have been read. -/
def mismatch (f : Fragment) (found : Nat) : SqlError :=
  .placeholderMismatch f.sql found f.params.length

/-- Writes the rest of a fragment, when so many placeholders have been found and `rest` are the
parameters that are left. -/
def scan (f : Fragment) (q : Quoting) (found : Nat) (rest : List Value) :
    List Char → Writer (List Char)
  | []      => if found = f.params.length then pure [] else throw (f.mismatch found)
  | c :: cs =>
    if q = .outside ∧ c = '?' then
      match rest with
      | []        => throw (f.mismatch (found + 1))
      | v :: rest => do
        let place ← Writer.place v
        let later ← f.scan q (found + 1) rest cs
        return place.toList ++ later
    else do
      let later ← f.scan (q.next c) found rest cs
      return c :: later

/-- Writes a fragment. -/
def write (f : Fragment) : Writer String := do
  let cs ← f.scan .outside 0 f.params f.sql.toList
  return String.ofList cs

/-- The fragment with `change` applied to its text. -/
def mapSql (change : String → String) (f : Fragment) : Fragment :=
  { f with sql := change f.sql }

/-- The fragment with more text and the parameters of that text. -/
def append (f : Fragment) (sql : String) (params : List Value) : Fragment :=
  ⟨f.sql ++ sql, f.params ++ params⟩

end Fragment

end ResourceQuery.Sql
