import ResourceQuery.Naming.Inflection

/-!
# Naming — attribute names and column names

A naming convention maps the attribute names that clients use to column names and back, and inflects
the words from which key names are made.  Any mapping will do.  Two conventions can be named in a
configuration: under `verbatim` attributes and columns have the same names; under `snakeCase` an attribute
`firstName` is stored in a column `first_name`, where only plain identifiers (ASCII letters, digits and
underscores) are converted.

A name is cut into words at underscores, between a lower-case and an upper-case letter, and before
the last capital of a run of capitals that a lower-case letter follows; a digit keeps the case of
what stands before it.
-/

namespace ResourceQuery

namespace Naming

/-- The case of the letters read so far in a word. -/
inductive Mode where
  | fresh
  | lower
  | upper
  deriving DecidableEq

/-- The case after one more character. -/
def Mode.after (mode : Mode) (c : Char) : Mode :=
  if c.isLower then .lower else if c.isUpper then .upper else mode

/-- The words of a run of letters and digits; `word` holds the current word, last character
first. -/
def cut (mode : Mode) (word : List Char) : List Char → List (List Char)
  | []            => if word.isEmpty then [] else [word.reverse]
  | [c]           => [(c :: word).reverse]
  | c :: d :: rest =>
    if mode.after c = .lower ∧ d.isUpper then (c :: word).reverse :: cut .fresh [] (d :: rest)
    else if mode = .upper ∧ c.isUpper ∧ d.isLower then word.reverse :: cut .fresh [c] (d :: rest)
    else cut (mode.after c) (c :: word) (d :: rest)

/-- The words of an identifier. -/
def words (cs : List Char) : List (List Char) :=
  (Text.splitOn '_' cs).flatMap fun run => if run.isEmpty then [] else cut .fresh [] run

/-- A word in lower case. -/
def lowered (word : List Char) : String :=
  String.ofList (word.map Char.toLower)

/-- A word with a capital first letter, the rest in lower case. -/
def capitalised : List Char → String
  | []      => ""
  | c :: cs => String.ofList (c.toUpper :: cs.map Char.toLower)

/-- The words in lower case with underscores between them. -/
def snakeCase (name : String) : String :=
  Text.joinWith "_" ((words name.toList).map lowered)

/-- The words run together, each but the first with a capital. -/
def camelCase (name : String) : String :=
  match words name.toList with
  | []         => ""
  | w :: later => Text.joinWith "" (lowered w :: later.map capitalised)

/-- A name made of ASCII letters, digits and underscores. -/
def isIdentifier (name : String) : Bool :=
  !name.isEmpty && name.toList.all fun c => c.isAlphanum || c = '_'

/-- The column name of an attribute in snake case; other names than identifiers are kept. -/
def snakeColumn (name : String) : String :=
  if isIdentifier name then snakeCase name else name

/-- The attribute name of a column in snake case; other names than identifiers are kept. -/
def camelAttribute (name : String) : String :=
  if isIdentifier name then camelCase name else name

end Naming

/-- How the attribute names of a type relate to its column names, and how its words are inflected. -/
structure NamingConvention where
  /-- What the convention is called. -/
  name        : String
  /-- The column name of an attribute. -/
  toColumn    : String → String
  /-- The attribute name of a column. -/
  toAttribute : String → String
  singularize : String → String := Naming.singularize
  pluralize   : String → String := Naming.pluralize

namespace NamingConvention

/-- Attributes and columns have the same names. -/
def verbatim : NamingConvention where
  name        := "identity"
  toColumn    := id
  toAttribute := id

/-- Columns are named in snake case. -/
def snakeCase : NamingConvention where
  name        := "snake_case"
  toColumn    := Naming.snakeColumn
  toAttribute := Naming.camelAttribute

instance : Inhabited NamingConvention := ⟨verbatim⟩

/-- The convention of a configuration name. -/
def ofName? : String → Option NamingConvention
  | "identity"   | "none"  => some verbatim
  | "snake_case" | "snake" => some snakeCase
  | _                      => none

/-- The convention can be named in a configuration. -/
def IsBuiltIn (convention : NamingConvention) : Prop :=
  ∃ s, ofName? s = some convention

/-- Two conventions are built in, and no other one claims to be. -/
theorem isBuiltIn_iff {convention : NamingConvention} :
    convention.IsBuiltIn ↔ convention = verbatim ∨ convention = snakeCase := by
  constructor
  · rintro ⟨s, hs⟩
    unfold ofName? at hs
    split at hs
    · exact .inl (Option.some.inj hs).symm
    · exact .inl (Option.some.inj hs).symm
    · exact .inr (Option.some.inj hs).symm
    · exact .inr (Option.some.inj hs).symm
    · cases hs
  · rintro (rfl | rfl)
    · exact ⟨"identity", rfl⟩
    · exact ⟨"snake_case", rfl⟩

theorem verbatim_ne_snakeCase : verbatim ≠ snakeCase :=
  fun h => absurd (congrArg name h) (by decide)

end NamingConvention

end ResourceQuery
