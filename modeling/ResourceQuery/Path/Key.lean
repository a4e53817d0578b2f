import ResourceQuery.Text.Split

/-!
# Path — attribute keys

An attribute key is a dotted path, and after a colon possibly a path into a JSON column and after
another colon the type to read there: `author.meta:address.zip:numeric`.
-/

namespace ResourceQuery

/-- The part of an attribute key that reads inside a JSON column. -/
structure JsonAccess where
  /-- The dotted path in the JSON value. -/
  path : String
  type : Option String
  deriving DecidableEq

/-- An attribute key, cut at its first two colons. -/
structure AttributeKey where
  path : String
  json : Option JsonAccess
  deriving DecidableEq

/-- The parts of a key; an empty type is none. -/
def AttributeKey.ofText (key : String) : AttributeKey :=
  match Text.splitFirst ':' key.toList with
  | none              => ⟨key, none⟩
  | some (path, rest) =>
    match Text.splitFirst ':' rest with
    | none              => ⟨String.ofList path, some ⟨String.ofList rest, none⟩⟩
    | some (json, type) =>
      ⟨String.ofList path,
        some ⟨String.ofList json, if type.isEmpty then none else some (String.ofList type)⟩⟩

end ResourceQuery
