import ResourceQuery.Model.Error
import ResourceQuery.Model.Registry

/-!
# Model — declared types

A schema is a list of type declarations.  It is valid when every relation but `morphTo` points at a
declared type and every polymorphic relation has a discriminator; the first fault, in the order of the
declarations, is the one reported.  A valid schema is registered type by type.
-/

namespace ResourceQuery

/-- The declaration of one type. -/
structure TypeDeclaration where
  name      : String
  /-- The table, if it is not the name. -/
  table     : Option String := none
  id        : String := "id"
  /-- The configuration name of a naming convention. -/
  naming    : String := "identity"
  relations : Entries Relation := []
  deriving Inhabited

/-- A list of type declarations. -/
structure Schema where
  types : List TypeDeclaration := []
  deriving Inhabited

/-- What can be wrong with a declared relation. -/
inductive RelationFault where
  | unknownTarget (target : String)
  | missingDiscriminator
  deriving DecidableEq

/-- The text of a fault of the relation `name` on the type `typeName`. -/
def RelationFault.describe (typeName name : String) : RelationFault → String
  | .unknownTarget target =>
    "relation " ++ typeName ++ "." ++ name ++ " targets unknown type '" ++ target ++ "'"
  | .missingDiscriminator =>
    "polymorphic relation " ++ typeName ++ "." ++ name ++ " requires a morph name"

namespace TypeDeclaration

/-- The declared type, unless its naming convention is unknown. -/
def toResourceType (d : TypeDeclaration) : Except ModelError ResourceType :=
  match NamingConvention.ofName? d.naming with
  | some naming =>
    .ok
      { name      := d.name
        table     := d.table.getD d.name
        idColumn  := d.id
        naming
        relations := Entries.ofList d.relations }
  | none        => .error (.unknownNamingConvention d.naming)

end TypeDeclaration

namespace Schema

/-- The fault of a declared relation, if it has one. -/
def fault? (s : Schema) (r : Relation) : Option RelationFault :=
  if r.kind ≠ .morphTo ∧ ¬ s.types.any (fun t => t.name = r.target) then
    some (.unknownTarget r.target)
  else if r.kind.isPolymorphic ∧ r.morph.isNone then some .missingDiscriminator
  else none

/-- The first fault of a declared type. -/
def typeFault? (s : Schema) (d : TypeDeclaration) : Option String :=
  d.relations.findSome? fun (name, r) => (s.fault? r).map (RelationFault.describe d.name name)

/-- Reports the first fault of a schema. -/
def validate (s : Schema) : Except ModelError Unit :=
  match s.types.findSome? s.typeFault? with
  | some reason => .error (.invalidSchema reason)
  | none        => .ok ()

/-- Registers declarations in order up to the first that fails; the types before it stay. -/
def registerAll : List TypeDeclaration → Registry → Registry × Option ModelError
  | [],      r => (r, none)
  | d :: ds, r =>
    match d.toResourceType with
    | .ok t    => registerAll ds (r.register t)
    | .error e => (r, some e)

/-- Registers the types of a valid schema. -/
def registerInto (s : Schema) (r : Registry) : Registry × Option ModelError :=
  match s.validate with
  | .ok ()   => registerAll s.types r
  | .error e => (r, some e)

/-- A registry with the types of a valid schema. -/
def toRegistry (s : Schema) : Except ModelError Registry :=
  match s.registerInto .empty with
  | (r, none)   => .ok r
  | (_, some e) => .error e

end Schema

/-! ### Decoding -/

namespace TypeDeclaration

/-- Reads a type declaration; the name is required. -/
def ofDocument? (dialect : Dialect) (d : Document) : Option TypeDeclaration := do
  match ← d.fields? dialect ["name", "table", "id", "naming", "relations"] 1 with
  | [name, table, id, naming, relations] =>
    some
      { name      := ← Document.required? Document.text? name
        table     := ← Document.optional? Document.text? table
        id        := ← Document.orElse? "id" Document.text? id
        naming    := ← Document.orElse? "identity" Document.text? naming
        relations := ← Document.orElse? [] (Document.mapOf? (Relation.ofDocument? dialect)) relations }
  | _ => none

end TypeDeclaration

namespace Schema

/-- Reads a schema; without declarations it is empty. -/
def ofDocument? (dialect : Dialect) (d : Document) : Option Schema := do
  match ← d.fields? dialect ["types"] 0 with
  | [types] =>
    some
      { types := ← Document.orElse? [] (Document.listOf? (TypeDeclaration.ofDocument? dialect)) types }
  | _ => none

end Schema

end ResourceQuery
