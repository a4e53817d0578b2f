import ResourceQuery.Document.Decode
import ResourceQuery.Document.Encode

/-!
# Model — relations

A relation says how the rows of one type, the parent, are linked to the rows of another, the target.
It holds only what was declared; key and table names that were not declared follow from the two types
(`ResourceQuery.Model.JoinKeys`).
-/

namespace ResourceQuery

/-- The kinds of relation. -/
inductive RelationKind where
  /-- To-one, with the foreign key on the parent. -/
  | belongsTo
  /-- To-one, with the foreign key on the target. -/
  | hasOne
  /-- To-many, with the foreign key on the target. -/
  | hasMany
  /-- Many-to-many through a junction table. -/
  | belongsToMany
  /-- To-one, with a key and the parent's type on the target. -/
  | morphOne
  /-- To-many, with a key and the parent's type on the target. -/
  | morphMany
  /-- To-one, with a key and the target's type on the parent: the target depends on the row. -/
  | morphTo
  deriving DecidableEq, Inhabited

namespace RelationKind

/-- The name of a kind in declarations. -/
def name : RelationKind → String
  | .belongsTo     => "belongs_to"
  | .hasOne        => "has_one"
  | .hasMany       => "has_many"
  | .belongsToMany => "belongs_to_many"
  | .morphOne      => "morph_one"
  | .morphMany     => "morph_many"
  | .morphTo       => "morph_to"

/-- The kind of a declared name. -/
def ofName? : String → Option RelationKind
  | "belongs_to"      => some .belongsTo
  | "has_one"         => some .hasOne
  | "has_many"        => some .hasMany
  | "belongs_to_many" => some .belongsToMany
  | "morph_one"       => some .morphOne
  | "morph_many"      => some .morphMany
  | "morph_to"        => some .morphTo
  | _                 => none

/-- The kind of a name in either spelling, with underscores or with inner capitals. -/
def ofSpelling? : String → Option RelationKind
  | "belongsTo"     => some .belongsTo
  | "hasOne"        => some .hasOne
  | "hasMany"       => some .hasMany
  | "belongsToMany" => some .belongsToMany
  | "morphOne"      => some .morphOne
  | "morphMany"     => some .morphMany
  | "morphTo"       => some .morphTo
  | s               => ofName? s

/-- More than one related row is possible. -/
def isMany : RelationKind → Bool
  | .hasMany | .belongsToMany | .morphMany => true
  | _                                      => false

/-- The parent row holds the foreign key of a known target. -/
def isBelongsTo : RelationKind → Bool
  | .belongsTo => true
  | _          => false

/-- A type column takes part in the link. -/
def isPolymorphic : RelationKind → Bool
  | .morphOne | .morphMany | .morphTo => true
  | _                                 => false

theorem ofName?_name (k : RelationKind) : ofName? k.name = some k := by
  cases k <;> rfl

end RelationKind

/-- What was declared of a junction table. -/
structure Junction where
  table      : Option String := none
  /-- The junction column that refers to the parent. -/
  foreignKey : Option String := none
  /-- The junction column that refers to the target. -/
  otherKey   : Option String := none
  deriving DecidableEq, Inhabited

/-- What was declared of the key and type columns of a polymorphic relation. -/
structure Discriminator where
  /-- The stem of the default column names. -/
  name       : String
  idColumn   : Option String := none
  typeColumn : Option String := none
  /-- The value that stands for the parent's type. -/
  value      : Option String := none
  deriving DecidableEq, Inhabited

/-- The column that holds the key of the other row. -/
def Discriminator.idColumnName (d : Discriminator) : String :=
  d.idColumn.getD (d.name ++ "_id")

/-- The column that holds the type of the other row. -/
def Discriminator.typeColumnName (d : Discriminator) : String :=
  d.typeColumn.getD (d.name ++ "_type")

/-- What was declared of a relation. -/
structure Relation where
  kind       : RelationKind
  /-- The name of the target type. -/
  target     : String
  foreignKey : Option String := none
  parentKey  : Option String := none
  targetKey  : Option String := none
  through    : Option Junction := none
  morph      : Option Discriminator := none
  deriving DecidableEq, Inhabited

namespace Relation

/-- A to-one relation whose foreign key is on the parent. -/
def belongsTo (target : String) : Relation :=
  { kind := .belongsTo, target }

/-- A to-one relation whose foreign key is on the target. -/
def hasOne (target : String) : Relation :=
  { kind := .hasOne, target }

/-- A to-many relation whose foreign key is on the target. -/
def hasMany (target : String) : Relation :=
  { kind := .hasMany, target }

/-- A many-to-many relation through a junction with default names. -/
def belongsToMany (target : String) : Relation :=
  { kind := .belongsToMany, target, through := some {} }

/-- A polymorphic to-one relation under a discriminator name. -/
def morphOne (target name : String) : Relation :=
  { kind := .morphOne, target, morph := some { name } }

/-- A polymorphic to-many relation under a discriminator name. -/
def morphMany (target name : String) : Relation :=
  { kind := .morphMany, target, morph := some { name } }

/-- The inverse of a polymorphic relation; it names no target. -/
def morphTo (name : String) : Relation :=
  { kind := .morphTo, target := "", morph := some { name } }

/-- Sets the value that stands for the parent's type, if the relation has a discriminator. -/
def withMorphValue (r : Relation) (value : String) : Relation :=
  { r with morph := r.morph.map fun d => { d with value := some value } }

end Relation

/-! ### Decoding and encoding -/

namespace Junction

/-- Reads a junction; in a list all three fields are written. -/
def ofDocument? (dialect : Dialect) (d : Document) : Option Junction := do
  match ← d.fields? dialect ["table", "foreign_key", "other_key"] 3 with
  | [table, foreignKey, otherKey] =>
    some
      { table      := ← Document.optional? Document.text? table
        foreignKey := ← Document.optional? Document.text? foreignKey
        otherKey   := ← Document.optional? Document.text? otherKey }
  | _ => none

/-- A junction as a tree with every field. -/
def toDocument (j : Junction) : Document :=
  .map [("table", j.table), ("foreign_key", j.foreignKey), ("other_key", j.otherKey)]

end Junction

namespace Discriminator

/-- Reads a discriminator; in a list all four fields are written. -/
def ofDocument? (dialect : Dialect) (d : Document) : Option Discriminator := do
  match ← d.fields? dialect ["name", "id_column", "type_column", "value"] 4 with
  | [name, idColumn, typeColumn, value] =>
    some
      { name       := ← Document.required? Document.text? name
        idColumn   := ← Document.optional? Document.text? idColumn
        typeColumn := ← Document.optional? Document.text? typeColumn
        value      := ← Document.optional? Document.text? value }
  | _ => none

/-- A discriminator as a tree with every field. -/
def toDocument (d : Discriminator) : Document :=
  .map
    [("name", d.name), ("id_column", d.idColumn), ("type_column", d.typeColumn), ("value", d.value)]

end Discriminator

namespace Relation

/-- The field names of a relation, in the order of the list form. -/
def fieldNames : List String :=
  ["kind", "target", "foreign_key", "parent_key", "target_key", "through", "morph"]

/-- Reads a relation; kind and target are required. -/
def ofDocument? (dialect : Dialect) (d : Document) : Option Relation := do
  match ← d.fields? dialect fieldNames 2 with
  | [kind, target, foreignKey, parentKey, targetKey, through, morph] =>
    some
      { kind       := ← RelationKind.ofName? (← Document.required? (Document.name? dialect) kind)
        target     := ← Document.required? Document.text? target
        foreignKey := ← Document.optional? Document.text? foreignKey
        parentKey  := ← Document.optional? Document.text? parentKey
        targetKey  := ← Document.optional? Document.text? targetKey
        through    := ← Document.optional? (Junction.ofDocument? dialect) through
        morph      := ← Document.optional? (Discriminator.ofDocument? dialect) morph }
  | _ => none

/-- A relation as a tree with every field. -/
def toDocument (r : Relation) : Document :=
  .map
    [("kind", r.kind.name),
     ("target", r.target),
     ("foreign_key", r.foreignKey),
     ("parent_key", r.parentKey),
     ("target_key", r.targetKey),
     ("through", .ofOption Junction.toDocument r.through),
     ("morph", .ofOption Discriminator.toDocument r.morph)]

end Relation

end ResourceQuery
