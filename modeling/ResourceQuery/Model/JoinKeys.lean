import ResourceQuery.Model.ResourceType

/-!
# Model — the columns that a relation joins on

The join keys of a relation between two types are the columns whose equality links their rows; names
that were not declared are filled in from the types.  Only `morphTo` has none, because its target
depends on the row (`joinKeys?_eq_none_iff`).
-/

namespace ResourceQuery

/-- The columns that link the rows of a parent and a target. -/
inductive JoinKeys where
  /-- `parent.foreignKey = target.targetKey` -/
  | belongsTo (foreignKey targetKey : String)
  /-- `parent.parentKey = target.foreignKey` -/
  | has (parentKey foreignKey : String)
  /-- `parent.parentKey = junction.foreignKey` and `junction.otherKey = target.targetKey` -/
  | through (parentKey junction foreignKey otherKey targetKey : String)
  /-- `target.idColumn = parent.parentKey` and `target.typeColumn = value` -/
  | morph (parentKey idColumn typeColumn value : String)
  deriving DecidableEq

namespace Relation

/-- The parent column that other rows refer to. -/
def parentColumn (r : Relation) (parent : ResourceType) : String :=
  r.parentKey.getD parent.idColumn

/-- The target column that other rows refer to. -/
def targetColumn (r : Relation) (target : ResourceType) : String :=
  r.targetKey.getD target.idColumn

/-- The default junction table of two tables: their names in alphabetical order. -/
def junctionTable (a b : String) : String :=
  if b < a then b ++ "_" ++ a else a ++ "_" ++ b

/-- The join keys of a relation from `parent` to `target`. -/
def joinKeys? (r : Relation) (parent target : ResourceType) : Option JoinKeys :=
  match r.kind with
  | .belongsTo =>
    some (.belongsTo (r.foreignKey.getD target.defaultForeignKey) (r.targetColumn target))
  | .hasOne | .hasMany =>
    some (.has (r.parentColumn parent) (r.foreignKey.getD parent.defaultForeignKey))
  | .belongsToMany =>
    let j := r.through.getD {}
    some (.through
      (r.parentColumn parent)
      (j.table.getD (junctionTable parent.table target.table))
      (j.foreignKey.getD (r.foreignKey.getD parent.defaultForeignKey))
      (j.otherKey.getD target.defaultForeignKey)
      (r.targetColumn target))
  | .morphOne | .morphMany =>
    let d := r.morph.getD { name := parent.singularTable }
    some (.morph (r.parentColumn parent) d.idColumnName d.typeColumnName
      (d.value.getD parent.table))
  | .morphTo => none

/-- Only a polymorphic relation has no keys to join on. -/
theorem joinKeys?_eq_none_iff (r : Relation) (parent target : ResourceType) :
    r.joinKeys? parent target = none ↔ r.kind = .morphTo := by
  unfold joinKeys?
  cases r.kind <;> simp

/-- The parent column that refers to the target row, if the parent holds it. -/
def owningForeignKey? (r : Relation) (target : ResourceType) : Option String :=
  match r.kind with
  | .belongsTo => some (r.foreignKey.getD target.defaultForeignKey)
  | .morphTo   => r.morph.map Discriminator.idColumnName
  | _          => none

/-- The target column that refers to the parent row, if the target holds it. -/
def childForeignKey? (r : Relation) (parent target : ResourceType) : Option String :=
  match r.joinKeys? parent target with
  | some (.has _ foreignKey)     => some foreignKey
  | some (.morph _ idColumn _ _) => some idColumn
  | _                            => none

end Relation

end ResourceQuery
