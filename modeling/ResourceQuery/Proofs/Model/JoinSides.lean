import ResourceQuery.Model.JoinKeys
import ResourceQuery.Path.Resolution

/-!
# Model — the columns that join keys match

The keys of a relation match a column of its parent's rows with a column of its target's rows,
directly or through a junction table (`JoinKeys.parentSide`, `JoinKeys.targetSide`, `Hop.Matches`).
On the parent's side it is the foreign key of a `belongsTo` relation, and the column that other rows
refer to otherwise (`parentSide_eq`).  On the target's side it is the column that `childForeignKey?`
tells, except for the two kinds of relation whose target rows do not refer to the parent
(`childForeignKey?_eq`).
-/

namespace ResourceQuery

namespace JoinKeys

/-- The column of the parent's rows that is matched. -/
def parentSide : JoinKeys → String
  | .belongsTo foreignKey _    => foreignKey
  | .has parentKey _           => parentKey
  | .through parentKey _ _ _ _ => parentKey
  | .morph parentKey _ _ _     => parentKey

/-- The column of the target's rows that is matched. -/
def targetSide : JoinKeys → String
  | .belongsTo _ targetKey     => targetKey
  | .has _ foreignKey          => foreignKey
  | .through _ _ _ _ targetKey => targetKey
  | .morph _ idColumn _ _      => idColumn

end JoinKeys

namespace Relation

variable {r : Relation} {parent target : ResourceType} {keys : JoinKeys}

/-- The parent stands with its foreign key to the target if it belongs to it, and with its own column
otherwise. -/
theorem parentSide_eq (h : r.joinKeys? parent target = some keys) :
    keys.parentSide =
      if r.kind = .belongsTo then r.foreignKey.getD target.defaultForeignKey
      else r.parentColumn parent := by
  rw [joinKeys?] at h
  cases hkind : r.kind <;> rw [hkind] at h <;> cases h <;> rfl

/-- A child has a foreign key unless the parent holds it or a junction table does. -/
theorem childForeignKey?_eq (h : r.joinKeys? parent target = some keys) :
    r.childForeignKey? parent target =
      if r.kind = .belongsTo ∨ r.kind = .belongsToMany then none else some keys.targetSide := by
  rw [childForeignKey?, h]
  rw [joinKeys?] at h
  cases hkind : r.kind <;> rw [hkind] at h <;> cases h <;> rfl

end Relation

/-- The rows that a relation is followed from are matched with rows of `target` by the keys. -/
structure Hop.Matches (hop : Hop) (target : ResourceType) (keys : JoinKeys) : Prop where
  reached : hop.target = some target
  linked  : hop.relation.joinKeys? hop.parent target = some keys

end ResourceQuery
