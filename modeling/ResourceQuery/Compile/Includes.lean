import ResourceQuery.Compile.Context
import ResourceQuery.Compile.Stage
import ResourceQuery.Model.JoinKeys

/-!
# Compile — included relations

Each included path that can be followed is loaded along with the rows.  A fieldset under the path
restricts the columns that are loaded; the target's id and the column that refers to the parent row are
added to them.
-/

namespace ResourceQuery

/-- `item` in front of a list that does not hold it. -/
def ensureFirst (item : String) (items : List String) : List String :=
  if items.contains item then items else item :: items

/-- `item` at the end of a list that does not hold it. -/
def ensureLast (item : String) (items : List String) : List String :=
  if items.contains item then items else items ++ [item]

/-- The columns to load of the target of a relation for the requested fields. -/
def Hop.columns (hop : Hop) (target : ResourceType) (names : List String) : List String :=
  let columns := ensureFirst target.idColumn (names.map target.column)
  match hop.relation.childForeignKey? hop.parent target with
  | some foreignKey => ensureLast foreignKey columns
  | none            => columns

namespace Context

/-- What to load for a path that ends in a relation, given its fieldset if there is one. -/
def loadOf (path : String) (hop : Hop) (fieldset : Option (List String)) : Sql.EagerLoad :=
  match fieldset, hop.target with
  | some names, some target => ⟨path, some (hop.columns target names)⟩
  | _,          _           => ⟨path, none⟩

/-- What to load for an included path. -/
def eagerLoad? (ctx : Context) (fields : Entries (List String)) (path : String) :
    Except QueryError (Option Sql.EagerLoad) := do
  return ((← ctx.resolveRelations path).bind ResolvedPath.lastHop?).map fun hop =>
    loadOf path hop (Entries.find? path fields)

/-- Loads included relations. -/
def includeStage (ctx : Context) (includes : List String) (fields : Entries (List String)) :
    Stage :=
  .all (includes.map fun path =>
    .add (ctx.eagerLoad? fields path) fun q load => (load.toList).foldl Sql.Query.load q)

end Context

end ResourceQuery
