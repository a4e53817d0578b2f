import ResourceQuery.Compile.Dependencies
import ResourceQuery.Model.JoinKeys

/-!
# Compile — joins

The relations of a dependency tree are joined depth first, each under its own name as alias and against
the alias of its parent; a junction table is joined before its target, under its own name.  A relation
that cannot be joined is an obstacle: in strict mode it ends the stage, otherwise it is passed over
together with everything below it.
-/

namespace ResourceQuery

open Sql (Column Join)

/-- The joins of a relation named `name` to the table of its target. -/
def JoinKeys.joins (parentAlias name table : String) : JoinKeys → List Join
  | .belongsTo foreignKey targetKey =>
    [⟨table, name, [.columns (.of parentAlias foreignKey) (.of name targetKey)]⟩]
  | .has parentKey foreignKey =>
    [⟨table, name, [.columns (.of parentAlias parentKey) (.of name foreignKey)]⟩]
  | .through parentKey junction foreignKey otherKey targetKey =>
    [⟨junction, junction, [.columns (.of parentAlias parentKey) (.of junction foreignKey)]⟩,
     ⟨table, name, [.columns (.of junction otherKey) (.of name targetKey)]⟩]
  | .morph parentKey idColumn typeColumn value =>
    [⟨table, name,
      [.columns (.of name idColumn) (.of parentAlias parentKey),
       .value (.of name typeColumn) (.text value)]⟩]

namespace Context

/-- The target of a relation of `parent` and the joins that lead to it, or what stands in the way. -/
def joinTarget (ctx : Context) (parent : ResourceType) (parentAlias name : String) :
    Except QueryError (ResourceType × List Join) :=
  let obstacle := fun o => .error (.unsupportedRelation parent.name name o)
  match parent.relation? name with
  | none          => obstacle .notDeclared
  | some relation =>
    if relation.kind = .morphTo then obstacle .polymorphic
    else
      match ctx.registry.type? relation.target with
      | none        => obstacle (.unregisteredTarget relation.target)
      | some target =>
        match relation.joinKeys? parent target with
        | some keys => .ok (target, keys.joins parentAlias name target.table)
        | none      => obstacle .polymorphic

mutual

/-- The joins of a relation and of everything below it, depth first, with obstacles in place. -/
def planRelation (ctx : Context) (parent : ResourceType) (parentAlias name : String) :
    DependencyTree → List (Except QueryError (List Join))
  | .node children =>
    match ctx.joinTarget parent parentAlias name with
    | .error e            => [.error e]
    | .ok (target, joins) => .ok joins :: ctx.planRelations target name children

/-- The joins of several relations of one parent. -/
def planRelations (ctx : Context) (parent : ResourceType) (parentAlias : String) :
    List (String × DependencyTree) → List (Except QueryError (List Join))
  | []                => []
  | (name, t) :: rest =>
    ctx.planRelation parent parentAlias name t ++ ctx.planRelations parent parentAlias rest

end

/-- The joins of a dependency tree below the base type. -/
def joinPlan (ctx : Context) (t : DependencyTree) : List (Except QueryError (List Join)) :=
  ctx.planRelations ctx.base ctx.tableAlias t.children

/-- Joins the relations of a dependency tree. -/
def joinStage (ctx : Context) (t : DependencyTree) : Stage :=
  .all ((ctx.joinPlan t).map fun
    | .ok joins => .change fun q => joins.foldl Sql.Query.join q
    | .error e  => .add (ctx.reject (α := Unit) e) fun q _ => q)

end Context

end ResourceQuery
