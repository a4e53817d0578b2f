import ResourceQuery.Compile.Error
import ResourceQuery.Path.Key
import ResourceQuery.Sql.JsonAttribute

/-!
# Compile — what a key of a request stands for

A key is resolved from the base type of a request.  It stands for a column of the base table or of a
joined relation, or for a value inside such a column (`qualify`).  A key that cannot be resolved is an
error in strict mode and is dropped otherwise (`reject`).
-/

namespace ResourceQuery

/-- What the keys of a request are resolved against. -/
structure Context where
  registry   : Registry
  base       : ResourceType
  /-- The alias of the base table. -/
  tableAlias : String
  strict     : Bool

/-- What a key stands for. -/
inductive AttributeTarget where
  | column (column : Sql.Column)
  | json (value : Sql.JsonAttribute)
  deriving DecidableEq

/-- The column that is read. -/
def AttributeTarget.sourceColumn : AttributeTarget → Sql.Column
  | .column c => c
  | .json a   => a.column

namespace Context

/-- Fails in strict mode, yields nothing otherwise. -/
def reject {α : Type} (ctx : Context) (e : QueryError) : Except QueryError (Option α) :=
  if ctx.strict then .error e else .ok none

/-- A result of following `path`, or the rejection of the path. -/
def accept (ctx : Context) (path : String) :
    Except PathError ResolvedPath → Except QueryError (Option ResolvedPath)
  | .ok resolved => .ok (some resolved)
  | .error e     => ctx.reject (.invalidPath path e)

/-- Follows an attribute path from the base type. -/
def resolveAttribute (ctx : Context) (path : String) : Except QueryError (Option ResolvedPath) :=
  ctx.accept path (ctx.registry.resolveAttribute ctx.base path)

/-- Follows a relation path from the base type. -/
def resolveRelations (ctx : Context) (path : String) : Except QueryError (Option ResolvedPath) :=
  ctx.accept path (ctx.registry.resolveRelations ctx.base path)

/-- The type that owns the attribute of a path, and the alias of its table. -/
def owner (ctx : Context) (resolved : ResolvedPath) : ResourceType × String :=
  match resolved.lastHop? with
  | some hop =>
    match hop.target with
    | some target => (target, hop.name)
    | none        => (ctx.base, ctx.tableAlias)
  | none     => (ctx.base, ctx.tableAlias)

/-- What a key stands for, given its parsed form and the path that it follows. -/
def targetOf (ctx : Context) (key : String) (parsed : AttributeKey) (resolved : ResolvedPath) :
    Except QueryError (Option AttributeTarget) :=
  match resolved.polymorphicHop? with
  | some hop => ctx.reject (.unsupportedRelation hop.parent.name hop.name .polymorphic)
  | none     =>
    match resolved.attr with
    | none      => ctx.reject (.notAnAttribute key)
    | some name =>
      let (type, tableAlias) := ctx.owner resolved
      let column := Sql.Column.of tableAlias (type.column name)
      match parsed.json with
      | some json =>
        if json.path.isEmpty then .ok (some (.column column))
        else .ok (some (.json (.of column json.path json.type)))
      | none      => .ok (some (.column column))

/-- What a key stands for. -/
def qualify (ctx : Context) (key : String) : Except QueryError (Option AttributeTarget) := do
  let parsed := AttributeKey.ofText key
  match ← ctx.resolveAttribute parsed.path with
  | some resolved => ctx.targetOf key parsed resolved
  | none          => return none

/-- The column that a key reads. -/
def qualifyColumn (ctx : Context) (key : String) : Except QueryError (Option Sql.Column) := do
  return (← ctx.qualify key).map AttributeTarget.sourceColumn

end Context

end ResourceQuery
