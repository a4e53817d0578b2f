import ResourceQuery.Compile.Context
import ResourceQuery.Compile.Stage
import ResourceQuery.Model.JoinKeys
import ResourceQuery.Text.Blank

/-!
# Compile — sparse fieldsets

A fieldset of the base type turns the query into a `SELECT DISTINCT` of its fields, which may be
aggregates such as `count(id)`, followed by the columns that included relations need to find their rows.
A fieldset of an included path is left to the include; one of a joined relation adds columns of that
relation; any other is ignored.
-/

namespace ResourceQuery

open Sql (Aggregate Column)

/-- An aggregate over a column, written `function(key)` without further parentheses, and its key
without blanks at the ends. -/
def aggregateField? (field : String) : Option (Aggregate × String) :=
  match Text.splitFirst '(' field.toList with
  | none              => none
  | some (name, rest) =>
    match Aggregate.ofName? (String.ofList name), Text.dropTail [')'] rest with
    | some function, some key =>
      if key.isEmpty || key.contains '(' || key.contains ')' then none
      else some (function, Text.trim (String.ofList key))
    | _,             _        => none

namespace Context

/-- The fieldset key stands for the base type. -/
def isBaseKey (ctx : Context) (key : String) : Bool :=
  key.isEmpty || key = ctx.base.name || key = ctx.tableAlias

/-- Some fieldset stands for the base type. -/
def hasBaseFields (ctx : Context) (fields : Entries (List String)) : Bool :=
  (Entries.keys fields).any ctx.isBaseKey

/-- The table of a column is in the query: it is the base table or joined. -/
def isProjectable (ctx : Context) (q : Sql.Query) (c : Column) : Except QueryError Bool :=
  match c.table with
  | none            => .ok true
  | some tableAlias =>
    if tableAlias ≠ ctx.tableAlias ∧ ¬ q.hasJoin tableAlias then do
      let _ : Option Unit ← ctx.reject (.unsupportedRelation ctx.base.name tableAlias .notJoined)
      return false
    else .ok true

/-- Adds `change` to a query that holds the table of a column. -/
def project (ctx : Context) (q : Sql.Query) (c : Column) (change : Sql.Query → Sql.Query) :
    Except QueryError Sql.Query := do
  return if ← ctx.isProjectable q c then change q else q

/-- Adds a field of the base fieldset. -/
def addBaseField (ctx : Context) (field : String) (q : Sql.Query) : Except QueryError Sql.Query :=
  match aggregateField? field with
  | some (function, key) => do
    match ← ctx.qualifyColumn key with
    | some c => ctx.project q c fun q => q.select (.aggregate function c function.name)
    | none   => return q
  | none                 => do
    match ← ctx.qualify field with
    | some (.column c) => ctx.project q c fun q => q.selectColumn c
    | some (.json a)   => ctx.project q a.column fun q => q.selectJson a
    | none             => return q

/-- The base column that an included relation needs to find its rows. -/
def relationKey? (ctx : Context) (r : Relation) : Option String :=
  match r.kind with
  | .belongsTo => (ctx.registry.type? r.target).bind r.owningForeignKey?
  | .morphTo   => r.morph.map Discriminator.idColumnName
  | _          => some (r.parentColumn ctx.base)

/-- Adds the base column that an included path needs, unless it is selected already. -/
def addRelationKey (ctx : Context) (q : Sql.Query) (path : String) : Sql.Query :=
  let first := (Text.split '.' path).headD path
  match (ctx.base.relation? first).bind ctx.relationKey? with
  | some key =>
    let c := Column.of ctx.tableAlias key
    if q.selectsColumn c then q else q.selectColumn c
  | none     => q

/-- Compiles a fieldset of the base type. -/
def baseFieldsStage (ctx : Context) (names includes : List String) : Stage :=
  .all
    (.change Sql.Query.makeDistinct ::
      names.map (fun field => .step (ctx.addBaseField field)) ++
      [.change fun q => includes.foldl ctx.addRelationKey q])

/-- Adds the fields of a joined relation. -/
def joinedFieldsStage (ctx : Context) (key : String) (names : List String) : Stage :=
  .all (names.map fun name =>
    .add (ctx.qualifyColumn (key ++ "." ++ name)) fun q c =>
      (c.toList).foldl Sql.Query.selectColumn q)

/-- Compiles the fieldset of a key. -/
def fieldsetStage (ctx : Context) (includes : List String) (key : String) (names : List String) :
    Stage :=
  fun q =>
    if ctx.isBaseKey key then ctx.baseFieldsStage names includes q
    else if includes.contains key then Stage.skip q
    else if q.hasJoin key then ctx.joinedFieldsStage key names q
    else Stage.skip q

/-- Compiles all fieldsets. -/
def fieldsStage (ctx : Context) (fields : Entries (List String)) (includes : List String) : Stage :=
  .all (fields.map fun (key, names) => ctx.fieldsetStage includes key names)

end Context

end ResourceQuery
