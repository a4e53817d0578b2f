import ResourceQuery.Compile.Request
import ResourceQuery.Model.ColumnCache

/-!
# Compile — with remembered column names

One compilation looks all its column names up in one cache, which passes from key to key and from stage to
stage (`LookUp`).  Column names are needed for what a key stands for (`recallKey`) and for the columns to load
of an included relation (`recallLoad`), so the stages behind the joins take the cache along.
-/

namespace ResourceQuery

/-- Work that looks column names up, and may fail. -/
abbrev LookUp := StateT ColumnCache (Except QueryError)

namespace LookUp

/-- Looks up the column name of an attribute. -/
def column (t : ResourceType) (name : String) : LookUp String :=
  modifyGet fun cache => cache.column t name

/-- Looks up the column names of several attributes. -/
def columns (t : ResourceType) (names : List String) : LookUp (List String) :=
  modifyGet fun cache => cache.columns t names

/-- Changes a query without a look-up. -/
def change (f : Sql.Query → Sql.Query) (q : Sql.Query) : LookUp Sql.Query :=
  return f q

/-- Adds to a query what is looked up for it. -/
def add {α : Type} (item : LookUp α) (put : Sql.Query → α → Sql.Query) (q : Sql.Query) :
    LookUp Sql.Query := do
  return put q (← item)

/-- Changes a query in several steps, up to the first that fails. -/
def all : List (Sql.Query → LookUp Sql.Query) → Sql.Query → LookUp Sql.Query
  | [],            q => return q
  | step :: steps, q => do all steps (← step q)

end LookUp

namespace Context

/-! ### What a key stands for -/

/-- What a key stands for, given its parsed form and the path that it follows. -/
def recallTarget (ctx : Context) (key : String) (parsed : AttributeKey) (resolved : ResolvedPath) :
    LookUp (Option AttributeTarget) :=
  match resolved.polymorphicHop? with
  | some hop => ctx.reject (.unsupportedRelation hop.parent.name hop.name .polymorphic)
  | none     =>
    match resolved.attr with
    | none      => ctx.reject (.notAnAttribute key)
    | some name => do
      let (type, tableAlias) := ctx.owner resolved
      let column := Sql.Column.of tableAlias (← LookUp.column type name)
      match parsed.json with
      | some json =>
        if json.path.isEmpty then return some (.column column)
        else return some (.json (.of column json.path json.type))
      | none      => return some (.column column)

/-- What a key stands for. -/
def recallKey (ctx : Context) (key : String) : LookUp (Option AttributeTarget) := do
  let parsed := AttributeKey.ofText key
  match ← ctx.resolveAttribute parsed.path with
  | some resolved => ctx.recallTarget key parsed resolved
  | none          => return none

/-- The column that a key reads. -/
def recallColumn (ctx : Context) (key : String) : LookUp (Option Sql.Column) := do
  return (← ctx.recallKey key).map AttributeTarget.sourceColumn

/-! ### Filters, groups and orders -/

/-- The conditions of a term of a filter. -/
def recallConditions (ctx : Context) (f : Filter) : FilterTerm → LookUp (List Sql.Condition)
  | .equality key value =>
    if (f.typed? .like key).isSome then return []
    else do return (← ctx.recallKey key).elim [] fun t => t.equalityConditions value
  | .typed op key value => do
    let folded := if op = .like then f.equality? key else none
    return (← ctx.recallKey key).elim [] fun t => t.typedConditions op value folded

/-- Restricts a query by a filter. -/
def recallFilter (ctx : Context) (f : Filter) : Sql.Query → LookUp Sql.Query :=
  .all (f.terms.map fun term =>
    .add (ctx.recallConditions f term) fun q conditions => conditions.foldl Sql.Query.restrict q)

/-- The term of a group key, if it stands for something. -/
def recallGroupTerm (ctx : Context) (key : String) : LookUp (Option Sql.GroupTerm) := do
  return (← ctx.recallKey key).map AttributeTarget.groupTerm

/-- Groups a query. -/
def recallGroups (ctx : Context) (group : List String) : Sql.Query → LookUp Sql.Query :=
  .all (group.map fun key =>
    .add (ctx.recallGroupTerm key) fun q term => (term.toList).foldl Sql.Query.groupBy q)

/-- The term of a sort entry, if its key stands for something. -/
def recallOrderTerm (ctx : Context) (entry : String) : LookUp (Option Sql.OrderTerm) := do
  let (key, order) := sortEntry entry
  return (← ctx.recallKey key).map (AttributeTarget.orderTerm order)

/-- Orders a query. -/
def recallOrders (ctx : Context) (sort : List String) : Sql.Query → LookUp Sql.Query :=
  .all (sort.map fun entry =>
    .add (ctx.recallOrderTerm entry) fun q term => (term.toList).foldl Sql.Query.orderBy q)

/-! ### Included relations -/

/-- The columns to load of the target of a relation for the requested fields. -/
def recallLoaded (hop : Hop) (target : ResourceType) (names : List String) : LookUp (List String) := do
  let columns := ensureFirst target.idColumn (← LookUp.columns target names)
  return match hop.relation.childForeignKey? hop.parent target with
    | some foreignKey => ensureLast foreignKey columns
    | none            => columns

/-- What to load for a path that ends in a relation, given its fieldset if there is one. -/
def recallLoadOf (path : String) (hop : Hop) (fieldset : Option (List String)) :
    LookUp Sql.EagerLoad :=
  match fieldset, hop.target with
  | some names, some target => do return ⟨path, some (← recallLoaded hop target names)⟩
  | _,          _           => return ⟨path, none⟩

/-- What to load for an included path. -/
def recallLoad (ctx : Context) (fields : Entries (List String)) (path : String) :
    LookUp (Option Sql.EagerLoad) := do
  match (← ctx.resolveRelations path).bind ResolvedPath.lastHop? with
  | some hop => return some (← recallLoadOf path hop (Entries.find? path fields))
  | none     => return none

/-- Loads included relations. -/
def recallIncludes (ctx : Context) (includes : List String) (fields : Entries (List String)) :
    Sql.Query → LookUp Sql.Query :=
  .all (includes.map fun path =>
    .add (ctx.recallLoad fields path) fun q load => (load.toList).foldl Sql.Query.load q)

/-! ### Fieldsets -/

/-- Adds a field of the base fieldset. -/
def recallBaseField (ctx : Context) (field : String) (q : Sql.Query) : LookUp Sql.Query :=
  match aggregateField? field with
  | some (function, key) => do
    match ← ctx.recallColumn key with
    | some c => ctx.project q c fun q => q.select (.aggregate function c function.name)
    | none   => return q
  | none                 => do
    match ← ctx.recallKey field with
    | some (.column c) => ctx.project q c fun q => q.selectColumn c
    | some (.json a)   => ctx.project q a.column fun q => q.selectJson a
    | none             => return q

/-- Compiles a fieldset of the base type. -/
def recallBaseFields (ctx : Context) (names includes : List String) : Sql.Query → LookUp Sql.Query :=
  .all
    (LookUp.change Sql.Query.makeDistinct :: names.map ctx.recallBaseField ++
      [LookUp.change fun q => includes.foldl ctx.addRelationKey q])

/-- Adds the fields of a joined relation. -/
def recallJoinedFields (ctx : Context) (key : String) (names : List String) :
    Sql.Query → LookUp Sql.Query :=
  .all (names.map fun name =>
    .add (ctx.recallColumn (key ++ "." ++ name)) fun q c => (c.toList).foldl Sql.Query.selectColumn q)

/-- Compiles the fieldset of a key. -/
def recallFieldset (ctx : Context) (includes : List String) (key : String) (names : List String)
    (q : Sql.Query) : LookUp Sql.Query :=
  if ctx.isBaseKey key then ctx.recallBaseFields names includes q
  else if includes.contains key then return q
  else if q.hasJoin key then ctx.recallJoinedFields key names q
  else return q

/-- Compiles all fieldsets. -/
def recallFields (ctx : Context) (fields : Entries (List String)) (includes : List String) :
    Sql.Query → LookUp Sql.Query :=
  .all (fields.map fun (key, names) => ctx.recallFieldset includes key names)

end Context

namespace Compiler

/-- The stages of a request after its joins. -/
def recallParams (ctx : Context) (p : Params) : Sql.Query → LookUp Sql.Query :=
  .all
    [ctx.recallFilter p.filter,
     ctx.recallGroups p.group,
     ctx.recallOrders p.sort,
     ctx.recallIncludes p.includes p.fields,
     ctx.recallFields p.fields p.includes]

/-- The query of a request, made with a cache of its own. -/
def prepareRecalling (c : Compiler) (r : Request) : Except QueryError PreparedQuery := do
  match c.registry.type? r.base with
  | none      => throw (.unknownResourceType r.base)
  | some base =>
    let ctx := c.context base r.tableAlias
    let tree ← ctx.dependencyTree r.params.filter r.params.group r.params.sort
    let joined ← (dependencyStage ctx r.params.fields tree (c.start base r.tableAlias)).result
    let (query, _) ← (recallParams ctx r.params joined).run {}
    return {
      resourceType := r.base
      query        := r.adjust query
      page         := if r.collection then r.params.page.or c.config.pagination else none
      collection   := r.collection }

/-- The statements of a request, made with a cache of its own. -/
def compileRecalling (c : Compiler) (r : Request) : Except QueryError CompiledQuery := do
  (← c.prepareRecalling r).compile.mapError .sql

end Compiler

end ResourceQuery
