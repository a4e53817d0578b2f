import ResourceQuery.Compile.Fieldsets
import ResourceQuery.Compile.Filters
import ResourceQuery.Compile.Includes
import ResourceQuery.Compile.Joins
import ResourceQuery.Config
import ResourceQuery.Request.Params
import ResourceQuery.Sql.Statement

/-!
# Compile — from a request to a query

A request names a base type and carries parameters.  Its query is made in fixed order: the joins that
filter, group and sort keys depend on, then the filter, the groups, the order, the included relations,
the fieldsets, and last the changes that the request itself asks for.  When relations are joined and no
fieldset restricts the base type, the columns of the base table are selected, so that joined columns do
not show.
-/

namespace ResourceQuery

/-- What to fetch: which type, with which parameters, and in which shape. -/
structure Request where
  /-- The name of the base type. -/
  base       : String
  params     : Params := {}
  /-- All rows or a page of them, rather than the first one. -/
  collection : Bool := true
  /-- The alias of the base table, if it is not its name. -/
  tableAlias : Option String := none
  /-- A last change of the query. -/
  adjust     : Sql.Query → Sql.Query := id

/-- A request as a query that is not written down yet. -/
structure PreparedQuery where
  resourceType : String
  query        : Sql.Query
  /-- The page to fetch, of collections only. -/
  page         : Option PageRequest
  collection   : Bool

/-- A request as statements. -/
structure CompiledQuery where
  resourceType : String
  query        : Sql.Statement
  /-- Counts all rows, whatever page is fetched. -/
  countQuery   : Sql.Statement
  eagerLoads   : List Sql.EagerLoad

/-- The statements of a request as a tree. -/
def CompiledQuery.toDocument (c : CompiledQuery) : Document :=
  .map
    [("resource_type", c.resourceType),
     ("query", c.query.toDocument),
     ("count_query", c.countQuery.toDocument),
     ("with_related", c.eagerLoads.map Sql.EagerLoad.toDocument)]

/-- The statements of a prepared query. -/
def PreparedQuery.compile (p : PreparedQuery) : Except SqlError CompiledQuery := do
  let query ← match p.page with
    | some page => p.query.buildPage page
    | none      => p.query.build
  let countQuery ← p.query.buildCount
  return ⟨p.resourceType, query, countQuery, p.query.eagerLoads⟩

/-- Makes the queries of requests. -/
structure Compiler where
  registry : Registry
  config   : Config := {}

namespace Compiler

/-- The stage that joins the relations of a tree and then selects the base table's columns alone. -/
def dependencyStage (ctx : Context) (fields : Entries (List String)) (t : DependencyTree) : Stage :=
  if t.isEmpty then .skip
  else
    .andThen (ctx.joinStage t) <|
      if ctx.hasBaseFields fields then .skip
      else .change fun q => q.selectColumn (.all ctx.tableAlias)

/-- The stages of a request after its joins. -/
def paramStages (ctx : Context) (p : Params) : Stage :=
  .all
    [ctx.filterStage p.filter,
     ctx.groupStage p.group,
     ctx.sortStage p.sort,
     ctx.includeStage p.includes p.fields,
     ctx.fieldsStage p.fields p.includes]

/-- The context of a request for a base type. -/
def context (c : Compiler) (base : ResourceType) (tableAlias : Option String) : Context where
  registry   := c.registry
  base       := base
  tableAlias := tableAlias.getD base.table
  strict     := c.config.strictPaths

/-- The query of a base type before any stage. -/
def start (c : Compiler) (base : ResourceType) (tableAlias : Option String) : Sql.Query :=
  { Sql.Query.ofTable base.table (tableAlias.getD base.table) with
    schema        := c.config.schema
    maxJoins      := c.config.maxJoins
    maxConditions := c.config.maxConditions }

/-- The query of a request. -/
def prepare (c : Compiler) (r : Request) : Except QueryError PreparedQuery := do
  match c.registry.type? r.base with
  | none      => throw (.unknownResourceType r.base)
  | some base =>
    let ctx := c.context base r.tableAlias
    let tree ← ctx.dependencyTree r.params.filter r.params.group r.params.sort
    let stages := (dependencyStage ctx r.params.fields tree).andThen (paramStages ctx r.params)
    let query ← (stages (c.start base r.tableAlias)).result
    return {
      resourceType := r.base
      query        := r.adjust query
      page         := if r.collection then r.params.page.or c.config.pagination else none
      collection   := r.collection }

/-- The statements of a request. -/
def compile (c : Compiler) (r : Request) : Except QueryError CompiledQuery := do
  (← c.prepare r).compile.mapError .sql

end Compiler

end ResourceQuery
