import ResourceQuery.Page
import ResourceQuery.Request.Filter

/-!
# Request — parameters

The parameters of a request: relation paths to include, fieldsets by type name or relation path, sort
and group keys, a filter and a page.  All lists and maps keep the order of the request.
-/

namespace ResourceQuery

/-- The parameters of a request. -/
structure Params where
  includes : List String := []
  fields   : Entries (List String) := []
  sort     : List String := []
  filter   : Filter := {}
  group    : List String := []
  page     : Option PageRequest := none
  deriving Inhabited

namespace Params

/-- Adds paths to include. -/
def addInclude (p : Params) (items : List String) : Params :=
  { p with includes := p.includes ++ items }

/-- Adds fields to the fieldset of a key. -/
def addFields (p : Params) (key : String) (items : List String) : Params :=
  { p with fields := Entries.update key (fun old => old.getD [] ++ items) p.fields }

/-- Adds sort keys. -/
def addSort (p : Params) (items : List String) : Params :=
  { p with sort := p.sort ++ items }

/-- Adds group keys. -/
def addGroup (p : Params) (items : List String) : Params :=
  { p with group := p.group ++ items }

/-- Reads parameters from a tree; every field may be absent, and all but the filter may be `null`. -/
def ofDocument? (dialect : Dialect) (d : Document) : Option Params := do
  match ← d.fields? dialect ["include", "fields", "sort", "filter", "group", "page"] 0 with
  | [paths, fields, sort, filter, group, page] =>
    some
      { includes := (← Document.optional? Document.texts? paths).getD []
        fields   := (← Document.optional? (Document.mapOf? Document.texts?) fields).getD []
        sort     := (← Document.optional? Document.texts? sort).getD []
        filter   := ← Document.orElse? {} Filter.ofDocument? filter
        group    := (← Document.optional? Document.texts? group).getD []
        page     := ← Document.optional? (PageRequest.ofDocument? dialect) page }
  | _ => none

end Params

end ResourceQuery
