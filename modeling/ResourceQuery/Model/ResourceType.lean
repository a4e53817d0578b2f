import ResourceQuery.Entries
import ResourceQuery.Model.Relation
import ResourceQuery.Naming

/-!
# Model — resource types

A resource type is a named entity that is stored in a table.
-/

namespace ResourceQuery

/-- A named entity backed by a table. -/
structure ResourceType where
  /-- The name that clients use. -/
  name      : String
  table     : String
  /-- The column that identifies a row. -/
  idColumn  : String := "id"
  naming    : NamingConvention := .verbatim
  relations : Entries Relation := []
  deriving Inhabited

namespace ResourceType

/-- The relation declared under a name. -/
def relation? (t : ResourceType) (name : String) : Option Relation :=
  Entries.find? name t.relations

/-- The column that stores an attribute. -/
def column (t : ResourceType) (name : String) : String :=
  t.naming.toColumn name

/-- The singular of the table name. -/
def singularTable (t : ResourceType) : String :=
  t.naming.singularize t.table

/-- The column of another table that refers to this type unless declared otherwise. -/
def defaultForeignKey (t : ResourceType) : String :=
  t.singularTable ++ "_" ++ t.idColumn

end ResourceType

end ResourceQuery
