import ResourceQuery.Path.Resolution
import ResourceQuery.Sql.Error
import ResourceQuery.Storage

/-!
# Compile — why a request is not answered
-/

namespace ResourceQuery

/-- Why a relation is not joined. -/
inductive JoinObstacle where
  | notDeclared
  | polymorphic
  | unregisteredTarget (target : String)
  | notJoined
  deriving DecidableEq

/-- The text of an obstacle. -/
def JoinObstacle.message : JoinObstacle → String
  | .notDeclared               => "relation is not declared"
  | .polymorphic               => "polymorphic relations cannot be joined"
  | .unregisteredTarget target => "target type '" ++ target ++ "' is not registered"
  | .notJoined                 =>
    "fields may only reference relations that are filtered, sorted or grouped on"

/-- Why a request is not answered. -/
inductive QueryError where
  | unknownResourceType (name : String)
  | invalidPath (path : String) (cause : PathError)
  | notAnAttribute (key : String)
  | unsupportedRelation (resourceType relation : String) (obstacle : JoinObstacle)
  | sql (cause : SqlError)
  | storage (cause : StorageError)
  deriving DecidableEq

namespace QueryError

/-- The text of an error. -/
def message : QueryError → String
  | .unknownResourceType name                           => "Unknown resource type: " ++ name
  | .invalidPath path cause                             =>
    "Invalid path '" ++ path ++ "': " ++ cause.message
  | .notAnAttribute key                                 =>
    "Path '" ++ key ++ "' does not end in an attribute"
  | .unsupportedRelation resourceType relation obstacle =>
    "Relation '" ++ relation ++ "' on '" ++ resourceType ++ "' cannot be joined: " ++
      obstacle.message
  | .sql cause                                          => "SQL build error: " ++ cause.message
  | .storage cause                                      => "Storage error: " ++ cause.message

/-- The request is at fault, rather than the database or the library. -/
def isClientError : QueryError → Bool
  | .sql cause => cause.isTooComplex
  | .storage _ => false
  | _          => true

end QueryError

end ResourceQuery
