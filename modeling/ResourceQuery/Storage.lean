/-!
# Storage — failures of a database

What a database reports when it does not answer a query, sorted by kind.  A failure is passed on to
whoever asked; only a failed connection may succeed when it is tried again.
-/

namespace ResourceQuery

/-- A failure reported by a database. -/
inductive StorageError where
  | query (message : String)
  | constraint (message : String)
  | connection (message : String)
  | unsupported (operation : String)
  | internal (message : String)
  deriving DecidableEq

namespace StorageError

/-- The broad kinds of failure. -/
inductive Category where
  | query
  | infrastructure
  | unsupported
  | internal
  deriving DecidableEq

/-- The name of a category. -/
def Category.name : Category → String
  | .query          => "query"
  | .infrastructure => "infrastructure"
  | .unsupported    => "unsupported"
  | .internal       => "internal"

/-- The category of a failure. -/
def category : StorageError → Category
  | .query _ | .constraint _ => .query
  | .connection _            => .infrastructure
  | .unsupported _           => .unsupported
  | .internal _              => .internal

/-- Trying again may succeed. -/
def isTransient : StorageError → Bool
  | .connection _ => true
  | _             => false

/-- The text of a failure. -/
def message : StorageError → String
  | .query message         => "Query error: " ++ message
  | .constraint message    => "Constraint violation: " ++ message
  | .connection message    => "Connection error: " ++ message
  | .unsupported operation => "Unsupported operation: " ++ operation
  | .internal message      => "Internal error: " ++ message

end StorageError

end ResourceQuery
