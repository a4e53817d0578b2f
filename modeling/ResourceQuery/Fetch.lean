import ResourceQuery.Compile.Request

/-!
# Fetch — running a compiled request

A request is compiled and handed to an executor, which talks to the database.  A collection with a page
is fetched as a page, any other collection as a whole, and a single resource as its first row.  The
executor is not called when the request does not compile, and it is called once otherwise.
-/

namespace ResourceQuery

/-- A row as the database returns it. -/
abbrev Row := Document

/-- Rows of a page and where the page stands. -/
structure Page where
  rows       : List Row
  pagination : Option PageMeta

/-- What a fetch returns. -/
inductive Outcome where
  | one (row : Option Row)
  | many (rows : List Row)
  | page (page : Page)

/-- The rows of an outcome. -/
def Outcome.rows : Outcome → List Row
  | .one row   => row.toList
  | .many rows => rows
  | .page p    => p.rows

/-- Runs compiled queries. -/
structure Executor (m : Type → Type) where
  fetchOne  : CompiledQuery → m (Except StorageError (Option Row))
  fetchAll  : CompiledQuery → m (Except StorageError (List Row))
  fetchPage : CompiledQuery → PageRequest → m (Except StorageError Page)

namespace Executor

variable {m : Type → Type} [Monad m]

/-- Runs the statements of a prepared query in the way that it asks for. -/
def run (e : Executor m) (p : PreparedQuery) (compiled : CompiledQuery) :
    m (Except StorageError Outcome) :=
  match p.collection, p.page with
  | true,  some page => do return (← e.fetchPage compiled page).map .page
  | true,  none      => do return (← e.fetchAll compiled).map .many
  | false, _         => do return (← e.fetchOne compiled).map .one

/-- Compiles a request and runs it. -/
def fetch (e : Executor m) (c : Compiler) (r : Request) : m (Except QueryError Outcome) :=
  match c.prepare r with
  | .error err => return .error err
  | .ok p      =>
    match p.compile with
    | .error err    => return .error (.sql err)
    | .ok compiled  => do return (← e.run p compiled).mapError .storage

end Executor

end ResourceQuery
