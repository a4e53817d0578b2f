import ResourceQuery.Compile.Error
import ResourceQuery.Sql.Query

/-!
# Compile — stages

A stage changes a query and may fail; what it did before the failure stays.  Stages are put together
from single steps, which change the query as a whole or not at all.

* `Stage.all_cons`: the first stage that fails ends a sequence.
-/

namespace ResourceQuery

/-- A query on which stages have worked, and the failure that ended them if there was one. -/
structure Progress where
  query   : Sql.Query
  failure : Option QueryError := none

/-- The query of a progress without failure. -/
def Progress.result (p : Progress) : Except QueryError Sql.Query :=
  match p.failure with
  | none   => .ok p.query
  | some e => .error e

/-- A part of the compilation of a request. -/
abbrev Stage := Sql.Query → Progress

namespace Stage

/-- The stage that does nothing. -/
def skip : Stage :=
  fun q => ⟨q, none⟩

/-- A change that cannot fail. -/
def change (f : Sql.Query → Sql.Query) : Stage :=
  fun q => ⟨f q, none⟩

/-- A change that is made as a whole or not at all. -/
def step (f : Sql.Query → Except QueryError Sql.Query) : Stage :=
  fun q =>
    match f q with
    | .ok q'   => ⟨q', none⟩
    | .error e => ⟨q, some e⟩

/-- A step that adds to the query what does not depend on it. -/
def add {α : Type} (item : Except QueryError α) (put : Sql.Query → α → Sql.Query) : Stage :=
  step fun q => item.map (put q)

/-- One stage, and another one unless the first fails. -/
def andThen (a b : Stage) : Stage :=
  fun q =>
    match (a q).failure with
    | none   => b (a q).query
    | some _ => a q

/-- Stages one after the other, up to the first that fails. -/
def all : List Stage → Stage
  | []      => skip
  | s :: ss => andThen s (all ss)

@[simp] theorem all_nil (q : Sql.Query) : all [] q = ⟨q, none⟩ := rfl

theorem all_cons (s : Stage) (ss : List Stage) : all (s :: ss) = andThen s (all ss) := rfl

end Stage

end ResourceQuery
