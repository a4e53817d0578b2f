/-!
# Sql — why a query cannot be written
-/

namespace ResourceQuery

/-- Why a query cannot be written. -/
inductive SqlError where
  | tooManyConditions (count max : Nat)
  | tooManyJoins (count max : Nat)
  | placeholderMismatch (sql : String) (placeholders params : Nat)
  deriving DecidableEq

namespace SqlError

/-- The text of an error. -/
def message : SqlError → String
  | .tooManyConditions count max =>
    "Query too complex: Too many conditions: " ++ toString count ++ " (max " ++ toString max ++ ")"
  | .tooManyJoins count max =>
    "Query too complex: Too many JOINs: " ++ toString count ++ " (max " ++ toString max ++ ")"
  | .placeholderMismatch sql placeholders params =>
    "Fragment '" ++ sql ++ "' has " ++ toString placeholders ++ " placeholders but " ++
      toString params ++ " parameters"

/-- The query exceeds a size limit. -/
def isTooComplex : SqlError → Bool
  | .tooManyConditions .. | .tooManyJoins .. => true
  | .placeholderMismatch ..                  => false

end SqlError

end ResourceQuery
