/-!
# Model — what can be wrong with a model
-/

namespace ResourceQuery

/-- Why a model cannot be used. -/
inductive ModelError where
  | unknownResourceType (name : String)
  | unknownRelation (resourceType relation : String)
  | invalidSchema (reason : String)
  | unknownNamingConvention (name : String)
  deriving DecidableEq

/-- The text of a model error. -/
def ModelError.message : ModelError → String
  | .unknownResourceType name              => "Unknown resource type: " ++ name
  | .unknownRelation resourceType relation =>
    "Unknown relation " ++ relation ++ " on " ++ resourceType
  | .invalidSchema reason                  => "Invalid model schema: " ++ reason
  | .unknownNamingConvention name          => "Unknown naming convention: " ++ name

end ResourceQuery
