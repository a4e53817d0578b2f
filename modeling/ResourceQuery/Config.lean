import ResourceQuery.Document.Toml
import ResourceQuery.Page

/-!
# Config — settings of the compiler

Settings are read from a tree or from the section `jsonapi` of a TOML text; what is not written has a
default.  The settings of a text are checked as well, and the first fault in a fixed order is the one
reported (`fault?`): the limits, the default page, the schema.
-/

namespace ResourceQuery

/-- Settings for every compiled request. -/
structure Config where
  /-- The page of collections that do not ask for one. -/
  pagination    : Option PageRequest := none
  /-- Refuse keys that cannot be resolved instead of dropping them. -/
  strictPaths   : Bool := false
  maxJoins      : Nat := 16
  maxConditions : Nat := 100
  /-- The database schema that qualifies every table. -/
  schema        : Option String := none
  deriving Inhabited

/-- What can be wrong with settings. -/
inductive ConfigFault where
  | noJoins
  | noConditions
  | emptyPages
  | emptyWindows
  | emptySchema
  deriving DecidableEq

/-- The text of a fault. -/
def ConfigFault.message : ConfigFault → String
  | .noJoins      => "jsonapi.max_joins must be > 0"
  | .noConditions => "jsonapi.max_conditions must be > 0"
  | .emptyPages   => "jsonapi.pagination.size must be > 0"
  | .emptyWindows => "jsonapi.pagination.limit must be > 0"
  | .emptySchema  => "jsonapi.schema must not be empty"

/-- Why a file gives no settings. -/
inductive ConfigError where
  /-- The text does not describe settings. -/
  | unreadable
  | invalid (fault : ConfigFault)
  deriving DecidableEq

/-- The text of an error. -/
def ConfigError.message : ConfigError → String
  | .unreadable    => "Failed to parse config"
  | .invalid fault => "Invalid config: " ++ fault.message

namespace Config

/-- The fault of a default page. -/
def pageFault? : PageRequest → Option ConfigFault
  | .numbered size _ => if size = 0 then some .emptyPages else none
  | .window limit _  => if limit = 0 then some .emptyWindows else none

/-- The first fault of the settings. -/
def fault? (c : Config) : Option ConfigFault :=
  if c.maxJoins = 0 then some .noJoins
  else if c.maxConditions = 0 then some .noConditions
  else (c.pagination.bind pageFault?).or
    (if c.schema = some "" then some .emptySchema else none)

/-- Reads settings; every field may be absent. -/
def ofDocument? (dialect : Dialect) (d : Document) : Option Config := do
  match ← d.fields? dialect
      ["pagination", "strict_paths", "max_joins", "max_conditions", "schema"] 0 with
  | [pagination, strictPaths, maxJoins, maxConditions, schema] =>
    some
      { pagination    := ← Document.optional? (PageRequest.ofDocument? dialect) pagination
        strictPaths   := ← Document.orElse? false Document.bool? strictPaths
        maxJoins      := ← Document.orElse? 16 Document.natural? maxJoins
        maxConditions := ← Document.orElse? 100 Document.natural? maxConditions
        schema        := ← Document.optional? Document.text? schema }
  | _ => none

/-- Reads the settings under `jsonapi`; without it they are the default ones. -/
def ofFile? (dialect : Dialect) (d : Document) : Option Config := do
  match ← d.fields? dialect ["jsonapi"] 0 with
  | [settings] => Document.orElse? {} (ofDocument? dialect) settings
  | _          => none

/-- The settings of a TOML text, if they have no fault. -/
def ofToml (source : String) : Except ConfigError Config :=
  match (Document.ofToml? source).bind (ofFile? .toml) with
  | none   => .error .unreadable
  | some c =>
    match c.fault? with
    | some fault => .error (.invalid fault)
    | none       => .ok c

/-- Settings as a tree. -/
def toDocument (c : Config) : Document :=
  .map
    [("pagination", .ofOption PageRequest.toDocument c.pagination),
     ("strict_paths", c.strictPaths),
     ("max_joins", c.maxJoins),
     ("max_conditions", c.maxConditions),
     ("schema", c.schema)]

end Config

end ResourceQuery
