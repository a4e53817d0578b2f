import ResourceQuery.Model.Registry

/-!
# Path — following relations

A dotted path is followed from a base type, one relation per segment.  In a relation path every segment
is a relation.  In an attribute path the last segment may be an attribute: it is one when the type
reached does not declare a relation of that name, or when it is the only segment.  A relation without a
fixed target can only come last, and its hop has no target.
-/

namespace ResourceQuery

/-- Why a path cannot be followed. -/
inductive PathError where
  | emptySegment
  | unknownRelation (resourceType segment : String)
  | unregisteredTarget (relation target : String)
  | polymorphicHop (relation : String)
  deriving DecidableEq

/-- The text of an error. -/
def PathError.message : PathError → String
  | .emptySegment                         => "Empty path segment"
  | .unknownRelation resourceType segment =>
    "Unknown relation '" ++ segment ++ "' on '" ++ resourceType ++ "'"
  | .unregisteredTarget relation target   =>
    "Relation '" ++ relation ++ "' targets unregistered type '" ++ target ++ "'"
  | .polymorphicHop relation              =>
    "Polymorphic relation '" ++ relation ++ "' has no single target type"

/-- A relation followed by a path. -/
structure Hop where
  /-- The name of the relation, which is also the alias of its join. -/
  name     : String
  relation : Relation
  parent   : ResourceType
  /-- The type reached, unless it depends on the row. -/
  target   : Option ResourceType

/-- The relations that a path follows, and the attribute at its end if it has one. -/
structure ResolvedPath where
  hops      : List Hop
  attr      : Option String

namespace ResolvedPath

/-- The names of the relations followed. -/
def names (p : ResolvedPath) : List String :=
  p.hops.map Hop.name

/-- The last relation followed. -/
def lastHop? (p : ResolvedPath) : Option Hop :=
  p.hops.getLast?

/-- Every relation followed has a fixed target. -/
def isJoinable (p : ResolvedPath) : Bool :=
  p.hops.all fun hop => hop.target.isSome

/-- The first relation without a fixed target. -/
def polymorphicHop? (p : ResolvedPath) : Option Hop :=
  p.hops.find? fun hop => hop.target.isNone

/-- The path with a relation in front. -/
def cons (hop : Hop) (p : ResolvedPath) : ResolvedPath :=
  { p with hops := hop :: p.hops }

end ResolvedPath

namespace Registry

/-- Follows segments from a type. -/
def follow (r : Registry) (allowAttribute : Bool) :
    ResourceType → List String → Except PathError ResolvedPath
  | _,       []              => .ok ⟨[], none⟩
  | current, segment :: rest =>
    match current.relation? segment with
    | none          =>
      if rest.isEmpty && allowAttribute then .ok ⟨[], some segment⟩
      else .error (.unknownRelation current.name segment)
    | some relation =>
      if relation.kind = .morphTo then
        if rest.isEmpty then .ok ⟨[⟨segment, relation, current, none⟩], none⟩
        else .error (.polymorphicHop segment)
      else
        match r.type? relation.target with
        | none        => .error (.unregisteredTarget segment relation.target)
        | some target =>
          (r.follow allowAttribute target rest).map
            (ResolvedPath.cons ⟨segment, relation, current, some target⟩)

/-- The segments of a path, none of them empty. -/
def segments (path : String) : Except PathError (List String) :=
  let pieces := Text.split '.' path
  if pieces.any String.isEmpty then .error .emptySegment else .ok pieces

/-- Follows an attribute path; a single segment is an attribute of the base type. -/
def resolveAttribute (r : Registry) (base : ResourceType) (path : String) :
    Except PathError ResolvedPath := do
  match ← segments path with
  | [name] => return ⟨[], some name⟩
  | pieces => r.follow true base pieces

/-- Follows a relation path. -/
def resolveRelations (r : Registry) (base : ResourceType) (path : String) :
    Except PathError ResolvedPath := do
  r.follow false base (← segments path)

end Registry

end ResourceQuery
