import ResourceQuery.Request.Params
import ResourceQuery.Text.Form

/-!
# Request — query strings

A query string is a form-encoded text after any number of question marks.  A key is a name followed by
segments in brackets, such as `filter[like][title]`; a key whose brackets do not pair up is a name as a
whole (`splitKey`).  Each pair is a parameter or is ignored (`Parameter.ofPair`), and the parameters
are applied in order.  The numbers of a page must name one kind of page completely.
-/

namespace ResourceQuery

/-- What can be wrong with a query string. -/
inductive QueryStringError where
  | invalidNumber (key value : String)
  | conflictingPagination
  | incompletePagination
  deriving DecidableEq

/-- The text of an error. -/
def QueryStringError.message : QueryStringError → String
  | .invalidNumber key value =>
    "Invalid value '" ++ value ++ "' for '" ++ key ++ "': expected a non-negative integer"
  | .conflictingPagination   =>
    "Pagination mixes page[size]/page[number] with page[limit]/page[offset]"
  | .incompletePagination    => "Pagination requires page[size] or page[limit]"

/-! ### Keys -/

namespace QueryString

/-- The segments of a text of the form `[…][…]…`; `segment` holds the characters of an open segment,
last one first. -/
def segments? : Option (List Char) → List Char → Option (List (List Char))
  | none,         []      => some []
  | none,         c :: cs => if c = '[' then segments? (some []) cs else none
  | some _,       []      => none
  | some segment, c :: cs =>
    if c = ']' then (segments? none cs).map (segment.reverse :: ·)
    else segments? (some (c :: segment)) cs

/-- The name and the segments of a key. -/
def splitKey (key : List Char) : List Char × List (List Char) :=
  match segments? none (key.dropWhile (· ≠ '[')) with
  | some segments => (key.takeWhile (· ≠ '['), segments)
  | none          => (key, [])

/-! ### Pages -/

/-- A number that describes a page. -/
inductive PagePart where
  | size
  | number
  | limit
  | offset
  deriving DecidableEq

/-- The part of a name. -/
def PagePart.ofName? : String → Option PagePart
  | "size"   => some .size
  | "number" => some .number
  | "limit"  => some .limit
  | "offset" => some .offset
  | _        => none

/-- The numbers given so far. -/
structure PageParts where
  size   : Option UInt64 := none
  number : Option UInt64 := none
  limit  : Option UInt64 := none
  offset : Option UInt64 := none

namespace PageParts

/-- Sets one of the numbers. -/
def set (p : PageParts) (part : PagePart) (n : UInt64) : PageParts :=
  match part with
  | .size   => { p with size := some n }
  | .number => { p with number := some n }
  | .limit  => { p with limit := some n }
  | .offset => { p with offset := some n }

/-- The page that the numbers describe, if any are given. -/
def toRequest? (p : PageParts) : Except QueryStringError (Option PageRequest) :=
  if (p.size.isSome || p.number.isSome) && (p.limit.isSome || p.offset.isSome) then
    .error .conflictingPagination
  else
    match p.size, p.limit with
    | some size, _          => .ok (some (.numbered size (p.number.getD 1)))
    | none,      some limit => .ok (some (.window limit (p.offset.getD 0)))
    | none,      none       =>
      if p.number.isSome || p.offset.isSome then .error .incompletePagination else .ok none

end PageParts

/-! ### Parameters -/

/-- A parameter of a query string. -/
inductive Parameter where
  | includes (items : List String)
  | sort (items : List String)
  | group (items : List String)
  | fields (key : String) (items : List String)
  | equality (key : String) (value : FilterValue)
  | typed (operator : FilterOperator) (key : String) (value : FilterValue)
  | page (part : PagePart) (n : UInt64)

/-- A filter value; the text `null` is the null. -/
def filterValue (value : String) : FilterValue :=
  if value = "null" then .null else .single value

namespace Parameter

/-- The parameter of a decoded pair, or nothing when the pair is ignored.  The value of a page part is
read even if the part is unknown. -/
def ofPair (key value : String) : Except QueryStringError (Option Parameter) :=
  let (name, segments) := splitKey key.toList
  match String.ofList name, segments.map String.ofList with
  | "include", []              => .ok (some (.includes (Text.commaList value)))
  | "sort",    []              => .ok (some (.sort (Text.commaList value)))
  | "group",   []              => .ok (some (.group (Text.commaList value)))
  | "fields",  [resource]      => .ok (some (.fields resource (Text.commaList value)))
  | "filter",  [column]        => .ok (some (.equality column (filterValue value)))
  | "filter",  [operator, column] =>
    .ok ((FilterOperator.ofName? operator).map fun op => .typed op column (filterValue value))
  | "page",    [part]          =>
    match Text.word? (Text.trimChars value.toList) with
    | some n => .ok ((PagePart.ofName? part).map fun p => .page p n)
    | none   => .error (.invalidNumber key value)
  | _,         _               => .ok none

/-- Applies a parameter to what was gathered so far. -/
def apply : Params × PageParts → Parameter → Params × PageParts
  | (p, parts), .includes items     => (p.addInclude items, parts)
  | (p, parts), .sort items         => (p.addSort items, parts)
  | (p, parts), .group items        => (p.addGroup items, parts)
  | (p, parts), .fields key items   => (p.addFields key items, parts)
  | (p, parts), .equality key value =>
    ({ p with filter := p.filter.pushEquality key value }, parts)
  | (p, parts), .typed op key value =>
    ({ p with filter := p.filter.pushTyped op key value }, parts)
  | (p, parts), .page part n        => (p, parts.set part n)

end Parameter

/-- The parameters of decoded pairs, in order, or the first error. -/
def parameters : List (String × String) → Except QueryStringError (List Parameter)
  | []                   => .ok []
  | (key, value) :: rest => do
    let parameter ← Parameter.ofPair key value
    let later ← parameters rest
    return parameter.toList ++ later

/-- The decoded pairs of a query string. -/
def pairs (query : String) : List (String × String) :=
  (Text.Form.pairs (query.toList.dropWhile (· = '?'))).map fun (key, value) =>
    (String.ofList key, String.ofList value)

end QueryString

namespace Params

/-- Reads a query string. -/
def ofQueryString (query : String) : Except QueryStringError Params := do
  let parameters ← QueryString.parameters (QueryString.pairs query)
  let (p, parts) := parameters.foldl QueryString.Parameter.apply ({}, {})
  return { p with page := ← parts.toRequest? }

end Params

end ResourceQuery
