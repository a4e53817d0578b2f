import ResourceQuery.Document.Decode
import ResourceQuery.Document.Encode

/-!
# Page — windows of a result

A page is requested by size and number, the first page being number 1, or as a window of a limit and
an offset.  Both come down to a limit and an offset that the database accepts: products that leave
the 64-bit words saturate, and both values are capped at the largest signed word (`limitOffset`).
Page number 0 is taken for the first page.
-/

namespace ResourceQuery

/-- A request for a part of a result. -/
inductive PageRequest where
  | numbered (size number : UInt64)
  | window (limit offset : UInt64)
  deriving DecidableEq

/-- Where a page stands in the whole result. -/
inductive PageMeta where
  | numbered (page pageSize rowCount pageCount : UInt64)
  | window (limit offset rowCount : UInt64)
  deriving DecidableEq

namespace PageRequest

/-- The largest limit or offset that the database accepts. -/
def maxWindow : UInt64 := 0x7FFFFFFFFFFFFFFF

/-- The largest 64-bit word. -/
def maxWord : UInt64 := 0xFFFFFFFFFFFFFFFF

/-- The product, or the largest word where the product is larger. -/
def saturatingMul (a b : UInt64) : UInt64 :=
  if a.toNat * b.toNat < UInt64.size then a * b else maxWord

/-- The limit and the offset of a page. -/
def limitOffset : PageRequest → UInt64 × UInt64
  | .numbered size number =>
    (min size maxWindow, min (saturatingMul (max number 1 - 1) size) maxWindow)
  | .window limit offset  => (min limit maxWindow, min offset maxWindow)

/-- The number of pages of `size` rows that hold `rowCount` rows; none for pages without rows. -/
def pageCount (rowCount size : UInt64) : UInt64 :=
  if size = 0 then 0
  else if rowCount % size = 0 then rowCount / size
  else rowCount / size + 1

/-- Where the page stands in a result of `rowCount` rows. -/
def metadata (p : PageRequest) (rowCount : UInt64) : PageMeta :=
  match p with
  | .numbered size number => .numbered (max number 1) size rowCount (pageCount rowCount size)
  | .window limit offset  => .window limit offset rowCount

/-! ### Decoding -/

/-- Reads a page by size and number; the number is 1 unless given. -/
def numbered? (dialect : Dialect) (d : Document) : Option PageRequest := do
  match ← d.fields? dialect ["size", "number"] 0 with
  | [size, number] =>
    some (.numbered (← Document.required? Document.word? size)
      (← Document.orElse? 1 Document.word? number))
  | _ => none

/-- Reads a window; the offset is 0 unless given. -/
def window? (dialect : Dialect) (d : Document) : Option PageRequest := do
  match ← d.fields? dialect ["limit", "offset"] 0 with
  | [limit, offset] =>
    some (.window (← Document.required? Document.word? limit)
      (← Document.orElse? 0 Document.word? offset))
  | _ => none

/-- Reads a page from a map that is compact throughout: by size and number if that succeeds, as a window
otherwise. -/
def ofDocument? (dialect : Dialect) (d : Document) : Option PageRequest :=
  match d with
  | .map _ => if d.compact then (numbered? dialect d).or (window? dialect d) else none
  | _      => none

/-! ### Encoding -/

/-- A page as a tree. -/
def toDocument : PageRequest → Document
  | .numbered size number => .map [("size", size), ("number", number)]
  | .window limit offset  => .map [("limit", limit), ("offset", offset)]

end PageRequest

/-- The place of a page as a tree. -/
def PageMeta.toDocument : PageMeta → Document
  | .numbered page pageSize rowCount pageCount =>
    .map [("page", page), ("pageSize", pageSize), ("rowCount", rowCount), ("pageCount", pageCount)]
  | .window limit offset rowCount              =>
    .map [("limit", limit), ("offset", offset), ("rowCount", rowCount)]

end ResourceQuery
