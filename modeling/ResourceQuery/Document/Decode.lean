import ResourceQuery.Document
import ResourceQuery.Text.Word

/-!
# Document — decoding values and records

A decoder answers `none` when a tree has not the shape that it asks for.  A record is read from a map,
whose unknown entries are passed over and whose known entries must not repeat, or from a list that
holds the fields in order.  The two text formats differ in what they tolerate, which a `Dialect` says.
-/

namespace ResourceQuery

/-- What a text format tolerates. -/
structure Dialect where
  /-- A list may hold more items than the record that is read from it has fields. -/
  surplusItems : Bool
  /-- An entry of a map that the record has no field for must still be readable. -/
  readsUnknown : Bool
  /-- What a map with one entry may hold when it stands for the bare name of its key. -/
  emptyPayload : Document → Bool

namespace Dialect

/-- JSON: no surplus items; unknown entries may be unreadable; a name may be written as a map from it to
`null`. -/
def json : Dialect where
  surplusItems := false
  readsUnknown := false
  emptyPayload
    | .null => true
    | _     => false

/-- TOML: surplus items are passed over, unreadable or not; unknown entries must be readable; a name may
be written as a table from it to something empty. -/
def toml : Dialect where
  surplusItems := true
  readsUnknown := true
  emptyPayload
    | .list items  => items.isEmpty
    | .map entries => entries.isEmpty
    | _            => false

end Dialect

namespace Document

/-! ### Values -/

/-- A text. -/
def text? : Document → Option String
  | .text s => some s
  | _       => none

/-- A truth value. -/
def bool? : Document → Option Bool
  | .bool b => some b
  | _       => none

/-- A natural number below `2 ^ 64`. -/
def natural? : Document → Option Nat
  | .int (.ofNat n) => if n < UInt64.size then some n else none
  | _               => none

/-- A 64-bit word, as a number or as a decimal text with blanks around it. -/
def word? : Document → Option UInt64
  | .text s => Text.word? (Text.trimChars s.toList)
  | d       => d.natural?.map UInt64.ofNat

/-- A list whose items `item?` decodes. -/
def listOf? {α : Type} (item? : Document → Option α) : Document → Option (List α)
  | .list items => items.mapM item?
  | _           => none

/-- A map whose values `item?` decodes. -/
def mapOf? {α : Type} (item? : Document → Option α) : Document → Option (Entries α)
  | .map entries =>
    (entries.mapM fun entry => (item? entry.2).map fun value => (entry.1, value)).map
      Entries.ofList
  | _            => none

/-- `null`, or what `value?` decodes. -/
def nullable? {α : Type} (value? : Document → Option α) : Document → Option (Option α)
  | .null => some none
  | d     => (value? d).map some

/-- One of a set of names, bare or as the key of a map with nothing under it. -/
def name? (dialect : Dialect) : Document → Option String
  | .text s             => some s
  | .map [(key, item)]  => if dialect.emptyPayload item then some key else none
  | _                   => none

/-- A list of texts, or a comma list in one text. -/
def texts? : Document → Option (List String)
  | .text s => some (Text.commaList s)
  | d       => d.listOf? text?

/-! ### Records -/

/-- No entry that `names` does not name hinders the reading of a record. -/
def toleratesUnknown (dialect : Dialect) (names : List String) (entries : List (String × Document)) :
    Bool :=
  !dialect.readsUnknown || entries.all fun entry => names.contains entry.1 || entry.2.readable

/-- The values of named fields, in the order of the names, where they are present.  A list must hold
at least `least` items. -/
def fields? (dialect : Dialect) (names : List String) (least : Nat) :
    Document → Option (List (Option Document))
  | .map entries =>
    if toleratesUnknown dialect names entries
        && names.all fun name => (Entries.keys entries).count name ≤ 1 then
      some (names.map fun name => Entries.find? name entries)
    else none
  | .list items  =>
    if items.length < least then none
    else if !dialect.surplusItems && items.length > names.length then none
    else some ((List.range names.length).map fun i => items[i]?)
  | _            => none

/-- A field that must be present. -/
def required? {α : Type} (value? : Document → Option α) : Option Document → Option α
  | none   => none
  | some d => value? d

/-- A field that stands for `default` when it is absent. -/
def orElse? {α : Type} (default : α) (value? : Document → Option α) : Option Document → Option α
  | none   => some default
  | some d => value? d

/-- A field that may be absent or `null`. -/
def optional? {α : Type} (value? : Document → Option α) : Option Document → Option (Option α)
  | none   => some none
  | some d => d.nullable? value?

end Document

end ResourceQuery
