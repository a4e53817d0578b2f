import ResourceQuery.Entries

/-!
# Document — structured text as a tree

JSON and TOML texts are read into one kind of tree, from which declarations, configurations and
requests are decoded.  A map keeps its entries in the order of the text, repeated keys included:
whether a repeated key is an error is for the decoder to say.

A reader may meet a part that is well-formed but has no value: a number out of range, an ill-formed
character escape, a container nested too deeply.  Such a part is `unreadable`.  It does no harm where
nobody looks, and no decoder accepts it.
-/

namespace ResourceQuery

/-- A tree of values. -/
inductive Document where
  | null
  | bool (value : Bool)
  | int (value : Int)
  | float (value : Float)
  | text (value : String)
  | list (items : List Document)
  | map (entries : List (String × Document))
  | unreadable
  deriving Inhabited

namespace Document

mutual

/-- `p` holds of every part of the tree that is neither a list nor a map. -/
def allLeaves (p : Document → Bool) : Document → Bool
  | .list items  => allItems p items
  | .map entries => allEntries p entries
  | d            => p d

/-- `allLeaves` of each item. -/
def allItems (p : Document → Bool) : List Document → Bool
  | []            => true
  | item :: items => item.allLeaves p && allItems p items

/-- `allLeaves` of each value. -/
def allEntries (p : Document → Bool) : List (String × Document) → Bool
  | []                   => true
  | (_, item) :: entries => item.allLeaves p && allEntries p entries

end

/-- No part of the tree is unreadable. -/
def readable : Document → Bool :=
  allLeaves fun
    | .unreadable => false
    | _           => true

/-- No part of the tree is unreadable, and each whole number fits 64 bits, with a sign or without. -/
def compact : Document → Bool :=
  allLeaves fun
    | .unreadable => false
    | .int n      => -Int.ofNat (Nat.pow 2 63) ≤ n && n < Int.ofNat UInt64.size
    | _           => true

mutual

/-- The tree with the entries of each map written one after the other, so that a repeated key keeps
its first place and its last value. -/
def merged : Document → Document
  | .list items  => .list (mergedItems items)
  | .map entries => .map (Entries.ofList (mergedEntries entries))
  | d            => d

/-- `merged` on each item. -/
def mergedItems : List Document → List Document
  | []            => []
  | item :: items => item.merged :: mergedItems items

/-- `merged` on each value. -/
def mergedEntries : List (String × Document) → List (String × Document)
  | []                    => []
  | (key, item) :: entries => (key, item.merged) :: mergedEntries entries

end

/-- The value under a key of a map. -/
def field? (key : String) : Document → Option Document
  | .map entries => Entries.find? key entries
  | _            => none

end Document

end ResourceQuery
