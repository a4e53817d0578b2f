import ResourceQuery.Document

/-!
# Document — how TOML tables grow

A table of a TOML document is begun by a header, is implied by a longer header, or comes from a key
with points.  What may be added to it depends on its origin.

* A header may begin a table that was only implied, and no other one.
* A key with points goes through tables that keys with points made, and ends in one.
* An array of tables grows only by its own headers, and paths go through its last table.
* Values, inline tables among them, do not grow.
* No key is written twice in a table.

When the document ends, the keys of each table are sorted.
-/

namespace ResourceQuery.Document.Toml

/-- Where a table comes from. -/
inductive Origin where
  | implied
  | dotted
  | header
  deriving DecidableEq

/-- What stands under a key. -/
inductive Node where
  | value (value : Document)
  | table (origin : Origin) (entries : List (String × Node))
  /-- An array of tables, the last one first. -/
  | tables (tables : List Node)

/-- What stands under the keys of a table. -/
abbrev Nodes := List (String × Node)

/-- Goes down a path from a table of the given origin, making the tables that are missing, and changes
the table at its end. -/
def descend (dotted : Bool) (change : Origin → Nodes → Option Nodes) :
    List String → Origin → Nodes → Option Nodes
  | [],      origin, ns => change origin ns
  | k :: ks, _,      ns =>
    match Entries.find? k ns with
    | none                           =>
      let origin := if dotted then .dotted else .implied
      (descend dotted change ks origin []).map fun sub => Entries.insert k (.table origin sub) ns
    | some (.table origin sub)       =>
      if dotted ∧ origin = .header then none
      else
        (descend dotted change ks origin sub).map fun sub =>
          Entries.insert k (.table origin sub) ns
    | some (.tables (.table origin sub :: earlier)) =>
      (descend dotted change ks origin sub).map fun sub =>
        Entries.insert k (.tables (.table origin sub :: earlier)) ns
    | some _                         => none

/-- Writes a value under a key with points. -/
def assign (path : List String) (value : Document) (ns : Nodes) : Option Nodes :=
  match path.getLast? with
  | none   => none
  | some k =>
    let parents := path.dropLast
    descend true
      (fun origin ns =>
        if ¬ parents.isEmpty ∧ origin ≠ .dotted then none
        else if (Entries.find? k ns).isSome then none
        else some (Entries.insert k (.value value) ns))
      parents .header ns

/-- Writes several values. -/
def assignAll (ns : Nodes) (assignments : List (List String × Document)) : Option Nodes :=
  assignments.foldlM (fun ns (path, value) => assign path value ns) ns

/-- A part of a document that a header begins: the path in the header, whether it begins a table of an
array, and the assignments below it. -/
structure Section where
  path        : List String
  isArray     : Bool
  assignments : List (List String × Document)

/-- Adds a table to a document. -/
def Section.addTo (s : Section) (root : Nodes) : Option Nodes :=
  match s.path.getLast? with
  | none   => none
  | some k =>
    descend false
      (fun _ ns =>
        if s.isArray then
          (assignAll [] s.assignments).bind fun current =>
            match Entries.find? k ns with
            | none                   => some (Entries.insert k (.tables [.table .header current]) ns)
            | some (.tables earlier) =>
              some (Entries.insert k (.tables (.table .header current :: earlier)) ns)
            | some _                 => none
        else
          let start := match Entries.find? k ns with
            | none                         => some []
            | some (.table .implied known) => some known
            | some _                       => none
          (start.bind fun known => assignAll known s.assignments).map fun current =>
            Entries.insert k (.table .header current) ns)
      s.path.dropLast .header root

/-- The entries in the order of their keys. -/
def sortEntries (es : List (String × Document)) : List (String × Document) :=
  es.mergeSort fun a b => !(b.1 < a.1)

mutual

/-- The tree of what stands under a key. -/
def Node.toDocument : Node → Document
  | .value d    => d
  | .table _ ns => .map (sortEntries (toEntries ns))
  | .tables ts  => .list (toItems ts).reverse

/-- The trees under the keys of a table. -/
def toEntries : List (String × Node) → List (String × Document)
  | []           => []
  | (k, n) :: ns => (k, n.toDocument) :: toEntries ns

/-- The trees of the tables of an array. -/
def toItems : List Node → List Document
  | []      => []
  | n :: ns => n.toDocument :: toItems ns

end

/-- The tree of a table. -/
def mapOfNodes (ns : Nodes) : Document :=
  .map (sortEntries (toEntries ns))

end ResourceQuery.Document.Toml
