import ResourceQuery.Compile.Sort
import ResourceQuery.Request.Filter

/-!
# Compile — the relations that keys depend on

The keys of filters, groups and sort entries that are dotted paths depend on the relations that they
follow.  These are gathered in a tree, in which each relation stands once below its parent, in the
order in which it was first met.
-/

namespace ResourceQuery

/-- Relation names below a type, each with the names below its target. -/
inductive DependencyTree where
  | node (children : List (String × DependencyTree))

namespace DependencyTree

instance : Inhabited DependencyTree := ⟨.node []⟩

/-- The tree without relations. -/
def empty : DependencyTree := .node []

/-- The relations at the top with the trees below them. -/
def children : DependencyTree → Entries DependencyTree
  | .node cs => cs

/-- There are no relations. -/
def isEmpty (t : DependencyTree) : Bool :=
  t.children.isEmpty

/-- The tree below a relation at the top. -/
def child? (t : DependencyTree) (name : String) : Option DependencyTree :=
  Entries.find? name t.children

/-- The tree with a chain of names in it. -/
def insertPath : List String → DependencyTree → DependencyTree
  | [],      t        => t
  | n :: ns, .node cs => .node (Entries.update n (fun old => insertPath ns (old.getD empty)) cs)

mutual

/-- The number of relations in the tree. -/
def size : DependencyTree → Nat
  | .node cs => sizes cs

/-- The number of relations in a list of children. -/
def sizes : List (String × DependencyTree) → Nat
  | []           => 0
  | (_, t) :: cs => 1 + size t + sizes cs

end

/-- The tree of a list of chains. -/
def ofPaths (paths : List (List String)) : DependencyTree :=
  paths.foldl (fun t path => insertPath path t) empty

end DependencyTree

namespace Context

/-- The relations that a key follows; a key of one segment follows none. -/
def dependencies (ctx : Context) (key : String) : Except QueryError (List String) :=
  let path := (AttributeKey.ofText key).path
  if path.toList.contains '.' then do
    return (← ctx.resolveAttribute path).elim [] ResolvedPath.names
  else .ok []

/-- The relations that each key follows, or the first error. -/
def dependencyPaths (ctx : Context) : List String → Except QueryError (List (List String))
  | []          => .ok []
  | key :: keys => do return (← ctx.dependencies key) :: (← ctx.dependencyPaths keys)

/-- The tree of the relations that filter, group and sort keys follow. -/
def dependencyTree (ctx : Context) (filter : Filter) (group sort : List String) :
    Except QueryError DependencyTree := do
  return .ofPaths
    (← ctx.dependencyPaths (filter.keys ++ group ++ sort.map fun entry => (sortEntry entry).1))

end Context

end ResourceQuery
