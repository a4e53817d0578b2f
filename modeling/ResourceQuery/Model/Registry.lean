import ResourceQuery.Model.ResourceType

/-!
# Model — the registry of resource types

A registry finds a type by its name and, through an index from tables to type names, by its table.
Registering a type writes both; removing a type removes it and the index entry of its table.

* `type?_register`, `find?_tables_register`: what is found after a type has been registered.
* `type?_register_self`: the type registered last under a name is the one found.
* `type?_remove`, `find?_tables_remove`: what is found after a name has been removed.
* `type?_remove_self`: a removed name finds nothing.
-/

namespace ResourceQuery

/-- The registered types by name and the type names by table. -/
structure Registry where
  types  : Entries ResourceType := []
  tables : Entries String := []
  deriving Inhabited

namespace Registry

/-- The registry without types. -/
def empty : Registry := {}

/-- The type of a name. -/
def type? (r : Registry) (name : String) : Option ResourceType :=
  Entries.find? name r.types

/-- The type that the index gives for a table. -/
def typeOfTable? (r : Registry) (table : String) : Option ResourceType :=
  (Entries.find? table r.tables).bind r.type?

/-- The relation that a type declares under a name. -/
def relation? (r : Registry) (typeName relation : String) : Option Relation :=
  (r.type? typeName).bind fun t => t.relation? relation

/-- The names of the registered types. -/
def names (r : Registry) : List String :=
  Entries.keys r.types

/-- The number of registered types. -/
def size (r : Registry) : Nat :=
  r.types.length

/-- There are no registered types. -/
def isEmpty (r : Registry) : Bool :=
  r.types.isEmpty

/-- Registers a type, in place of one with the same name. -/
def register (r : Registry) (t : ResourceType) : Registry where
  types  := Entries.insert t.name t r.types
  tables := Entries.insert t.table t.name r.tables

/-- Removes the type of a name, together with the index entry of its table. -/
def remove (r : Registry) (name : String) : Registry :=
  match r.type? name with
  | some t => { types := Entries.erase name r.types, tables := Entries.erase t.table r.tables }
  | none   => r

/-- A registry with the types of a list, registered in order. -/
def ofList (ts : List ResourceType) : Registry :=
  ts.foldl register empty

/-- A registration changes what its own name stands for and nothing else. -/
theorem type?_register (r : Registry) (t : ResourceType) (name : String) :
    (r.register t).type? name = if t.name = name then some t else r.type? name :=
  Entries.find?_insert t.name name t r.types

theorem type?_register_self (r : Registry) (t : ResourceType) :
    (r.register t).type? t.name = some t :=
  Entries.find?_insert_self t.name t r.types

/-- A registration changes which type its own table stands for and nothing else. -/
theorem find?_tables_register (r : Registry) (t : ResourceType) (table : String) :
    Entries.find? table (r.register t).tables =
      if t.table = table then some t.name else Entries.find? table r.tables :=
  Entries.find?_insert t.table table t.name r.tables

/-- A removal takes away its own name and nothing else. -/
theorem type?_remove (r : Registry) (name other : String) :
    (r.remove name).type? other = if name = other then none else r.type? other := by
  unfold remove
  split
  case h_1 => exact Entries.find?_erase name other r.types
  case h_2 h =>
    by_cases ho : name = other
    · rw [if_pos ho, ← ho, h]
    · rw [if_neg ho]

theorem type?_remove_self (r : Registry) (name : String) : (r.remove name).type? name = none := by
  rw [type?_remove, if_pos rfl]

/-- The index entry that goes is the one of the removed type's table, whatever it leads to. -/
theorem find?_tables_remove (r : Registry) (name table : String) :
    Entries.find? table (r.remove name).tables =
      if (r.type? name).any (fun t => t.table = table) then none
      else Entries.find? table r.tables := by
  unfold remove
  split
  case h_1 t h => simpa [h] using Entries.find?_erase t.table table r.tables
  case h_2 h => simp [h]

end Registry

end ResourceQuery
