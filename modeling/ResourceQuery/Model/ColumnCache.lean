import ResourceQuery.Model.Registry

/-!
# Model — remembered column names

Column names are looked up by type name and attribute name and computed at the first look-up.

* `Tells.column`: a cache that tells the column names of a type still does after a look-up.
* `columns_eq`: what is looked up is computed or was computed before, and is the same.
* `Reached.tells`: after any look-ups for types of a registry, what is remembered for one of them are its
  column names.
-/

namespace ResourceQuery

/-- The column names computed so far. -/
structure ColumnCache where
  entries : List ((String × String) × String) := []
  deriving Inhabited

namespace ColumnCache

/-- The remembered column name of a type name and an attribute name. -/
def find? (c : ColumnCache) (key : String × String) : Option String :=
  (c.entries.find? fun (k, _) => k = key).map Prod.snd

/-- The column name of an attribute, remembered from now on. -/
def column (c : ColumnCache) (t : ResourceType) (name : String) : String × ColumnCache :=
  match c.find? (t.name, name) with
  | some column => (column, c)
  | none        => (t.column name, ⟨c.entries ++ [((t.name, name), t.column name)]⟩)

/-- The column names of several attributes. -/
def columns (c : ColumnCache) (t : ResourceType) : List String → List String × ColumnCache
  | []            => ([], c)
  | name :: names =>
    let (column, c) := c.column t name
    let (rest, c) := c.columns t names
    (column :: rest, c)

/-- The number of remembered column names. -/
def size (c : ColumnCache) : Nat :=
  c.entries.length

/-- What is found with a new entry behind the others, which come first. -/
theorem find?_concat (c : ColumnCache) (key other : String × String) (column : String) :
    find? ⟨c.entries ++ [(key, column)]⟩ other =
      (c.find? other).or (if key = other then some column else none) := by
  rw [find?, List.find?_append, find?]
  cases c.entries.find? fun (k, _) => k = other with
  | some entry => rfl
  | none => by_cases h : key = other <;> simp [h]

/-- What is remembered for the type are its column names. -/
def Tells (c : ColumnCache) (t : ResourceType) : Prop :=
  ∀ name column, c.find? (t.name, name) = some column → column = t.column name

variable {c : ColumnCache} {t u : ResourceType}

theorem tells_empty (t : ResourceType) : Tells {} t :=
  nofun

/-- A cache that tells the names of a type answers as the type does. -/
theorem column_eq (h : c.Tells t) (name : String) : (c.column t name).1 = t.column name := by
  rw [column]
  split
  case h_1 found => exact h name _ found
  case h_2 => rfl

/-- Types with the same name have to have the same columns. -/
theorem Tells.column (h : c.Tells t) (hsame : u.name = t.name → u.naming = t.naming)
    (name : String) : (c.column u name).2.Tells t := by
  rw [ColumnCache.column]
  split
  case h_1 => exact h
  case h_2 =>
    intro other column hfound
    rw [find?_concat, Option.or_eq_some_iff] at hfound
    rcases hfound with hold | ⟨-, hnew⟩
    · exact h other column hold
    · obtain ⟨hkey, hcolumn⟩ := Option.ite_none_right_eq_some.mp hnew
      obtain ⟨hname, rfl⟩ := Prod.mk.inj hkey
      rw [← Option.some.inj hcolumn, ResourceType.column, ResourceType.column, hsame hname]

/-- What is looked up is what the naming of the type gives. -/
theorem columns_eq (h : c.Tells t) (names : List String) :
    (c.columns t names).1 = names.map t.column := by
  induction names generalizing c with
  | nil => rfl
  | cons name names ih =>
      rw [columns, List.map_cons, ← column_eq h name, ← ih (h.column (fun _ => rfl) name)]

/-- The caches that look-ups for types of a registry lead to. -/
inductive Reached (r : Registry) : ColumnCache → Prop where
  | empty : Reached r {}
  | column {c : ColumnCache} {t : ResourceType} (before : Reached r c)
      (registered : r.type? t.name = some t) (name : String) : Reached r (c.column t name).2

/-- A cache that has been reached in a registry tells the names of the types that are registered there. -/
theorem Reached.tells {r : Registry} (h : Reached r c) (registered : r.type? t.name = some t) :
    c.Tells t := by
  induction h with
  | empty => exact tells_empty t
  | column _ other name ih =>
      refine ih.column (fun hname => ?_) name
      rw [hname] at other
      rw [Option.some.inj (other.symm.trans registered)]

end ColumnCache

end ResourceQuery
