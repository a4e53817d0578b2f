import Mathlib.Data.List.Induction
import ResourceQuery.Model.Declaration

/-!
# Model — what registering a schema leaves in the registry

Types are registered one after the other, so that a name and the index entry of a table are those of
the last type that has them (`type?_foldl_register`, `find?_tables_foldl_register`).

A schema is validated before any of its types is registered, but the naming convention of a declaration
is looked up only when its type is made.  So an invalid schema leaves the registry as it was, a schema
that succeeds leaves the last declaration of every name, and an unknown naming convention leaves the
types declared before it (`registerInto_outcome`, `not_all_or_nothing`).

* `SameLookups`: two registries answer every lookup alike; when they do after types have been registered
  is `sameLookups_foldl_register`.
* `registerAll_cases`: declarations are registered up to the first one that fails.
-/

namespace ResourceQuery

namespace Registry

/-- Every lookup on the second registry answers as it does on the first one. -/
structure SameLookups (r r' : Registry) : Prop where
  names  : r'.names = r.names
  types  : ∀ name, r'.type? name = r.type? name
  tables : ∀ table, r'.typeOfTable? table = r.typeOfTable? table

/-- The last type of a name. -/
def lastNamed? (name : String) (ts : List ResourceType) : Option ResourceType :=
  ts.findRev? fun t => t.name = name

/-- The last type of a table. -/
def lastStored? (table : String) (ts : List ResourceType) : Option ResourceType :=
  ts.findRev? fun t => t.table = table

/-- A name finds the last of the types that has it, and a table what the name of the last of the types
that has it finds. -/
structure Holds (r : Registry) (ts : List ResourceType) : Prop where
  names  : ∀ name t, lastNamed? name ts = some t → r.type? name = some t
  tables : ∀ table t, lastStored? table ts = some t → r.typeOfTable? table = r.type? t.name

/-! ### Registered lists -/

section

variable {α : Type} {p : α → Bool} {xs : List α} {x : α}

theorem findRev?_concat : (xs ++ [x]).findRev? p = if p x then some x else xs.findRev? p := by
  simp only [List.findRev?_eq_find?_reverse, List.reverse_concat, List.find?_cons]
  cases p x <;> rfl

theorem exists_findRev? (hx : x ∈ xs) (hp : p x = true) : ∃ y, xs.findRev? p = some y := by
  rw [List.findRev?_eq_find?_reverse, ← Option.isSome_iff_exists, List.find?_isSome]
  exact ⟨x, List.mem_reverse.mpr hx, hp⟩

theorem mem_of_findRev? (h : xs.findRev? p = some x) : x ∈ xs := by
  rw [List.findRev?_eq_find?_reverse] at h
  exact List.mem_reverse.mp (List.mem_of_find?_eq_some h)

end

variable {r : Registry} {ts : List ResourceType} {t : ResourceType}

/-- A declared type has a last one of its name. -/
theorem exists_lastNamed? (h : t ∈ ts) : ∃ u, lastNamed? t.name ts = some u :=
  exists_findRev? h (decide_eq_true rfl)

/-- After registrations in order, a name stands for the last type that has it, or for what it stood for
before. -/
theorem type?_foldl_register (ts : List ResourceType) (r : Registry) (name : String) :
    (ts.foldl register r).type? name = (lastNamed? name ts).or (r.type? name) := by
  induction ts using List.reverseRecOn with
  | nil => rfl
  | append_singleton ts t ih =>
      rw [List.foldl_append, List.foldl_cons, List.foldl_nil, type?_register, ih, lastNamed?,
        lastNamed?, findRev?_concat]
      by_cases h : t.name = name <;> simp [h]

theorem type?_ofList (ts : List ResourceType) (name : String) :
    (ofList ts).type? name = lastNamed? name ts := by
  rw [ofList, type?_foldl_register]
  exact Option.or_none

/-- After registrations in order, a table stands for the name of the last type stored there, or for what
it stood for before. -/
theorem find?_tables_foldl_register (ts : List ResourceType) (r : Registry) (table : String) :
    Entries.find? table (ts.foldl register r).tables =
      ((lastStored? table ts).map ResourceType.name).or (Entries.find? table r.tables) := by
  induction ts using List.reverseRecOn with
  | nil => rfl
  | append_singleton ts t ih =>
      rw [List.foldl_append, List.foldl_cons, List.foldl_nil, find?_tables_register, ih, lastStored?,
        lastStored?, findRev?_concat]
      by_cases h : t.table = table <;> simp [h]

/-- The type of a table is what the name of the last type stored there stands for. -/
theorem typeOfTable?_foldl_register {table : String}
    (hlast : lastStored? table ts = some t) :
    (ts.foldl register r).typeOfTable? table = (ts.foldl register r).type? t.name := by
  rw [typeOfTable?, find?_tables_foldl_register, hlast]
  rfl

/-- Registrations of names that are there add none. -/
theorem names_foldl_register (h : ∀ t ∈ ts, t.name ∈ r.names) :
    (ts.foldl register r).names = r.names := by
  induction ts generalizing r with
  | nil => rfl
  | cons t ts ih =>
      obtain ⟨ht, hts⟩ := List.forall_mem_cons.mp h
      have hsame : (r.register t).names = r.names := Entries.keys_insert_of_mem t ht
      rw [List.foldl_cons, ih (hsame ▸ hts), hsame]

/-- Types that are registered already leave every lookup alone when they are registered again. -/
theorem Holds.sameLookups (h : r.Holds ts) : r.SameLookups (ts.foldl register r) := by
  have htypes (name : String) : (ts.foldl register r).type? name = r.type? name := by
    rw [type?_foldl_register]
    cases hlast : lastNamed? name ts with
    | none => rw [Option.none_or]
    | some t => rw [Option.some_or, h.names name t hlast]
  refine ⟨names_foldl_register fun t ht => ?_, htypes, fun table => ?_⟩
  · obtain ⟨u, hu⟩ := exists_lastNamed? ht
    exact Entries.find?_isSome_iff.mp (Option.isSome_of_eq_some (h.names t.name u hu))
  · cases hlast : lastStored? table ts with
    | none =>
        rw [typeOfTable?, find?_tables_foldl_register, hlast, Option.map_none, Option.none_or]
        exact congrArg _ (funext htypes)
    | some t => rw [typeOfTable?_foldl_register hlast, htypes, h.tables table t hlast]

/-- Types whose registration leaves every lookup alone are registered already. -/
theorem SameLookups.holds (h : r.SameLookups (ts.foldl register r)) : r.Holds ts := by
  refine ⟨fun name t hlast => ?_, fun table t hlast => ?_⟩
  · rw [← h.types, type?_foldl_register, hlast, Option.some_or]
  · rw [← h.tables, ← h.types, typeOfTable?_foldl_register hlast]

end Registry

/-! ### Declarations -/

/-- A declaration becomes a type with its name and no relations but its own. -/
theorem TypeDeclaration.toResourceType_eq_ok {d : TypeDeclaration} {t : ResourceType}
    (h : d.toResourceType = .ok t) : t.name = d.name ∧ t.relations ⊆ d.relations := by
  rw [toResourceType] at h
  split at h <;> cases h
  exact ⟨rfl, fun e he => Entries.mem_ofList he⟩

/-- A declaration is refused for its naming convention only, if that is unknown. -/
theorem TypeDeclaration.toResourceType_eq_error {d : TypeDeclaration} {e : ModelError} :
    d.toResourceType = .error e ↔
      NamingConvention.ofName? d.naming = none ∧ e = .unknownNamingConvention d.naming := by
  rw [toResourceType]
  split
  case h_1 naming hnaming => simp [hnaming]
  case h_2 hnone => simp [hnone, eq_comm]

namespace Schema

variable {r : Registry} {ds : List TypeDeclaration} {ts : List ResourceType}

/-- The types are those that the declarations make, one by one. -/
def Makes (ds : List TypeDeclaration) (ts : List ResourceType) : Prop :=
  ds.map TypeDeclaration.toResourceType = ts.map .ok

/-- The last declaration of a name. -/
def lastDeclared? (name : String) (ds : List TypeDeclaration) : Option TypeDeclaration :=
  ds.findRev? fun d => d.name = name

/-- The last type of a name is made of the last declaration of the name. -/
theorem Makes.last (h : Makes ds ts) (name : String) :
    (lastDeclared? name ds).map TypeDeclaration.toResourceType =
      (Registry.lastNamed? name ts).map .ok := by
  rw [lastDeclared?, Registry.lastNamed?]
  induction ds using List.reverseRecOn generalizing ts with
  | nil =>
      obtain rfl : ts = [] := by simpa [Makes] using h.symm
      rfl
  | append_singleton ds d ih =>
      cases ts using List.reverseRecOn with
      | nil => simp [Makes] at h
      | append_singleton ts t =>
          rw [Makes, List.map_append, List.map_append] at h
          obtain ⟨hds, hd⟩ := List.append_inj' h rfl
          have hd : d.toResourceType = .ok t := List.singleton_inj.mp hd
          rw [Registry.findRev?_concat, Registry.findRev?_concat,
            (TypeDeclaration.toResourceType_eq_ok hd).1]
          split
          · rw [Option.map_some, Option.map_some, hd]
          · exact ih hds

/-- Declarations are registered up to the first one that fails. -/
theorem registerAll_cases (ds : List TypeDeclaration) (r : Registry) :
    (∃ ts, Makes ds ts ∧ registerAll ds r = (ts.foldl Registry.register r, none)) ∨
    ∃ before d after ts e, ds = before ++ d :: after ∧ Makes before ts ∧
      d.toResourceType = .error e ∧ registerAll ds r = (ts.foldl Registry.register r, some e) := by
  induction ds generalizing r with
  | nil => exact .inl ⟨[], rfl, rfl⟩
  | cons d ds ih =>
      rw [registerAll]
      split
      case h_1 t ht =>
        have hmakes {ds : List TypeDeclaration} {ts : List ResourceType} (h : Makes ds ts) :
            Makes (d :: ds) (t :: ts) := by rw [Makes, List.map_cons, List.map_cons, ht, h]
        rcases ih (r.register t) with
          ⟨ts, hmade, hall⟩ | ⟨before, failing, after, ts, e, rfl, hmade, hfails, hall⟩
        · exact .inl ⟨t :: ts, hmakes hmade, hall⟩
        · exact .inr ⟨d :: before, failing, after, t :: ts, e, rfl, hmakes hmade, hfails, hall⟩
      case h_2 e he => exact .inr ⟨[], d, ds, [], e, rfl, rfl, he, rfl⟩

/-- A schema leaves the registry alone if it is invalid, and otherwise its types are registered one by
one. -/
theorem registerInto_cases (s : Schema) (r : Registry) :
    (∃ reason, s.registerInto r = (r, some (.invalidSchema reason))) ∨
      s.validate = .ok () ∧ s.registerInto r = registerAll s.types r := by
  rw [registerInto, validate]
  cases s.types.findSome? s.typeFault? with
  | some reason => exact .inl ⟨reason, rfl⟩
  | none => exact .inr ⟨rfl, rfl⟩

/-- **What registering a schema does to the lookups.**  If it succeeds, every declared name finds its
last declaration.  If the schema is invalid, the registry stays as it is.  Else a declaration has an
unknown naming convention, and the types declared before it stay registered: every lookup answers as
before exactly when the registry has held them before. -/
theorem registerInto_outcome (s : Schema) (r : Registry) :
    match s.registerInto r with
    | (r', none) => ∀ name d, lastDeclared? name s.types = some d →
        ∃ t, d.toResourceType = .ok t ∧ r'.type? name = some t
    | (r', some e) =>
        ((∃ reason, e = .invalidSchema reason) ∧ r' = r) ∨
        ∃ before d after ts, s.types = before ++ d :: after ∧ Makes before ts ∧
          NamingConvention.ofName? d.naming = none ∧ e = .unknownNamingConvention d.naming ∧
          r' = ts.foldl Registry.register r ∧ (r.SameLookups r' ↔ r.Holds ts) := by
  rcases s.registerInto_cases r with ⟨reason, hinvalid⟩ | ⟨-, hvalid⟩
  · rw [hinvalid]
    exact .inl ⟨⟨reason, rfl⟩, rfl⟩
  · rw [hvalid]
    rcases registerAll_cases s.types r with
      ⟨ts, hmade, hall⟩ | ⟨before, d, after, ts, e, htypes, hmade, hfails, hall⟩
    · rw [hall]
      intro name d hlast
      have hmap := hmade.last name
      rw [hlast, Option.map_some] at hmap
      obtain ⟨t, ht, hd⟩ := Option.map_eq_some_iff.mp hmap.symm
      exact ⟨t, hd.symm, by rw [Registry.type?_foldl_register, ht, Option.some_or]⟩
    · rw [hall]
      -- only a naming convention can fail, and then the types before it are registered
      obtain ⟨hunknown, rfl⟩ := TypeDeclaration.toResourceType_eq_error.mp hfails
      exact .inr ⟨before, d, after, ts, htypes, hmade, hunknown, rfl, rfl,
        Registry.SameLookups.holds, Registry.Holds.sameLookups⟩

/-- Tags have an unknown naming convention, but the articles declared before them are registered. -/
theorem not_all_or_nothing :
    ¬ ∀ (s : Schema) (r r' : Registry) (e : ModelError), s.registerInto r = (r', some e) →
      r.SameLookups r' := by
  intro h
  have hsame := h ⟨[{ name := "articles" }, { name := "tags", naming := "kebab" }]⟩ .empty _ _ rfl
  cases hsame.names

end Schema

end ResourceQuery
