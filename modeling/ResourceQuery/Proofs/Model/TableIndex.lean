import Mathlib.Data.List.Induction
import ResourceQuery.Model.Registry

/-!
# Model — finding types by their tables

Types are registered and removed one after the other (`Change`, `changed`).  What the index finds for
a table is always the type registered under its name.  It is a type of that table as long as no change
registers the name that the index has for the table under another table (`moves`): registering writes
the new entry and leaves the old one (`lookups_by_table`, `not_of_table`).

* `Named`: types are registered under their own names, whatever the changes.
* `IndexedAt`: the entry of a table leads to a registered type of that table; a change keeps this
  unless it moves the type (`IndexedAt.apply`).
-/

namespace ResourceQuery.Registry

/-- A change of the registered types. -/
inductive Change where
  | register (t : ResourceType)
  | remove (name : String)

/-- The registry after a change. -/
def apply (r : Registry) : Change → Registry
  | .register t  => r.register t
  | .remove name => r.remove name

/-- The registry after changes in order. -/
def changed (cs : List Change) : Registry :=
  cs.foldl apply empty

/-- The change registers the name that the index has for a table under another table. -/
def moves (r : Registry) (table : String) : Change → Bool
  | .register t => t.table ≠ table ∧ Entries.find? table r.tables = some t.name
  | .remove _   => false

variable {r : Registry} {table : String}

theorem changed_concat (cs : List Change) (c : Change) :
    changed (cs ++ [c]) = (changed cs).apply c := by
  rw [changed, changed, List.foldl_append, List.foldl_cons, List.foldl_nil]

/-- A table leads to a type by the name in its entry. -/
theorem typeOfTable?_eq_some {t : ResourceType} :
    r.typeOfTable? table = some t ↔
      ∃ name, Entries.find? table r.tables = some name ∧ r.type? name = some t :=
  Option.bind_eq_some_iff

/-! ### Names -/

/-- Types are registered under their own names. -/
def Named (r : Registry) : Prop :=
  ∀ name t, r.type? name = some t → t.name = name

/-- A change keeps each type under its own name. -/
theorem Named.apply (h : r.Named) (c : Change) : (r.apply c).Named := by
  intro name t ht
  cases c with
  | register u =>
      rw [Registry.apply, type?_register] at ht
      split at ht
      case isTrue hname =>
        obtain rfl := Option.some.inj ht
        exact hname
      case isFalse => exact h name t ht
  | remove other =>
      rw [Registry.apply, type?_remove] at ht
      split at ht
      case isTrue => cases ht
      case isFalse => exact h name t ht

/-- In every registry that changes lead to, each type stands under its own name. -/
theorem named_changed (cs : List Change) : (changed cs).Named := by
  induction cs using List.reverseRecOn with
  | nil => nofun
  | append_singleton cs c ih =>
      rw [changed_concat]
      exact ih.apply c

/-! ### The index -/

/-- The entry of a table, if it has one, leads to a registered type of that table. -/
def IndexedAt (r : Registry) (table : String) : Prop :=
  ∀ name, Entries.find? table r.tables = some name → ∃ t, r.type? name = some t ∧ t.table = table

/-- An index that is right at a table leads to a type that is stored there. -/
theorem IndexedAt.table_eq (h : r.IndexedAt table) {t : ResourceType}
    (ht : r.typeOfTable? table = some t) : t.table = table := by
  obtain ⟨name, hentry, htype⟩ := typeOfTable?_eq_some.mp ht
  obtain ⟨u, hu, htable⟩ := h name hentry
  obtain rfl := Option.some.inj (hu.symm.trans htype)
  exact htable

/-- An entry of another table than that of the registered type leads to another name. -/
theorem IndexedAt.register (h : r.IndexedAt table) {t : ResourceType}
    (hstays : r.moves table (.register t) = false) : (r.register t).IndexedAt table := by
  intro name hentry
  rw [find?_tables_register] at hentry
  split at hentry
  case isTrue htable =>
    obtain rfl := Option.some.inj hentry
    exact ⟨t, type?_register_self r t, htable⟩
  case isFalse htable =>
    obtain ⟨u, hu, hwas⟩ := h name hentry
    have hname : t.name ≠ name := by
      rintro rfl
      exact of_decide_eq_false hstays ⟨htable, hentry⟩
    exact ⟨u, by rw [type?_register, if_neg hname, hu], hwas⟩

/-- With a type goes the entry of its table, and an entry that stays leads to another name. -/
theorem IndexedAt.remove (h : r.IndexedAt table) (name : String) :
    (r.remove name).IndexedAt table := by
  intro other hentry
  rw [find?_tables_remove] at hentry
  split at hentry
  case isTrue => cases hentry
  case isFalse hkept =>
    obtain ⟨t, ht, htable⟩ := h other hentry
    have hother : name ≠ other := by
      rintro rfl
      exact hkept (by rw [ht, Option.any_some, decide_eq_true_iff, htable])
    exact ⟨t, by rw [type?_remove, if_neg hother, ht], htable⟩

/-- A change that does not move a type away from a table keeps the index right there. -/
theorem IndexedAt.apply (h : r.IndexedAt table) {c : Change} (hstays : r.moves table c = false) :
    (r.apply c).IndexedAt table := by
  cases c with
  | register t => exact h.register hstays
  | remove name => exact h.remove name

/-- What a change moves away from a table is found there, with its new table. -/
theorem typeOfTable?_of_moves {c : Change} (h : r.moves table c = true) :
    ∃ t, (r.apply c).typeOfTable? table = some t ∧ t.table ≠ table := by
  cases c with
  | remove name => cases h
  | register t =>
      obtain ⟨htable, hentry⟩ := of_decide_eq_true h
      refine ⟨t, typeOfTable?_eq_some.mpr ⟨t.name, ?_, type?_register_self r t⟩, htable⟩
      exact (find?_tables_register r t table).trans ((if_neg htable).trans hentry)

/-- The index stays right at a table as long as no change moves a type away from it, by induction on the
changes. -/
theorem indexedAt_changed {cs : List Change}
    (h : ∀ before c, before ++ [c] <+: cs → (changed before).moves table c = false) :
    (changed cs).IndexedAt table := by
  induction cs using List.reverseRecOn with
  | nil => nofun
  | append_singleton cs c ih =>
      have hbefore : (changed cs).IndexedAt table :=
        ih fun before c hpre => h before c (hpre.trans (List.prefix_append _ _))
      rw [changed_concat]
      exact hbefore.apply (h cs c List.prefix_rfl)

/-! ### Runs -/

/-- **A table finds a registered type, and one of its own until a type moves.**  After any changes,
the type found for a table is the one registered under its name.  All along it is a type of that
table exactly when no change registers the name that the index has for the table under another
table. -/
theorem lookups_by_table (cs : List Change) (table : String) :
    (∀ t, (changed cs).typeOfTable? table = some t → (changed cs).type? t.name = some t) ∧
    ((∀ before, before <+: cs →
        ∀ t, (changed before).typeOfTable? table = some t → t.table = table) ↔
      ∀ before c, before ++ [c] <+: cs → (changed before).moves table c = false) := by
  refine ⟨fun t ht => ?_, fun hown before c hpre => ?_, fun hstays before hpre t ht => ?_⟩
  · obtain ⟨name, -, htype⟩ := typeOfTable?_eq_some.mp ht
    exact named_changed cs name t htype ▸ htype
  · refine Bool.eq_false_iff.mpr fun hmoves => ?_
    obtain ⟨t, ht, htable⟩ := typeOfTable?_of_moves hmoves
    exact htable (hown _ hpre t (changed_concat before c ▸ ht))
  · have hindexed : (changed before).IndexedAt table :=
      indexedAt_changed fun _ c hbefore => hstays _ c (hbefore.trans hpre)
    exact hindexed.table_eq ht

/-- People that have moved from the table `users` to `persons` are still found for `users`. -/
theorem not_of_table : ¬ ∀ (cs : List Change) (table : String) (t : ResourceType),
    (changed cs).typeOfTable? table = some t →
      (changed cs).type? t.name = some t ∧ t.table = table := by
  intro h
  obtain ⟨-, htable⟩ := h [.register { name := "people", table := "users" },
    .register { name := "people", table := "persons" }] "users" _ rfl
  exact absurd htable (by decide)

end ResourceQuery.Registry
