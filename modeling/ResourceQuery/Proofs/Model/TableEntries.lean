import ResourceQuery.Proofs.Model.TableIndex

/-!
# Model — which tables find a type

The entry that the index has for a table is written when a type of the table is registered.  It goes
when a registered type of the table is removed, whether the entry leads to that type or to another one.
So the entry is that of the last type registered for the table, unless a type of the table has been
removed since (`find?_tables_foldl_apply`).

A table finds nothing when its entry is gone, or when it leads to a name that is not registered any
more.  Both can befall the table of a type that is still registered (`table_finds_iff`,
`not_table_finds`).
-/

namespace ResourceQuery.Registry

/-- The change registers a type of the table. -/
def Change.registersFor (table : String) : Change → Bool
  | .register t => t.table = table
  | .remove _   => false

/-- The change removes a registered type of the table. -/
def removesFrom (r : Registry) (table : String) : Change → Bool
  | .register _  => false
  | .remove name => (r.type? name).any fun t => t.table = table

variable {r : Registry} {table : String} {cs : List Change}

/-! ### The entry of a table -/

/-- A change that registers no type for a table leaves its entry alone or removes it. -/
theorem find?_tables_apply {c : Change} (h : c.registersFor table = false) :
    Entries.find? table (r.apply c).tables =
      if r.removesFrom table c then none else Entries.find? table r.tables := by
  cases c with
  | register t => exact (find?_tables_register r t table).trans (if_neg (of_decide_eq_false h))
  | remove name => exact find?_tables_remove r name table

/-- While no type of the table is registered, its entry stays until one is removed. -/
theorem find?_tables_foldl_apply {name : String} (h : ∀ c ∈ cs, c.registersFor table = false) :
    Entries.find? table (cs.foldl apply r).tables = some name ↔
      Entries.find? table r.tables = some name ∧
        ∀ before c, before ++ [c] <+: cs → (before.foldl apply r).removesFrom table c = false := by
  induction cs using List.reverseRecOn with
  | nil => simp
  | append_singleton cs c ih =>
      obtain ⟨hcs, hc⟩ := List.forall_mem_append.mp h
      rw [List.foldl_append, List.foldl_cons, List.foldl_nil,
        find?_tables_apply (hc c List.mem_cons_self)]
      cases hremoved : (cs.foldl apply r).removesFrom table c with
      | true =>
          -- the last change has removed the entry, and is itself one that must not
          refine iff_of_false nofun ?_
          rintro ⟨-, hkept⟩
          exact Bool.false_ne_true ((hkept cs c List.prefix_rfl).symm.trans hremoved)
      | false =>
          rw [if_neg Bool.false_ne_true, ih hcs]
          refine and_congr_right fun _ => ⟨fun hkept before d hpre => ?_, fun hkept before d hpre => ?_⟩
          · rcases List.prefix_concat_iff.mp hpre with hlast | hpre
            · obtain ⟨rfl, hd⟩ := List.append_inj' hlast rfl
              obtain rfl := List.singleton_inj.mp hd
              exact hremoved
            · exact hkept before d hpre
          · exact hkept before d (hpre.trans (List.prefix_append _ _))

/-! ### The last registration for a table -/

/-- A type that is found by its name has been registered. -/
theorem register_mem_of_type? {name : String} {t : ResourceType}
    (h : (changed cs).type? name = some t) : .register t ∈ cs := by
  induction cs using List.reverseRecOn with
  | nil => cases h
  | append_singleton cs c ih =>
      rw [changed_concat] at h
      cases c with
      | register u =>
          rw [apply, type?_register] at h
          split at h
          case isTrue =>
            obtain rfl := Option.some.inj h
            exact List.mem_append_right _ List.mem_cons_self
          case isFalse => exact List.mem_append_left _ (ih h)
      | remove other =>
          rw [apply, type?_remove] at h
          split at h
          case isTrue => cases h
          case isFalse => exact List.mem_append_left _ (ih h)

/-- A type that has been registered for a table has a last successor there. -/
theorem exists_last_registration {t : ResourceType} (h : .register t ∈ cs) :
    ∃ before last after, cs = before ++ .register last :: after ∧ last.table = t.table ∧
      ∀ c ∈ after, c.registersFor t.table = false := by
  have hany : (cs.reverse.find? (Change.registersFor t.table)).isSome :=
    List.find?_isSome.mpr ⟨_, List.mem_reverse.mpr h, decide_eq_true rfl⟩
  obtain ⟨c, hc⟩ := Option.isSome_iff_exists.mp hany
  obtain ⟨hregisters, later, earlier, hcs, hlater⟩ := List.find?_eq_some_iff_append.mp hc
  cases c with
  | remove name => cases hregisters
  | register last =>
      refine ⟨earlier.reverse, last, later.reverse, ?_, of_decide_eq_true hregisters, ?_⟩
      · simpa using congrArg List.reverse hcs
      · simpa using hlater

/-- **When the table of a registered type finds a type.**  After any changes, let `last` be the type
that was registered last for the table of a registered type.  The table finds what is registered under
the name of `last`, as long as no change since has removed a type of the table; then it finds
nothing. -/
theorem table_finds_iff (cs : List Change) (name : String) (t : ResourceType)
    (h : (changed cs).type? name = some t) :
    ∃ before last after, cs = before ++ .register last :: after ∧ last.table = t.table ∧
      (∀ c ∈ after, c.registersFor t.table = false) ∧
      ∀ found, (changed cs).typeOfTable? t.table = some found ↔
        (changed cs).type? last.name = some found ∧
        ∀ middle c, middle ++ [c] <+: after →
          (changed (before ++ .register last :: middle)).removesFrom t.table c = false := by
  obtain ⟨before, last, after, rfl, htable, hafter⟩ :=
    exists_last_registration (register_mem_of_type? h)
  refine ⟨before, last, after, rfl, htable, hafter, fun found => ?_⟩
  -- behind its last registration the entry of the table can only be removed
  have hrun (later : List Change) : changed (before ++ .register last :: later) =
      later.foldl apply ((changed before).register last) := by
    rw [changed, List.foldl_append, List.foldl_cons]
    rfl
  have hwritten : Entries.find? t.table ((changed before).register last).tables = some last.name := by
    rw [find?_tables_register, if_pos htable]
  have hentry (other : String) :
      Entries.find? t.table (changed (before ++ .register last :: after)).tables = some other ↔
        last.name = other ∧ ∀ middle c, middle ++ [c] <+: after →
          (changed (before ++ .register last :: middle)).removesFrom t.table c = false := by
    simp only [hrun]
    rw [find?_tables_foldl_apply hafter, hwritten, Option.some.injEq]
  rw [typeOfTable?_eq_some]
  constructor
  · rintro ⟨other, hfind, hfound⟩
    obtain ⟨rfl, hkept⟩ := (hentry other).mp hfind
    exact ⟨hfound, hkept⟩
  · rintro ⟨hfound, hkept⟩
    exact ⟨last.name, (hentry last.name).mpr ⟨rfl, hkept⟩, hfound⟩

/-- Staff, registered after people have been removed from the same table, are found for it. -/
theorem staff_found :
    let staff : ResourceType := { name := "staff", table := "users" }
    let earlier : List Change :=
      [.register { name := "people", table := "users" }, .remove "people"]
    (changed (earlier ++ [.register staff])).type? "staff" = some staff ∧
      (changed (earlier ++ [.register staff])).typeOfTable? "users" = some staff := by
  intro staff earlier
  have hstaff : (changed (earlier ++ [.register staff])).type? "staff" = some staff := rfl
  obtain ⟨before, last, after, hcs, -, hafter, hfinds⟩ :=
    table_finds_iff (earlier ++ [.register staff]) "staff" staff hstaff
  refine ⟨hstaff, (hfinds staff).mpr ?_⟩
  cases after using List.reverseRecOn with
  | nil =>
      have hlast := (List.append_inj' hcs rfl).2
      obtain rfl := Change.register.inj (List.singleton_inj.mp hlast)
      exact ⟨hstaff, by simp⟩
  | append_singleton middle c =>
      -- the last change would register for the table once more
      rw [← List.cons_append, ← List.append_assoc] at hcs
      obtain rfl := List.singleton_inj.mp (List.append_inj' hcs rfl).2
      exact absurd (hafter (.register staff) (by simp)) (by decide)

/-- People and staff share a table.  When people are removed, the table finds nothing, although staff
are still registered. -/
theorem not_table_finds : ¬ ∀ (cs : List Change) (name : String) (t : ResourceType),
    (changed cs).type? name = some t → ∃ found, (changed cs).typeOfTable? t.table = some found := by
  intro h
  obtain ⟨found, hfound⟩ := h [.register { name := "people", table := "users" },
    .register { name := "staff", table := "users" }, .remove "people"] "staff" _ rfl
  cases hfound

end ResourceQuery.Registry
