import ResourceQuery.Proofs.Compile.RelationKeys

/-!
# Compile — which entries fieldsets add

A fieldset of the base type adds what its fields stand for, if that is in scope, and the columns that
included paths need.  One of a joined relation that is not included adds the columns that its fields
stand for, and any other adds nothing (`FieldsetAdds`).  Fieldsets that run leave these entries and
those that were there before (`fieldsStage_mem`).

* `addBaseField_mem`, `foldl_addRelationKey_mem`: what fields and needed columns do to the list.
* `fieldsStage_distinct`: repeated rows are dropped when a fieldset stands for the base type.
-/

namespace ResourceQuery

open Sql (Column Projection Query)

namespace Context

variable {ctx : Context} {q q' : Query} {includes : List String} {e : Projection}

/-- The fieldset, a key with fields, adds the entry to the `SELECT` list of `q`. -/
def FieldsetAdds (ctx : Context) (includes : List String) (q : Query) (set : String × List String)
    (e : Projection) : Prop :=
  if ctx.isBaseKey set.1 then
    (∃ field ∈ set.2, ctx.FieldAdds q field e) ∨ ∃ c, ctx.Needs includes c ∧ e = .column c
  else
    (set.1 ∉ includes ∧ q.hasJoin set.1 = true) ∧
      ∃ name ∈ set.2, ∃ c, ctx.qualifyColumn (set.1 ++ "." ++ name) = .ok (some c) ∧ e = .column c

/-- Some fieldset adds the entry to the `SELECT` list of `q`. -/
def FieldsAdd (ctx : Context) (fields : Entries (List String)) (includes : List String) (q : Query)
    (e : Projection) : Prop :=
  ∃ set ∈ fields, ctx.FieldsetAdds includes q set e

theorem fieldAdds_congr (h : q.joins = q'.joins) : ctx.FieldAdds q = ctx.FieldAdds q' := by
  funext field e
  rw [FieldAdds, FieldAdds, inScope_congr h]

theorem fieldsetAdds_congr (h : q.joins = q'.joins) :
    ctx.FieldsetAdds includes q = ctx.FieldsetAdds includes q' := by
  funext set e
  simp only [FieldsetAdds, fieldAdds_congr h, Query.hasJoin, h]

/-! ### Fields of the base type -/

/-- A field of the base is projected and changes no joins. -/
theorem addBaseField_mem {field : String} (h : ctx.addBaseField field q = .ok q') :
    q'.joins = q.joins ∧ (e ∈ q'.projections ↔ e ∈ q.projections ∨ ctx.FieldAdds q field e) := by
  rcases addBaseField_cases h with ⟨p, hp, rfl⟩ | ⟨hnone, rfl⟩
  · exact ⟨rfl, by rw [hp, Query.select, List.mem_append, List.mem_singleton]⟩
  · exact ⟨rfl, (or_iff_left (hnone e)).symm⟩

/-- The keys of included relations are projected if they are needed, by induction on the paths. -/
theorem foldl_addRelationKey_mem :
    e ∈ (includes.foldl ctx.addRelationKey q).projections ↔
      e ∈ q.projections ∨ ∃ c, ctx.Needs includes c ∧ e = .column c := by
  obtain ⟨added, hentries, -, hadded⟩ := foldl_addRelationKey ctx q includes
  rw [hentries, List.mem_append, List.mem_map]
  constructor
  · rintro (he | ⟨c, hc, rfl⟩)
    · exact .inl he
    · exact .inr ⟨c, ((hadded c).mp hc).1, rfl⟩
  · rintro (he | ⟨c, hc, rfl⟩)
    · exact .inl he
    · by_cases hselected : .column c ∈ q.projections
      · exact .inl hselected
      · exact .inr ⟨c, (hadded c).mpr ⟨hc, hselected⟩, rfl⟩

/-! ### Fieldsets -/

/-- The fieldset of the base projects its fields and the keys that are needed. -/
theorem baseFieldsStage_mem {names : List String}
    (h : (ctx.baseFieldsStage names includes).Runs q q') :
    e ∈ q'.projections ↔ e ∈ q.projections ∨
      (∃ field ∈ names, ctx.FieldAdds q field e) ∨ ∃ c, ctx.Needs includes c ∧ e = .column c := by
  obtain ⟨u, hfields, rfl⟩ := runs_baseFieldsStage.mp h
  obtain ⟨distinct, hdistinct, hfields⟩ := Stage.runs_cons.mp hfields
  obtain rfl := Stage.runs_change.mp hdistinct
  obtain ⟨-, hmem⟩ := Stage.Runs.made_iff (P := fun u => e ∈ u.projections)
    (I := fun u => u.joins = q.joins) hfields rfl fun field _ u v hu hrun => by
      obtain ⟨hsame, hmem⟩ := addBaseField_mem (Stage.runs_step.mp hrun)
      rw [fieldAdds_congr hu] at hmem
      exact ⟨hsame.trans hu, hmem⟩
  rw [foldl_addRelationKey_mem, hmem, or_assoc]
  rfl

/-- The fieldset of a joined relation projects the columns of its fields. -/
theorem joinedFieldsStage_mem {key : String} {names : List String}
    (h : (ctx.joinedFieldsStage key names).Runs q q') :
    e ∈ q'.projections ↔ e ∈ q.projections ∨
      ∃ name ∈ names, ∃ c, ctx.qualifyColumn (key ++ "." ++ name) = .ok (some c) ∧
        e = .column c := by
  refine (Stage.Runs.made_iff (P := fun u => e ∈ u.projections) (I := fun _ => True) h trivial
    fun name _ u v _ hrun => ⟨trivial, ?_⟩).2
  obtain ⟨found, hfound, rfl⟩ := Stage.runs_add.mp hrun
  cases found <;> simp [hfound, Query.selectColumn, Query.select]

/-- The fieldset of a key, when it runs, adds what `FieldsetAdds` says. -/
theorem fieldsetStage_mem {set : String × List String}
    (h : (ctx.fieldsetStage includes set.1 set.2).Runs q q') :
    e ∈ q'.projections ↔ e ∈ q.projections ∨ ctx.FieldsetAdds includes q set e := by
  simp only [Stage.Runs, fieldsetStage] at h
  rw [FieldsetAdds]
  split at h
  case isTrue hbase =>
    rw [if_pos hbase]
    exact baseFieldsStage_mem h
  case isFalse hrelation =>
    rw [if_neg hrelation]
    split at h
    case isTrue hincluded =>
      obtain rfl := Stage.runs_skip.mp h
      exact (or_iff_left fun hadds => hadds.1.1 (List.contains_iff_mem.mp hincluded)).symm
    case isFalse hexcluded =>
      split at h
      case isTrue hjoin =>
        rw [and_iff_right ⟨mt List.contains_iff_mem.mpr hexcluded, hjoin⟩]
        exact joinedFieldsStage_mem h
      case isFalse hjoin =>
        obtain rfl := Stage.runs_skip.mp h
        exact (or_iff_left fun hadds => hjoin hadds.1.2).symm

variable {fields : Entries (List String)}

/-- Fieldsets that run leave the entries that were there and those that they add. -/
theorem fieldsStage_mem (h : (ctx.fieldsStage fields includes).Runs q q') :
    e ∈ q'.projections ↔ e ∈ q.projections ∨ ctx.FieldsAdd fields includes q' e := by
  have hjoins : q'.joins = q.joins := h.keeps fieldsStage_joins rfl
  rw [FieldsAdd, fieldsetAdds_congr hjoins]
  refine (Stage.Runs.made_iff (P := fun u => e ∈ u.projections) (I := fun u => u.joins = q.joins)
    h rfl fun set hset u v hu hrun => ?_).2
  rw [← fieldsetAdds_congr hu]
  have hkeeps : (ctx.fieldsetStage includes set.1 set.2).Keeps fun u => u.joins = q.joins :=
    fieldsetStage_keeps (fun _ _ h => h) (fun _ _ h _ => h) hset
  exact ⟨hrun.keeps hkeeps hu, fieldsetStage_mem hrun⟩

/-- A fieldset of the base makes a query distinct, and no other one does. -/
theorem fieldsetStage_distinct {set : String × List String}
    (h : (ctx.fieldsetStage includes set.1 set.2).Runs q q') :
    q'.distinct = true ↔ q.distinct = true ∨ ctx.isBaseKey set.1 = true := by
  have hset : (set.1, set.2) ∈ [set] := List.mem_cons_self
  by_cases hbase : ctx.isBaseKey set.1
  · -- the stage starts by dropping repeated rows, so that it may as well start without them
    have hrun : (ctx.fieldsetStage includes set.1 set.2).Runs q.makeDistinct q' := by
      simp only [Stage.Runs, fieldsetStage, if_pos hbase] at h ⊢
      exact h
    have hkeeps : (ctx.fieldsetStage includes set.1 set.2).Keeps fun u => u.distinct = true :=
      fieldsetStage_keeps (fun _ _ _ => rfl) (fun _ _ h _ => h) hset
    exact iff_of_true (hrun.keeps hkeeps rfl) (.inr hbase)
  · have hkeeps : (ctx.fieldsetStage includes set.1 set.2).Keeps fun u => u.distinct = q.distinct :=
      fieldsetStage_keeps (fun h => absurd h hbase) (fun _ _ h _ => h) hset
    rw [h.keeps hkeeps rfl, or_iff_left hbase]

/-- Fieldsets that run drop repeated rows when one of them stands for the base type. -/
theorem fieldsStage_distinct (h : (ctx.fieldsStage fields includes).Runs q q') :
    q'.distinct = true ↔ q.distinct = true ∨ ctx.hasBaseFields fields = true := by
  have hiff := (Stage.Runs.made_iff (P := fun u => u.distinct = true) (I := fun _ => True) h trivial
    fun set _ u v _ hrun => ⟨trivial, fieldsetStage_distinct hrun⟩).2
  rw [hiff, hasBaseFields, Entries.keys, List.any_map, List.any_eq_true]
  rfl

end Context

end ResourceQuery
