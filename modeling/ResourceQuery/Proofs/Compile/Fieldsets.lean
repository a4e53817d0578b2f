import ResourceQuery.Compile.Fieldsets
import ResourceQuery.Proofs.Compile.Scope

/-!
# Compile — what fieldsets add to the `SELECT` list

An entry that fieldsets add is of one of two kinds (`FieldEntry`).  The fields of the base type are
checked: they read a column in scope.  The fields of a joined relation are not: such a field may
follow further relations, and the column that it stands for is added whether its table is joined or
not.

* `addBaseField_cases`: what a field of the base type does to a query.
* `fieldsStage_keeps`: a property is kept by the fieldsets if the entries of both kinds keep it.
* `fieldsStage_entries`: fieldsets that run leave a `SELECT` list of such entries alone.
* `fieldsStage_selects`: fieldsets that run have added every field of a joined relation.
-/

namespace ResourceQuery

open Sql (Column Projection)

/-- The key that a field of the base type stands for: what an aggregate is taken of, or the field. -/
def fieldKey (field : String) : String :=
  ((aggregateField? field).map Prod.snd).getD field

/-- The entry of the `SELECT` list for a target. -/
def AttributeTarget.projection : AttributeTarget → Projection
  | .column c => .column c
  | .json a   => .expression a.aliased

namespace Context

variable {ctx : Context} {fields : Entries (List String)} {includes : List String}
  {R : Sql.Query → Prop}

/-- The field of the base type stands for the entry, which reads a column in scope of `q`. -/
def FieldAdds (ctx : Context) (q : Sql.Query) (field : String) (e : Projection) : Prop :=
  match aggregateField? field with
  | some (function, key) =>
    ∃ c, ctx.qualifyColumn key = .ok (some c) ∧ ctx.InScope q c ∧
      e = .aggregate function c function.name
  | none                 =>
    ∃ target, ctx.qualify field = .ok (some target) ∧ ctx.InScope q target.sourceColumn ∧
      e = target.projection

/-- A field of a relation that is joined in `q` and neither included nor the base type stands for
the column. -/
structure JoinedField (ctx : Context) (fields : Entries (List String)) (includes : List String)
    (q : Sql.Query) (key name : String) (c : Column) : Prop where
  relation : ¬ ctx.isBaseKey key
  excluded : key ∉ includes
  joined   : q.hasJoin key = true
  column   : ctx.qualifyColumn (key ++ "." ++ name) = .ok (some c)
  field    : ∃ names, (key, names) ∈ fields ∧ name ∈ names

/-- An entry that fieldsets add to the `SELECT` list of `q`. -/
inductive FieldEntry (ctx : Context) (fields : Entries (List String)) (includes : List String)
    (q : Sql.Query) : Projection → Prop where
  | checked {p : Projection} (reads : p.Reads (ctx.InScope q)) : FieldEntry ctx fields includes q p
  | joined {key name : String} {c : Column}
      (field : ctx.JoinedField fields includes q key name c) :
      FieldEntry ctx fields includes q (.column c)

/-! ### What depends on the joins of the query alone -/

section

variable {q q' : Sql.Query}

theorem inScope_congr (h : q.joins = q'.joins) : ctx.InScope q = ctx.InScope q' := by
  funext c
  simp only [InScope, Sql.Query.hasJoin, h]

theorem JoinedField.congr {key name : String} {c : Column}
    (hfield : ctx.JoinedField fields includes q key name c) (h : q.joins = q'.joins) :
    ctx.JoinedField fields includes q' key name c :=
  { hfield with joined := by simpa only [Sql.Query.hasJoin, h] using hfield.joined }

/-- What a fieldset may project depends on the joins of a query only. -/
theorem FieldEntry.congr {p : Projection} (hp : ctx.FieldEntry fields includes q p)
    (h : q.joins = q'.joins) : ctx.FieldEntry fields includes q' p := by
  cases hp with
  | checked reads => exact .checked (inScope_congr h ▸ reads)
  | joined field => exact .joined (field.congr h)

end

/-! ### Fields of the base type -/

/-- A column can be projected exactly if it is in scope. -/
theorem isProjectable_iff {q : Sql.Query} {c : Column} {found : Bool} (htable : c.table ≠ none)
    (h : ctx.isProjectable q c = .ok found) : found = true ↔ ctx.InScope q c := by
  obtain ⟨table, htable⟩ := Option.ne_none_iff_exists'.mp htable
  simp only [isProjectable, htable] at h
  split at h
  case isTrue hout =>
    obtain ⟨_, -, h⟩ := bind_pure_eq_ok.mp h
    refine iff_of_false (h ▸ Bool.false_ne_true) ?_
    rintro ⟨other, hother, hin⟩
    obtain rfl : table = other := Option.some.inj (htable.symm.trans hother)
    exact hin.elim hout.1 hout.2
  case isFalse hin =>
    refine iff_of_true (Except.ok.inj h).symm ⟨table, htable, ?_⟩
    by_cases hbase : table = ctx.tableAlias
    · exact .inl hbase
    · exact .inr (by simpa [hbase] using hin)

theorem table_ne_none_of_qualify {key : String} {target : AttributeTarget}
    (h : ctx.qualify key = .ok (some target)) : target.sourceColumn.table ≠ none := by
  obtain ⟨resolved, name, -, -, -, hcolumn⟩ := qualify_eq_some h
  rw [hcolumn]
  nofun

/-- A key has the column that the target it stands for is in. -/
theorem qualifyColumn_eq_some {key : String} {c : Column} :
    ctx.qualifyColumn key = .ok (some c) ↔
      ∃ target, ctx.qualify key = .ok (some target) ∧ target.sourceColumn = c := by
  refine bind_pure_eq_ok.trans ⟨?_, ?_⟩
  · rintro ⟨found, hfound, h⟩
    obtain ⟨target, rfl, hcolumn⟩ := Option.map_eq_some_iff.mp h
    exact ⟨target, hfound, hcolumn⟩
  · rintro ⟨target, htarget, rfl⟩
    exact ⟨some target, htarget, rfl⟩

/-- What can happen to a key in the base fieldset: it stands for a column in scope, and an entry is
added that reads it, or for none, and nothing is added. -/
def BaseField (ctx : Context) (key : String) (q q' : Sql.Query) : Prop :=
  (∃ c p, ctx.qualifyColumn key = .ok (some c) ∧ ctx.InScope q c ∧ p.Reads (ctx.InScope q) ∧
    q' = q.select p) ∨
  ((∀ c, ctx.qualifyColumn key = .ok (some c) → ¬ ctx.InScope q c) ∧ q' = q)

/-- A column is projected if it is in scope, and passed over or rejected if it is not. -/
theorem project_cases {q q' : Sql.Query} {key : String} {target : AttributeTarget}
    {change : Sql.Query → Sql.Query} (htarget : ctx.qualify key = .ok (some target))
    (h : ctx.project q target.sourceColumn change = .ok q') :
    (ctx.InScope q target.sourceColumn ∧ q' = change q) ∨
      (¬ ctx.InScope q target.sourceColumn ∧ q' = q) := by
  obtain ⟨found, hfound, rfl⟩ := bind_pure_eq_ok.mp h
  have hiff := isProjectable_iff (table_ne_none_of_qualify htarget) hfound
  cases found with
  | true => exact .inl ⟨hiff.mp rfl, rfl⟩
  | false => exact .inr ⟨mt hiff.mpr Bool.false_ne_true, rfl⟩

/-- A field of the base type adds the entry that it stands for, if there is one. -/
theorem addBaseField_cases {field : String} {q q' : Sql.Query}
    (h : ctx.addBaseField field q = .ok q') :
    (∃ p, (∀ e, ctx.FieldAdds q field e ↔ e = p) ∧ q' = q.select p) ∨
      ((∀ e, ¬ ctx.FieldAdds q field e) ∧ q' = q) := by
  rw [addBaseField] at h
  simp only [FieldAdds]
  cases hfield : aggregateField? field with
  | some call =>
      obtain ⟨function, key⟩ := call
      rw [hfield] at h
      obtain ⟨found, hfound, h⟩ := bind_eq_ok.mp h
      simp only [hfound]
      cases found with
      | none =>
          cases h
          exact .inr ⟨by simp, rfl⟩
      | some c =>
          obtain ⟨target, htarget, rfl⟩ := qualifyColumn_eq_some.mp hfound
          rcases project_cases htarget h with ⟨hin, rfl⟩ | ⟨hout, rfl⟩
          · exact .inl ⟨_, by simp [hin], rfl⟩
          · exact .inr ⟨by simp [hout], rfl⟩
  | none =>
      rw [hfield] at h
      obtain ⟨found, hfound, h⟩ := bind_eq_ok.mp h
      simp only [hfound]
      cases found with
      | none =>
          cases h
          exact .inr ⟨by simp, rfl⟩
      | some target =>
          -- a column and a JSON attribute are projected differently, but under the same condition
          have hproject : ctx.project q target.sourceColumn (fun q => q.select target.projection) =
              .ok q' := by
            cases target <;> exact h
          rcases project_cases hfound hproject with ⟨hin, rfl⟩ | ⟨hout, rfl⟩
          · exact .inl ⟨_, by simp [hin], rfl⟩
          · exact .inr ⟨by simp [hout], rfl⟩

/-- What a field adds reads its column, which is in scope. -/
theorem FieldAdds.reads {q : Sql.Query} {field : String} {e : Projection}
    (h : ctx.FieldAdds q field e) :
    ∃ c, ctx.qualifyColumn (fieldKey field) = .ok (some c) ∧ ctx.InScope q c ∧
      e.Reads (ctx.InScope q) := by
  rw [FieldAdds] at h
  rw [fieldKey]
  cases hfield : aggregateField? field with
  | some call =>
      obtain ⟨function, key⟩ := call
      rw [hfield] at h
      obtain ⟨c, hcolumn, hin, rfl⟩ := h
      exact ⟨c, hcolumn, hin, hin⟩
  | none =>
      rw [hfield] at h
      obtain ⟨target, htarget, hin, rfl⟩ := h
      refine ⟨_, qualifyColumn_eq_some.mpr ⟨target, htarget, rfl⟩, hin, ?_⟩
      cases target with
      | column c => exact hin
      | json a => exact ⟨a, rfl, hin⟩

/-- A field with a column in scope adds something. -/
theorem exists_fieldAdds {q : Sql.Query} {field : String} {c : Column}
    (hcolumn : ctx.qualifyColumn (fieldKey field) = .ok (some c)) (hin : ctx.InScope q c) :
    ∃ e, ctx.FieldAdds q field e := by
  simp only [FieldAdds]
  rw [fieldKey] at hcolumn
  cases hfield : aggregateField? field with
  | some call =>
      rw [hfield] at hcolumn
      exact ⟨_, c, hcolumn, hin, rfl⟩
  | none =>
      rw [hfield] at hcolumn
      obtain ⟨target, htarget, rfl⟩ := qualifyColumn_eq_some.mp hcolumn
      exact ⟨_, target, htarget, hin, rfl⟩

/-- What a field of the base type does to a query. -/
theorem baseField_of_addBaseField {field : String} {q q' : Sql.Query}
    (h : ctx.addBaseField field q = .ok q') : ctx.BaseField (fieldKey field) q q' := by
  rcases addBaseField_cases h with ⟨p, hp, rfl⟩ | ⟨hnone, rfl⟩
  · obtain ⟨c, hcolumn, hin, hreads⟩ := ((hp p).mpr rfl).reads
    exact .inl ⟨c, p, hcolumn, hin, hreads, rfl⟩
  · refine .inr ⟨fun c hcolumn hin => ?_, rfl⟩
    obtain ⟨e, he⟩ := exists_fieldAdds hcolumn hin
    exact hnone e he

/-- A field of the base keeps what selecting keeps. -/
theorem addBaseField_keeps {field : String} {q q' : Sql.Query}
    (hselect : ∀ q p, R q → p.Reads (ctx.InScope q) → R (q.select p))
    (h : ctx.addBaseField field q = .ok q') (hq : R q) : R q' := by
  rcases baseField_of_addBaseField h with ⟨c, p, -, -, hreads, rfl⟩ | ⟨-, rfl⟩
  · exact hselect q p hq hreads
  · exact hq

/-- The base column that an included path needs. -/
def neededKey? (ctx : Context) (path : String) : Option String :=
  (ctx.base.relation? ((Text.split '.' path).headD path)).bind ctx.relationKey?

theorem addRelationKey_of_none {path : String} {q : Sql.Query} (h : ctx.neededKey? path = none) :
    ctx.addRelationKey q path = q := by
  rw [neededKey?] at h
  simp only [addRelationKey, h]

/-- The key of an included relation is selected if it is not yet. -/
theorem addRelationKey_of_some {path key : String} {q : Sql.Query}
    (h : ctx.neededKey? path = some key) :
    ctx.addRelationKey q path =
      if q.selectsColumn (.of ctx.tableAlias key) then q
      else q.selectColumn (.of ctx.tableAlias key) := by
  rw [neededKey?] at h
  simp only [addRelationKey, h]

/-- The key of an included relation keeps what selecting keeps. -/
theorem addRelationKey_keeps {path : String} {q : Sql.Query}
    (hselect : ∀ q p, R q → p.Reads (ctx.InScope q) → R (q.select p)) (hq : R q) :
    R (ctx.addRelationKey q path) := by
  cases hneeded : ctx.neededKey? path with
  | none => rwa [addRelationKey_of_none hneeded]
  | some key =>
      rw [addRelationKey_of_some hneeded]
      split
      · exact hq
      · exact hselect q (.column _) hq ⟨ctx.tableAlias, rfl, .inl rfl⟩

/-- The fieldset of the base keeps what selecting and making distinct keep. -/
theorem baseFieldsStage_keeps {names : List String} (hdistinct : ∀ q, R q → R q.makeDistinct)
    (hselect : ∀ q p, R q → p.Reads (ctx.InScope q) → R (q.select p)) :
    (ctx.baseFieldsStage names includes).Keeps R := by
  have hfields : ∀ s ∈ names.map (fun field => Stage.step (ctx.addBaseField field)), s.Keeps R := by
    intro s hs
    obtain ⟨field, -, rfl⟩ := List.mem_map.mp hs
    exact Stage.Keeps.step fun q q' h hq => addBaseField_keeps hselect h hq
  have hkeys : Stage.Keeps R (.change fun q => includes.foldl ctx.addRelationKey q) :=
    Stage.Keeps.change fun q hq => List.foldlRecOn includes _ hq fun q hq path _ =>
      addRelationKey_keeps hselect hq
  refine Stage.Keeps.all ?_
  simp only [List.cons_append, List.forall_mem_cons, List.forall_mem_append]
  exact ⟨Stage.Keeps.change hdistinct, hfields, hkeys, nofun⟩

/-! ### All fieldsets -/

/-- The fieldset of a joined relation keeps what selecting keeps. -/
theorem joinedFieldsStage_keeps {key : String} {names : List String}
    (hselect : ∀ q p, R q → ctx.FieldEntry fields includes q p → R (q.select p))
    (hbase : ¬ ctx.isBaseKey key) (hexcluded : key ∉ includes) (hmem : (key, names) ∈ fields) :
    (ctx.joinedFieldsStage key names).Keeps fun q => R q ∧ q.hasJoin key = true := by
  refine Stage.Keeps.all fun s hs => ?_
  obtain ⟨name, hname, rfl⟩ := List.mem_map.mp hs
  refine Stage.Keeps.add fun found hfound q hq => ?_
  cases found with
  | none => exact hq
  | some c =>
      have hfield : ctx.JoinedField fields includes q key name c :=
        ⟨hbase, hexcluded, hq.2, hfound, names, hmem, hname⟩
      exact ⟨hselect q _ hq.1 (.joined hfield), hq.2⟩

/-- A fieldset keeps what selecting and, for the base, making distinct keep. -/
theorem fieldsetStage_keeps {key : String} {names : List String}
    (hdistinct : ctx.isBaseKey key → ∀ q, R q → R q.makeDistinct)
    (hselect : ∀ q p, R q → ctx.FieldEntry fields includes q p → R (q.select p))
    (hmem : (key, names) ∈ fields) : (ctx.fieldsetStage includes key names).Keeps R := by
  intro q hq
  simp only [fieldsetStage]
  split
  · next hbase =>
    exact baseFieldsStage_keeps (hdistinct hbase) (fun q p hq hp => hselect q p hq (.checked hp)) q hq
  · next hbase =>
    split
    · exact hq
    · next hexcluded =>
      split
      · next hjoin =>
        have hexcluded : key ∉ includes := by simpa using hexcluded
        exact (joinedFieldsStage_keeps hselect hbase hexcluded hmem q ⟨hq, hjoin⟩).1
      · exact hq

/-- A property of queries is kept by the fieldsets if dropping repeated rows and the entries that
fieldsets add keep it. -/
theorem fieldsStage_keeps (hdistinct : ∀ q, R q → R q.makeDistinct)
    (hselect : ∀ q p, R q → ctx.FieldEntry fields includes q p → R (q.select p)) :
    ∀ s ∈ fields.map (fun (key, names) => ctx.fieldsetStage includes key names), s.Keeps R := by
  intro s hs
  obtain ⟨⟨key, names⟩, hmem, rfl⟩ := List.mem_map.mp hs
  exact fieldsetStage_keeps (fun _ => hdistinct) hselect hmem

/-- Fieldsets join nothing. -/
theorem fieldsStage_joins {joins : List Sql.Join} :
    (ctx.fieldsStage fields includes).Keeps fun q => q.joins = joins :=
  Stage.Keeps.all (fieldsStage_keeps (fun _ h => h) fun _ _ h _ => h)

/-- Fieldsets that run leave entries of the two kinds alone. -/
theorem fieldsStage_entries {q q' : Sql.Query} (h : (ctx.fieldsStage fields includes).Runs q q')
    (hq : q.SelectReads (ctx.InScope q)) :
    ∀ p ∈ q'.projections, ctx.FieldEntry fields includes q' p := by
  have hsame : q.joins = q'.joins := (h.keeps fieldsStage_joins rfl).symm
  have hselect (u : Sql.Query) (p : Projection)
      (hu : u.joins = q'.joins ∧ ∀ e ∈ u.projections, ctx.FieldEntry fields includes q' e)
      (hp : ctx.FieldEntry fields includes u p) :
      (u.select p).joins = q'.joins ∧
        ∀ e ∈ (u.select p).projections, ctx.FieldEntry fields includes q' e :=
    ⟨hu.1, List.forall_mem_append.mpr ⟨hu.2, by simpa using hp.congr hu.1⟩⟩
  have hstart : ∀ e ∈ q.projections, ctx.FieldEntry fields includes q' e := fun e he =>
    FieldEntry.congr (.checked (hq e he)) hsame
  exact (h.keeps (Stage.Keeps.all (fieldsStage_keeps (fun _ h => h) hselect)) ⟨hsame, hstart⟩).2

/-- The fieldset of a joined relation, when it runs, adds each of its fields. -/
theorem joinedFieldsStage_selects {key name : String} {names : List String} {c : Column}
    {q q' : Sql.Query} (h : (ctx.joinedFieldsStage key names).Runs q q') (hname : name ∈ names)
    (hcolumn : ctx.qualifyColumn (key ++ "." ++ name) = .ok (some c)) :
    .column c ∈ q'.projections := by
  refine Stage.Runs.of_mem (P := fun q => .column c ∈ q.projections) (I := fun _ => True) h
    (List.mem_map.mpr ⟨name, hname, rfl⟩) (fun _ _ _ _ => trivial) ?_ trivial ?_
  · intro s hs
    obtain ⟨other, -, rfl⟩ := List.mem_map.mp hs
    refine Stage.Keeps.add fun found _ q hq => ?_
    cases found with
    | none => exact hq
    | some d => exact Sql.Query.mem_select hq
  · intro q₁ q₂ _ hrun
    obtain ⟨found, hfound, rfl⟩ := Stage.runs_add.mp hrun
    obtain rfl : some c = found := Except.ok.inj (hcolumn.symm.trans hfound)
    exact List.mem_append_right _ (List.mem_singleton.mpr rfl)

/-- Fieldsets that run have added every field of a joined relation. -/
theorem fieldsStage_selects {q q' : Sql.Query} (h : (ctx.fieldsStage fields includes).Runs q q')
    {key name : String} {c : Column} (hfield : ctx.JoinedField fields includes q' key name c) :
    .column c ∈ q'.projections := by
  obtain ⟨names, hmem, hname⟩ := hfield.field
  have hsame : q'.joins = q.joins := h.keeps fieldsStage_joins rfl
  refine Stage.Runs.of_mem (P := fun q => .column c ∈ q.projections) h
    (List.mem_map.mpr ⟨_, hmem, rfl⟩)
    (fieldsStage_keeps (R := fun q => q.joins = q'.joins) (fun _ h => h) fun _ _ h _ => h)
    (fieldsStage_keeps (fun _ h => h) fun q p h _ => Sql.Query.mem_select h) hsame.symm ?_
  intro q₁ q₂ hjoins hrun
  have hjoin : q₁.hasJoin key = true := by
    rw [Sql.Query.hasJoin, hjoins]
    exact hfield.joined
  -- the key is one of a joined relation, so its stage is none of the other branches
  have hstage : ctx.fieldsetStage includes key names q₁ = ctx.joinedFieldsStage key names q₁ := by
    simp [fieldsetStage, hfield.relation, hfield.excluded, hjoin]
  exact joinedFieldsStage_selects (hstage.symm.trans hrun) hname hfield.column

end Context

end ResourceQuery
