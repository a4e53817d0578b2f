import ResourceQuery.Model.JoinKeys
import ResourceQuery.Model.Registry

/-!
# Model — declarations without empty names

A registry is *named* when no table, column or relation in it is declared under the empty name
(`Registry.IsNamed`).  The names that are filled in from a type's own contain an underscore, so that the
columns and junction tables that a relation of a named registry joins on all have names
(`Relation.joinKeys?_named`).
-/

namespace ResourceQuery

/-! ### Declared names -/

/-- The table and the columns that are declared of a junction. -/
def Junction.declaredNames (j : Junction) : List String :=
  j.table.toList ++ j.foreignKey.toList ++ j.otherKey.toList

/-- The columns that are declared of a discriminator. -/
def Discriminator.declaredNames (d : Discriminator) : List String :=
  d.idColumn.toList ++ d.typeColumn.toList

/-- The columns and the junction table that are declared of a relation. -/
def Relation.declaredNames (r : Relation) : List String :=
  r.foreignKey.toList ++ r.parentKey.toList ++ r.targetKey.toList ++
    r.through.toList.flatMap Junction.declaredNames ++
    r.morph.toList.flatMap Discriminator.declaredNames

/-- The table, the columns and the relations that are declared of a type. -/
def ResourceType.declaredNames (t : ResourceType) : List String :=
  t.table :: t.idColumn :: t.relations.flatMap fun e => e.1 :: e.2.declaredNames

/-- No name in the declarations of the types is empty. -/
def Registry.IsNamed (r : Registry) : Prop :=
  ∀ e ∈ r.types, "" ∉ e.2.declaredNames

instance (r : Registry) : Decidable r.IsNamed :=
  inferInstanceAs (Decidable (∀ e ∈ r.types, "" ∉ e.2.declaredNames))

/-- A named registry hands out types whose names are not empty. -/
theorem Registry.IsNamed.type? {r : Registry} (h : r.IsNamed) {name : String} {t : ResourceType}
    (ht : r.type? name = some t) : "" ∉ t.declaredNames :=
  h _ (Entries.mem_of_find? ht)

namespace ResourceType

variable {t : ResourceType}

theorem table_ne_empty (h : "" ∉ t.declaredNames) : t.table ≠ "" :=
  fun ht => h (ht ▸ List.mem_cons_self)

theorem idColumn_ne_empty (h : "" ∉ t.declaredNames) : t.idColumn ≠ "" :=
  fun ht => h (List.mem_cons_of_mem _ (ht ▸ List.mem_cons_self))

/-- A declared relation has a name, and no name that it declares is empty. -/
theorem relation?_named (h : "" ∉ t.declaredNames) {name : String} {r : Relation}
    (hr : t.relation? name = some r) : name ≠ "" ∧ "" ∉ r.declaredNames := by
  have hmem : (name, r) ∈ t.relations := Entries.mem_of_find? hr
  have hnames : "" ∉ name :: r.declaredNames := fun hempty =>
    h (List.mem_cons_of_mem _ (List.mem_cons_of_mem _ (List.mem_flatMap.mpr ⟨_, hmem, hempty⟩)))
  obtain ⟨hname, hr⟩ := not_or.mp (mt List.mem_cons.mpr hnames)
  exact ⟨Ne.symm hname, hr⟩

theorem defaultForeignKey_ne_empty (t : ResourceType) : t.defaultForeignKey ≠ "" := by
  simp [defaultForeignKey, String.append_eq_empty_iff]

end ResourceType

/-! ### Names that are filled in -/

/-- A name that is left to its default is as good as the default. -/
theorem getD_ne_empty {o : Option String} {d : String} (ho : "" ∉ o.toList) (hd : d ≠ "") :
    o.getD d ≠ "" := by
  cases o with
  | none => exact hd
  | some s => exact fun hs => ho (List.mem_singleton.mpr hs.symm)

/-- The columns of a discriminator have names, also those it does not declare. -/
theorem Discriminator.columnNames_ne_empty {d : Discriminator} (h : "" ∉ d.declaredNames) :
    d.idColumnName ≠ "" ∧ d.typeColumnName ≠ "" := by
  obtain ⟨hid, htype⟩ := not_or.mp (mt List.mem_append.mpr h)
  exact ⟨getD_ne_empty hid (by simp [String.append_eq_empty_iff]),
    getD_ne_empty htype (by simp [String.append_eq_empty_iff])⟩

namespace Relation

variable {r : Relation} {parent target : ResourceType} {keys : JoinKeys}

/-- A junction table has an underscore in its name, whatever it joins. -/
theorem junctionTable_ne_empty (a b : String) : junctionTable a b ≠ "" := by
  rw [junctionTable]
  split <;> simp [String.append_eq_empty_iff]

/-- No declared name of a relation is empty, part by part. -/
theorem declaredNames_named (h : "" ∉ r.declaredNames) :
    ("" ∉ r.foreignKey.toList ∧ "" ∉ r.parentKey.toList ∧ "" ∉ r.targetKey.toList) ∧
      (∀ j, r.through = some j → "" ∉ j.declaredNames) ∧
      ∀ d, r.morph = some d → "" ∉ d.declaredNames := by
  simp only [declaredNames, List.mem_append, not_or] at h
  obtain ⟨⟨⟨⟨hforeign, hparent⟩, htarget⟩, hthrough⟩, hmorph⟩ := h
  refine ⟨⟨hforeign, hparent, htarget⟩, fun j hj hempty => hthrough ?_, fun d hd hempty => hmorph ?_⟩
  · exact List.mem_flatMap.mpr ⟨j, Option.mem_toList.mpr hj, hempty⟩
  · exact List.mem_flatMap.mpr ⟨d, Option.mem_toList.mpr hd, hempty⟩

/-- The column on the side of the parent has a name. -/
theorem parentColumn_ne_empty (h : "" ∉ r.declaredNames) (hparent : "" ∉ parent.declaredNames) :
    r.parentColumn parent ≠ "" :=
  getD_ne_empty (declaredNames_named h).1.2.1 (ResourceType.idColumn_ne_empty hparent)

/-- The column on the side of the target has a name. -/
theorem targetColumn_ne_empty (h : "" ∉ r.declaredNames) (htarget : "" ∉ target.declaredNames) :
    r.targetColumn target ≠ "" :=
  getD_ne_empty (declaredNames_named h).1.2.2 (ResourceType.idColumn_ne_empty htarget)

theorem foreignKey_ne_empty (h : "" ∉ r.declaredNames) (t : ResourceType) :
    r.foreignKey.getD t.defaultForeignKey ≠ "" :=
  getD_ne_empty (declaredNames_named h).1.1 t.defaultForeignKey_ne_empty

end Relation

/-- The columns that are linked, and the junction table. -/
def JoinKeys.names : JoinKeys → List String
  | .belongsTo foreignKey targetKey                             => [foreignKey, targetKey]
  | .has parentKey foreignKey                                   => [parentKey, foreignKey]
  | .through parentKey junction foreignKey otherKey targetKey =>
    [parentKey, junction, foreignKey, otherKey, targetKey]
  | .morph parentKey idColumn typeColumn _                      => [parentKey, idColumn, typeColumn]

/-- **What a relation joins on has names.**  Between types without empty names, a relation that declares
none links columns that have names, and through a junction table that has one. -/
theorem Relation.joinKeys?_named {r : Relation} {parent target : ResourceType} {keys : JoinKeys}
    (hr : "" ∉ r.declaredNames) (hparent : "" ∉ parent.declaredNames)
    (htarget : "" ∉ target.declaredNames) (h : r.joinKeys? parent target = some keys) :
    "" ∉ keys.names := by
  have hparentColumn := parentColumn_ne_empty hr hparent
  have htargetColumn := targetColumn_ne_empty hr htarget
  obtain ⟨-, hthrough, hmorph⟩ := declaredNames_named hr
  rw [joinKeys?] at h
  cases hkind : r.kind <;> rw [hkind] at h <;> cases h
  case belongsTo =>
    simpa [JoinKeys.names] using ⟨foreignKey_ne_empty hr target, htargetColumn⟩
  case hasOne | hasMany =>
    simpa [JoinKeys.names] using ⟨hparentColumn, foreignKey_ne_empty hr parent⟩
  case belongsToMany =>
    -- a junction that is not declared declares no names
    have hjunction : "" ∉ (r.through.getD {}).declaredNames := by
      cases hj : r.through with
      | none => simp [Junction.declaredNames]
      | some j => exact hthrough j hj
    simp only [Junction.declaredNames, List.mem_append, not_or] at hjunction
    obtain ⟨⟨htable, hkey⟩, hother⟩ := hjunction
    have htable := getD_ne_empty htable (junctionTable_ne_empty parent.table target.table)
    have hkey := getD_ne_empty hkey (foreignKey_ne_empty hr parent)
    have hother := getD_ne_empty hother target.defaultForeignKey_ne_empty
    simpa [JoinKeys.names] using ⟨hparentColumn, htable, hkey, hother, htargetColumn⟩
  case morphOne | morphMany =>
    have hcolumns : "" ∉ (r.morph.getD { name := parent.singularTable }).declaredNames := by
      cases hd : r.morph with
      | none => simp [Discriminator.declaredNames]
      | some d => exact hmorph d hd
    obtain ⟨hid, htype⟩ := Discriminator.columnNames_ne_empty hcolumns
    simpa [JoinKeys.names] using ⟨hparentColumn, hid, htype⟩

end ResourceQuery
