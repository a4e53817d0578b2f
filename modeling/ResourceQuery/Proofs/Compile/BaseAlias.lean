import Mathlib.Logic.Function.Basic
import ResourceQuery.Proofs.Blog
import ResourceQuery.Proofs.Compile.Prepare
import ResourceQuery.Proofs.Compile.RenamedKeys

/-!
# Compile — the alias of the base table is a name and nothing else

A request can give the base table an alias of its own.  If the alias and the name of the table are
names of their own, and the fieldsets do not tell them apart, the request is prepared as it would be
without the alias, with the table renamed wherever a column or the base table is named by it
(`prepare_renamed`).  The aliases of the joins, the junction tables, the values of discriminators
and the table that `FROM` names stay as they are, and so do the loads, the bound values and the
page.

The stages of a request are compared one by one, as those of filters, groups and orders are
(`joinStage_renamed`, `includeStage_renamed`, `fieldsStage_renamed`).
-/

namespace ResourceQuery

open Sql (Column Join Query)

variable {σ : String → String}

/-! ### Joins -/

/-- The joins of a relation are renamed with the alias of its parent. -/
theorem JoinKeys.joins_rename {parentAlias name table : String} {keys : JoinKeys}
    (hname : σ name = name)
    (hjunction : ∀ parentKey junction foreignKey otherKey targetKey,
      keys = .through parentKey junction foreignKey otherKey targetKey → σ junction = junction) :
    (keys.joins parentAlias name table).map (Join.rename σ) =
      keys.joins (σ parentAlias) name table := by
  cases keys with
  | belongsTo | has | morph =>
      simp [joins, Join.rename, Sql.JoinCondition.rename, Column.rename, Column.of, hname]
  | through parentKey junction foreignKey otherKey targetKey =>
      have hjunction := hjunction _ _ _ _ _ rfl
      simp [joins, Join.rename, Sql.JoinCondition.rename, Column.rename, Column.of, hname,
        hjunction]

namespace Context

variable {ctx : Context}

/-- The joins of a relation of a registered type are renamed with its parent; its target is
registered. -/
theorem joinTarget_renamed (h : ctx.Renames σ) {type : String} {parent : ResourceType}
    (hparent : ctx.registry.type? type = some parent) (parentAlias name : String) :
    Agree (fun a b => b = (a.1, a.2.map (Join.rename σ)) ∧ σ name = name ∧
        ∃ type, ctx.registry.type? type = some a.1)
      (ctx.joinTarget parent parentAlias name)
      ((ctx.renameBase σ).joinTarget parent (σ parentAlias) name) := by
  have hregistry : (ctx.renameBase σ).registry = ctx.registry := rfl
  simp only [joinTarget, hregistry]
  split
  · exact .error _
  · next relation declared =>
    have hname : σ name = name := h.fixed name (.relation hparent declared)
    split
    · exact .error _
    · split
      · exact .error _
      · next target registered =>
        split
        · next keys hkeys =>
          refine .ok ⟨Prod.ext rfl (JoinKeys.joins_rename hname ?_).symm, hname, _, registered⟩
          rintro parentKey junction foreignKey otherKey targetKey rfl
          exact h.fixed junction (.junction hparent declared registered hkeys)
        · exact .error _

mutual

/-- The joins that are planned for a relation are renamed, by induction on the tree below it. -/
theorem planRelation_renamed (h : ctx.Renames σ) {type : String} {parent : ResourceType}
    (hparent : ctx.registry.type? type = some parent) (parentAlias name : String) :
    ∀ t, List.Forall₂ (Agree fun js ks => ks = js.map (Join.rename σ))
      (ctx.planRelation parent parentAlias name t)
      ((ctx.renameBase σ).planRelation parent (σ parentAlias) name t)
  | .node children => by
      have hjoins := joinTarget_renamed h hparent parentAlias name
      rw [planRelation, planRelation]
      generalize ctx.joinTarget parent parentAlias name = x at hjoins
      generalize (ctx.renameBase σ).joinTarget parent (σ parentAlias) name = y at hjoins
      cases hjoins with
      | error e => exact .cons (.error e) .nil
      | @ok a b hab =>
          obtain ⟨rfl, hname, _, htarget⟩ := hab
          have hrest := planRelations_renamed h htarget name children
          rw [hname] at hrest
          exact .cons (.ok rfl) hrest

/-- The plan is renamed with the parent of its relations. -/
theorem planRelations_renamed (h : ctx.Renames σ) {type : String} {parent : ResourceType}
    (hparent : ctx.registry.type? type = some parent) (parentAlias : String) :
    ∀ children, List.Forall₂ (Agree fun js ks => ks = js.map (Join.rename σ))
      (ctx.planRelations parent parentAlias children)
      ((ctx.renameBase σ).planRelations parent (σ parentAlias) children)
  | [] => .nil
  | (name, t) :: rest =>
      List.rel_append (planRelation_renamed h hparent parentAlias name t)
        (planRelations_renamed h hparent parentAlias rest)

end

/-- The joins are renamed. -/
theorem joinStage_renamed (h : ctx.Renames σ) (t : DependencyTree) :
    Stage.Related (ctx.RenamedQuery σ) (ctx.joinStage t) ((ctx.renameBase σ).joinStage t) := by
  obtain ⟨_, hbase⟩ := h.base
  refine .all_map ((planRelations_renamed h hbase ctx.tableAlias t.children).imp fun x y hxy => ?_)
  cases hxy with
  | ok hab =>
      subst hab
      exact .change fun q u hqu => hqu.joinAll _
  | error e => exact .add (reject_agree (S := Eq) e) fun q u _ _ hqu _ => hqu

/-! ### Keys that joins depend on -/

theorem dependencyPaths_renamed (keys : List String) :
    (ctx.renameBase σ).dependencyPaths keys = ctx.dependencyPaths keys := by
  induction keys with
  | nil => rfl
  | cons key keys ih => rw [dependencyPaths, dependencyPaths, ih]; rfl

theorem dependencyTree_renamed (filter : Filter) (group sort : List String) :
    (ctx.renameBase σ).dependencyTree filter group sort =
      ctx.dependencyTree filter group sort := by
  rw [dependencyTree, dependencyTree, dependencyPaths_renamed]

/-! ### Included relations -/

theorem includeStage_renamed (includes : List String) (fields : Entries (List String)) :
    Stage.Related (ctx.RenamedQuery σ) (ctx.includeStage includes fields)
      ((ctx.renameBase σ).includeStage includes fields) := by
  refine .addEach (fun q u load hqu => ?_) includes
  cases load with
  | none => exact hqu
  | some load => exact hqu.load load

/-! ### Fieldsets -/

section

variable {q u : Query}

/-- A column that a key stands for is projected under its new name, or under neither. -/
theorem project_renamed (h : ctx.Renames σ) (hqu : ctx.RenamedQuery σ q u) {c : Column}
    (hc : ctx.Reaches c) {change change' : Query → Query}
    (hchange : ctx.RenamedQuery σ (change q) (change' u)) :
    Agree (ctx.RenamedQuery σ) (ctx.project q c change)
      ((ctx.renameBase σ).project u (c.rename σ) change') := by
  have hjoined (name : String) : u.hasJoin name = q.hasJoin name :=
    hqu.1 ▸ Query.hasJoin_rename name
  have hprojectable : (ctx.renameBase σ).isProjectable u (c.rename σ) = ctx.isProjectable q c := by
    obtain ⟨table, htable, hreaches⟩ := hc
    have hrenamed : (c.rename σ).table = some (σ table) := by rw [Column.rename, htable]; rfl
    have halias : (ctx.renameBase σ).tableAlias = σ ctx.tableAlias := rfl
    have hbase := h.eq_tableAlias_iff hreaches
    simp only [isProjectable, htable, hrenamed, halias, hjoined, ne_eq, hbase]
    rcases hreaches with rfl | huses
    · simp
    · rw [h.fixed table huses]
      rfl
  rw [project, project, hprojectable]
  refine Agree.bind_pure (R := Eq) (.refl (fun _ => rfl) _) ?_
  rintro found _ rfl
  split
  · exact hchange
  · exact hqu

theorem addBaseField_renamed (h : ctx.Renames σ) (field : String)
    (hqu : ctx.RenamedQuery σ q u) :
    Agree (ctx.RenamedQuery σ) (ctx.addBaseField field q)
      ((ctx.renameBase σ).addBaseField field u) := by
  rw [addBaseField, addBaseField]
  split
  · refine (qualifyColumn_renamed h _).bind fun found found' hfound => ?_
    cases hfound with
    | none => exact .ok hqu
    | some hfound =>
        obtain ⟨rfl, hc⟩ := hfound
        refine project_renamed h hqu hc (hqu.select fun d hd => ?_)
        cases hd
  · refine (qualify_renamed h field).bind fun found found' hfound => ?_
    cases hfound with
    | none => exact .ok hqu
    | @some target _ hfound =>
        obtain ⟨rfl, hc⟩ := hfound
        cases target with
        | column c => exact project_renamed h hqu hc (hqu.selectColumn hc)
        | json a =>
            have hselect := hqu.select (p := .expression a.aliased) fun d hd => by cases hd
            rw [Sql.Projection.rename, a.rename_aliased] at hselect
            exact project_renamed h hqu hc hselect

/-- A column is selected under its new name exactly if it was under the old one. -/
theorem selectsColumn_renamed (h : ctx.Renames σ) (hqu : ctx.RenamedQuery σ q u) {c : Column}
    (hc : ctx.Reaches c) : u.selectsColumn (c.rename σ) = q.selectsColumn c := by
  obtain ⟨rfl, hreached⟩ := hqu
  rw [Query.selectsColumn, Query.selectsColumn, Query.rename, List.any_map, Bool.eq_iff_iff,
    List.any_eq_true, List.any_eq_true]
  refine exists_congr fun p => and_congr_right fun hp => ?_
  cases p with
  | column d => simp [Sql.Projection.rename, h.rename_inj (hreached d hp) hc]
  | aggregate | expression => rfl

/-- The key of a relation is selected under its new name. -/
theorem addRelationKey_renamed (h : ctx.Renames σ) (path : String)
    (hqu : ctx.RenamedQuery σ q u) :
    ctx.RenamedQuery σ (ctx.addRelationKey q path) ((ctx.renameBase σ).addRelationKey u path) := by
  have hneeded : (ctx.renameBase σ).neededKey? path = ctx.neededKey? path := rfl
  cases hkey : ctx.neededKey? path with
  | none => rwa [addRelationKey_of_none hkey, addRelationKey_of_none (hneeded.trans hkey)]
  | some key =>
      have hreached := Reaches.base ctx key
      have hrenamed : Column.of (ctx.renameBase σ).tableAlias key =
          (Column.of ctx.tableAlias key).rename σ := rfl
      rw [addRelationKey_of_some hkey, addRelationKey_of_some (hneeded.trans hkey), hrenamed,
        selectsColumn_renamed h hqu hreached]
      split
      · exact hqu
      · exact hqu.selectColumn hreached

end

theorem baseFieldsStage_renamed (h : ctx.Renames σ) (names includes : List String) :
    Stage.Related (ctx.RenamedQuery σ) (ctx.baseFieldsStage names includes)
      ((ctx.renameBase σ).baseFieldsStage names includes) := by
  refine .all (.cons (.change fun q u hqu => hqu.makeDistinct) (List.rel_append ?_ ?_))
  · refine List.forall₂_map_left_iff.mpr (List.forall₂_map_right_iff.mpr ?_)
    exact List.forall₂_same.mpr fun field _ => .step fun q u hqu => addBaseField_renamed h field hqu
  · refine .cons (.change fun q u hqu => ?_) .nil
    exact List.foldl_rel hqu fun path _ _ _ hqu => addRelationKey_renamed h path hqu

theorem joinedFieldsStage_renamed (h : ctx.Renames σ) (key : String) (names : List String) :
    Stage.Related (ctx.RenamedQuery σ) (ctx.joinedFieldsStage key names)
      ((ctx.renameBase σ).joinedFieldsStage key names) := by
  refine .all_map (List.forall₂_same.mpr fun name _ => ?_)
  refine .add (qualifyColumn_renamed h _) fun q u c d hqu hcd => ?_
  cases hcd with
  | none => exact hqu
  | some hcd =>
      obtain ⟨rfl, hc⟩ := hcd
      exact hqu.selectColumn hc

/-- The key does not tell the two names of the base table apart. -/
theorem isBaseKey_renamed {key : String}
    (hkey : key = ctx.tableAlias ∨ key = σ ctx.tableAlias → key = ctx.base.name) :
    (ctx.renameBase σ).isBaseKey key = ctx.isBaseKey key := by
  have hbase : (ctx.renameBase σ).base = ctx.base := rfl
  have halias : (ctx.renameBase σ).tableAlias = σ ctx.tableAlias := rfl
  rw [isBaseKey, isBaseKey, hbase, halias, Bool.eq_iff_iff]
  simp only [Bool.or_eq_true, decide_eq_true_eq]
  constructor
  · rintro (h | h)
    · exact .inl h
    · exact .inl (.inr (hkey (.inr h)))
  · rintro (h | h)
    · exact .inl h
    · exact .inl (.inr (hkey (.inl h)))

/-- A fieldset is projected under its new names, if its key is no alias of the base. -/
theorem fieldsetStage_renamed (h : ctx.Renames σ) (includes : List String) {key : String}
    (hkey : key = ctx.tableAlias ∨ key = σ ctx.tableAlias → key = ctx.base.name)
    (names : List String) :
    Stage.Related (ctx.RenamedQuery σ) (ctx.fieldsetStage includes key names)
      ((ctx.renameBase σ).fieldsetStage includes key names) := by
  intro q u hqu
  have hjoined : u.hasJoin key = q.hasJoin key := hqu.1 ▸ Query.hasJoin_rename key
  simp only [fieldsetStage, isBaseKey_renamed hkey, hjoined]
  split
  · exact baseFieldsStage_renamed h names includes q u hqu
  · split
    · exact Stage.Related.skip q u hqu
    · split
      · exact joinedFieldsStage_renamed h key names q u hqu
      · exact Stage.Related.skip q u hqu

/-- All fieldsets are projected under their new names, if their keys are no alias of the base. -/
theorem fieldsStage_renamed (h : ctx.Renames σ) {fields : Entries (List String)}
    (hkeys : ∀ key ∈ Entries.keys fields,
      key = ctx.tableAlias ∨ key = σ ctx.tableAlias → key = ctx.base.name)
    (includes : List String) :
    Stage.Related (ctx.RenamedQuery σ) (ctx.fieldsStage fields includes)
      ((ctx.renameBase σ).fieldsStage fields includes) := by
  refine .all_map (List.forall₂_same.mpr fun set hset => ?_)
  exact fieldsetStage_renamed h includes (hkeys set.1 (List.mem_map_of_mem hset)) set.2

theorem hasBaseFields_renamed {fields : Entries (List String)}
    (hkeys : ∀ key ∈ Entries.keys fields,
      key = ctx.tableAlias ∨ key = σ ctx.tableAlias → key = ctx.base.name) :
    (ctx.renameBase σ).hasBaseFields fields = ctx.hasBaseFields fields := by
  rw [hasBaseFields, hasBaseFields, Bool.eq_iff_iff, List.any_eq_true, List.any_eq_true]
  refine exists_congr fun key => and_congr_right fun hkey => ?_
  rw [isBaseKey_renamed (hkeys key hkey)]

end Context

/-! ### Requests -/

/-- The prepared query with the tables of its columns renamed. -/
def PreparedQuery.rename (σ : String → String) (p : PreparedQuery) : PreparedQuery :=
  { p with query := p.query.rename σ }

namespace Compiler

variable {ctx : Context}

/-- What is joined and selected for it is renamed. -/
theorem dependencyStage_renamed (h : ctx.Renames σ) {fields : Entries (List String)}
    (hkeys : ∀ key ∈ Entries.keys fields,
      key = ctx.tableAlias ∨ key = σ ctx.tableAlias → key = ctx.base.name)
    (t : DependencyTree) :
    Stage.Related (ctx.RenamedQuery σ) (dependencyStage ctx fields t)
      (dependencyStage (ctx.renameBase σ) fields t) := by
  rw [dependencyStage, dependencyStage, Context.hasBaseFields_renamed hkeys]
  split
  · exact .skip
  · refine (Context.joinStage_renamed h t).andThen ?_
    split
    · exact .skip
    · exact .change fun q u hqu => hqu.selectColumn (.base ctx "*")

theorem paramStages_renamed (h : ctx.Renames σ) {params : Params}
    (hkeys : ∀ key ∈ Entries.keys params.fields,
      key = ctx.tableAlias ∨ key = σ ctx.tableAlias → key = ctx.base.name) :
    Stage.Related (ctx.RenamedQuery σ) (paramStages ctx params)
      (paramStages (ctx.renameBase σ) params) :=
  .all
    (.cons (Context.filterStage_renamed h params.filter)
      (.cons (Context.groupStage_renamed h params.group)
        (.cons (Context.sortStage_renamed h params.sort)
          (.cons (Context.includeStage_renamed params.includes params.fields)
            (.cons (Context.fieldsStage_renamed h hkeys params.includes) .nil)))))

/-- **Renaming the base alias only renames.**  When neither the table of the base type nor an alias
given to it is the name of a relation or of a junction table, and no fieldset key but the name of
the type is one of the two, a request with the alias is prepared exactly as the request without it,
with the table renamed to the alias, or fails with the same error. -/
theorem prepare_renamed (c : Compiler) (r : Request) (base : ResourceType) (name : String)
    (hbase : c.registry.type? r.base = some base) (hadjust : r.adjust = id)
    (htable : ¬ c.registry.Uses base.table) (hname : ¬ c.registry.Uses name)
    (hkeys : ∀ key ∈ Entries.keys r.params.fields,
      key = base.table ∨ key = name → key = base.name) :
    c.prepare { r with tableAlias := some name } =
      (c.prepare { r with tableAlias := none }).map
        (PreparedQuery.rename (Function.update id base.table name)) := by
  set σ := Function.update id base.table name with hσ
  have hrenamed : σ base.table = name := Function.update_self ..
  let ctx := c.context base none
  have hcontext : c.context base (some name) = ctx.renameBase σ :=
    congrArg (Context.mk c.registry base · c.config.strictPaths) hrenamed.symm
  -- neither alias is a name that joins use, so the renaming touches columns of the base alone
  have hrenames : ctx.Renames σ := by
    refine ⟨⟨r.base, hbase⟩, fun other hother => Function.update_of_ne ?_ ..,
      fun huses => hname (hrenamed ▸ huses)⟩
    rintro rfl
    exact htable hother
  have hkeys : ∀ key ∈ Entries.keys r.params.fields,
      key = ctx.tableAlias ∨ key = σ ctx.tableAlias → key = ctx.base.name :=
    fun key hkey h => hkeys key hkey (h.imp_right fun h => h.trans hrenamed)
  have hstart : ctx.RenamedQuery σ (c.start base none) (c.start base (some name)) := by
    refine ⟨?_, nofun⟩
    simp [start, Query.rename, Query.ofTable, hrenamed]
  have hstages (t : DependencyTree) :=
    ((dependencyStage_renamed hrenames hkeys t).andThen (paramStages_renamed hrenames hkeys)).result
      hstart
  -- the tree of relations does not depend on the alias, and the stages on it are related
  refine Agree.eq_map ?_
  simp only [prepare, hbase, hcontext, Context.dependencyTree_renamed, hadjust]
  refine Agree.bind (R := Eq) (.refl (fun _ => rfl) _) ?_
  rintro tree _ rfl
  refine (hstages tree).bind_pure ?_
  rintro q _ ⟨rfl, -⟩
  rfl

/-- Articles under the alias `a`, filtered by a value inside a JSON column. -/
theorem articles_renamed :
    let r := Blog.placedArticles
    ¬ Blog.registry.Uses "articles" ∧ ¬ Blog.registry.Uses "a" ∧
      ∃ p, Blog.compiler.prepare { r with tableAlias := none } = .ok p ∧
        Blog.compiler.prepare { r with tableAlias := some "a" } =
          .ok (p.rename (Function.update id "articles" "a")) := by
  intro r
  have hunused (name : String) (h : name ∉ Blog.registry.joinNames) : ¬ Blog.registry.Uses name :=
    fun huses => h huses.mem_joinNames
  have htable := hunused "articles" (by decide +kernel)
  have hname := hunused "a" (by decide +kernel)
  have htest : ((Blog.compiler.prepare { r with tableAlias := none }).toOption.any fun _ => true) =
      true := by decide +kernel
  obtain ⟨p, hp, -⟩ := exists_ok_of_any htest
  have h := prepare_renamed Blog.compiler r Blog.articles "a" rfl rfl htable hname
    (by decide +kernel)
  rw [hp] at h
  exact ⟨htable, hname, p, hp, h⟩

end Compiler

end ResourceQuery
