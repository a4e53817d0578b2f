import ResourceQuery.Proofs.Compile.Aliases
import ResourceQuery.Proofs.Compile.KeyNames
import ResourceQuery.Proofs.Compile.Tokens

/-!
# Compile — statements without empty names

A database rejects a quoted identifier without characters.  When neither the schema nor the alias of the
base table nor any declaration has an empty name, none comes from the tables, the joins and the columns
that included paths need (`dependencyStage_named`, `needs_named`).  The other names in a statement are
written for keys of the request (`WritesKey`), and for the leaves of paths into JSON columns
(`SelectsField`).  So each stage of a request writes an empty name under a condition on its own entries.

* `filterStage_empty_iff`, `addTargets_empty_iff`, `fieldsStage_empty_iff`: the condition of each stage.
* `paramStages_empty_iff`: the condition of all of them.
* `identifiers_named_iff`: when no identifier of the statements is empty.
-/

namespace ResourceQuery

open Sql (Column Condition Join Projection Query)

/-! ### Joins -/

/-- The names of the table, the alias and the columns of a join. -/
def Sql.Join.names (j : Join) : List String :=
  j.table :: j.tableAlias :: j.on.flatMap Sql.JoinCondition.names

namespace Sql.Query

variable {q : Query}

theorem tableNames_named (hschema : q.schema ≠ some "") {table tableAlias : String}
    (htable : table ≠ "") (halias : tableAlias ≠ "") : "" ∉ q.tableNames table tableAlias := by
  have hsame : "" ∉ (if table = tableAlias then [] else [tableAlias]) := by
    split
    · exact List.not_mem_nil
    · simpa [eq_comm] using halias
  simp only [tableNames, List.mem_append, Option.mem_toList, List.mem_singleton, not_or]
  exact ⟨⟨hschema, Ne.symm htable⟩, hsame⟩

theorem joinNames_named (hschema : q.schema ≠ some "") {j : Join} (hj : "" ∉ j.names) :
    "" ∉ q.joinNames j := by
  simp only [Join.names, List.mem_cons, not_or] at hj
  obtain ⟨htable, halias, hon⟩ := hj
  rw [joinNames, List.mem_append, not_or]
  exact ⟨tableNames_named hschema (Ne.symm htable) (Ne.symm halias), hon⟩

/-- The tables that a query reads have no empty names. -/
theorem sourceNames_named (hschema : q.schema ≠ some "")
    (htable : "" ∉ q.tableNames q.table q.tableAlias) (hjoins : ∀ j ∈ q.joins, "" ∉ j.names) :
    "" ∉ q.sourceNames := by
  rw [sourceNames, List.mem_append, List.mem_flatMap, not_or]
  refine ⟨htable, ?_⟩
  rintro ⟨j, hj, hempty⟩
  exact joinNames_named hschema (hjoins j hj) hempty

end Sql.Query

/-- The joins of keys with names have names. -/
theorem JoinKeys.joins_named {keys : JoinKeys} {parentAlias name table : String}
    (hkeys : "" ∉ keys.names) (hparent : parentAlias ≠ "") (hname : name ≠ "") (htable : table ≠ "") :
    ∀ j ∈ keys.joins parentAlias name table, "" ∉ j.names := by
  cases keys <;>
    simp_all [JoinKeys.joins, JoinKeys.names, Join.names, Sql.JoinCondition.names,
      Column.empty_mem_names_of, @eq_comm String ""]

namespace Registry

variable {r : Registry} {parent target : ResourceType} {parentAlias name : String}
  {cs : List (String × DependencyTree)} {vs : List Visit}

/-- What a relation leads to in a named registry has names. -/
theorem LeadsTo.named {keys : JoinKeys} (h : r.LeadsTo parent name target keys) (hr : r.IsNamed)
    (hparent : "" ∉ parent.declaredNames) :
    name ≠ "" ∧ "" ∉ target.declaredNames ∧ "" ∉ keys.names := by
  obtain ⟨declared, -, registered, linked⟩ := h
  obtain ⟨hname, hrelation⟩ := ResourceType.relation?_named hparent declared
  have htarget := hr.type? registered
  exact ⟨hname, htarget, Relation.joinKeys?_named hrelation hparent htarget linked⟩

/-- The joins of a tree in a registry without empty names have none. -/
theorem Visits.joins_named (h : r.Visits parent parentAlias cs vs) (hr : r.IsNamed)
    (hparent : "" ∉ parent.declaredNames) (halias : parentAlias ≠ "") :
    ∀ j ∈ vs.flatMap Visit.joins, "" ∉ j.names := by
  induction h with
  | nil => simp
  | joined leads hbelow hafter ihbelow ihafter =>
      obtain ⟨hname, htarget, hkeys⟩ := leads.named hr hparent
      rw [List.flatMap_cons, List.flatMap_append, List.forall_mem_append, List.forall_mem_append]
      refine ⟨?_, ihbelow htarget hname, ihafter hparent halias⟩
      exact JoinKeys.joins_named hkeys halias hname (ResourceType.table_ne_empty htarget)
  | skipped stuck hafter ihafter => exact ihafter hparent halias

end Registry

/-! ### The query before the request -/

namespace Context.IsNamed

variable {ctx : Context}

theorem all_named (h : ctx.IsNamed) : "" ∉ (Column.all ctx.tableAlias).names := by
  rw [Column.all, Column.empty_mem_names_of, not_or]
  exact ⟨h.tableAlias, by decide⟩

/-- The columns that included paths need have names. -/
theorem needs_named (h : ctx.IsNamed) {includes : List String} {c : Column}
    (hc : ctx.Needs includes c) : "" ∉ c.names := by
  obtain ⟨path, -, key, hkey, rfl⟩ := hc
  obtain ⟨relation, declared, hkey⟩ := Option.bind_eq_some_iff.mp hkey
  have hrelation := (ResourceType.relation?_named h.base declared).2
  rw [Column.empty_mem_names_of, not_or]
  refine ⟨h.tableAlias, ?_⟩
  rw [relationKey?] at hkey
  split at hkey
  · next hkind =>
    obtain ⟨target, registered, hforeign⟩ := Option.bind_eq_some_iff.mp hkey
    simp only [Relation.owningForeignKey?, hkind] at hforeign
    exact Option.some.inj hforeign ▸ Relation.foreignKey_ne_empty hrelation target
  · obtain ⟨d, hd, rfl⟩ := Option.map_eq_some_iff.mp hkey
    have hdiscriminator := (Relation.declaredNames_named hrelation).2.2 d hd
    exact (Discriminator.columnNames_ne_empty hdiscriminator).1
  · exact Option.some.inj hkey ▸ Relation.parentColumn_ne_empty hrelation h.base

end Context.IsNamed

namespace Compiler

variable {c : Compiler} {r : Request} {ctx : Context} {q q' : Query} {params : Params}

/-- A context has names if the registry and the alias of the base do. -/
theorem context_isNamed {base : ResourceType} (hregistry : c.registry.IsNamed)
    (hbase : "" ∉ base.declaredNames) {tableAlias : Option String} (halias : tableAlias ≠ some "") :
    (c.context base tableAlias).IsNamed where
  registry   := hregistry
  base       := hbase
  tableAlias := by
    refine getD_ne_empty ?_ (ResourceType.table_ne_empty hbase)
    simpa using halias

/-- A query starts with names. -/
theorem start_named {base : ResourceType} {tableAlias : Option String}
    (hschema : c.config.schema ≠ some "") (hbase : "" ∉ base.declaredNames)
    (hctx : (c.context base tableAlias).IsNamed) : "" ∉ (c.start base tableAlias).names := by
  have htable : "" ∉ (c.start base tableAlias).tableNames base.table (tableAlias.getD base.table) :=
    Query.tableNames_named hschema (ResourceType.table_ne_empty hbase) hctx.tableAlias
  have hnames : (c.start base tableAlias).names =
      (c.start base tableAlias).tableNames base.table (tableAlias.getD base.table) := by
    simp [start, Query.ofTable, Query.names, Query.selectNames, Query.rowNames, Query.sourceNames,
      Condition.namesOf]
  rwa [hnames]

/-- What is joined has names. -/
theorem dependencyStage_named (hctx : ctx.IsNamed) {fields : Entries (List String)}
    {t : DependencyTree} (h : (dependencyStage ctx fields t).Runs q q') (hjoins : q.joins = [])
    (hschema : q.schema ≠ some "") (hq : "" ∉ q.names) : "" ∉ q'.names := by
  obtain ⟨vs, hvisits⟩ := ctx.registry.exists_visits t.children ctx.base ctx.tableAlias
  have hjoined : ∀ j ∈ q'.joins, "" ∉ j.names := by
    rw [dependencyStage_joins h hvisits, Query.foldl_join_eq_newJoins, hjoins, List.nil_append]
    intro j hj
    exact hvisits.joins_named hctx.registry hctx.base hctx.tableAlias j (Query.mem_of_mem_newJoins hj)
  -- besides the joins only a star for the base can be new
  have hquery := dependencyStage_runs h
  rw [Query.mem_names] at hq ⊢
  simp only [not_or, not_exists, not_and] at hq ⊢
  obtain ⟨hprojections, hsource, hclauses⟩ := hq
  have htable : "" ∉ q.tableNames q.table q.tableAlias := mt (List.mem_append_left _) hsource
  have hsame : q'.schema = q.schema ∧ q'.tableNames q'.table q'.tableAlias =
      q.tableNames q.table q.tableAlias := by
    rw [hquery]
    exact ⟨rfl, rfl⟩
  refine ⟨fun e he => ?_, Query.sourceNames_named (hsame.1 ▸ hschema) (hsame.2 ▸ htable) hjoined, ?_⟩
  · rw [hquery] at he
    simp only at he
    split at he
    · exact hprojections e he
    · rcases List.mem_append.mp he with he | he
      · exact hprojections e he
      · obtain rfl := List.mem_singleton.mp he
        exact hctx.all_named
  · rw [hquery]
    exact hclauses

end Compiler

/-! ### The stages of a request -/

namespace Context

variable {ctx : Context} {params : Params} {q q' : Query} {includes : List String}

/-- A query of the parameters writes the column that the key stands for: the key gives conditions with
names, rows are grouped or sorted by it, or it is that of a field which is added to the `SELECT` list. -/
inductive WritesKey (ctx : Context) (params : Params) (q : Query) : String → Prop where
  | filtered {term : FilterTerm} {cs : List Condition} (mem : term ∈ params.filter.terms)
      (gives : ctx.termConditions params.filter term = .ok cs) (named : Condition.namesOf cs ≠ []) :
      WritesKey ctx params q term.key
  | grouped {key : String} (mem : key ∈ params.group) : WritesKey ctx params q key
  | sorted {entry : String} (mem : entry ∈ params.sort) :
      WritesKey ctx params q (sortEntry entry).1
  | selected {set name : String} {names : List String} {e : Projection}
      (fields : (set, names) ∈ params.fields) (mem : name ∈ names)
      (adds : ctx.EntryAdds params.includes q set name e) :
      WritesKey ctx params q (ctx.entryKey set name)

/-- The name is a plain field of the base type that is added to the `SELECT` list. -/
def SelectsField (ctx : Context) (params : Params) (q : Query) (name : String) : Prop :=
  ∃ set names, (set, names) ∈ params.fields ∧ name ∈ names ∧ ctx.isBaseKey set = true ∧
    aggregateField? name = none ∧ ∃ e, ctx.FieldAdds q name e

/-- A filter brings an empty name along exactly with a condition of a nameless key. -/
theorem filterStage_empty_iff (hctx : ctx.IsNamed) {f : Filter}
    (h : (ctx.filterStage f).Runs q q') :
    "" ∈ q'.names ↔ "" ∈ q.names ∨ ∃ term ∈ f.terms, ∃ cs, ctx.termConditions f term = .ok cs ∧
      Condition.namesOf cs ≠ [] ∧ ctx.IsNameless term.key := by
  refine (Stage.Runs.made_iff (P := fun u => "" ∈ u.names) (I := fun _ => True) h trivial
    fun term _ u v _ hrun => ⟨trivial, ?_⟩).2
  obtain ⟨cs, hcs, rfl⟩ := Stage.runs_add.mp hrun
  simp [Query.mem_names_restrict, hcs, termConditions_empty_iff hctx hcs]

/-- Stages that add what is made of the targets of keys write the empty names of nameless keys. -/
theorem addTargets_empty_iff (hctx : ctx.IsNamed) {α γ : Type} {key : α → String}
    {make : α → AttributeTarget → γ} {put : Query → γ → Query} {xs : List α}
    (hput : ∀ u x target, "" ∈ (put u (make x target)).names ↔
      "" ∈ u.names ∨ "" ∈ target.sourceColumn.names)
    (h : (Stage.all (xs.map fun x => .add (do return (← ctx.qualify (key x)).map (make x))
      fun q found => found.toList.foldl put q)).Runs q q') :
    "" ∈ q'.names ↔ "" ∈ q.names ∨ ∃ x ∈ xs, ctx.IsNameless (key x) := by
  refine (Stage.Runs.made_iff (P := fun u => "" ∈ u.names) (I := fun _ => True) h trivial
    fun x _ u v _ hrun => ⟨trivial, ?_⟩).2
  obtain ⟨made, hmade, rfl⟩ := Stage.runs_add.mp hrun
  obtain ⟨found, hfound, rfl⟩ := bind_pure_eq_ok.mp hmade
  rw [← hctx.exists_empty_iff]
  cases found with
  | none => simp [hfound]
  | some target => simp [hfound, hput]

theorem groupStage_empty_iff (hctx : ctx.IsNamed) {group : List String}
    (h : (ctx.groupStage group).Runs q q') :
    "" ∈ q'.names ↔ "" ∈ q.names ∨ ∃ key ∈ group, ctx.IsNameless key := by
  refine addTargets_empty_iff hctx (fun u _ target => ?_) h
  rw [Query.mem_names_groupBy, target.names_groupTerm]

theorem sortStage_empty_iff (hctx : ctx.IsNamed) {sort : List String}
    (h : (ctx.sortStage sort).Runs q q') :
    "" ∈ q'.names ↔ "" ∈ q.names ∨ ∃ entry ∈ sort, ctx.IsNameless (sortEntry entry).1 := by
  refine addTargets_empty_iff hctx (fun u entry target => ?_) h
  rw [Query.mem_names_orderBy, target.names_orderTerm]

theorem includeStage_names {fields : Entries (List String)}
    (h : (ctx.includeStage includes fields).Runs q q') : q'.names = q.names :=
  h.keeps (P := fun u => u.names = q.names) (includeStage_keeps fun _ _ hu => hu) rfl

/-- When an entry of a fieldset has an empty name. -/
theorem EntryAdds.empty_mem_iff (hctx : ctx.IsNamed) {set name : String} {e : Projection}
    (h : ctx.EntryAdds includes q set name e) :
    "" ∈ e.names ↔ ctx.IsNameless (ctx.entryKey set name) ∨
      (ctx.isBaseKey set = true ∧ aggregateField? name = none) ∧ LacksLeaf name := by
  rw [EntryAdds] at h
  rw [entryKey]
  split at h
  case isTrue hbase =>
    rw [FieldAdds] at h
    simp only [fieldKey, hbase, true_and]
    cases hfield : aggregateField? name with
    | some call =>
        obtain ⟨function, key⟩ := call
        rw [hfield] at h
        obtain ⟨column, hcolumn, -, rfl⟩ := h
        obtain ⟨target, htarget, rfl⟩ := qualifyColumn_eq_some.mp hcolumn
        have hresult : "" ∉ [function.name] := by cases function <;> decide
        simp [Projection.names, hctx.empty_mem_names_iff htarget, hresult]
    | none =>
        rw [hfield] at h
        obtain ⟨target, htarget, -, rfl⟩ := h
        simpa using empty_mem_projection_iff hctx htarget
  case isFalse hrelation =>
    obtain ⟨-, target, htarget, rfl⟩ := h
    have hcolumn := hctx.empty_mem_names_iff htarget
    simpa [hrelation, Projection.names] using hcolumn

/-- Fieldsets that run write the empty names of their entries. -/
theorem fieldsStage_empty_iff (hctx : ctx.IsNamed) {fields : Entries (List String)}
    (h : (ctx.fieldsStage fields includes).Runs q q') :
    "" ∈ q'.names ↔ "" ∈ q.names ∨ ∃ set names, (set, names) ∈ fields ∧ ∃ name ∈ names,
      ∃ e, ctx.EntryAdds includes q' set name e ∧ "" ∈ e.names := by
  obtain ⟨hsource, hconditions, hgroups, horders⟩ := h.keeps
    (P := fun u => u.sourceNames = q.sourceNames ∧ u.conditions = q.conditions ∧
      u.groupTerms = q.groupTerms ∧ u.orderTerms = q.orderTerms)
    (Stage.Keeps.all (fieldsStage_keeps (fun _ hu => hu) fun _ _ hu _ => hu)) ⟨rfl, rfl, rfl, rfl⟩
  have hentries : (∃ e ∈ q'.projections, "" ∈ e.names) ↔ (∃ e ∈ q.projections, "" ∈ e.names) ∨
      ∃ set names, (set, names) ∈ fields ∧ ∃ name ∈ names,
        ∃ e, ctx.EntryAdds includes q' set name e ∧ "" ∈ e.names := by
    constructor
    · rintro ⟨e, he, hempty⟩
      rcases exists_entryAdds h he with hold | ⟨c, hc, rfl⟩ | ⟨set, names, hset, name, hname, hadds⟩
      · exact .inl ⟨e, hold, hempty⟩
      · exact absurd hempty (hctx.needs_named hc)
      · exact .inr ⟨set, names, hset, name, hname, e, hadds, hempty⟩
    · rintro (⟨e, he, hempty⟩ | ⟨set, names, hset, name, hname, e, hadds, hempty⟩)
      · exact ⟨e, (fieldsStage_mem h).mpr (.inl he), hempty⟩
      · exact ⟨e, hadds.mem h hset hname, hempty⟩
  rw [Query.mem_names, Query.mem_names, hentries, hsource, hconditions, hgroups, horders]
  simp only [or_assoc, or_left_comm, or_comm]

end Context

namespace Compiler

variable {c : Compiler} {r : Request} {ctx : Context} {q q' : Query} {params : Params}

/-- The stages after the joins write an empty name for a nameless key, and for a plain field of the base
type whose path into a JSON column ends in a point. -/
theorem paramStages_empty_iff (hctx : ctx.IsNamed) (h : (paramStages ctx params).Runs q q') :
    "" ∈ q'.names ↔ "" ∈ q.names ∨ (∃ key, ctx.WritesKey params q' key ∧ ctx.IsNameless key) ∨
      ∃ name, ctx.SelectsField params q' name ∧ Context.LacksLeaf name := by
  obtain ⟨filtered, grouped, sorted, loaded, hfilter, hgroup, hsort, hinclude, hfields⟩ :=
    runs_eachStage h
  rw [Context.fieldsStage_empty_iff hctx hfields, Context.includeStage_names hinclude,
    Context.sortStage_empty_iff hctx hsort, Context.groupStage_empty_iff hctx hgroup,
    Context.filterStage_empty_iff hctx hfilter]
  -- from here on a nameless key is written by one of the stages, in their order
  constructor
  · rintro ((((hq | ⟨term, hterm, cs, hcs, hne, hnameless⟩) | ⟨key, hkey, hnameless⟩) |
      ⟨entry, hentry, hnameless⟩) | ⟨set, names, hset, name, hname, e, hadds, hempty⟩)
    · exact .inl hq
    · exact .inr (.inl ⟨_, .filtered hterm hcs hne, hnameless⟩)
    · exact .inr (.inl ⟨key, .grouped hkey, hnameless⟩)
    · exact .inr (.inl ⟨_, .sorted hentry, hnameless⟩)
    · rcases (hadds.empty_mem_iff hctx).mp hempty with hnameless | ⟨⟨hbase, hplain⟩, hleaf⟩
      · exact .inr (.inl ⟨_, .selected hset hname hadds, hnameless⟩)
      · rw [Context.EntryAdds, if_pos hbase] at hadds
        exact .inr (.inr ⟨name, ⟨set, names, hset, hname, hbase, hplain, e, hadds⟩, hleaf⟩)
  · rintro (hq | ⟨key, hwrites, hnameless⟩ |
      ⟨name, ⟨set, names, hset, hname, hbase, hplain, e, hadds⟩, hleaf⟩)
    · exact .inl (.inl (.inl (.inl hq)))
    · cases hwrites with
      | filtered mem gives named =>
          exact .inl (.inl (.inl (.inr ⟨_, mem, _, gives, named, hnameless⟩)))
      | grouped mem => exact .inl (.inl (.inr ⟨key, mem, hnameless⟩))
      | sorted mem => exact .inl (.inr ⟨_, mem, hnameless⟩)
      | selected fields mem adds =>
          exact .inr ⟨_, _, fields, _, mem, _, adds, (adds.empty_mem_iff hctx).mpr (.inl hnameless)⟩
    · have hadds : ctx.EntryAdds params.includes q' set name e := by
        rwa [Context.EntryAdds, if_pos hbase]
      have hempty := (hadds.empty_mem_iff hctx).mpr (.inr ⟨⟨hbase, hplain⟩, hleaf⟩)
      exact .inr ⟨set, names, hset, name, hname, e, hadds, hempty⟩

/-- **When no identifier is empty.**  In a schema and with an alias that are not empty, a request to a
registry without empty names is compiled to statements without empty identifiers exactly when the
convention of the owner leaves none of the keys that its query writes the column of without a column name,
and no plain field that it selects has a path into a JSON column that ends in a point.  A convention that
can be configured leaves none without one but attributes of underscores alone, in snake case. -/
theorem identifiers_named_iff (c : Compiler) (r : Request) (out : CompiledQuery)
    (hadjust : r.adjust = id) (hregistry : c.registry.IsNamed) (hschema : c.config.schema ≠ some "")
    (halias : r.tableAlias ≠ some "") (h : c.compile r = .ok out) :
    ∃ base p, c.registry.type? r.base = some base ∧ c.prepare r = .ok p ∧
      let ctx := c.context base r.tableAlias
      (("" ∉ Sql.identifiers out.query.sql ∧ "" ∉ Sql.identifiers out.countQuery.sql) ↔
        (∀ key, ctx.WritesKey r.params p.query key → ¬ ctx.IsNameless key) ∧
        ∀ name, ctx.SelectsField r.params p.query name → ¬ Context.LacksLeaf name) ∧
      (ctx.IsConfigured → ∀ key, ctx.IsNameless key ↔ ctx.IsUnderscored key) := by
  obtain ⟨p, q, hp, hq, hbuild, hcount⟩ := compile_eq_ok h
  obtain ⟨base, tree, joined, u, hbase, -, hjoined, hparams, hu⟩ := prepare_eq_ok hp
  obtain rfl : u = p.query := by rw [hu, hadjust, id]
  have hnames := hregistry.type? hbase
  have hctx := context_isNamed hregistry hnames halias
  have hnone := dependencyStage_named hctx hjoined rfl hschema (start_named hschema hnames hctx)
  have hempty := (paramStages_empty_iff hctx hparams).trans (or_iff_right hnone)
  -- the identifiers of the statements are the names in the query, page or not
  have hstaged := prepare_isStaged hadjust hp
  have hclosed := Query.isClosed_of_reads hstaged.clauses hstaged.select
  have hquery : Sql.identifiers out.query.sql = p.query.names := by
    rcases hq with rfl | ⟨limit, offset, rfl⟩
    · exact Query.identifiers_of_statement hbuild hclosed
    · exact Query.identifiers_of_statement (q := p.query.paginate limit offset) hbuild hclosed
  have hcounted : "" ∈ Sql.identifiers out.countQuery.sql → "" ∈ p.query.names := by
    rw [(p.query.identifiers_of_build hclosed).2.2 _ hcount]
    exact Query.mem_names_of_mem_countNames
  refine ⟨base, p, hbase, hp, ?_, Context.IsConfigured.isNameless_iff⟩
  rw [hquery, and_iff_left_of_imp fun hquery => mt hcounted hquery, hempty, not_or]
  simp only [not_exists, not_and]

/-- The titles and places of articles are selected without empty identifiers, and the only attributes of
people without column names are of underscores. -/
theorem places_identifiers_named :
    (Blog.context false).IsConfigured ∧
    ((Blog.context false).IsNameless "author.__" ↔ (Blog.context false).IsUnderscored "author.__") ∧
    ∃ out p, Blog.compiler.compile (Blog.included [] "articles" ["title", "meta:zip"]) = .ok out ∧
      Blog.compiler.prepare (Blog.included [] "articles" ["title", "meta:zip"]) = .ok p ∧
      ("" ∉ Sql.identifiers out.query.sql ∧ "" ∉ Sql.identifiers out.countQuery.sql) ∧
      ∀ name, (Blog.context false).SelectsField
        (Blog.included [] "articles" ["title", "meta:zip"]).params p.query name →
          ¬ Context.LacksLeaf name := by
  have htest : ((Blog.compiler.compile (Blog.included [] "articles" ["title", "meta:zip"])).toOption.any
      fun out => decide ("" ∉ Sql.identifiers out.query.sql ∧
        "" ∉ Sql.identifiers out.countQuery.sql)) = true := by decide +kernel
  obtain ⟨out, hout, hnamed⟩ := exists_ok_of_any htest
  have hnamed := of_decide_eq_true hnamed
  obtain ⟨base, p, hbase, hp, hiff, hnameless⟩ := identifiers_named_iff Blog.compiler _ out rfl
    (by decide +kernel) (by decide) (by decide) hout
  obtain rfl : Blog.articles = base := Option.some.inj hbase
  have hverbatim : NamingConvention.verbatim.IsBuiltIn := ⟨"identity", rfl⟩
  have htypes : Blog.registry.types = [("articles", Blog.articles), ("people", Blog.people),
      ("countries", Blog.countries), ("comments", Blog.comments), ("tags", Blog.tags),
      ("photos", Blog.photos)] := rfl
  have hconfigured : (Blog.context false).IsConfigured := by
    refine ⟨fun e he => ?_, hverbatim⟩
    rw [show (Blog.context false).registry.types = _ from htypes] at he
    simp only [List.mem_cons, List.not_mem_nil, or_false] at he
    rcases he with rfl | rfl | rfl | rfl | rfl | rfl
    · exact hverbatim
    · exact ⟨"snake_case", rfl⟩
    · exact hverbatim
    · exact hverbatim
    · exact hverbatim
    · exact hverbatim
  exact ⟨hconfigured, hnameless hconfigured _, out, p, hout, hp, hnamed, (hiff.mp hnamed).2⟩

/-- A path into the data of articles that ends in a point leaves its value without a name. -/
theorem not_identifiers_named :
    ¬ ∀ (c : Compiler) (r : Request) (out : CompiledQuery), r.adjust = id → c.registry.IsNamed →
      c.config.schema ≠ some "" → r.tableAlias ≠ some "" → c.compile r = .ok out →
        "" ∉ Sql.identifiers out.query.sql ∧ "" ∉ Sql.identifiers out.countQuery.sql := by
  intro h
  have htest : ((Blog.compiler.compile (Blog.included [] "articles" ["title", "meta:a."])).toOption.any
      fun out => decide ("" ∈ Sql.identifiers out.query.sql)) = true := by decide +kernel
  obtain ⟨out, hout, hempty⟩ := exists_ok_of_any htest
  have hnamed := h _ _ out rfl (by decide +kernel) (by decide) (by decide) hout
  exact hnamed.1 (of_decide_eq_true hempty)

end Compiler

end ResourceQuery
