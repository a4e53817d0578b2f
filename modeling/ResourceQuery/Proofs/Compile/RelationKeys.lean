import ResourceQuery.Proofs.Blog
import ResourceQuery.Proofs.Compile.Prepare
import ResourceQuery.Proofs.Model.JoinSides

/-!
# Compile — the columns of the base table that included rows are matched by

A fieldset of the base type leaves only its fields in the `SELECT` list.  So that the rows can still
be matched to those of the included relations, the columns of the base table that these need are
selected behind the fields.  They are found without the join keys of the relations, but they are the
columns that the join keys match (`neededKey?_eq`).

Each fieldset of the base type adds exactly the needed columns that are not yet selected, each of
them once (`foldl_addRelationKey`), whatever became of its fields.  What is selected stays selected,
so that a prepared query with such a fieldset selects the columns of all included relations
(`relation_keys_selected`).
-/

namespace ResourceQuery

open Sql (Column Query)

/-! ### Adding what is missing -/

namespace Sql.Query

/-- Behind what the first query selects, the second one selects the columns with `P` that are
missing there, each of them once. -/
def AddsMissing (P : Column → Prop) (q u : Query) : Prop :=
  ∃ added : List Column, u.projections = q.projections ++ added.map .column ∧ added.Nodup ∧
    ∀ c, c ∈ added ↔ P c ∧ .column c ∉ q.projections

namespace AddsMissing

variable {P Q : Column → Prop} {q u w : Query}

theorem congr (h : q.AddsMissing P u) (hPQ : ∀ c, P c ↔ Q c) : q.AddsMissing Q u := by
  obtain rfl : P = Q := funext fun c => propext (hPQ c)
  exact h

/-- What two steps add is what either of them does. -/
theorem trans (h : q.AddsMissing P u) (h' : u.AddsMissing Q w) :
    q.AddsMissing (fun c => P c ∨ Q c) w := by
  obtain ⟨added, hu, hnodup, hmem⟩ := h
  obtain ⟨added', hw, hnodup', hmem'⟩ := h'
  have hgrown (c : Column) :
      .column c ∉ u.projections ↔ .column c ∉ q.projections ∧ c ∉ added := by simp [hu]
  refine ⟨added ++ added', by rw [hw, hu, List.map_append, List.append_assoc], ?_, fun c => ?_⟩
  · refine List.nodup_append.mpr ⟨hnodup, hnodup', ?_⟩
    rintro c hc _ hc' rfl
    exact ((hgrown c).mp ((hmem' c).mp hc').2).2 hc
  · rw [List.mem_append, hmem', hgrown, hmem]
    tauto

/-- What is added is there, as is what was not missing. -/
theorem mem (h : q.AddsMissing P u) {c : Column} (hc : P c) : .column c ∈ u.projections := by
  obtain ⟨added, hu, -, hmem⟩ := h
  rw [hu, List.mem_append]
  by_cases hselected : .column c ∈ q.projections
  · exact .inl hselected
  · exact .inr (List.mem_map_of_mem ((hmem c).mpr ⟨hc, hselected⟩))

end AddsMissing

end Sql.Query

namespace Context

variable {ctx : Context} {q q' : Query} {includes : List String}

/-! ### The needed columns -/

/-- The key of a relation from the base type is the column that its join keys match. -/
theorem relationKey?_eq {relation : Relation} {target : ResourceType} {keys : JoinKeys}
    (registered : ctx.registry.type? relation.target = some target)
    (linked : relation.joinKeys? ctx.base target = some keys) :
    ctx.relationKey? relation = some keys.parentSide := by
  have hkind : relation.kind ≠ .morphTo := by
    rw [ne_eq, ← relation.joinKeys?_eq_none_iff ctx.base target, linked]
    nofun
  rw [Relation.parentSide_eq linked, relationKey?]
  split
  · next hkind => rw [registered, Option.bind_some, Relation.owningForeignKey?, hkind, if_pos rfl]
  · next hpolymorphic => exact absurd hpolymorphic hkind
  · next hother _ => rw [if_neg hother]

/-- An included path that can be followed needs the column that the keys of its first relation
match. -/
theorem neededKey?_eq (ctx : Context) {path : String} {hop : Hop}
    (h : ctx.registry.StartsIn ctx.base path hop) (hkind : hop.relation.kind ≠ .morphTo) :
    ∃ target keys, hop.Matches target keys ∧ ctx.neededKey? path = some keys.parentSide := by
  obtain ⟨hname, hparent, hdeclared, htarget⟩ := h.declared
  obtain ⟨target, hregistered, hreached⟩ := htarget hkind
  obtain ⟨keys, hlinked⟩ := Option.ne_none_iff_exists'.mp
    (mt (hop.relation.joinKeys?_eq_none_iff ctx.base target).mp hkind)
  refine ⟨target, keys, ⟨hreached, hparent ▸ hlinked⟩, ?_⟩
  have hfirst : (Text.split '.' path).headD path = hop.name := by
    rw [List.headD_eq_head?_getD, hname, Option.getD_some]
  rw [neededKey?, hfirst, hdeclared, Option.bind_some]
  exact relationKey?_eq hregistered hlinked

/-- An included path needs the column of the base table. -/
def Needs (ctx : Context) (includes : List String) (c : Column) : Prop :=
  ∃ path ∈ includes, ∃ key, ctx.neededKey? path = some key ∧ .of ctx.tableAlias key = c

theorem needs_of_neededKey? {path key : String} (hpath : path ∈ includes)
    (hkey : ctx.neededKey? path = some key) : ctx.Needs includes (.of ctx.tableAlias key) :=
  ⟨path, hpath, key, hkey, rfl⟩

/-! ### A fieldset of the base type -/

/-- The key of an included relation is added if it is missing and needed. -/
theorem addRelationKey_addsMissing (ctx : Context) (q : Query) (path : String) :
    q.AddsMissing (ctx.Needs [path]) (ctx.addRelationKey q path) := by
  have hneeds (c : Column) :
      ctx.Needs [path] c ↔ ∃ key, ctx.neededKey? path = some key ∧ .of ctx.tableAlias key = c := by
    simp [Needs]
  simp only [Query.AddsMissing, hneeds]
  cases hkey : ctx.neededKey? path with
  | none => exact ⟨[], by simp [addRelationKey_of_none hkey]⟩
  | some key =>
      simp only [addRelationKey_of_some hkey, Option.some.injEq, exists_eq_left']
      -- the key is looked for among the projections as a whole column
      split
      case isTrue hselected =>
        have hselected := Query.selectsColumn_iff.mp hselected
        refine ⟨[], by simp, .nil, fun c => iff_of_false List.not_mem_nil ?_⟩
        rintro ⟨rfl, hc⟩
        exact hc hselected
      case isFalse hselected =>
        have hselected := mt Query.selectsColumn_iff.mpr hselected
        refine ⟨[.of ctx.tableAlias key], rfl, by simp, fun c => ?_⟩
        rw [List.mem_singleton]
        constructor
        · rintro rfl
          exact ⟨rfl, hselected⟩
        · exact fun h => h.1.symm

/-- The needed columns that are not yet selected are added, each of them once. -/
theorem foldl_addRelationKey (ctx : Context) (q : Query) (includes : List String) :
    q.AddsMissing (ctx.Needs includes) (includes.foldl ctx.addRelationKey q) := by
  induction includes generalizing q with
  | nil => exact ⟨[], by simp [Needs]⟩
  | cons path includes ih =>
      refine ((ctx.addRelationKey_addsMissing q path).trans (ih _)).congr fun c => ?_
      simp [Needs]

/-- The fields of a fieldset of the base type, without the needed columns behind them. -/
def requestedFieldsStage (ctx : Context) (names : List String) : Stage :=
  .all (.change Query.makeDistinct :: names.map fun field => .step (ctx.addBaseField field))

/-- The fieldset of the base runs field by field, and then the keys of the included relations are added. -/
theorem runs_baseFieldsStage {names : List String} :
    (ctx.baseFieldsStage names includes).Runs q q' ↔
      ∃ u, (ctx.requestedFieldsStage names).Runs q u ∧
        q' = includes.foldl ctx.addRelationKey u := by
  rw [baseFieldsStage, Stage.runs_append]
  simp only [Stage.runs_cons, Stage.runs_nil, Stage.runs_change, exists_eq_left,
    requestedFieldsStage]

/-- Among fieldsets that run, one of the base type has added its fields and the needed columns that
were missing, and what it left stays in front. -/
theorem runs_fieldsStage_base {before after : Entries (List String)} {key : String}
    {names : List String} (hkey : ctx.isBaseKey key = true)
    (h : (ctx.fieldsStage (before ++ (key, names) :: after) includes).Runs q q') :
    ∃ u v w, (ctx.fieldsStage before includes).Runs q u ∧
      (ctx.requestedFieldsStage names).Runs u v ∧ v.AddsMissing (ctx.Needs includes) w ∧
      w.projections <+: q'.projections := by
  rw [fieldsStage, List.map_append, List.map_cons, Stage.runs_append] at h
  obtain ⟨u, hbefore, h⟩ := h
  obtain ⟨w, hset, hafter⟩ := Stage.runs_cons.mp h
  have hbase : (ctx.baseFieldsStage names includes).Runs u w := by
    simpa only [Stage.Runs, fieldsetStage, if_pos hkey] using hset
  obtain ⟨v, hnames, rfl⟩ := runs_baseFieldsStage.mp hbase
  refine ⟨u, v, _, hbefore, hnames, foldl_addRelationKey ctx v includes, ?_⟩
  exact hafter.keeps
    (Stage.Keeps.all (fieldsStage_keeps (R := fun t => _ <+: t.projections) (fun _ h => h)
      fun _ p h _ => h.trans (List.prefix_append _ [p]))) List.prefix_rfl

end Context

namespace Compiler

variable {c : Compiler} {r : Request} {p : PreparedQuery}

/-- With a fieldset of the base type nothing is selected before the fieldsets. -/
theorem exists_before_base_fields (hadjust : r.adjust = id) (h : c.prepare r = .ok p) :
    ∃ base, c.registry.type? r.base = some base ∧
      let ctx := c.context base r.tableAlias
      (ctx.hasBaseFields r.params.fields = true →
        ∃ q, q.projections = [] ∧ q.joins = p.query.joins ∧
          (ctx.fieldsStage r.params.fields r.params.includes).Runs q p.query) := by
  obtain ⟨base, tree, joined, q, hbase, -, hjoined, hparams, hq⟩ := prepare_eq_ok h
  obtain rfl : q = p.query := by rw [hq, hadjust, id]
  refine ⟨base, hbase, fun hfields => ?_⟩
  have hnone : joined.projections = [] := by
    refine hjoined.keeps (P := fun u => u.projections = []) ?_ rfl
    rw [dependencyStage, hfields, if_pos rfl]
    split
    · exact .skip
    · exact .andThen (Context.joinStage_keeps fun u j hu => Query.projections_join.trans hu) .skip
  obtain ⟨v, ⟨hprojections, hjoins⟩, hruns⟩ := exists_before_fields
    (R := fun u => u.projections = [] ∧ u.joins = joined.joins) hparams
    (fun _ _ _ h => h) (fun _ _ _ h => h) (fun _ _ _ h => h) (fun _ _ h => h) ⟨hnone, rfl⟩
  exact ⟨v, hprojections, hjoins.trans (paramStages_joins hparams).symm, hruns⟩

/-- **Base rows can be matched to included rows.**  A prepared query with a fieldset of the base
type selects, for every included path that can be followed and does not start with a `morphTo`
relation, the column of the base table that the join keys of its first relation match.  Each
fieldset of the base type takes care of that after its own fields, whatever became of these: it
adds the needed columns that are not plain entries of the `SELECT` list yet, each of them once, and
nothing else. -/
theorem relation_keys_selected (c : Compiler) (r : Request) (p : PreparedQuery)
    (hadjust : r.adjust = id) (h : c.prepare r = .ok p) :
    ∃ base, c.registry.type? r.base = some base ∧
      let ctx := c.context base r.tableAlias
      (∀ path ∈ r.params.includes, ∀ hop, c.registry.StartsIn base path hop →
        hop.relation.kind ≠ .morphTo → ∃ target keys, hop.Matches target keys ∧
          ctx.Needs r.params.includes (.of ctx.tableAlias keys.parentSide) ∧
          (ctx.hasBaseFields r.params.fields = true →
            .column (.of ctx.tableAlias keys.parentSide) ∈ p.query.projections)) ∧
      ∀ before key names after, r.params.fields = before ++ (key, names) :: after →
        ctx.isBaseKey key = true → ∃ q u v w : Query,
          q.projections = [] ∧ q.joins = p.query.joins ∧
          (ctx.fieldsStage before r.params.includes).Runs q u ∧
          (ctx.requestedFieldsStage names).Runs u v ∧
          v.AddsMissing (ctx.Needs r.params.includes) w ∧
          w.projections <+: p.query.projections := by
  obtain ⟨base, hbase, hstart⟩ := exists_before_base_fields hadjust h
  refine ⟨base, hbase, fun path hpath hop hstarts hkind => ?_,
    fun before key names after hfields hkey => ?_⟩
  · obtain ⟨target, keys, hmatches, hneeded⟩ :=
      Context.neededKey?_eq (c.context base r.tableAlias) hstarts hkind
    have hneeds := Context.needs_of_neededKey? hpath hneeded
    refine ⟨target, keys, hmatches, hneeds, fun hany => ?_⟩
    obtain ⟨q, -, -, hruns⟩ := hstart hany
    -- one of the fieldsets of the base type is enough
    obtain ⟨key, hkey, hbaseKey⟩ := List.any_eq_true.mp hany
    obtain ⟨⟨_, names⟩, hset, rfl⟩ := List.mem_map.mp hkey
    obtain ⟨before, after, hfields⟩ := List.append_of_mem hset
    rw [hfields] at hruns
    obtain ⟨-, v, w, -, -, hadds, hprefix⟩ := Context.runs_fieldsStage_base hbaseKey hruns
    exact hprefix.subset (hadds.mem hneeds)
  · obtain ⟨q, hnone, hjoins, hruns⟩ :=
      hstart (List.any_eq_true.mpr ⟨key, by simp [hfields, Entries.keys], hkey⟩)
    rw [hfields] at hruns
    obtain ⟨u, v, w, hset⟩ := Context.runs_fieldsStage_base hkey hruns
    exact ⟨q, u, v, w, hnone, hjoins, hset⟩

/-- Articles whose only requested field is dropped are still selected with the columns that authors
and comments are matched by. -/
theorem author_keys_selected :
    ∃ p, Blog.compiler.prepare
        (Blog.included ["author", "comments.author"] "articles" ["comments.body"]) = .ok p ∧
      .column (.of "articles" "author_id") ∈ p.query.projections ∧
      .column (.of "articles" "id") ∈ p.query.projections := by
  have htest : ((Blog.compiler.prepare
      (Blog.included ["author", "comments.author"] "articles" ["comments.body"])).toOption.any
        fun _ => true) = true := by decide +kernel
  obtain ⟨p, hp, -⟩ := exists_ok_of_any htest
  obtain ⟨base, hbase, hselected, -⟩ := relation_keys_selected Blog.compiler _ p rfl hp
  obtain rfl : Blog.articles = base := Option.some.inj hbase
  refine ⟨p, hp, ?_, ?_⟩
  · obtain ⟨target, keys, ⟨hreached, hlinked⟩, -, hmem⟩ := hselected "author" (by decide)
      ⟨"author", { kind := .belongsTo, target := "people", foreignKey := some "author_id" },
        Blog.articles, some Blog.people⟩ ⟨_, rfl, rfl⟩ nofun
    obtain rfl := Option.some.inj hreached
    obtain rfl := Option.some.inj hlinked
    exact hmem (by decide)
  · obtain ⟨target, keys, ⟨hreached, hlinked⟩, -, hmem⟩ := hselected "comments.author" (by decide)
      ⟨"comments", { kind := .hasMany, target := "comments", foreignKey := some "article_id" },
        Blog.articles, some Blog.comments⟩ ⟨_, rfl, rfl⟩ nofun
    obtain rfl := Option.some.inj hreached
    obtain rfl := Option.some.inj hlinked
    exact hmem (by decide)

end Compiler

end ResourceQuery
