import ResourceQuery.Proofs.Compile.FieldEntries

/-!
# Compile — queries that select everything

A query without entries in its `SELECT` list selects all columns of all its tables.  A query with
joins is kept from that by the base table's `*`, unless some fieldset stands for the base type: then
the fieldsets alone decide (`selects_iff`).  They may add nothing, since a fieldset may be empty, and
its fields may stand for nothing or read tables that are not joined (`not_selects_of_joins`).

* `FieldsetSelects`: when a fieldset adds an entry to the `SELECT` list.
* `fieldsetSelects_iff`: it does when there is an entry that it adds.
-/

namespace ResourceQuery

open Sql (Column)

namespace Context

variable {ctx : Context} {q q' : Sql.Query}

/-- A fieldset adds an entry to the `SELECT` list of `q`. -/
inductive FieldsetSelects (ctx : Context) (includes : List String) (q : Sql.Query) :
    String × List String → Prop where
  /-- A field of the base type stands for a column in scope. -/
  | field {key field : String} {names : List String} {c : Column} (base : ctx.isBaseKey key)
      (mem : field ∈ names) (column : ctx.qualifyColumn (fieldKey field) = .ok (some c))
      (scope : ctx.InScope q c) : FieldsetSelects ctx includes q (key, names)
  /-- An included path needs a column of the base table. -/
  | needed {key path column : String} {names : List String} (base : ctx.isBaseKey key)
      (mem : path ∈ includes) (needed : ctx.neededKey? path = some column) :
      FieldsetSelects ctx includes q (key, names)
  /-- A field of a joined relation stands for a column. -/
  | joined {key name : String} {names : List String} {c : Column} (relation : ¬ ctx.isBaseKey key)
      (excluded : key ∉ includes) (joined : q.hasJoin key = true) (mem : name ∈ names)
      (column : ctx.qualifyColumn (key ++ "." ++ name) = .ok (some c)) :
      FieldsetSelects ctx includes q (key, names)

variable {includes : List String}

/-- A fieldset selects something exactly if it adds an entry. -/
theorem fieldsetSelects_iff {set : String × List String} :
    ctx.FieldsetSelects includes q set ↔ ∃ e, ctx.FieldsetAdds includes q set e := by
  obtain ⟨key, names⟩ := set
  simp only [FieldsetAdds]
  split
  case isTrue hbase =>
    constructor
    · intro h
      cases h with
      | field base mem column scope =>
          obtain ⟨e, he⟩ := exists_fieldAdds column scope
          exact ⟨e, .inl ⟨_, mem, he⟩⟩
      | needed base mem needed => exact ⟨_, .inr ⟨_, needs_of_neededKey? mem needed, rfl⟩⟩
      | joined relation excluded joined mem column => exact absurd hbase relation
    · rintro ⟨e, ⟨field, hmem, he⟩ | ⟨c, ⟨path, hmem, key, hneeded, -⟩, -⟩⟩
      · obtain ⟨c, hcolumn, hin, -⟩ := he.reads
        exact .field hbase hmem hcolumn hin
      · exact .needed hbase hmem hneeded
  case isFalse hrelation =>
    constructor
    · intro h
      cases h with
      | field base mem column scope => exact absurd base hrelation
      | needed base mem needed => exact absurd base hrelation
      | joined relation excluded joined mem column =>
          exact ⟨_, ⟨excluded, joined⟩, _, mem, _, column, rfl⟩
    · rintro ⟨e, ⟨hexcluded, hjoined⟩, name, hmem, c, hcolumn, -⟩
      exact .joined hrelation hexcluded hjoined hmem hcolumn

end Context

namespace Compiler

variable {c : Compiler} {r : Request} {p : PreparedQuery} {ctx : Context} {q q' : Sql.Query}

/-- Before the fieldsets, a query with joins has an entry in its `SELECT` list unless some fieldset
stands for the base type. -/
theorem dependencyStage_adds {fields : Entries (List String)} {t : DependencyTree}
    (h : (dependencyStage ctx fields t).Runs q q') (hq : q.joins = [] ∧ q.projections = [])
    (hjoins : q'.joins ≠ []) : q'.projections ≠ [] ↔ ctx.hasBaseFields fields = false := by
  rw [dependencyStage] at h
  split at h
  · obtain rfl := Stage.runs_skip.mp h
    exact absurd hq.1 hjoins
  · obtain ⟨joined, hjoined, hselect⟩ := Stage.runs_andThen.mp h
    have hnone : joined.projections = [] :=
      hjoined.keeps (P := fun u => u.projections = [])
        (Context.joinStage_keeps fun u j hu => Sql.Query.projections_join.trans hu) hq.2
    cases hbase : ctx.hasBaseFields fields with
    | true =>
        rw [hbase, if_pos rfl] at hselect
        obtain rfl := Stage.runs_skip.mp hselect
        simpa using hnone
    | false =>
        rw [hbase, if_neg Bool.false_ne_true] at hselect
        obtain rfl := Stage.runs_change.mp hselect
        simp [Sql.Query.selectColumn, Sql.Query.select]

/-- The stages after the joins add to the `SELECT` list when a fieldset does. -/
theorem paramStages_adds {params : Params} (h : (paramStages ctx params).Runs q q') :
    q'.projections ≠ [] ↔ q.projections ≠ [] ∨
      ∃ set ∈ params.fields, ctx.FieldsetSelects params.includes q' set := by
  obtain ⟨v, hv, hfields⟩ := exists_before_fields (R := fun u => u.projections = q.projections) h
    (fun _ _ _ h => h) (fun _ _ _ h => h) (fun _ _ _ h => h) (fun _ _ h => h) rfl
  simp only [ne_eq, List.eq_nil_iff_forall_not_mem, not_forall_not, Context.fieldsStage_mem hfields,
    hv, exists_or, Context.fieldsetSelects_iff]
  refine or_congr_right ⟨?_, ?_⟩
  · rintro ⟨e, set, hset, he⟩
    exact ⟨set, hset, e, he⟩
  · rintro ⟨set, hset, e, he⟩
    exact ⟨e, set, hset, he⟩

/-- **When a query with joins selects anything in particular.**  The `SELECT` list of a prepared query
with joins has an entry exactly when no fieldset stands for the base type, so that the base table's
`*` is selected, or some fieldset adds an entry. -/
theorem selects_iff (c : Compiler) (r : Request) (p : PreparedQuery) (hadjust : r.adjust = id)
    (h : c.prepare r = .ok p) (hjoins : p.query.joins ≠ []) :
    ∃ base, c.registry.type? r.base = some base ∧
      let ctx := c.context base r.tableAlias
      (p.query.projections ≠ [] ↔ ctx.hasBaseFields r.params.fields = false ∨
        ∃ set ∈ r.params.fields, ctx.FieldsetSelects r.params.includes p.query set) := by
  obtain ⟨base, tree, joined, q, hbase, -, hjoined, hparams, hq⟩ := prepare_eq_ok h
  obtain rfl : q = p.query := by rw [hq, hadjust, id]
  have hstart := dependencyStage_adds hjoined ⟨rfl, rfl⟩ (paramStages_joins hparams ▸ hjoins)
  exact ⟨base, hbase, (paramStages_adds hparams).trans (or_congr_left hstart)⟩

/-- Of articles by author, the field `title` is selected. -/
theorem title_selected :
    ∃ p, Blog.compiler.prepare (Blog.articleField "title") = .ok p ∧ p.query.joins ≠ [] ∧
      p.query.projections ≠ [] := by
  have htest : ((Blog.compiler.prepare (Blog.articleField "title")).toOption.any fun p =>
      !p.query.joins.isEmpty) = true := by decide +kernel
  obtain ⟨p, hp, hjoins⟩ := exists_ok_of_any htest
  have hjoins : p.query.joins ≠ [] := by simpa using hjoins
  obtain ⟨base, hbase, hiff⟩ := selects_iff Blog.compiler (Blog.articleField "title") p rfl hp hjoins
  obtain rfl : Blog.articles = base := Option.some.inj hbase
  have hcolumn : (Blog.context false).qualifyColumn (fieldKey "title") =
      .ok (some (.of "articles" "title")) := by decide +kernel
  exact ⟨p, hp, hjoins, hiff.mpr (.inr ⟨_, List.mem_singleton.mpr rfl,
    .field (by decide +kernel) (List.mem_singleton.mpr rfl) hcolumn ⟨"articles", rfl, .inl rfl⟩⟩)⟩

/-- Of articles by author, the field `comments.body` is dropped, as comments are not joined, and all
columns of articles and authors are selected. -/
theorem not_selects_of_joins :
    ¬ ∀ (c : Compiler) (r : Request) (p : PreparedQuery), r.adjust = id → c.prepare r = .ok p →
      p.query.joins ≠ [] → p.query.projections ≠ [] := by
  intro h
  have htest : ((Blog.compiler.prepare (Blog.articleField "comments.body")).toOption.any fun p =>
      !p.query.joins.isEmpty && p.query.projections.isEmpty) = true := by decide +kernel
  obtain ⟨p, hp, htest⟩ := exists_ok_of_any htest
  obtain ⟨hjoins, hnone⟩ : p.query.joins ≠ [] ∧ p.query.projections = [] := by simpa using htest
  exact h Blog.compiler (Blog.articleField "comments.body") p rfl hp hjoins hnone

end Compiler

end ResourceQuery
