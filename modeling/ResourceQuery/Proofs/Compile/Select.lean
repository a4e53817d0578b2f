import ResourceQuery.Proofs.Blog
import ResourceQuery.Proofs.Compile.Prepare

/-!
# Compile — the tables of the `SELECT` list

The entries of the `SELECT` list come from the fieldsets, beside the base table's `*`.  All of them
read columns in scope but the fields of joined relations: these are not checked, and one that
follows a further relation reads a table that `FROM` may not hold (`not_selected_in_scope`).  They
are the only exception, so the `SELECT` list reads columns in scope exactly when these fields do
(`selected_in_scope_iff`).
-/

namespace ResourceQuery

open Sql (Column Projection)

namespace Context

variable {ctx : Context} {fields : Entries (List String)} {includes : List String}

/-- The fields of joined relations stand for columns in scope of `q`. -/
def JoinedFieldsInScope (ctx : Context) (p : Params) (q : Sql.Query) : Prop :=
  ∀ key name c, ctx.JoinedField p.fields p.includes q key name c → ctx.InScope q c

end Context

namespace Compiler

variable {c : Compiler} {r : Request} {p : PreparedQuery}

/-- What the stages project comes from the fieldsets, if nothing but the base was projected before. -/
theorem paramStages_entries {ctx : Context} {params : Params} {q q' : Sql.Query}
    (h : (paramStages ctx params).Runs q q')
    (hq : q.SelectReads fun column => column.table = some ctx.tableAlias) :
    (∀ e ∈ q'.projections, ctx.FieldEntry params.fields params.includes q' e) ∧
      ∀ key name column, ctx.JoinedField params.fields params.includes q' key name column →
        .column column ∈ q'.projections := by
  obtain ⟨v, hv, hfields⟩ := exists_before_fields h (fun _ _ _ h => h) (fun _ _ _ h => h)
    (fun _ _ _ h => h) (fun _ _ h => h) hq
  have hscope : v.SelectReads (ctx.InScope v) :=
    hv.mono fun column htable => ⟨ctx.tableAlias, htable, .inl rfl⟩
  exact ⟨Context.fieldsStage_entries hfields hscope,
    fun _ _ _ => Context.fieldsStage_selects hfields⟩

/-- Before the fieldsets, the `SELECT` list holds nothing but the columns of the base table. -/
theorem dependencyStage_keeps_select {ctx : Context} {fields : Entries (List String)}
    {t : DependencyTree} :
    (dependencyStage ctx fields t).Keeps
      (Sql.Query.SelectReads fun column => column.table = some ctx.tableAlias) := by
  refine dependencyStage_keeps (fun q j hq => ?_) fun q hq => hq.select rfl
  rwa [Sql.Query.SelectReads, Sql.Query.projections_join]

/-- **What the `SELECT` list reads.**  Every entry of the `SELECT` list of a prepared query reads
columns of the base table and of joined relations, or is a field of a joined relation.  So the list
reads such columns alone exactly when the fields of joined relations do. -/
theorem selected_in_scope_iff (c : Compiler) (r : Request) (p : PreparedQuery)
    (hadjust : r.adjust = id) (h : c.prepare r = .ok p) :
    ∃ base, c.registry.type? r.base = some base ∧
      let ctx := c.context base r.tableAlias
      (∀ e ∈ p.query.projections, ctx.FieldEntry r.params.fields r.params.includes p.query e) ∧
      (p.query.SelectReads (ctx.InScope p.query) ↔ ctx.JoinedFieldsInScope r.params p.query) := by
  obtain ⟨base, tree, joined, q, hbase, -, hjoined, hparams, hq⟩ := prepare_eq_ok h
  obtain rfl : q = p.query := by rw [hq, hadjust, id]
  obtain ⟨hentries, hselected⟩ :=
    paramStages_entries hparams (hjoined.keeps dependencyStage_keeps_select nofun)
  refine ⟨base, hbase, hentries, ?_⟩
  constructor
  · intro hreads key name column hfield
    exact hreads _ (hselected key name column hfield)
  · intro hfields e he
    cases hentries e he with
    | checked reads => exact reads
    | joined field => exact hfields _ _ _ field

/-- Of an author who is joined, the field `lastName` is in scope. -/
theorem last_name_in_scope :
    ∃ p, Blog.compiler.prepare (Blog.authorField "lastName") = .ok p ∧
      p.query.SelectReads ((Blog.context false).InScope p.query) := by
  have htest : ((Blog.compiler.prepare (Blog.authorField "lastName")).toOption.any fun p =>
      p.query.hasJoin "author") = true := by decide +kernel
  obtain ⟨p, hp, hjoin⟩ := exists_ok_of_any htest
  obtain ⟨base, hbase, -, hiff⟩ :=
    selected_in_scope_iff Blog.compiler (Blog.authorField "lastName") p rfl hp
  obtain rfl : Blog.articles = base := Option.some.inj hbase
  have hcolumn : (Blog.context false).qualifyColumn "author.lastName" =
      .ok (some (.of "author" "last_name")) := by decide +kernel
  refine ⟨p, hp, hiff.mpr ?_⟩
  intro key name column hfield
  obtain ⟨names, hnames, hname⟩ := hfield.field
  obtain ⟨rfl, rfl⟩ := Prod.mk.inj (List.mem_singleton.mp hnames)
  obtain rfl := List.mem_singleton.mp hname
  obtain rfl := Option.some.inj (Except.ok.inj (hcolumn.symm.trans hfield.column))
  exact ⟨"author", rfl, .inr hjoin⟩

/-- Of an author who is joined, the field `country.name` reads the table of countries, which is not
joined. -/
theorem not_selected_in_scope :
    ¬ ∀ (c : Compiler) (r : Request) (p : PreparedQuery) (base : ResourceType),
      r.adjust = id → c.prepare r = .ok p → c.registry.type? r.base = some base →
      p.query.SelectReads ((c.context base r.tableAlias).InScope p.query) := by
  intro h
  have htest : ((Blog.compiler.prepare (Blog.authorField "country.name")).toOption.any fun p =>
      p.query.selectsColumn (.of "country" "name") && !p.query.hasJoin "country") = true := by
    decide +kernel
  obtain ⟨p, hp, htest⟩ := exists_ok_of_any htest
  obtain ⟨hselected, hjoin⟩ : p.query.selectsColumn (.of "country" "name") = true ∧
      p.query.hasJoin "country" = false := by simpa using htest
  have hreads := h Blog.compiler (Blog.authorField "country.name") p Blog.articles rfl hp rfl
  obtain ⟨table, htable, hin⟩ := hreads _ (Sql.Query.selectsColumn_iff.mp hselected)
  obtain rfl : "country" = table := Option.some.inj htable
  rcases hin with hbase | hjoined
  · exact absurd hbase (by decide)
  · rw [hjoin] at hjoined
    cases hjoined

end Compiler

end ResourceQuery
