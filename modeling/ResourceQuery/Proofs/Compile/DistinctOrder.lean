import ResourceQuery.Proofs.Compile.FieldEntries

/-!
# Compile — the order of distinct rows

The database orders distinct rows by columns of the `SELECT` list only.  A query is distinct when some
fieldset stands for the base type (`distinct_iff`), and then the fieldsets alone make its `SELECT` list
(`projections_iff`).  The columns that it is ordered by come from the sort entries
(`orderColumns_iff`), and are not added to the list.  So the order is within the list exactly when the
fieldsets add every column of a sort entry, or nothing at all (`orders_shown_iff`).
-/

namespace ResourceQuery

open Sql (Column OrderTerm Query)

namespace Sql.Query

/-- The `SELECT` list has the column, by itself or with all columns of its table. -/
def Shows (q : Query) (c : Column) : Prop :=
  .column c ∈ q.projections ∨ ∃ table, c.table = some table ∧ .column (.all table) ∈ q.projections

/-- If the query is distinct and has a `SELECT` list, the list has the columns that it is ordered by. -/
def OrdersShown (q : Query) : Prop :=
  q.distinct = true → q.projections ≠ [] → ∀ c order, .column c order ∈ q.orderTerms → q.Shows c

theorem distinct_join {q : Query} {j : Sql.Join} : (q.join j).distinct = q.distinct := by
  rw [join]
  split <;> rfl

theorem orderTerms_join {q : Query} {j : Sql.Join} : (q.join j).orderTerms = q.orderTerms := by
  rw [join]
  split <;> rfl

end Sql.Query

namespace Context

variable {ctx : Context} {q q' : Query} {column : Column}

/-- A sort entry stands for the column. -/
def SortsBy (ctx : Context) (sort : List String) (column : Column) : Prop :=
  ∃ entry ∈ sort, ctx.qualify (sortEntry entry).1 = .ok (some (.column column))

/-- A sort entry orders by a column exactly if its key stands for it. -/
theorem orderTerm?_eq_column {entry : String} :
    (∃ order, ctx.orderTerm? entry = .ok (some (.column column order))) ↔
      ctx.qualify (sortEntry entry).1 = .ok (some (.column column)) := by
  constructor
  · rintro ⟨order, h⟩
    obtain ⟨found, hfound, h⟩ := bind_pure_eq_ok.mp h
    obtain ⟨target, rfl, hterm⟩ := Option.map_eq_some_iff.mp h
    cases target with
    | column c =>
        obtain ⟨rfl, -⟩ := OrderTerm.column.inj hterm
        exact hfound
    | json a => cases hterm
  · intro h
    exact ⟨(sortEntry entry).2, bind_pure_eq_ok.mpr ⟨_, h, rfl⟩⟩

/-- Ordering, when it runs, adds the columns that sort entries stand for. -/
theorem sortStage_columns {sort : List String} (h : (ctx.sortStage sort).Runs q q') :
    (∃ order, .column column order ∈ q'.orderTerms) ↔
      (∃ order, .column column order ∈ q.orderTerms) ∨ ctx.SortsBy sort column := by
  refine (Stage.Runs.made_iff (P := fun u => ∃ order, .column column order ∈ u.orderTerms)
    (I := fun _ => True) h trivial fun entry _ u v _ hrun => ⟨trivial, ?_⟩).2
  obtain ⟨found, hfound, rfl⟩ := Stage.runs_add.mp hrun
  rw [← orderTerm?_eq_column, hfound]
  cases found with
  | none => simp
  | some term => simp [Query.orderBy, exists_or, eq_comm]

end Context

namespace Compiler

variable {c : Compiler} {r : Request} {p : PreparedQuery} {base : ResourceType} {ctx : Context}
  {q q' : Query} {params : Params}

/-- The stages order by the columns of the sort entries, besides those that were ordered by before. -/
theorem paramStages_orderColumns (h : (paramStages ctx params).Runs q q') (column : Column) :
    (∃ order, .column column order ∈ q'.orderTerms) ↔
      (∃ order, .column column order ∈ q.orderTerms) ∨ ctx.SortsBy params.sort column := by
  obtain ⟨u, v, hclauses, hincludes, hfields⟩ := runs_paramStages.mp h
  obtain ⟨filtered, hfilter, hclauses⟩ := Stage.runs_cons.mp hclauses
  obtain ⟨grouped, hgroup, hclauses⟩ := Stage.runs_cons.mp hclauses
  obtain ⟨sorted, hsort, hend⟩ := Stage.runs_cons.mp hclauses
  obtain rfl := Stage.runs_nil.mp hend
  have hfiltered : filtered.orderTerms = q.orderTerms :=
    hfilter.keeps (P := fun w => w.orderTerms = q.orderTerms)
      (Context.filterStage_keeps fun _ _ _ _ _ _ _ hw => hw) rfl
  have hgrouped : grouped.orderTerms = q.orderTerms :=
    hgroup.keeps (P := fun w => w.orderTerms = q.orderTerms)
      (Context.groupStage_keeps fun _ _ _ _ _ hw => hw) hfiltered
  have hincluded : v.orderTerms = u.orderTerms :=
    hincludes.keeps (P := fun w => w.orderTerms = u.orderTerms)
      (Context.includeStage_keeps fun _ _ hw => hw) rfl
  have hshown : q'.orderTerms = u.orderTerms :=
    hfields.keeps (P := fun w => w.orderTerms = u.orderTerms)
      (Stage.Keeps.all (Context.fieldsStage_keeps (fun _ hw => hw) fun _ _ hw _ => hw)) hincluded
  rw [hshown, ← hgrouped]
  exact Context.sortStage_columns hsort

/-- The stages that made a prepared query of the base type. -/
theorem prepare_runs (hadjust : r.adjust = id) (h : c.prepare r = .ok p)
    (hbase : c.registry.type? r.base = some base) :
    ∃ tree joined, (dependencyStage (c.context base r.tableAlias) r.params.fields tree).Runs
        (c.start base r.tableAlias) joined ∧
      (paramStages (c.context base r.tableAlias) r.params).Runs joined p.query := by
  obtain ⟨found, tree, joined, q, hfound, -, hjoined, hparams, hq⟩ := prepare_eq_ok h
  obtain rfl : q = p.query := by rw [hq, hadjust, id]
  obtain rfl := Option.some.inj (hbase.symm.trans hfound)
  exact ⟨tree, joined, hjoined, hparams⟩

/-- A query is distinct exactly if its base has a fieldset. -/
theorem distinct_iff (hadjust : r.adjust = id) (h : c.prepare r = .ok p)
    (hbase : c.registry.type? r.base = some base) :
    p.query.distinct = true ↔
      (c.context base r.tableAlias).hasBaseFields r.params.fields = true := by
  obtain ⟨tree, joined, hjoined, hparams⟩ := prepare_runs hadjust h hbase
  have hstart : joined.distinct = false :=
    hjoined.keeps (P := fun u => u.distinct = false)
      (dependencyStage_keeps (fun u j hu => Query.distinct_join.trans hu) fun _ hu => hu) rfl
  obtain ⟨v, hv, hfields⟩ := exists_before_fields (R := fun u => u.distinct = false) hparams
    (fun _ _ _ hu => hu) (fun _ _ _ hu => hu) (fun _ _ _ hu => hu) (fun _ _ hu => hu) hstart
  rw [Context.fieldsStage_distinct hfields, hv]
  simp

/-- A query is ordered by the columns of its sort entries and no others. -/
theorem orderColumns_iff (hadjust : r.adjust = id) (h : c.prepare r = .ok p)
    (hbase : c.registry.type? r.base = some base) (column : Column) :
    (∃ order, .column column order ∈ p.query.orderTerms) ↔
      (c.context base r.tableAlias).SortsBy r.params.sort column := by
  obtain ⟨tree, joined, hjoined, hparams⟩ := prepare_runs hadjust h hbase
  have hstart : joined.orderTerms = [] :=
    hjoined.keeps (P := fun u => u.orderTerms = [])
      (dependencyStage_keeps (fun u j hu => Query.orderTerms_join.trans hu) fun _ hu => hu) rfl
  rw [paramStages_orderColumns hparams, hstart]
  simp

/-- A query projects what its fieldsets add, if the base has one. -/
theorem projections_iff (hadjust : r.adjust = id) (h : c.prepare r = .ok p)
    (hbase : c.registry.type? r.base = some base)
    (hfields : (c.context base r.tableAlias).hasBaseFields r.params.fields = true)
    (e : Sql.Projection) :
    e ∈ p.query.projections ↔
      (c.context base r.tableAlias).FieldsAdd r.params.fields r.params.includes p.query e := by
  obtain ⟨found, hfound, hstart⟩ := exists_before_base_fields hadjust h
  obtain rfl := Option.some.inj (hbase.symm.trans hfound)
  obtain ⟨v, hnone, -, hruns⟩ := hstart hfields
  rw [Context.fieldsStage_mem hruns, hnone]
  simp

/-- **When the order of distinct rows is within the `SELECT` list.**  A prepared query orders its rows
by columns of its `SELECT` list, if it is distinct and has one, exactly when the request is one of
these: no fieldset stands for the base type, or the fieldsets add nothing, or they add every column that
a sort entry stands for, by itself or with all columns of its table. -/
theorem orders_shown_iff (c : Compiler) (r : Request) (p : PreparedQuery) (hadjust : r.adjust = id)
    (h : c.prepare r = .ok p) :
    ∃ base, c.registry.type? r.base = some base ∧
      let ctx := c.context base r.tableAlias
      let adds := ctx.FieldsAdd r.params.fields r.params.includes p.query
      (p.query.OrdersShown ↔
        ctx.hasBaseFields r.params.fields = false ∨ (∀ e, ¬ adds e) ∨
        ∀ column, ctx.SortsBy r.params.sort column →
          adds (.column column) ∨
            ∃ table, column.table = some table ∧ adds (.column (.all table))) := by
  obtain ⟨base, -, -, -, hbase, -⟩ := prepare_eq_ok h
  refine ⟨base, hbase, ?_⟩
  intro ctx adds
  have hdistinct : p.query.distinct = true ↔ ctx.hasBaseFields r.params.fields = true :=
    distinct_iff hadjust h hbase
  have hcolumns := orderColumns_iff hadjust h hbase
  constructor
  · intro hshown
    refine or_iff_not_imp_left.mpr fun hfields => or_iff_not_imp_left.mpr fun hadds => ?_
    have hfields := (Bool.not_eq_false _).mp hfields
    have hmem := projections_iff hadjust h hbase hfields
    obtain ⟨e, he⟩ := not_forall_not.mp hadds
    intro column hsort
    obtain ⟨order, horder⟩ := (hcolumns column).mpr hsort
    -- with an entry the list of projections is not the star, which shows every column
    have hne : p.query.projections ≠ [] := List.ne_nil_of_mem ((hmem e).mpr he)
    simpa only [Query.Shows, hmem] using hshown (hdistinct.mpr hfields) hne column order horder
  · rintro hcases hd hne column order horder
    have hfields := hdistinct.mp hd
    have hmem := projections_iff hadjust h hbase hfields
    rcases hcases with hnone | hnone | hshown
    · exact absurd hfields (hnone ▸ Bool.false_ne_true)
    · obtain ⟨e, he⟩ := List.exists_mem_of_ne_nil _ hne
      exact absurd ((hmem e).mp he) (hnone e)
    · simpa only [Query.Shows, hmem] using hshown column ((hcolumns column).mp ⟨order, horder⟩)

/-- Articles by title are shown with the title. -/
theorem title_order_shown :
    ∃ p, Blog.compiler.prepare (Blog.sortedArticles "title" "title") = .ok p ∧
      p.query.OrdersShown := by
  have htest : ((Blog.compiler.prepare (Blog.sortedArticles "title" "title")).toOption.any
      fun _ => true) = true := by decide +kernel
  obtain ⟨p, hp, -⟩ := exists_ok_of_any htest
  obtain ⟨base, hbase, hiff⟩ := orders_shown_iff Blog.compiler _ p rfl hp
  obtain rfl : Blog.articles = base := Option.some.inj hbase
  have htitle : (Blog.context false).qualify "title" =
      .ok (some (.column (.of "articles" "title"))) := by decide +kernel
  refine ⟨p, hp, hiff.mpr (.inr (.inr ?_))⟩
  rintro column ⟨entry, hentry, hcolumn⟩
  obtain rfl := List.mem_singleton.mp hentry
  obtain rfl : .of "articles" "title" = column :=
    AttributeTarget.column.inj (Option.some.inj (Except.ok.inj (htitle.symm.trans hcolumn)))
  exact .inl ⟨_, List.mem_singleton.mpr rfl, .inl ⟨"title", List.mem_singleton.mpr rfl, _, htitle,
    ⟨"articles", rfl, .inl rfl⟩, rfl⟩⟩

/-- Articles by the time of their creation are shown with the title alone. -/
theorem not_orders_shown :
    ¬ ∀ (c : Compiler) (r : Request) (p : PreparedQuery), r.adjust = id → c.prepare r = .ok p →
      p.query.OrdersShown := by
  intro h
  have htest : ((Blog.compiler.prepare (Blog.sortedArticles "createdAt" "title")).toOption.any
      fun p => p.query.distinct && !p.query.projections.isEmpty &&
        !p.query.selectsColumn (.of "articles" "createdAt") &&
        !p.query.selectsColumn (.all "articles")) = true := by decide +kernel
  obtain ⟨p, hp, htest⟩ := exists_ok_of_any htest
  have hcolumn : (Blog.context false).SortsBy ["createdAt"] (.of "articles" "createdAt") :=
    ⟨"createdAt", List.mem_singleton.mpr rfl, by decide +kernel⟩
  obtain ⟨order, horder⟩ := (orderColumns_iff rfl hp rfl (.of "articles" "createdAt")).mpr hcolumn
  simp only [Bool.and_eq_true, Bool.not_eq_true', List.isEmpty_eq_false_iff] at htest
  obtain ⟨⟨⟨hdistinct, hne⟩, hsingle⟩, hall⟩ := htest
  rcases h _ _ p rfl hp hdistinct hne _ order horder with hshown | ⟨table, htable, hshown⟩
  · exact Bool.false_ne_true (hsingle.symm.trans (Query.selectsColumn_iff.mpr hshown))
  · obtain rfl := Option.some.inj htable
    exact Bool.false_ne_true (hall.symm.trans (Query.selectsColumn_iff.mpr hshown))

end Compiler

end ResourceQuery
