import ResourceQuery.Proofs.Blog
import ResourceQuery.Proofs.Compile.Lenient
import ResourceQuery.Proofs.Request.Deletes

/-!
# Compile — keys that stand for nothing

Outside strict mode, a key of a filter, a group or an order that stands for nothing is dropped: it
adds no condition, group or order.  What it may still leave behind is joins.  The relations that the
key follows are joined before it is asked what the key stands for, and a path that ends in a relation
is followed although it stands for nothing (`not_dropped_neutral`).

Deleting the entry of such a key (`Params.Deletes`) therefore changes the query only through its joins:
the query stays the same when they do, and they do when the key follows no relations
(`dropped_leaves_joins`).
-/

namespace ResourceQuery

namespace Context

variable {ctx : Context} {key : String}

/-! ### The stages of a dropped key -/

/-- A term whose key stands for nothing has no conditions. -/
theorem termConditions_dropped {term : FilterTerm} (hdropped : ctx.qualify term.key = .ok none)
    (f : Filter) : ctx.termConditions f term = .ok [] := by
  cases term with
  | equality key value =>
      rw [termConditions]
      split
      · rfl
      · exact bind_pure_eq_ok.mpr ⟨none, hdropped, rfl⟩
  | typed op key value => exact bind_pure_eq_ok.mpr ⟨none, hdropped, rfl⟩

/-- The conditions of a term do not change when another key is deleted. -/
theorem termConditions_other {f : Filter} {clauses : List FilterClause} {term : FilterTerm}
    (h : Filter.Deletes key f.clauses clauses) (hother : key ≠ term.key) :
    ctx.termConditions f term = ctx.termConditions ⟨clauses⟩ term := by
  cases term with
  | equality other value =>
      have htyped : f.typed? .like other = (Filter.mk clauses).typed? .like other :=
        h.typed? hother .like
      simp only [termConditions, htyped]
  | typed op other value =>
      have hequality : f.equality? other = (Filter.mk clauses).equality? other := h.equality? hother
      simp only [termConditions, hequality]

/-- A filter can do without a key that stands for nothing. -/
theorem filterStage_deletes {f : Filter} {clauses : List FilterClause}
    (hdropped : ctx.qualify key = .ok none) (h : Filter.Deletes key f.clauses clauses) :
    ctx.filterStage f = ctx.filterStage ⟨clauses⟩ := by
  have hsame (term : FilterTerm) :
      ctx.termConditions f term = ctx.termConditions ⟨clauses⟩ term := by
    by_cases hkey : key = term.key
    · rw [termConditions_dropped (hkey ▸ hdropped), termConditions_dropped (hkey ▸ hdropped)]
    · exact termConditions_other h hkey
  obtain ⟨before, term, after, hkey, hterms, hterms'⟩ := h.terms
  have hterms : f.terms = before ++ term :: after := hterms
  simp only [filterStage, hsame, hterms, hterms']
  exact Stage.all_without
    (Stage.add_eq_skip (termConditions_dropped (hkey ▸ hdropped) _) fun _ => rfl)

/-- The stages after the joins are the same without an entry of a dropped key. -/
theorem paramStages_deletes {p p' : Params} (hdropped : ctx.qualify key = .ok none)
    (h : p.Deletes key p') : Compiler.paramStages ctx p = Compiler.paramStages ctx p' := by
  cases h with
  | filter h => simp only [Compiler.paramStages, filterStage_deletes hdropped h]
  | group before after h =>
      have hgroup : ctx.groupTerm? key = .ok none := bind_pure_eq_ok.mpr ⟨none, hdropped, rfl⟩
      have hstage : ctx.groupStage p.group = ctx.groupStage (before ++ after) := by
        rw [groupStage, h]
        exact Stage.all_without (Stage.add_eq_skip hgroup fun _ => rfl)
      simp only [Compiler.paramStages, hstage]
  | sort before after entry hkey h =>
      have horder : ctx.orderTerm? entry = .ok none :=
        bind_pure_eq_ok.mpr ⟨none, hkey ▸ hdropped, rfl⟩
      have hstage : ctx.sortStage p.sort = ctx.sortStage (before ++ after) := by
        rw [sortStage, h]
        exact Stage.all_without (Stage.add_eq_skip horder fun _ => rfl)
      simp only [Compiler.paramStages, hstage]

/-! ### The joins of a dropped key -/

/-- The relations of a key are those in front of the last segment of its path. -/
theorem dependencies_eq_cons {name : String} {names : List String}
    (h : ctx.dependencies key = .ok (name :: names)) :
    ∃ resolved, '.' ∈ (AttributeKey.ofText key).path.toList ∧
      ctx.registry.resolveAttribute ctx.base (AttributeKey.ofText key).path = .ok resolved ∧
      resolved.names = name :: names := by
  simp only [dependencies] at h
  split at h
  case isTrue hpoint =>
    obtain ⟨found, hfound, hnames⟩ := bind_pure_eq_ok.mp h
    cases found with
    | none => cases hnames
    | some resolved =>
        exact ⟨resolved, by simpa using hpoint, resolveAttribute_eq_some.mp hfound, hnames⟩
  case isFalse => cases h

/-- When the keys of a request follow relations, something is joined. -/
theorem joins_ne_nil {filter : Filter} {group sort : List String} {t : DependencyTree}
    {q q' : Sql.Query} (htree : ctx.dependencyTree filter group sort = .ok t)
    (hjoins : (ctx.joinStage t).Runs q q') (hne : t.isEmpty = false) : q'.joins ≠ [] := by
  obtain ⟨name, hname⟩ := DependencyTree.exists_hasPath_of_isEmpty hne
  obtain ⟨paths, hpaths, rfl⟩ := bind_pure_eq_ok.mp htree
  obtain ⟨path, hmem, names, rfl⟩ := (DependencyTree.hasPath_ofPaths.mp hname).resolve_left nofun
  obtain ⟨key, -, hkey⟩ := exists_key_of_mem hpaths hmem
  obtain ⟨resolved, hpoint, hresolved, hnames⟩ := dependencies_eq_cons hkey
  obtain ⟨hop, hops, hhops, -, -⟩ := List.map_eq_cons_iff.mp hnames
  -- the path goes on behind its first relation, which is therefore one that can be joined
  have htarget := Registry.resolveAttribute_first hpoint hresolved hhops
  have hpath : (DependencyTree.ofPaths paths).HasPath resolved.names :=
    DependencyTree.hasPath_ofPaths.mpr (.inr ⟨_, hmem, hnames ▸ List.prefix_rfl⟩)
  have hjoin : q'.hasJoin hop.name = true :=
    joinStage_hasJoin hjoins (Registry.resolveAttribute_chain hresolved) hpath
      (hhops ▸ List.mem_cons_self) htarget
  obtain ⟨j, hj, -⟩ := Sql.Query.hasJoin_iff.mp hjoin
  exact List.ne_nil_of_mem hj

end Context

namespace Sql.Query

/-- The queries have the same conditions, groups and orders, and load the same relations. -/
structure SameClauses (q u : Query) : Prop where
  conditions : q.conditions = u.conditions
  groupTerms : q.groupTerms = u.groupTerms
  orderTerms : q.orderTerms = u.orderTerms
  eagerLoads : q.eagerLoads = u.eagerLoads

namespace SameClauses

variable {q u v : Query}

theorem refl (q : Query) : q.SameClauses q :=
  ⟨rfl, rfl, rfl, rfl⟩

theorem symm (h : q.SameClauses u) : u.SameClauses q :=
  ⟨h.conditions.symm, h.groupTerms.symm, h.orderTerms.symm, h.eagerLoads.symm⟩

theorem trans (h : q.SameClauses u) (hu : u.SameClauses v) : q.SameClauses v :=
  ⟨h.conditions.trans hu.conditions, h.groupTerms.trans hu.groupTerms,
    h.orderTerms.trans hu.orderTerms, h.eagerLoads.trans hu.eagerLoads⟩

/-- Queries keep the same clauses in changes one by one, by induction on them. -/
theorem foldl {α : Type} {put : Query → α → Query} (hput : ∀ q u x, q.SameClauses u →
    (put q x).SameClauses (put u x)) (xs : List α) (h : q.SameClauses u) :
    (xs.foldl put q).SameClauses (xs.foldl put u) := by
  induction xs generalizing q u with
  | nil => exact h
  | cons x xs ih => exact ih (hput q u x h)

theorem restrict (c : Condition) (h : q.SameClauses u) :
    (q.restrict c).SameClauses (u.restrict c) :=
  { h with conditions := congrArg (· ++ [c]) h.conditions }

theorem groupBy (t : GroupTerm) (h : q.SameClauses u) : (q.groupBy t).SameClauses (u.groupBy t) :=
  { h with groupTerms := congrArg (· ++ [t]) h.groupTerms }

theorem orderBy (t : OrderTerm) (h : q.SameClauses u) : (q.orderBy t).SameClauses (u.orderBy t) :=
  { h with orderTerms := congrArg (· ++ [t]) h.orderTerms }

theorem load (e : EagerLoad) (h : q.SameClauses u) : (q.load e).SameClauses (u.load e) :=
  { h with eagerLoads := congrArg (· ++ [e]) h.eagerLoads }

end SameClauses

end Sql.Query

namespace Compiler

variable {c : Compiler} {r : Request} {ctx : Context} {params : Params} {q u q' u' : Sql.Query}

/-- What is joined has no part in the clauses and the loads of a query. -/
theorem paramStages_sameClauses (hq : (paramStages ctx params).Runs q q')
    (hu : (paramStages ctx params).Runs u u') (h : q.SameClauses u) : q'.SameClauses u' := by
  simp only [paramStages, Stage.runs_cons, Stage.runs_nil] at hq hu
  obtain ⟨q₁, hq₁, q₂, hq₂, q₃, hq₃, q₄, hq₄, q₅, hq₅, rfl⟩ := hq
  obtain ⟨u₁, hu₁, u₂, hu₂, u₃, hu₃, u₄, hu₄, u₅, hu₅, rfl⟩ := hu
  have hfilter : q₁.SameClauses u₁ := Stage.Runs.alike (fun _ _ cs h =>
    .foldl (fun _ _ c h => h.restrict c) cs h) hq₁ hu₁ h
  have hgroup : q₂.SameClauses u₂ := Stage.Runs.alike (fun _ _ t h =>
    .foldl (fun _ _ t h => h.groupBy t) t.toList h) hq₂ hu₂ hfilter
  have hsort : q₃.SameClauses u₃ := Stage.Runs.alike (fun _ _ t h =>
    .foldl (fun _ _ t h => h.orderBy t) t.toList h) hq₃ hu₃ hgroup
  have hload : q₄.SameClauses u₄ := Stage.Runs.alike (fun _ _ e h =>
    .foldl (fun _ _ e h => h.load e) e.toList h) hq₄ hu₄ hsort
  -- fieldsets leave the clauses alone
  have hfields {a b : Sql.Query} (hrun : (ctx.fieldsStage params.fields params.includes).Runs a b) :
      b.SameClauses a := hrun.keeps (P := fun v => v.SameClauses a)
    (Stage.Keeps.all (Context.fieldsStage_keeps (fun _ h => { h with }) fun _ _ h _ => { h with }))
    (.refl a)
  exact ((hfields hq₅).trans hload).trans (hfields hu₅).symm

/-- The query after its joins, given what is joined. -/
theorem dependencyStage_runs {fields : Entries (List String)} {t : DependencyTree}
    (h : (dependencyStage ctx fields t).Runs q q') :
    q' = { q with
      joins       := q'.joins
      projections :=
        if t.isEmpty || ctx.hasBaseFields fields then q.projections
        else q.projections ++ [.column (.all ctx.tableAlias)] } := by
  rw [dependencyStage] at h
  split at h
  case isTrue hnone =>
    obtain rfl := Stage.runs_skip.mp h
    rw [hnone]
    rfl
  case isFalse hsome =>
    obtain ⟨joined, hjoined, hselect⟩ := Stage.runs_andThen.mp h
    have hquery := Sql.Query.foldl_join_eq q (ctx.plannedJoins t)
    rw [← Context.joinStage_runs hjoined] at hquery
    rw [Bool.eq_false_iff.mpr hsome, Bool.false_or]
    split at hselect
    case isTrue hbase =>
      obtain rfl := Stage.runs_skip.mp hselect
      rw [if_pos hbase]
      exact hquery
    case isFalse hbase =>
      obtain rfl := Stage.runs_change.mp hselect
      rw [if_neg hbase, hquery]
      rfl

/-- Joining leaves the clauses alone. -/
theorem dependencyStage_sameClauses {fields : Entries (List String)} {t : DependencyTree}
    (h : (dependencyStage ctx fields t).Runs q q') : q'.SameClauses q := by
  rw [dependencyStage_runs h]
  exact ⟨rfl, rfl, rfl, rfl⟩

/-- There is nothing to join exactly when nothing is joined. -/
theorem dependencyStage_isEmpty {filter : Filter} {group sort : List String}
    {fields : Entries (List String)} {t : DependencyTree}
    (htree : ctx.dependencyTree filter group sort = .ok t)
    (h : (dependencyStage ctx fields t).Runs q q') (hq : q.joins = []) :
    t.isEmpty = true ↔ q'.joins = [] := by
  rw [dependencyStage] at h
  split at h
  case isTrue hnone =>
    obtain rfl := Stage.runs_skip.mp h
    exact iff_of_true hnone hq
  case isFalse hsome =>
    obtain ⟨joined, hjoined, hselect⟩ := Stage.runs_andThen.mp h
    have hsame : q'.joins = joined.joins := by
      split at hselect
      · rw [Stage.runs_skip.mp hselect]
      · rw [Stage.runs_change.mp hselect]
        rfl
    rw [hsame]
    exact iff_of_false hsome (Context.joins_ne_nil htree hjoined (Bool.eq_false_iff.mpr hsome))

/-- The trees of the relations that the keys of a request follow, with and without an entry. -/
theorem dependencyTree_deletes {p : Params} {key : String} (hlenient : ctx.strict = false)
    (h : p.Deletes key params) : ∃ t t', ctx.dependencyTree p.filter p.group p.sort = .ok t ∧
      ctx.dependencyTree params.filter params.group params.sort = .ok t' ∧
      (ctx.dependencies key = .ok [] → t = t') := by
  obtain ⟨before, after, hkeys, hkeys'⟩ := h.requestKeys
  obtain ⟨front, hfront⟩ := Context.dependencyPaths_succeeds hlenient before
  obtain ⟨names, hnames⟩ := Context.dependencies_succeeds hlenient key
  obtain ⟨back, hback⟩ := Context.dependencyPaths_succeeds hlenient after
  have hpaths : ctx.dependencyPaths (before ++ key :: after) = .ok (front ++ names :: back) :=
    Context.dependencyPaths_append.mpr ⟨front, names :: back, hfront,
      Context.dependencyPaths_cons.mpr ⟨names, back, hnames, hback, rfl⟩, rfl⟩
  have hpaths' : ctx.dependencyPaths (before ++ after) = .ok (front ++ back) :=
    Context.dependencyPaths_append.mpr ⟨front, back, hfront, hback, rfl⟩
  rw [← hkeys] at hpaths
  rw [← hkeys'] at hpaths'
  refine ⟨_, _, bind_pure_eq_ok.mpr ⟨_, hpaths, rfl⟩, bind_pure_eq_ok.mpr ⟨_, hpaths', rfl⟩, ?_⟩
  intro hnone
  obtain rfl : names = [] := Except.ok.inj (hnames.symm.trans hnone)
  exact DependencyTree.ofPaths_without_nil front back

/-- **What a dropped key leaves behind.**  Outside strict mode, a request is prepared with and without
an entry whose key stands for nothing, and the two queries have the same conditions, groups, orders
and loads.  They are the same query if they have the same joins, and they have the same joins if the
key follows no relations; then they are compiled to the same statements. -/
theorem dropped_leaves_joins (c : Compiler) (r : Request) (base : ResourceType) (key : String)
    (params : Params) (hadjust : r.adjust = id) (hlenient : c.config.strictPaths = false)
    (hbase : c.registry.type? r.base = some base)
    (hdropped : (c.context base r.tableAlias).qualify key = .ok none)
    (hdeletes : r.params.Deletes key params) :
    ∃ p p', c.prepare r = .ok p ∧ c.prepare { r with params } = .ok p' ∧
      p.query.SameClauses p'.query ∧ (p = p' ↔ p.query.joins = p'.query.joins) ∧
      ((c.context base r.tableAlias).dependencies key = .ok [] → p = p') ∧
      (p = p' → c.compile r = c.compile { r with params }) := by
  have hstrict : (c.context base r.tableAlias).strict = false := hlenient
  obtain ⟨t, t', htree, htree', hsame⟩ := dependencyTree_deletes hstrict hdeletes
  obtain ⟨u, hu⟩ := Context.dependencyStage_succeeds hstrict r.params.fields t
    (c.start base r.tableAlias)
  obtain ⟨u', hu'⟩ := Context.dependencyStage_succeeds hstrict params.fields t'
    (c.start base r.tableAlias)
  obtain ⟨q, hq⟩ := Context.paramStages_succeeds hstrict r.params u
  obtain ⟨q', hq'⟩ := Context.paramStages_succeeds hstrict params u'
  have hp := prepare_of_runs hbase htree hu hq
  have hp' := prepare_of_runs (r := { r with params }) hbase htree' hu' hq'
  rw [hdeletes.fields_eq] at hu'
  rw [← Context.paramStages_deletes hdropped hdeletes] at hq'
  have hquery (v : Sql.Query) : r.adjust v = v := by rw [hadjust, id]
  simp only [hquery, hdeletes.page_eq] at hp hp'
  -- from the same query after the joins, the same stages lead to the same query
  have hrest (h : u = u') : q = q' := Stage.Runs.unique (h ▸ hq) hq'
  refine ⟨_, _, hp, hp', ?_, ⟨?_, ?_⟩, ?_, ?_⟩
  · exact paramStages_sameClauses hq hq'
      ((dependencyStage_sameClauses hu).trans (dependencyStage_sameClauses hu').symm)
  · intro h
    rw [h]
  · intro hjoins
    have hjoined : u.joins = u'.joins :=
      (paramStages_joins hq).symm.trans (hjoins.trans (paramStages_joins hq'))
    have hempty : t.isEmpty = t'.isEmpty := by
      rw [Bool.eq_iff_iff, dependencyStage_isEmpty htree hu rfl, hjoined,
        dependencyStage_isEmpty htree' hu' rfl]
    have hsame : u = u' := by
      rw [dependencyStage_runs hu, dependencyStage_runs hu', hjoined, hempty]
    rw [hrest hsame]
  · intro hnone
    obtain rfl := hsame hnone
    rw [hrest (Stage.Runs.unique hu hu')]
  · intro h
    rw [compile, compile, hp, hp', h]

/-- Articles have no relation `owner`, and a filter on it leaves nothing behind. -/
theorem owner_dropped :
    (Blog.context false).qualify "owner.name" = .ok none ∧
      Blog.compiler.compile (Blog.filtered "owner.name") =
        Blog.compiler.compile { base := "articles" } := by
  have hdropped : (Blog.context false).qualify "owner.name" = .ok none := by decide +kernel
  have hfollows : (Blog.context false).dependencies "owner.name" = .ok [] := by decide +kernel
  obtain ⟨p, p', -, -, -, -, hsame, hcompile⟩ := dropped_leaves_joins Blog.compiler
    (Blog.filtered "owner.name") Blog.articles "owner.name" {} rfl rfl rfl hdropped
    (.filter (.equality _ _))
  exact ⟨hdropped, hcompile (hsame hfollows)⟩

/-- The path `comments.author` ends in a relation and stands for nothing, but a filter on it joins the
comments and their authors. -/
theorem not_dropped_neutral :
    ¬ ∀ (c : Compiler) (r : Request) (base : ResourceType) (key : String) (params : Params),
      r.adjust = id → c.config.strictPaths = false → c.registry.type? r.base = some base →
      (c.context base r.tableAlias).qualify key = .ok none → r.params.Deletes key params →
      c.compile r = c.compile { r with params } := by
  intro h
  have hdropped : (Blog.context false).qualify "comments.author" = .ok none := by decide +kernel
  have hsame := h Blog.compiler (Blog.filtered "comments.author") Blog.articles "comments.author" {}
    rfl rfl rfl hdropped (.filter (.equality _ _))
  have hsql := congrArg (fun result => result.toOption.map fun q => q.query.sql) hsame
  have hdiffer : ((Blog.compiler.compile (Blog.filtered "comments.author")).toOption.map fun q =>
      q.query.sql) ≠ (Blog.compiler.compile { base := "articles" }).toOption.map fun q =>
        q.query.sql := by decide +kernel
  exact hdiffer hsql

end Compiler

end ResourceQuery
