import ResourceQuery.Proofs.Blog
import ResourceQuery.Proofs.Compile.Prepare
import ResourceQuery.Proofs.Model.JoinSides

/-!
# Compile — the columns of included rows

The rows of an included relation are matched to the rows that they belong to by the columns of its
join keys, so that these columns have to be loaded on both sides.  A fieldset restricts the columns
that are loaded for a path to those of its fields, to which the target's id is added, and the column
that refers back to the parent if the target has one (`Hop.mem_columns`).

That is not always enough.  The column on the target's side is missing when the target does not
refer back and is matched by a column other than its id (`targetSide_loaded_iff`), and a column that
relations further below the path are matched by is added only if it happens to be one of these
(`parentSide_loaded_iff`).

* `eagerLoads_iff`: what a prepared query loads, from the paths and the fieldsets of the request.
-/

namespace ResourceQuery

open Sql (EagerLoad)

variable {x y : String} {xs : List String}

/-- The first column is added to the others. -/
theorem mem_ensureFirst : x ∈ ensureFirst y xs ↔ x = y ∨ x ∈ xs := by
  rw [ensureFirst]
  split
  case isTrue h => exact (or_iff_right_of_imp fun he => he ▸ List.contains_iff_mem.mp h).symm
  case isFalse => exact List.mem_cons

/-- The last column is added to the others. -/
theorem mem_ensureLast : x ∈ ensureLast y xs ↔ x = y ∨ x ∈ xs := by
  rw [ensureLast]
  split
  case isTrue h => exact (or_iff_right_of_imp fun he => he ▸ List.contains_iff_mem.mp h).symm
  case isFalse => rw [List.mem_append, List.mem_singleton, or_comm]

namespace Hop

variable {hop : Hop} {target : ResourceType}

/-- The columns that are loaded for requested fields are theirs, the id and the one that refers
back. -/
theorem mem_columns {names : List String} {column : String} :
    column ∈ hop.columns target names ↔
      (∃ field ∈ names, target.column field = column) ∨ column = target.idColumn ∨
        hop.relation.childForeignKey? hop.parent target = some column := by
  rw [columns]
  split
  · next foreignKey hkey =>
    rw [mem_ensureLast, mem_ensureFirst, List.mem_map, hkey, Option.some.injEq,
      eq_comm (a := foreignKey)]
    simp only [or_comm, or_assoc]
  · next hkey =>
    rw [mem_ensureFirst, List.mem_map, hkey]
    simp [or_comm]

end Hop

namespace Context

variable {ctx : Context} {includes : List String} {fields : Entries (List String)}

/-- A relation path is followed exactly if the registry can follow it. -/
theorem resolveRelations_eq_some {path : String} {resolved : ResolvedPath} :
    ctx.resolveRelations path = .ok (some resolved) ↔
      ctx.registry.resolveRelations ctx.base path = .ok resolved := by
  simp only [resolveRelations, accept, reject]
  cases ctx.registry.resolveRelations ctx.base path with
  | ok found => simp
  | error e => cases ctx.strict <;> simp

/-- Something is loaded for the paths that end in a relation. -/
theorem eagerLoad?_eq_some {path : String} {e : EagerLoad} :
    ctx.eagerLoad? fields path = .ok (some e) ↔
      ∃ hop, ctx.registry.EndsIn ctx.base path hop ∧
        loadOf path hop (Entries.find? path fields) = e := by
  refine bind_pure_eq_ok.trans ⟨?_, ?_⟩
  · rintro ⟨found, hfound, h⟩
    obtain ⟨hop, hhop, rfl⟩ := Option.map_eq_some_iff.mp h
    obtain ⟨resolved, rfl, hlast⟩ := Option.bind_eq_some_iff.mp hhop
    exact ⟨hop, ⟨resolved, resolveRelations_eq_some.mp hfound, hlast⟩, rfl⟩
  · rintro ⟨hop, ⟨resolved, hresolved, hlast⟩, rfl⟩
    refine ⟨some resolved, resolveRelations_eq_some.mpr hresolved, ?_⟩
    rw [Option.bind_some, hlast, Option.map_some]

theorem relation_loadOf {path : String} {hop : Hop} {fieldset : Option (List String)} :
    (loadOf path hop fieldset).relation = path := by
  unfold loadOf
  split <;> rfl

/-- The included paths are loaded, besides what was loaded before. -/
theorem includeStage_loads {q q' : Sql.Query} (h : (ctx.includeStage includes fields).Runs q q')
    (e : EagerLoad) :
    e ∈ q'.eagerLoads ↔
      e ∈ q.eagerLoads ∨ ∃ path ∈ includes, ctx.eagerLoad? fields path = .ok (some e) := by
  refine (Stage.Runs.made_iff (P := fun u => e ∈ u.eagerLoads) (I := fun _ => True) h trivial
    fun path _ u v _ hrun => ⟨trivial, ?_⟩).2
  obtain ⟨load, hload, rfl⟩ := Stage.runs_add.mp hrun
  rw [hload]
  cases load with
  | none => simp
  | some load => simp [Sql.Query.load, eq_comm]

end Context

/-- The query loads the path with these columns and no others. -/
def Sql.Query.LoadsOnly (q : Sql.Query) (path : String) (columns : List String) : Prop :=
  ⟨path, some columns⟩ ∈ q.eagerLoads ∧
    ∀ e ∈ q.eagerLoads, e.relation = path → e.columns = some columns

namespace Compiler

variable {c : Compiler} {r : Request} {p : PreparedQuery}

/-- What a prepared query loads, if the request does not change it itself. -/
theorem eagerLoads_iff (hadjust : r.adjust = id) (h : c.prepare r = .ok p) :
    ∃ base, c.registry.type? r.base = some base ∧ ∀ e, e ∈ p.query.eagerLoads ↔
      ∃ path ∈ r.params.includes, ∃ hop, c.registry.EndsIn base path hop ∧
        Context.loadOf path hop (Entries.find? path r.params.fields) = e := by
  obtain ⟨base, tree, joined, q, hbase, -, hjoined, hparams, hq⟩ := prepare_eq_ok h
  obtain rfl : q = p.query := by rw [hq, hadjust, id]
  refine ⟨base, hbase, fun e => ?_⟩
  have hnone : joined.eagerLoads = [] := by
    refine hjoined.keeps (P := fun u => u.eagerLoads = [])
      (dependencyStage_keeps (fun u j hu => ?_) fun _ hu => hu) rfl
    rw [Sql.Query.join]
    split <;> exact hu
  obtain ⟨u, v, hclauses, hincludes, hfields⟩ := runs_paramStages.mp hparams
  have hu : u.eagerLoads = joined.eagerLoads :=
    hclauses.keeps (P := fun w => w.eagerLoads = joined.eagerLoads)
      (Stage.Keeps.all (Context.clauseStages_keep (P := fun _ => True) (fun _ _ _ _ => trivial)
        (fun _ _ _ h => h) (fun _ _ _ h => h) fun _ _ _ h => h)) rfl
  have hv : p.query.eagerLoads = v.eagerLoads :=
    hfields.keeps (P := fun w => w.eagerLoads = v.eagerLoads)
      (Stage.Keeps.all (Context.fieldsStage_keeps (fun _ h => h) fun _ _ h _ => h)) rfl
  rw [hv, Context.includeStage_loads hincludes, hu, hnone]
  simp only [Context.eagerLoad?_eq_some, List.not_mem_nil, false_or]
  rfl

/-- The fieldset of a path restricts what is loaded for it. -/
theorem loadsOnly_of_fieldset {base : ResourceType} {path : String} {hop : Hop}
    {target : ResourceType} {names : List String} (hadjust : r.adjust = id)
    (h : c.prepare r = .ok p) (hbase : c.registry.type? r.base = some base)
    (hpath : path ∈ r.params.includes) (hends : c.registry.EndsIn base path hop)
    (htarget : hop.target = some target)
    (hnames : Entries.find? path r.params.fields = some names) :
    p.query.LoadsOnly path (hop.columns target names) := by
  obtain ⟨base', hbase', hloads⟩ := eagerLoads_iff hadjust h
  obtain rfl : base = base' := Option.some.inj (hbase.symm.trans hbase')
  have hload : Context.loadOf path hop (Entries.find? path r.params.fields) =
      ⟨path, some (hop.columns target names)⟩ := by simp only [Context.loadOf, hnames, htarget]
  refine ⟨(hloads _).mpr ⟨path, hpath, hop, hends, hload⟩, fun e he hrelation => ?_⟩
  obtain ⟨other, -, hop', hends', rfl⟩ := (hloads e).mp he
  obtain rfl : other = path := Context.relation_loadOf.symm.trans hrelation
  obtain rfl := hends.unique hends'
  rw [hload]

/-! ### The target's side -/

/-- **When the target's side of included rows is loaded.**  If a fieldset restricts what is loaded
for an included path, the columns hold the one of the target's rows that the join keys match, except
when the rows do not refer back to the parent: then it has to be their id or a requested field. -/
theorem targetSide_loaded_iff (c : Compiler) (r : Request) (p : PreparedQuery)
    (h : c.prepare r = .ok p) :
    ∃ base q, c.registry.type? r.base = some base ∧
      c.prepare { r with adjust := id } = .ok { p with query := q } ∧ p.query = r.adjust q ∧
      ∀ (path : String) (hop : Hop) (target : ResourceType) (keys : JoinKeys) (names : List String),
        path ∈ r.params.includes → c.registry.EndsIn base path hop → hop.Matches target keys →
        Entries.find? path r.params.fields = some names →
        ∃ columns, q.LoadsOnly path columns ∧
          (keys.targetSide ∈ columns ↔
            (hop.relation.kind = .belongsTo ∨ hop.relation.kind = .belongsToMany →
              keys.targetSide = target.idColumn ∨
                ∃ field ∈ names, target.column field = keys.targetSide)) := by
  obtain ⟨q, hq, hadjust⟩ := prepare_unadjusted h
  obtain ⟨base, hbase, -⟩ := eagerLoads_iff rfl hq
  refine ⟨base, q, hbase, hq, hadjust,
    fun path hop target keys names hpath hends hmatches hnames => ?_⟩
  refine ⟨_, loadsOnly_of_fieldset rfl hq hbase hpath hends hmatches.reached hnames, ?_⟩
  rw [Hop.mem_columns, Relation.childForeignKey?_eq hmatches.linked]
  by_cases hkind : hop.relation.kind = .belongsTo ∨ hop.relation.kind = .belongsToMany
  · simp [hkind, or_comm]
  · simp [hkind]

/-- The bodies of comments are loaded with the articles that they belong to. -/
theorem comments_matched :
    ∃ p columns, Blog.compiler.prepare (Blog.included ["comments"] "comments" ["body"]) = .ok p ∧
      p.query.LoadsOnly "comments" columns ∧ "article_id" ∈ columns := by
  have htest : ((Blog.compiler.prepare
      (Blog.included ["comments"] "comments" ["body"])).toOption.any fun _ => true) = true := by
    decide +kernel
  obtain ⟨p, hp, -⟩ := exists_ok_of_any htest
  obtain ⟨base, q, hbase, -, hadjust, hloads⟩ := targetSide_loaded_iff Blog.compiler _ p hp
  obtain rfl : Blog.articles = base := Option.some.inj hbase
  obtain rfl : p.query = q := hadjust
  have hmatches : Hop.Matches
      ⟨"comments", { kind := .hasMany, target := "comments", foreignKey := some "article_id" },
        Blog.articles, some Blog.comments⟩
      Blog.comments (.has "id" "article_id") := ⟨rfl, rfl⟩
  obtain ⟨columns, honly, hiff⟩ :=
    hloads "comments" _ _ _ _ List.mem_cons_self ⟨_, rfl, rfl⟩ hmatches rfl
  exact ⟨p, columns, hp, honly, hiff.mpr (by simp)⟩

/-- Orders, which have a number besides their id. -/
def numberedOrders : ResourceType where
  name     := "orders"
  table    := "purchase_orders"
  idColumn := "uuid"

/-- Invoices, which refer to orders by their numbers. -/
def orderInvoices : ResourceType where
  name      := "invoices"
  table     := "invoices"
  relations :=
    [("order",
      { kind := .belongsTo, target := "orders", foreignKey := some "order_ref"
        targetKey := some "orderNo" })]

/-- The total of an invoice's order is loaded with its id, and without its number. -/
theorem not_targetSide_loaded :
    ¬ ∀ (c : Compiler) (r : Request) (p : PreparedQuery) (base : ResourceType) (path : String)
      (hop : Hop) (target : ResourceType) (keys : JoinKeys) (columns : List String),
      r.adjust = id → c.prepare r = .ok p → c.registry.type? r.base = some base →
      path ∈ r.params.includes → c.registry.EndsIn base path hop → hop.Matches target keys →
      (Entries.find? path r.params.fields).isSome → p.query.LoadsOnly path columns →
      keys.targetSide ∈ columns := by
  intro h
  let c : Compiler := { registry := .ofList [numberedOrders, orderInvoices] }
  let r : Request :=
    { base := "invoices", params := { includes := ["order"], fields := [("order", ["total"])] } }
  have htest : ((c.prepare r).toOption.any fun p =>
      p.query.eagerLoads = [⟨"order", some ["uuid", "total"]⟩]) = true := by decide +kernel
  obtain ⟨p, hp, hloads⟩ := exists_ok_of_any htest
  have hloads := of_decide_eq_true hloads
  have honly : p.query.LoadsOnly "order" ["uuid", "total"] := by
    simp [Sql.Query.LoadsOnly, hloads]
  have hmatches : Hop.Matches
      ⟨"order", { kind := .belongsTo, target := "orders", foreignKey := some "order_ref"
                  targetKey := some "orderNo" }, orderInvoices, some numberedOrders⟩
      numberedOrders (.belongsTo "order_ref" "orderNo") := ⟨rfl, rfl⟩
  have hmem := h c r p orderInvoices "order" _ _ _ _ rfl hp rfl List.mem_cons_self ⟨_, rfl, rfl⟩
    hmatches rfl honly
  exact absurd hmem (by decide)

/-! ### The parent's side -/

/-- **When the parent's side of rows included below a path is loaded.**  If a fieldset restricts
what is loaded for an included path, and one more relation can be followed from there, the columns
hold the one that the join keys of that relation match exactly when it is a requested field, the id,
or the column that refers back to where the path comes from. -/
theorem parentSide_loaded_iff (c : Compiler) (r : Request) (p : PreparedQuery)
    (h : c.prepare r = .ok p) :
    ∃ base q, c.registry.type? r.base = some base ∧
      c.prepare { r with adjust := id } = .ok { p with query := q } ∧ p.query = r.adjust q ∧
      ∀ (path name : String) (hop nested : Hop) (target : ResourceType) (keys : JoinKeys)
        (names : List String),
        path ∈ r.params.includes → '.' ∉ name.toList → c.registry.EndsIn base path hop →
        c.registry.EndsIn base (path ++ "." ++ name) nested → nested.Matches target keys →
        Entries.find? path r.params.fields = some names →
        hop.target = some nested.parent ∧ ∃ columns, q.LoadsOnly path columns ∧
          (keys.parentSide ∈ columns ↔
            (∃ field ∈ names, nested.parent.column field = keys.parentSide) ∨
              keys.parentSide = nested.parent.idColumn ∨
              hop.relation.childForeignKey? hop.parent nested.parent = some keys.parentSide) := by
  obtain ⟨q, hq, hadjust⟩ := prepare_unadjusted h
  obtain ⟨base, hbase, -⟩ := eagerLoads_iff rfl hq
  refine ⟨base, q, hbase, hq, hadjust,
    fun path name hop nested target keys names hpath hname hends hnested hmatches hnames => ?_⟩
  have htarget := hends.target_of_nested hname hnested
  exact ⟨htarget, _, loadsOnly_of_fieldset rfl hq hbase hpath hends htarget hnames,
    Hop.mem_columns⟩

/-- Comments are loaded with the column that their authors are matched by if it is requested. -/
theorem comment_authors_matched :
    ∃ p columns, Blog.compiler.prepare
        (Blog.included ["comments", "comments.author"] "comments" ["author_id"]) = .ok p ∧
      p.query.LoadsOnly "comments" columns ∧ "author_id" ∈ columns := by
  have htest : ((Blog.compiler.prepare
      (Blog.included ["comments", "comments.author"] "comments" ["author_id"])).toOption.any
        fun _ => true) = true := by decide +kernel
  obtain ⟨p, hp, -⟩ := exists_ok_of_any htest
  obtain ⟨base, q, hbase, -, hadjust, hloads⟩ := parentSide_loaded_iff Blog.compiler _ p hp
  obtain rfl : Blog.articles = base := Option.some.inj hbase
  obtain rfl : p.query = q := hadjust
  have hmatches : Hop.Matches
      ⟨"author", { kind := .belongsTo, target := "people", foreignKey := some "author_id" },
        Blog.comments, some Blog.people⟩
      Blog.people (.belongsTo "author_id" "id") := ⟨rfl, rfl⟩
  obtain ⟨-, columns, honly, hiff⟩ := hloads "comments" "author" _ _ _ _ _ List.mem_cons_self
    (by decide) ⟨_, rfl, rfl⟩ ⟨_, rfl, rfl⟩ hmatches rfl
  exact ⟨p, columns, hp, honly, hiff.mpr (.inl ⟨"author_id", List.mem_cons_self, by decide⟩)⟩

/-- The first names of authors are loaded without the column that their countries are matched by. -/
theorem not_parentSide_loaded :
    ¬ ∀ (c : Compiler) (r : Request) (p : PreparedQuery) (base : ResourceType) (path name : String)
      (hop nested : Hop) (target : ResourceType) (keys : JoinKeys) (columns : List String),
      r.adjust = id → c.prepare r = .ok p → c.registry.type? r.base = some base →
      '.' ∉ name.toList → path ∈ r.params.includes → path ++ "." ++ name ∈ r.params.includes →
      c.registry.EndsIn base path hop → c.registry.EndsIn base (path ++ "." ++ name) nested →
      nested.Matches target keys → (Entries.find? path r.params.fields).isSome →
      p.query.LoadsOnly path columns → keys.parentSide ∈ columns := by
  intro h
  let r := Blog.included ["author", "author.country"] "author" ["firstName"]
  have htest : ((Blog.compiler.prepare r).toOption.any fun p => p.query.eagerLoads =
      [⟨"author", some ["id", "first_name"]⟩, ⟨"author.country", none⟩]) = true := by
    decide +kernel
  obtain ⟨p, hp, hloads⟩ := exists_ok_of_any htest
  have hloads := of_decide_eq_true hloads
  have honly : p.query.LoadsOnly "author" ["id", "first_name"] := by
    simp [Sql.Query.LoadsOnly, hloads]
  have hmatches : Hop.Matches
      ⟨"country", { kind := .belongsTo, target := "countries", foreignKey := some "country_id" },
        Blog.people, some Blog.countries⟩
      Blog.countries (.belongsTo "country_id" "id") := ⟨rfl, rfl⟩
  have hmem := h Blog.compiler r p Blog.articles "author" "country" _ _ _ _ _ rfl hp rfl (by decide)
    List.mem_cons_self (by decide) ⟨_, rfl, rfl⟩ ⟨_, rfl, rfl⟩ hmatches rfl honly
  exact absurd hmem (by decide)

end Compiler

end ResourceQuery
