import ResourceQuery.Proofs.Blog
import ResourceQuery.Proofs.Compile.Clauses
import ResourceQuery.Proofs.Compile.Joins

/-!
# Compile — the tables of filters, groups and orders

A column is in scope when its table is in the query (`InScope`).  The relations that a key follows
are gathered in the dependency tree, the join stage joins the relations of the tree, and the column
that the key stands for belongs to the last relation followed.  So every key of a filter, a group or
an order that stands for something stands for a column in scope, and no clause of the query reads a
table that `FROM` does not hold (`keys_in_scope`).

* `qualify_eq_some_iff`: what a key stands for, from the path that it follows.
* `inScope_of_qualify`: a key whose relations are joined stands for a column in scope.
-/

namespace ResourceQuery

open Sql (Column)

/-- The column itself, or the value inside it at the path behind the colon of a key. -/
def AttributeKey.target (k : AttributeKey) (column : Column) : AttributeTarget :=
  match k.json with
  | some json =>
    if json.path.isEmpty then .column column else .json (.of column json.path json.type)
  | none      => .column column

theorem AttributeKey.sourceColumn_target (k : AttributeKey) (column : Column) :
    (k.target column).sourceColumn = column := by
  rw [target]
  split
  · split <;> rfl
  · rfl

namespace Context

variable {ctx : Context}

/-! ### What keys stand for -/

/-- A path stands for an attribute exactly if the registry can follow it. -/
theorem resolveAttribute_eq_some {path : String} {resolved : ResolvedPath} :
    ctx.resolveAttribute path = .ok (some resolved) ↔
      ctx.registry.resolveAttribute ctx.base path = .ok resolved := by
  simp only [resolveAttribute, accept, reject]
  cases ctx.registry.resolveAttribute ctx.base path with
  | ok found => simp
  | error e => cases ctx.strict <;> simp

/-- The owner of an attribute is the base type or a registered one. -/
theorem owner_registered {path : String} {resolved : ResolvedPath}
    (hresolved : ctx.registry.resolveAttribute ctx.base path = .ok resolved) :
    (ctx.owner resolved).1 = ctx.base ∨
      ∃ name, ctx.registry.type? name = some (ctx.owner resolved).1 := by
  rw [owner]
  split
  · next hop hlast =>
    split
    · next target htarget =>
      have hchain := Registry.resolveAttribute_chain hresolved
      exact .inr (hchain.target_registered hop (List.mem_of_getLast? hlast) target htarget)
    · exact .inl rfl
  · exact .inl rfl

/-- An attribute has a column of its owner. -/
theorem targetOf_attribute {key name : String} {parsed : AttributeKey} {resolved : ResolvedPath}
    (hmono : resolved.polymorphicHop? = none) (hattr : resolved.attr = some name) :
    ctx.targetOf key parsed resolved =
      .ok (some (parsed.target (.of (ctx.owner resolved).2 ((ctx.owner resolved).1.column name)))) := by
  simp only [targetOf, hmono, hattr, AttributeKey.target]
  cases parsed.json with
  | none => rfl
  | some json => exact (apply_ite (fun t => Except.ok (some t)) _ _ _).symm

/-- A key stands for something when its path has no polymorphic hop and ends in an attribute: for the
column that stores the attribute, or for a value inside it. -/
theorem qualify_eq_some_iff {key : String} {target : AttributeTarget} :
    ctx.qualify key = .ok (some target) ↔ ∃ resolved name,
      ctx.registry.resolveAttribute ctx.base (AttributeKey.ofText key).path = .ok resolved ∧
      resolved.polymorphicHop? = none ∧ resolved.attr = some name ∧
      target = (AttributeKey.ofText key).target
        (.of (ctx.owner resolved).2 ((ctx.owner resolved).1.column name)) := by
  constructor
  · intro h
    obtain ⟨found, hfound, h⟩ := bind_eq_ok.mp h
    cases found with
    | none => cases h
    | some resolved =>
        cases hmono : resolved.polymorphicHop? with
        -- a polymorphic step and a path without an attribute are rejected, not passed on
        | some hop =>
            simp only [targetOf, hmono, reject] at h
            split at h <;> cases h
        | none =>
            cases hattr : resolved.attr with
            | none =>
                simp only [targetOf, hmono, hattr, reject] at h
                split at h <;> cases h
            | some name =>
                have htarget := (targetOf_attribute hmono hattr).symm.trans h
                obtain rfl := Option.some.inj (Except.ok.inj htarget)
                exact ⟨resolved, name, resolveAttribute_eq_some.mp hfound, hmono, hattr, rfl⟩
  · rintro ⟨resolved, name, hresolved, hmono, hattr, rfl⟩
    exact bind_eq_ok.mpr
      ⟨_, resolveAttribute_eq_some.mpr hresolved, targetOf_attribute hmono hattr⟩

/-- What a key stands for reads a column of the table of the last relation that its path follows, or of
the base table. -/
theorem qualify_eq_some {key : String} {target : AttributeTarget}
    (h : ctx.qualify key = .ok (some target)) :
    ∃ resolved name,
      ctx.registry.resolveAttribute ctx.base (AttributeKey.ofText key).path = .ok resolved ∧
      resolved.polymorphicHop? = none ∧ resolved.attr = some name ∧
      target.sourceColumn = .of (ctx.owner resolved).2 ((ctx.owner resolved).1.column name) := by
  obtain ⟨resolved, name, hresolved, hmono, hattr, rfl⟩ := qualify_eq_some_iff.mp h
  exact ⟨resolved, name, hresolved, hmono, hattr, AttributeKey.sourceColumn_target _ _⟩

/-- The table of the column is in the query: it is the base table or joined. -/
def InScope (ctx : Context) (q : Sql.Query) (c : Column) : Prop :=
  ∃ table, c.table = some table ∧ (table = ctx.tableAlias ∨ q.hasJoin table = true)

/-- A key stands for a column in scope when the relations that it follows are joined. -/
theorem inScope_of_qualify {key : String} {target : AttributeTarget} {q : Sql.Query}
    (h : ctx.qualify key = .ok (some target))
    (hjoined : ∀ resolved,
      ctx.registry.resolveAttribute ctx.base (AttributeKey.ofText key).path = .ok resolved →
      ∀ hop ∈ resolved.hops, hop.target.isSome → q.hasJoin hop.name = true) :
    ctx.InScope q target.sourceColumn := by
  obtain ⟨resolved, name, hresolved, hmono, -, hcolumn⟩ := qualify_eq_some h
  refine ⟨(ctx.owner resolved).2, by rw [hcolumn]; rfl, ?_⟩
  rw [owner]
  split
  · next hop hlast =>
    split
    · next target htarget =>
      exact .inr (hjoined resolved hresolved hop (List.mem_of_getLast? hlast) (by simp [htarget]))
    · exact .inl rfl
  · exact .inl rfl

/-- A key depends on the relations of its path. -/
theorem dependencies_eq_names {key : String} {names : List String} {resolved : ResolvedPath}
    (h : ctx.dependencies key = .ok names)
    (hresolved :
      ctx.registry.resolveAttribute ctx.base (AttributeKey.ofText key).path = .ok resolved) :
    names = resolved.names := by
  simp only [dependencies] at h
  split at h
  case isTrue =>
    obtain ⟨found, hfound, rfl⟩ := bind_pure_eq_ok.mp h
    rw [resolveAttribute_eq_some.mpr hresolved] at hfound
    cases hfound
    rfl
  case isFalse hpoint =>
    have hsingle : '.' ∉ (AttributeKey.ofText key).path.toList := by simpa using hpoint
    cases h
    rw [ResolvedPath.names, Registry.resolveAttribute_single hsingle hresolved]
    rfl

/-- Every key of a request stands for a column in scope once the relations of its dependency tree
are joined. -/
theorem inScope_of_requestKey {filter : Filter} {group sort : List String} {t : DependencyTree}
    {q q' : Sql.Query} (htree : ctx.dependencyTree filter group sort = .ok t)
    (hjoins : (ctx.joinStage t).Runs q q') {key : String}
    (hkey : key ∈ requestKeys filter group sort) {target : AttributeTarget}
    (h : ctx.qualify key = .ok (some target)) :
    ctx.InScope q' target.sourceColumn := by
  obtain ⟨names, hnames, hpath⟩ := hasPath_dependencyTree htree hkey
  refine inScope_of_qualify h fun resolved hresolved hop hmem htarget => ?_
  rw [dependencies_eq_names hnames hresolved] at hpath
  exact joinStage_hasJoin hjoins (Registry.resolveAttribute_chain hresolved) hpath hmem htarget

/-- A column stays in scope behind more joins. -/
theorem InScope.of_joins {q q' : Sql.Query} {c : Column}
    (hjoins : ∀ name, q.hasJoin name = true → q'.hasJoin name = true) (h : ctx.InScope q c) :
    ctx.InScope q' c := by
  obtain ⟨table, htable, h⟩ := h
  exact ⟨table, htable, h.imp_right (hjoins table)⟩

/-- **No clause reads a table that is not joined.**  Once the relations of the dependency tree of a
filter, groups and orders are joined, each of their keys that stands for something stands for a
column of the base table or of a joined one, and the conditions, groups and orders that their stages
add to the query read such columns alone. -/
theorem keys_in_scope (ctx : Context) (filter : Filter) (group sort : List String)
    (t : DependencyTree) (q joined : Sql.Query)
    (htree : ctx.dependencyTree filter group sort = .ok t)
    (hjoins : ctx.joinStage t q = ⟨joined, none⟩) :
    (∀ key ∈ requestKeys filter group sort, ∀ target, ctx.qualify key = .ok (some target) →
      ctx.InScope joined target.sourceColumn) ∧
    (q.ClausesRead (ctx.InScope q) →
      ∀ final, final = (Stage.all [ctx.filterStage filter, ctx.groupStage group,
        ctx.sortStage sort] joined).query → final.ClausesRead (ctx.InScope final)) := by
  have hkeys : ∀ key ∈ requestKeys filter group sort, ∀ target,
      ctx.qualify key = .ok (some target) → ctx.InScope joined target.sourceColumn :=
    fun key hkey target h => inScope_of_requestKey htree hjoins hkey h
  refine ⟨hkeys, ?_⟩
  rintro hq final rfl
  have hgrown : ∀ name, q.hasJoin name = true → joined.hasJoin name = true := by
    intro name hname
    rw [joinStage_runs hjoins, Sql.Query.hasJoin_foldl_join]
    exact .inl hname
  have hjoined : joined.ClausesRead (ctx.InScope joined) :=
    (Stage.Runs.keeps hjoins (joinStage_keeps fun _ j h => h.join j) hq).mono fun c =>
      InScope.of_joins hgrown
  -- the clauses join nothing, so what is in scope stays the same
  have hkept := clauseStages_keep (R := fun q => q.ClausesRead (ctx.InScope joined) ∧
      q.joins = joined.joins) hkeys (fun _ _ hc h => ⟨h.1.restrict hc, h.2⟩)
    (fun _ _ ht h => ⟨h.1.groupBy ht, h.2⟩) fun _ _ ht h => ⟨h.1.orderBy ht, h.2⟩
  obtain ⟨hclauses, hsame⟩ := Stage.Keeps.all hkept joined ⟨hjoined, rfl⟩
  refine hclauses.mono fun c => InScope.of_joins fun name hname => ?_
  rwa [Sql.Query.hasJoin, hsame]

/-- The key `author.country.name` of an order in strict mode, beside a filter on `author.firstName`
and a grouping by `comments.body`. -/
theorem country_in_scope :
    let filter : Filter := ⟨[.typed .like [("author.firstName", .single "a")]]⟩
    let ctx := Blog.context true
    let joins := ctx.joinStage (.ofPaths Blog.paths) (.ofTable "articles" "articles")
    ctx.dependencyTree filter ["comments.body"] ["-author.country.name"] =
      .ok (.ofPaths Blog.paths) ∧
    joins.failure = none ∧
    ctx.qualify "author.country.name" = .ok (some (.column (.of "country" "name"))) ∧
    ctx.InScope joins.query (.of "country" "name") := by
  intro filter ctx joins
  have hpaths :
      ctx.dependencyPaths (requestKeys filter ["comments.body"] ["-author.country.name"]) =
        .ok Blog.paths := by decide +kernel
  have htree : ctx.dependencyTree filter ["comments.body"] ["-author.country.name"] =
      .ok (.ofPaths Blog.paths) := bind_pure_eq_ok.mpr ⟨_, hpaths, rfl⟩
  have hjoins : joins.failure = none := by decide +kernel
  have hkey : ctx.qualify "author.country.name" = .ok (some (.column (.of "country" "name"))) := by
    decide +kernel
  have hmem : "author.country.name" ∈
      requestKeys filter ["comments.body"] ["-author.country.name"] := by decide +kernel
  have hscope := keys_in_scope ctx _ _ _ _ _ _ htree (Stage.runs_of_failure hjoins)
  exact ⟨htree, hjoins, hkey, hscope.1 _ hmem _ hkey⟩

end Context

end ResourceQuery
