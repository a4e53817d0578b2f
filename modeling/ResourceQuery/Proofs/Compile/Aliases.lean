import ResourceQuery.Proofs.Compile.Dropped
import ResourceQuery.Proofs.Compile.Junctions

/-!
# Compile — the aliases of a `FROM` clause

A database refuses a `FROM` clause that gives one alias to two tables.  A join is left out when its
alias is joined already, so that the aliases of the joins are distinct, but it is not asked whether
the base table has the alias.  The aliases of a prepared query are therefore distinct exactly when
nothing is joined under the alias of the base table, and that can be told from the request
(`aliases_nodup_iff`): the joins stand under the names of the relations that its filter, group and sort
keys follow, and under those of their junction tables (`Hop.aliases`).

* `exists_hop_of_joined`, `exists_joined_of_hop`: the relations that are joined are those that keys
  follow.
* `mem_aliases_iff`: so the aliases of the joins are those of the relations that keys follow.
-/

namespace ResourceQuery

open Sql (Join)

namespace Sql.Query

variable {q : Query}

/-- The aliases of the `FROM` clause: that of the base table and those of the joins. -/
def aliases (q : Query) : List String :=
  q.tableAlias :: q.joins.map Join.tableAlias

/-- Aliases are distinct if those of the joins are and the query has none of them. -/
theorem nodup_aliases_iff (h : (q.joins.map Join.tableAlias).Nodup) :
    q.aliases.Nodup ↔ q.tableAlias ∉ q.joins.map Join.tableAlias := by
  rw [aliases, List.nodup_cons, and_iff_left h]

/-- Joins that are added to a query without any have the aliases of all. -/
theorem mem_aliases_foldl_join {js : List Join} {name : String} (h : q.joins = []) :
    name ∈ (js.foldl join q).joins.map Join.tableAlias ↔ name ∈ js.map Join.tableAlias := by
  rw [List.mem_map, ← hasJoin_iff, hasJoin_foldl_join, hasJoin_iff, h]
  simp

end Sql.Query

/-- The aliases under which a relation that is followed is joined: its junction table, if it has one,
under the name of that table, and its target under its own name. -/
def Hop.aliases (hop : Hop) : List String :=
  match hop.target with
  | none        => []
  | some target =>
    match hop.relation.joinKeys? hop.parent target with
    | none                             => []
    | some (.through _ junction _ _ _) => [junction, hop.name]
    | some _                           => [hop.name]

/-- The link joins the relation that is followed. -/
structure Link.IsOf (l : Link) (hop : Hop) : Prop where
  name   : l.name = hop.name
  target : hop.target = some l.target
  keys   : hop.relation.joinKeys? hop.parent l.target = some l.keys

/-- The joins of a link have the aliases of its relation and its junction. -/
theorem Link.IsOf.aliases {l : Link} {hop : Hop} (h : l.IsOf hop) :
    l.joins.map Join.tableAlias = hop.aliases := by
  obtain ⟨parentAlias, name, target, keys⟩ := l
  obtain ⟨hname, htarget, hkeys⟩ := h
  simp only [Hop.aliases, htarget, hkeys, ← hname]
  cases keys <;> rfl

namespace Registry

variable {r : Registry} {parent : ResourceType} {parentAlias name : String}
  {cs : List (String × DependencyTree)} {vs : List Visit}

/-- A relation that is joined is the last of a chain of relations along a branch of the tree. -/
theorem Visits.exists_chain (h : r.Visits parent parentAlias cs vs) {l : Link}
    (hl : .joined l ∈ vs) : ∃ hops hop, HopChain r parent hops ∧ hop ∈ hops ∧ l.IsOf hop ∧
      DependencyTree.HasBranch (hops.map Hop.name) cs := by
  induction h with
  | nil => cases hl
  | @joined parent target parentAlias name keys t rest below after leads _ _ ihbelow ihafter =>
      obtain ⟨declared, kind, registered, linked⟩ := leads
      rcases List.mem_cons.mp hl with hl | hl
      · cases hl
        exact ⟨_, _, .fixed declared kind registered .nil, List.mem_cons_self, ⟨rfl, rfl, linked⟩,
          t, List.mem_cons_self, trivial⟩
      · rcases List.mem_append.mp hl with hl | hl
        · obtain ⟨hops, hop, chain, hmem, hof, hbranch⟩ := ihbelow hl
          exact ⟨_, hop, .fixed declared kind registered chain, List.mem_cons_of_mem _ hmem, hof,
            t, List.mem_cons_self, hbranch⟩
        · obtain ⟨hops, hop, chain, hmem, hof, hbranch⟩ := ihafter hl
          exact ⟨hops, hop, chain, hmem, hof, DependencyTree.hasBranch_cons hbranch⟩
  | skipped _ _ ihafter =>
      have hl := (List.mem_cons.mp hl).resolve_left nofun
      obtain ⟨hops, hop, chain, hmem, hof, hbranch⟩ := ihafter hl
      exact ⟨hops, hop, chain, hmem, hof, DependencyTree.hasBranch_cons hbranch⟩

/-- A relation of the tree that leads on is joined, and what is below it is visited. -/
theorem Visits.of_mem (h : r.Visits parent parentAlias cs vs) {t : DependencyTree}
    (hmem : (name, t) ∈ cs) {target : ResourceType} {keys : JoinKeys}
    (leads : r.LeadsTo parent name target keys) :
    .joined ⟨parentAlias, name, target, keys⟩ ∈ vs ∧
      ∃ below, r.Visits target name t.children below ∧ ∀ v ∈ below, v ∈ vs := by
  induction h with
  | nil => cases hmem
  | @joined parent _ parentAlias other _ u rest below after leads' hbelow _ _ ihafter =>
      rcases List.mem_cons.mp hmem with hmem | hmem
      · cases hmem
        obtain ⟨rfl, rfl⟩ := leads.unique leads'
        refine ⟨List.mem_cons_self, below, hbelow, fun v hv => ?_⟩
        exact List.mem_cons_of_mem _ (List.mem_append_left after hv)
      · obtain ⟨hjoined, inner, hinner, hin⟩ := ihafter hmem leads
        refine ⟨List.mem_cons_of_mem _ (List.mem_append_right below hjoined), inner, hinner, ?_⟩
        intro v hv
        exact List.mem_cons_of_mem _ (List.mem_append_right below (hin v hv))
  -- the branch that is looked for leads on, so it is not the one that is skipped
  | skipped stuck _ ihafter =>
      rcases List.mem_cons.mp hmem with hmem | hmem
      · cases hmem
        exact absurd ⟨target, keys, leads⟩ stuck
      · obtain ⟨hjoined, inner, hinner, hin⟩ := ihafter hmem leads
        exact ⟨List.mem_cons_of_mem _ hjoined, inner, hinner,
          fun v hv => List.mem_cons_of_mem _ (hin v hv)⟩

/-- A relation of a chain whose names lead to a node of the tree is joined, if it has a target. -/
theorem Visits.exists_joined {t : DependencyTree} (h : r.Visits parent parentAlias t.children vs)
    {hops : List Hop} (chain : HopChain r parent hops) (hpath : t.HasPath (hops.map Hop.name))
    {hop : Hop} (hmem : hop ∈ hops) (htarget : hop.target.isSome) :
    ∃ l, .joined l ∈ vs ∧ l.IsOf hop := by
  induction chain generalizing parentAlias t vs with
  | nil => cases hmem
  | polymorphic declared kind =>
      obtain rfl := List.mem_singleton.mp hmem
      cases htarget
  | @fixed parent target name relation hops declared kind registered rest ih =>
      obtain ⟨child, hchild, hrest⟩ := hpath
      obtain ⟨keys, linked⟩ := Option.ne_none_iff_exists'.mp
        (mt (relation.joinKeys?_eq_none_iff parent target).mp kind)
      obtain ⟨hjoined, below, hbelow, hin⟩ :=
        h.of_mem (Entries.mem_of_find? hchild) (.intro declared kind registered linked)
      rcases List.mem_cons.mp hmem with rfl | hmem
      · exact ⟨_, hjoined, rfl, rfl, linked⟩
      · obtain ⟨l, hl, hof⟩ := ih hbelow hrest hmem
        exact ⟨l, hin _ hl, hof⟩

end Registry

namespace Context

variable {ctx : Context} {filter : Filter} {group sort : List String} {t : DependencyTree}
  {vs : List Visit}

section

variable (htree : ctx.dependencyTree filter group sort = .ok t)
  (hvisits : ctx.registry.Visits ctx.base ctx.tableAlias t.children vs)

include htree hvisits

/-- A relation that is joined is one that a key follows. -/
theorem exists_hop_of_joined {l : Link} (hl : .joined l ∈ vs) :
    ∃ key ∈ requestKeys filter group sort, ∃ resolved,
      ctx.registry.resolveAttribute ctx.base (AttributeKey.ofText key).path = .ok resolved ∧
      ∃ hop ∈ resolved.hops, l.IsOf hop := by
  obtain ⟨hops, hop, chain, hmem, hof, hbranch⟩ := hvisits.exists_chain hl
  obtain ⟨paths, hpaths, rfl⟩ := bind_pure_eq_ok.mp htree
  have hne : hops.map Hop.name ≠ [] := List.ne_nil_of_mem (List.mem_map_of_mem hmem)
  obtain ⟨path, hpath, hnames⟩ := DependencyTree.prefix_of_hasBranch hne hbranch
  obtain ⟨key, hkey, hfollows⟩ := exists_key_of_mem hpaths hpath
  cases path with
  | nil => exact absurd (List.prefix_nil.mp hnames) hne
  | cons name names =>
      obtain ⟨resolved, -, hresolved, hsame⟩ := dependencies_eq_cons hfollows
      rw [← hsame] at hnames
      -- the path that the key follows starts with the chain of the relation
      have hstart : hops <+: resolved.hops :=
        chain.prefix_of_names (Registry.resolveAttribute_chain hresolved) hnames
      exact ⟨key, hkey, resolved, hresolved, hop, hstart.subset hmem, hof⟩

/-- A relation that a key follows is joined, if it has a target. -/
theorem exists_joined_of_hop {key : String} (hkey : key ∈ requestKeys filter group sort)
    {resolved : ResolvedPath}
    (hresolved :
      ctx.registry.resolveAttribute ctx.base (AttributeKey.ofText key).path = .ok resolved)
    {hop : Hop} (hmem : hop ∈ resolved.hops) (htarget : hop.target.isSome) :
    ∃ l, .joined l ∈ vs ∧ l.IsOf hop := by
  obtain ⟨names, hnames, hpath⟩ := hasPath_dependencyTree htree hkey
  rw [dependencies_eq_names hnames hresolved] at hpath
  exact hvisits.exists_joined (Registry.resolveAttribute_chain hresolved) hpath hmem htarget

/-- The aliases of what is joined are those of the relations that keys follow. -/
theorem mem_aliases_iff {name : String} :
    name ∈ (vs.flatMap Visit.joins).map Join.tableAlias ↔
      ∃ key ∈ requestKeys filter group sort, ∃ resolved,
        ctx.registry.resolveAttribute ctx.base (AttributeKey.ofText key).path = .ok resolved ∧
        ∃ hop ∈ resolved.hops, name ∈ hop.aliases := by
  constructor
  · intro h
    obtain ⟨j, hj, hname⟩ := List.mem_map.mp h
    obtain ⟨v, hv, hj⟩ := List.mem_flatMap.mp hj
    cases v with
    | skipped => cases hj
    | joined l =>
        obtain ⟨key, hkey, resolved, hresolved, hop, hmem, hof⟩ :=
          exists_hop_of_joined htree hvisits hv
        refine ⟨key, hkey, resolved, hresolved, hop, hmem, ?_⟩
        rw [← hof.aliases, ← hname]
        exact List.mem_map_of_mem hj
  · rintro ⟨key, hkey, resolved, hresolved, hop, hmem, hname⟩
    -- an alias comes from a relation with a target, for which there is a visit
    have htarget : hop.target.isSome := by
      cases hnone : hop.target with
      | none => simp [Hop.aliases, hnone] at hname
      | some target => rfl
    obtain ⟨l, hl, hof⟩ := exists_joined_of_hop htree hvisits hkey hresolved hmem htarget
    rw [← hof.aliases] at hname
    obtain ⟨j, hj, rfl⟩ := List.mem_map.mp hname
    exact List.mem_map_of_mem (List.mem_flatMap.mpr ⟨_, hl, hj⟩)

end

end Context

namespace Compiler

variable {ctx : Context} {q q' : Sql.Query}

/-- The joins of a query are those of the visits, as far as their aliases are new. -/
theorem dependencyStage_joins {fields : Entries (List String)} {t : DependencyTree}
    {vs : List Visit} (h : (dependencyStage ctx fields t).Runs q q')
    (hvisits : ctx.registry.Visits ctx.base ctx.tableAlias t.children vs) :
    q'.joins = ((vs.flatMap Visit.joins).foldl Sql.Query.join q).joins := by
  rw [dependencyStage] at h
  split at h
  case isTrue hnone =>
    obtain rfl := Stage.runs_skip.mp h
    rw [List.isEmpty_iff.mp hnone] at hvisits
    cases hvisits
    rfl
  case isFalse hsome =>
    obtain ⟨joined, hjoined, hselect⟩ := Stage.runs_andThen.mp h
    rw [← Context.joinStage_eq_of_runs hvisits hjoined]
    split at hselect
    · rw [Stage.runs_skip.mp hselect]
    · rw [Stage.runs_change.mp hselect]
      rfl

/-- The base table of a prepared query keeps its alias. -/
theorem keptByStages_tableAlias (name : String) : KeptByStages fun q => q.tableAlias = name where
  join q j h := by
    rw [Sql.Query.join]
    split <;> exact h
  restrict _ _ _ h   := h
  groupBy _ _ _ h    := h
  orderBy _ _ _ h    := h
  load _ _ h         := h
  makeDistinct _ h   := h
  select _ _ _ h     := h

/-- **When the aliases of a `FROM` clause are distinct.**  The joins of a prepared query have distinct
aliases.  They differ from the alias of the base table exactly when no relation that a filter, group
or sort key follows has that name, or a junction table of that name. -/
theorem aliases_nodup_iff (c : Compiler) (r : Request) (base : ResourceType) (p : PreparedQuery)
    (hadjust : r.adjust = id) (hbase : c.registry.type? r.base = some base)
    (h : c.prepare r = .ok p) :
    (p.query.joins.map Join.tableAlias).Nodup ∧
      (p.query.aliases.Nodup ↔
        ∀ key ∈ requestKeys r.params.filter r.params.group r.params.sort, ∀ resolved,
          c.registry.resolveAttribute base (AttributeKey.ofText key).path = .ok resolved →
          ∀ hop ∈ resolved.hops, r.tableAlias.getD base.table ∉ hop.aliases) := by
  obtain ⟨found, tree, joined, q, hfound, htree, hjoined, hparams, hq⟩ := prepare_eq_ok h
  obtain rfl : found = base := Option.some.inj (hfound.symm.trans hbase)
  obtain rfl : q = p.query := by rw [hq, hadjust, id]
  have halias : p.query.tableAlias = r.tableAlias.getD found.table := by
    have hkept := hjoined.keeps
      (dependencyStage_keeps (keptByStages_tableAlias _).join fun _ hq => hq) rfl
    exact paramStages_keep (keptByStages_tableAlias _) hparams hkept
  -- the joins are those of the visits, whose aliases are the ones of the relations on the paths
  obtain ⟨vs, hvisits⟩ :=
    c.registry.exists_visits tree.children found (r.tableAlias.getD found.table)
  have hjoins : p.query.joins = _ :=
    (paramStages_joins hparams).trans (dependencyStage_joins hjoined hvisits)
  have hnodup : (p.query.joins.map Join.tableAlias).Nodup := by
    rw [hjoins]
    exact Sql.Query.nodup_aliases_foldl_join List.nodup_nil
  refine ⟨hnodup, ?_⟩
  rw [Sql.Query.nodup_aliases_iff hnodup, halias, hjoins, Sql.Query.mem_aliases_foldl_join rfl,
    Context.mem_aliases_iff htree hvisits]
  constructor
  · intro hnone key hkey resolved hresolved hop hmem hname
    exact hnone ⟨key, hkey, resolved, hresolved, hop, hmem, hname⟩
  · rintro hnone ⟨key, hkey, resolved, hresolved, hop, hmem, hname⟩
    exact hnone key hkey resolved hresolved hop hmem hname

/-- Articles by author are taken from two tables under two aliases. -/
theorem author_aliases_nodup :
    ∃ p, Blog.compiler.prepare (Blog.filtered "author.firstName") = .ok p ∧
      p.query.aliases.Nodup := by
  have htest : ((Blog.compiler.prepare (Blog.filtered "author.firstName")).toOption.any fun _ =>
      true) = true := by decide +kernel
  obtain ⟨p, hp, -⟩ := exists_ok_of_any htest
  obtain ⟨-, hiff⟩ := aliases_nodup_iff Blog.compiler (Blog.filtered "author.firstName")
    Blog.articles p rfl rfl hp
  refine ⟨p, hp, hiff.mpr fun key hkey resolved hresolved hop hmem => ?_⟩
  obtain rfl : key = "author.firstName" := List.mem_singleton.mp hkey
  have hfollows : (Blog.registry.resolveAttribute Blog.articles
      (AttributeKey.ofText "author.firstName").path).toOption.all (fun resolved =>
        resolved.hops.all fun hop => !hop.aliases.contains "articles") = true := by decide +kernel
  have hresolved : Blog.registry.resolveAttribute Blog.articles
      (AttributeKey.ofText "author.firstName").path = .ok resolved := hresolved
  rw [hresolved] at hfollows
  have hnone : (!hop.aliases.contains "articles") = true := List.all_eq_true.mp hfollows hop hmem
  have halias : "articles" ∉ hop.aliases := by simpa using hnone
  exact halias

/-- People and those whom they manage, who are people too. -/
def managers : Compiler where
  registry := .ofList
    [{ name      := "people"
       table     := "people"
       relations :=
         [("people", { kind := .hasMany, target := "people", foreignKey := some "manager_id" })] }]

/-- People by the names of those whom they manage are taken from two tables under one alias. -/
theorem not_aliases_nodup :
    ¬ ∀ (c : Compiler) (r : Request) (p : PreparedQuery), r.adjust = id → c.prepare r = .ok p →
      p.query.aliases.Nodup := by
  intro h
  have htest : ((managers.prepare { base := "people", params :=
      { filter := ⟨[.equality "people.name" (.single "x")]⟩ } }).toOption.any fun p =>
        p.query.aliases = ["people", "people"]) = true := by decide +kernel
  obtain ⟨p, hp, haliases⟩ := exists_ok_of_any htest
  have hnodup := h managers _ p rfl hp
  rw [of_decide_eq_true haliases] at hnodup
  simp at hnodup

end Compiler

end ResourceQuery
