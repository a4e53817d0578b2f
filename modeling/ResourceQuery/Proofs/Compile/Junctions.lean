import Mathlib.Data.List.Nodup
import Mathlib.Data.List.Pairwise
import ResourceQuery.Proofs.Compile.Enumeration

/-!
# Compile — junction tables

A relation over a junction table is joined by way of a row of that table, which belongs to the parent
and to which the target belongs.  The junction is joined under its own name, and no alias is joined
twice.  So two relations over one junction table share its first join, whose columns are those of the
first relation, and a relation or a base table with the name of the junction stands in its place.

Relations have junction rows of their own (`OwnJunctions`) exactly when nothing of this happens: the
names of their junction tables are distinct, and differ from the names of all relations and from the
alias of the base table (`ownJunctions_iff`).
-/

namespace ResourceQuery

open Sql (Column Join)

namespace DependencyTree

mutual

/-- The names of the relations in a tree, each before those below it. -/
def names : DependencyTree → List String
  | .node cs => namesOf cs

/-- The names of the relations in a list of children. -/
def namesOf : List (String × DependencyTree) → List String
  | []              => []
  | (name, t) :: cs => name :: (names t ++ namesOf cs)

end

theorem namesOf_children (t : DependencyTree) : namesOf t.children = t.names := by
  obtain ⟨cs⟩ := t
  rw [names, children]

end DependencyTree

/-! ### Links -/

/-- The link of a relation that is joined. -/
def Visit.link? : Visit → Option Link
  | .joined l   => some l
  | .skipped .. => none

/-- The joins of the visits are those of the links among them. -/
theorem Visit.joins_eq (vs : List Visit) :
    vs.flatMap Visit.joins = (vs.filterMap Visit.link?).flatMap Link.joins := by
  induction vs with
  | nil => rfl
  | cons v vs ih =>
      cases v with
      | joined l => exact congrArg (l.joins ++ ·) ih
      | skipped parent name => exact ih

/-- The relations that are joined are relations of the tree. -/
theorem Registry.Visits.names_sublist {r : Registry} {parent : ResourceType} {parentAlias : String}
    {cs : List (String × DependencyTree)} {vs : List Visit}
    (h : r.Visits parent parentAlias cs vs) :
    ((vs.filterMap Visit.link?).map Link.name).Sublist (DependencyTree.namesOf cs) := by
  induction h with
  | nil => exact List.Sublist.refl _
  | joined _ _ _ ihbelow ihafter =>
      simp only [DependencyTree.namesOf, ← DependencyTree.namesOf_children, List.filterMap_cons,
        Visit.link?, List.filterMap_append, List.map_cons, List.map_append]
      exact (ihbelow.append ihafter).cons_cons _
  | skipped _ _ ihafter =>
      simp only [DependencyTree.namesOf, List.filterMap_cons, Visit.link?]
      exact (ihafter.trans (List.sublist_append_right _ _)).cons _

namespace Link

/-- The junction table of a link. -/
def junction? (l : Link) : Option String :=
  match l.keys with
  | .through _ junction _ _ _ => some junction
  | _                         => none

/-- The link leads over a row of its junction table: the row belongs to the parent, and the target to
the row, by the keys of the link. -/
inductive Through (q : Sql.Query) (row : Join) : Link → Prop where
  | intro {parentAlias name parentKey junction foreignKey otherKey targetKey : String}
      {target : ResourceType} (joined : row ∈ q.joins) (table : row.table = junction)
      (on : row.on = [.columns (.of parentAlias parentKey) (.of row.tableAlias foreignKey)])
      (targetJoined : ⟨target.table, name,
        [.columns (.of row.tableAlias otherKey) (.of name targetKey)]⟩ ∈ q.joins) :
      Through q row ⟨parentAlias, name, target,
        .through parentKey junction foreignKey otherKey targetKey⟩

variable {l : Link} {q : Sql.Query} {row : Join}

theorem Through.joined_row (h : l.Through q row) : row ∈ q.joins := by
  cases h with
  | intro joined => exact joined

theorem Through.junction (h : l.Through q row) : l.junction? = some row.table := by
  cases h with
  | intro _ table => rw [table]; rfl

/-- What a link joins is its junction table under its own name, or the target under the name of the
relation. -/
theorem alias_of_mem_joins {j : Join} (h : j ∈ l.joins) :
    j.tableAlias = l.name ∨ l.junction? = some j.table ∧ j.tableAlias = j.table := by
  obtain ⟨parentAlias, name, target, keys⟩ := l
  cases keys with
  | belongsTo | has | morph =>
      obtain rfl := List.mem_singleton.mp h
      exact .inl rfl
  | through =>
      rcases List.mem_cons.mp h with rfl | h
      · exact .inr ⟨rfl, rfl⟩
      · obtain rfl := List.mem_singleton.mp h
        exact .inl rfl

/-- A row that is not the target of the relation it was joined for has the name of its table. -/
theorem Through.alias_eq {m : Link} (h : l.Through q row) (hmem : row ∈ m.joins)
    (hname : row.tableAlias ≠ m.name) : l.junction? = some row.tableAlias := by
  obtain ⟨-, hself⟩ := (alias_of_mem_joins hmem).resolve_left hname
  rw [h.junction, hself]

/-- The join of the junction table of a link, if it has one. -/
def junctionJoin (l : Link) : Join :=
  l.joins.headD default

/-- The join of a junction has the name of its table as alias. -/
theorem alias_junctionJoin {junction : String} (h : l.junction? = some junction) :
    l.junctionJoin.tableAlias = junction := by
  obtain ⟨parentAlias, name, target, keys⟩ := l
  cases keys with
  | belongsTo | has | morph => cases h
  | through => exact Option.some.inj h

/-- The join of a junction is one that leads through it. -/
theorem through_junctionJoin {junction : String} (h : l.junction? = some junction)
    (hq : ∀ j ∈ l.joins, j ∈ q.joins) : l.Through q l.junctionJoin := by
  obtain ⟨parentAlias, name, target, keys⟩ := l
  cases keys with
  | belongsTo | has | morph => cases h
  | through =>
      obtain ⟨hrow, htarget⟩ := List.forall_mem_cons.mp hq
      exact .intro hrow rfl rfl (List.forall_mem_singleton.mp htarget)

/-- Links over distinct junction tables are told apart by them. -/
theorem eq_of_junction {links : List Link} (h : (links.filterMap junction?).Nodup) {m : Link}
    (hl : l ∈ links) (hm : m ∈ links) {junction : String} (hlj : l.junction? = some junction)
    (hmj : m.junction? = some junction) : l = m := by
  by_contra hne
  have hsymm : Std.Symm fun a b : Link =>
      ∀ j, a.junction? = some j → ∀ k, b.junction? = some k → j ≠ k :=
    ⟨fun _ _ hab j hj k hk => (hab k hk j hj).symm⟩
  exact (List.pairwise_filterMap.mp h).forall hl hm hne junction hlj junction hmj rfl

/-- The aliases of a link are the name of its junction table and its own. -/
theorem aliases_joins (l : Link) : l.joins.map Join.tableAlias = l.junction?.toList ++ [l.name] := by
  obtain ⟨parentAlias, name, target, keys⟩ := l
  cases keys <;> rfl

/-- The aliases of links are their names and those of their junction tables. -/
theorem aliases_perm (links : List Link) :
    ((links.flatMap Link.joins).map Join.tableAlias).Perm
      (links.map Link.name ++ links.filterMap Link.junction?) := by
  induction links with
  | nil => exact .refl _
  | cons l links ih =>
      rw [List.flatMap_cons, List.map_append, aliases_joins, List.map_cons, List.cons_append]
      cases h : l.junction? with
      | none =>
          rw [List.filterMap_cons_none h]
          exact ih.cons _
      | some junction =>
          rw [List.filterMap_cons_some h]
          exact ((ih.cons _).cons _).trans (.trans (.swap _ _ _) (List.perm_middle.symm.cons _))

end Link

namespace Context

variable {ctx : Context} {links : List Link} {q : Sql.Query}

/-- Each link over a junction table leads over a row of its own: the alias of the row is neither the
base table's nor a relation's, and no other link leads over it. -/
def OwnJunctions (ctx : Context) (links : List Link) (q : Sql.Query) : Prop :=
  ∃ row : Link → Join, ∀ l ∈ links, l.junction?.isSome = true →
    l.Through q (row l) ∧ (row l).tableAlias ≠ ctx.tableAlias ∧
      ∀ m ∈ links, (row l).tableAlias ≠ m.name ∧
        (m.junction?.isSome = true → row m = row l → m = l)

/-- The names under which links are joined are distinct, and differ from the alias of the base
table. -/
def DistinctAliases (ctx : Context) (links : List Link) : Prop :=
  (ctx.tableAlias :: (links.map Link.name ++ links.filterMap Link.junction?)).Nodup

instance (ctx : Context) (links : List Link) : Decidable (ctx.DistinctAliases links) :=
  inferInstanceAs (Decidable (List.Nodup _))

/-- Rows of their own leave no two links an alias in common. -/
theorem OwnJunctions.distinctAliases (h : ctx.OwnJunctions links q)
    (hnames : (ctx.tableAlias :: links.map Link.name).Nodup)
    (hlinks : ∀ j ∈ q.joins, ∃ l ∈ links, j ∈ l.joins)
    (hjoins : (q.joins.map Join.tableAlias).Nodup) : ctx.DistinctAliases links := by
  obtain ⟨row, hrow⟩ := h
  have halias : ∀ l ∈ links, ∀ junction, l.junction? = some junction →
      (row l).tableAlias = junction := by
    intro l hl junction hjunction
    obtain ⟨hthrough, -, hothers⟩ := hrow l hl (Option.isSome_of_eq_some hjunction)
    obtain ⟨m, hm, hmem⟩ := hlinks (row l) hthrough.joined_row
    exact Option.some.inj ((hthrough.alias_eq hmem (hothers m hm).1).symm.trans hjunction)
  have hjunctions : (links.filterMap Link.junction?).Nodup := by
    have hdistinct : links.Nodup := .of_map Link.name (List.nodup_cons.mp hnames).2
    refine List.pairwise_filterMap.mpr (hdistinct.imp_of_mem ?_)
    rintro l m hl hm hne junction hljunction _ hmjunction rfl
    obtain ⟨hlthrough, -, -⟩ := hrow l hl (Option.isSome_of_eq_some hljunction)
    obtain ⟨hmthrough, -, hothers⟩ := hrow m hm (Option.isSome_of_eq_some hmjunction)
    -- the aliases of the joins are distinct, so one alias means one row
    have hsame : row l = row m := List.inj_on_of_nodup_map hjoins hlthrough.joined_row
      hmthrough.joined_row
      ((halias l hl junction hljunction).trans (halias m hm junction hmjunction).symm)
    exact hne ((hothers l hl).2 (Option.isSome_of_eq_some hljunction) hsame)
  rw [DistinctAliases, ← List.cons_append, List.nodup_append]
  refine ⟨hnames, hjunctions, ?_⟩
  rintro name hname junction hjunction rfl
  obtain ⟨l, hl, hljunction⟩ := List.mem_filterMap.mp hjunction
  obtain ⟨-, hbase, hothers⟩ := hrow l hl (Option.isSome_of_eq_some hljunction)
  rw [halias l hl name hljunction] at hbase hothers
  rcases List.mem_cons.mp hname with rfl | hname
  · exact hbase rfl
  · obtain ⟨m, hm, hmname⟩ := List.mem_map.mp hname
    exact (hothers m hm).1 hmname.symm

/-- Under distinct aliases each link leads over the row that it joins. -/
theorem DistinctAliases.ownJunctions (h : ctx.DistinctAliases links)
    (hq : q.joins = links.flatMap Link.joins) : ctx.OwnJunctions links q := by
  obtain ⟨hbase, haliases⟩ := List.nodup_cons.mp h
  obtain ⟨-, hjunctions, hdisjoint⟩ := List.nodup_append.mp haliases
  refine ⟨Link.junctionJoin, fun l hl hsome => ?_⟩
  obtain ⟨junction, hjunction⟩ := Option.isSome_iff_exists.mp hsome
  have hmem : junction ∈ links.filterMap Link.junction? := List.mem_filterMap.mpr ⟨l, hl, hjunction⟩
  have hjoined : ∀ j ∈ l.joins, j ∈ q.joins := fun j hj => hq ▸ List.mem_flatMap.mpr ⟨l, hl, hj⟩
  rw [Link.alias_junctionJoin hjunction]
  refine ⟨Link.through_junctionJoin hjunction hjoined, ?_, fun m hm => ⟨?_, ?_⟩⟩
  · rintro rfl
    exact hbase (List.mem_append_right _ hmem)
  · exact (hdisjoint _ (List.mem_map_of_mem hm) _ hmem).symm
  · intro hmsome hsame
    obtain ⟨other, hother⟩ := Option.isSome_iff_exists.mp hmsome
    have halias := congrArg Join.tableAlias hsame
    rw [Link.alias_junctionJoin hother, Link.alias_junctionJoin hjunction] at halias
    exact Link.eq_of_junction hjunctions hm hl hother (halias ▸ hjunction)

section

variable {t : DependencyTree} {visits : List Visit} {q' : Sql.Query}
  (hq : q.joins = [])
  (hvisits : ctx.registry.Visits ctx.base ctx.tableAlias t.children visits)
  (hrun : (ctx.joinStage t).Runs q q')

include hq hvisits hrun

/-- The joins of a query are the new ones of its links. -/
theorem joins_of_runs :
    q'.joins = q.newJoins ((visits.filterMap Visit.link?).flatMap Link.joins) := by
  rw [joinStage_eq_of_runs hvisits hrun, Sql.Query.foldl_join_eq_newJoins, hq, List.nil_append,
    Visit.joins_eq]

/-- Links that have junctions of their own have distinct aliases. -/
theorem distinctAliases_of_runs (hnames : t.names.Nodup) (hbase : ctx.tableAlias ∉ t.names)
    (h : ctx.OwnJunctions (visits.filterMap Visit.link?) q') :
    ctx.DistinctAliases (visits.filterMap Visit.link?) := by
  have hsublist := DependencyTree.namesOf_children t ▸ hvisits.names_sublist
  have hdistinct : (ctx.tableAlias :: (visits.filterMap Visit.link?).map Link.name).Nodup :=
    List.nodup_cons.mpr ⟨fun hmem => hbase (hsublist.subset hmem), hnames.sublist hsublist⟩
  refine h.distinctAliases hdistinct (fun j hj => ?_) ?_
  · rw [joins_of_runs hq hvisits hrun] at hj
    exact List.mem_flatMap.mp (Sql.Query.mem_of_mem_newJoins hj)
  · rw [joinStage_eq_of_runs hvisits hrun]
    exact Sql.Query.nodup_aliases_foldl_join (by simp [hq])

/-- Links with distinct aliases have junctions of their own. -/
theorem ownJunctions_of_runs (h : ctx.DistinctAliases (visits.filterMap Visit.link?)) :
    ctx.OwnJunctions (visits.filterMap Visit.link?) q' := by
  refine h.ownJunctions ((joins_of_runs hq hvisits hrun).trans (Sql.Query.newJoins_eq_self ?_ ?_))
  · exact (Link.aliases_perm _).nodup_iff.mpr (List.nodup_cons.mp h).2
  · simp [Sql.Query.hasJoin, hq]

end

/-- **Junction rows of their own.**  Let the relations of a tree have distinct names, other than the
alias of the base table, and nothing be joined before.  After the joins of the tree, the relations
over junction tables lead over rows of their own exactly when the junction tables are distinct, and
none of them has the name of a relation that is joined or the alias of the base table. -/
theorem ownJunctions_iff (ctx : Context) (t : DependencyTree) (visits : List Visit) (q q' : Sql.Query)
    (hnames : t.names.Nodup) (hbase : ctx.tableAlias ∉ t.names) (hq : q.joins = [])
    (hvisits : ctx.registry.Visits ctx.base ctx.tableAlias t.children visits)
    (hrun : (ctx.joinStage t).Runs q q') :
    ctx.OwnJunctions (visits.filterMap Visit.link?) q' ↔
      ctx.DistinctAliases (visits.filterMap Visit.link?) :=
  ⟨distinctAliases_of_runs hq hvisits hrun hnames hbase, ownJunctions_of_runs hq hvisits hrun⟩

/-- The tags of articles lead over a row of their own. -/
theorem tags_own_junction :
    ∃ visits q, (Blog.context true).registry.Visits Blog.articles "articles"
        (DependencyTree.ofPaths [["comments"], ["tags"]]).children visits ∧
      ((Blog.context true).joinStage (.ofPaths [["comments"], ["tags"]])).Runs
        (.ofTable "articles" "articles") q ∧
      (visits.filterMap Visit.link?).filterMap Link.junction? = ["articles_tags"] ∧
      (Blog.context true).OwnJunctions (visits.filterMap Visit.link?) q := by
  have hcomments : (Blog.context true).registry.LeadsTo Blog.articles "comments" Blog.comments
      (.has "id" "article_id") := .intro rfl nofun rfl rfl
  have htags : (Blog.context true).registry.LeadsTo Blog.articles "tags" Blog.tags
      (.through "id" "articles_tags" "article_id" "tag_id" "id") := .intro rfl nofun rfl rfl
  have hvisits : (Blog.context true).registry.Visits Blog.articles "articles"
      (DependencyTree.ofPaths [["comments"], ["tags"]]).children _ :=
    .joined hcomments .nil (.joined htags .nil .nil)
  have hrun := Stage.runs_of_failure (s := (Blog.context true).joinStage
    (.ofPaths [["comments"], ["tags"]])) (q := .ofTable "articles" "articles") (by decide +kernel)
  exact ⟨_, _, hvisits, hrun, rfl, (ownJunctions_iff _ _ _ _ _ (by decide +kernel)
    (by decide +kernel) rfl hvisits hrun).mpr (by decide +kernel)⟩

/-- People, the people who follow them and the people whom they follow, over one junction table. -/
def followedPeople : ResourceType where
  name      := "people"
  table     := "people"
  relations :=
    [("followers",
      { kind    := .belongsToMany
        target  := "people"
        through := some
          { table := some "follows", foreignKey := some "followed_id"
            otherKey := some "follower_id" } }),
     ("following",
      { kind    := .belongsToMany
        target  := "people"
        through := some
          { table := some "follows", foreignKey := some "follower_id"
            otherKey := some "followed_id" } })]

/-- The context of requests for people. -/
def ofFollowedPeople : Context :=
  ⟨.ofList [followedPeople], followedPeople, "people", false⟩

/-- The followers of a person and those whom the person follows are taken from the same row. -/
theorem not_ownJunctions : ¬ ∀ (ctx : Context) (t : DependencyTree) (visits : List Visit)
    (q q' : Sql.Query), t.names.Nodup → ctx.tableAlias ∉ t.names → q.joins = [] →
    ctx.registry.Visits ctx.base ctx.tableAlias t.children visits → (ctx.joinStage t).Runs q q' →
    ctx.OwnJunctions (visits.filterMap Visit.link?) q' := by
  intro h
  have hfollowers : ofFollowedPeople.registry.LeadsTo followedPeople "followers" followedPeople
      (.through "id" "follows" "followed_id" "follower_id" "id") := .intro rfl nofun rfl rfl
  have hfollowing : ofFollowedPeople.registry.LeadsTo followedPeople "following" followedPeople
      (.through "id" "follows" "follower_id" "followed_id" "id") := .intro rfl nofun rfl rfl
  have hvisits : ofFollowedPeople.registry.Visits followedPeople "people"
      (DependencyTree.ofPaths [["followers"], ["following"]]).children _ :=
    .joined hfollowers .nil (.joined hfollowing .nil .nil)
  have hrun := Stage.runs_of_failure (s := ofFollowedPeople.joinStage
    (.ofPaths [["followers"], ["following"]])) (q := .ofTable "people" "people") (by decide +kernel)
  have hnames : (DependencyTree.ofPaths [["followers"], ["following"]]).names.Nodup := by
    decide +kernel
  have hbase : "people" ∉ (DependencyTree.ofPaths [["followers"], ["following"]]).names := by
    decide +kernel
  have hdistinct := distinctAliases_of_runs rfl hvisits hrun hnames hbase
    (h ofFollowedPeople _ _ _ _ hnames hbase rfl hvisits hrun)
  exact absurd hdistinct (by decide +kernel)

end Context

end ResourceQuery
