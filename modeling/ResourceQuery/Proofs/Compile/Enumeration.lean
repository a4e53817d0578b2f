import Mathlib.Data.List.Forall2
import ResourceQuery.Proofs.Blog
import ResourceQuery.Proofs.Compile.Scope

/-!
# Compile — the relations of a dependency tree in order

The relations of a dependency tree are visited depth first (`Registry.Visits`).  A relation that is
declared and leads to a registered type (`Registry.LeadsTo`) is joined, with the joins that its
keys ask for, against the alias of its parent; then the relations below it are visited.  Any other
relation is skipped together with everything below it.  Each tree has exactly one such enumeration
(`exists_visits`, `Visits.unique`).

The join stage makes the joins of the enumeration, of each alias the first and none whose alias is
joined already (`Query.newJoins`); in strict mode it fails when a relation is skipped
(`joins_enumerated`).  The joins that are made stand in an order in which each of them reads tables
before it, besides its own (`joinsInScope_of_visits`).
-/

namespace ResourceQuery

open Sql (Column Join JoinCondition)

/-! ### Joins under new aliases -/

namespace Sql

/-- The columns that a predicate of a join reads. -/
def JoinCondition.reads : JoinCondition → List Column
  | .columns left right => [left, right]
  | .value c _          => [c]

/-- The columns that the `ON` of a join reads. -/
def Join.reads (j : Join) : List Column :=
  j.on.flatMap JoinCondition.reads

namespace Query

variable {q : Query}

/-- The first join of each alias, of those whose alias is not joined yet. -/
def newJoins (q : Query) (js : List Join) : List Join :=
  (js.filter fun j => !q.hasJoin j.tableAlias).eraseDupsBy fun j k => j.tableAlias = k.tableAlias

theorem join_of_hasJoin {j : Join} (h : q.hasJoin j.tableAlias = true) : q.join j = q :=
  if_pos h

/-- A join with a new alias is put at the end. -/
theorem join_of_not_hasJoin {j : Join} (h : ¬ q.hasJoin j.tableAlias = true) :
    q.join j = { q with joins := q.joins ++ [j] } :=
  if_neg h

/-- A join with an alias that is taken is none of the new ones. -/
theorem newJoins_cons_of_hasJoin {j : Join} (h : q.hasJoin j.tableAlias = true) (js : List Join) :
    q.newJoins (j :: js) = q.newJoins js := by
  simp [newJoins, h]

/-- A join with a new alias is the first of the new ones. -/
theorem newJoins_cons_of_not_hasJoin {j : Join} (h : ¬ q.hasJoin j.tableAlias = true)
    (js : List Join) : q.newJoins (j :: js) = j :: (q.join j).newJoins js := by
  have hrest : (js.filter fun k => !q.hasJoin k.tableAlias).filter
        (fun k => decide (decide (k.tableAlias = j.tableAlias) = false)) =
      js.filter fun k => !(q.join j).hasJoin k.tableAlias := by
    rw [List.filter_filter]
    refine List.filter_congr fun k _ => ?_
    simp [join_of_not_hasJoin h, hasJoin, Bool.and_comm, @eq_comm _ j.tableAlias]
  rw [newJoins, List.filter_cons, if_pos (by simpa using h), List.eraseDupsBy_cons, hrest,
    newJoins]

/-- The new joins are among those that are added. -/
theorem mem_of_mem_newJoins {js : List Join} {j : Join} (h : j ∈ q.newJoins js) : j ∈ js := by
  induction js generalizing q with
  | nil => exact h
  | cons k js ih =>
      by_cases hk : q.hasJoin k.tableAlias = true
      · rw [newJoins_cons_of_hasJoin hk] at h
        exact List.mem_cons_of_mem k (ih h)
      · rw [newJoins_cons_of_not_hasJoin hk] at h
        exact List.mem_cons.mpr ((List.mem_cons.mp h).imp_right ih)

/-- Joins under distinct aliases, of which none is joined, are all new. -/
theorem newJoins_eq_self {js : List Join} (hjs : (js.map Join.tableAlias).Nodup)
    (hq : ∀ j ∈ js, ¬ q.hasJoin j.tableAlias = true) : q.newJoins js = js := by
  induction js generalizing q with
  | nil => rfl
  | cons j js ih =>
      obtain ⟨hj, hjs⟩ := List.nodup_cons.mp hjs
      obtain ⟨hqj, hqjs⟩ := List.forall_mem_cons.mp hq
      rw [newJoins_cons_of_not_hasJoin hqj, ih hjs]
      intro k hk hjoined
      rcases hasJoin_join.mp hjoined with hold | hnew
      · exact hqjs k hk hold
      · exact hj (hnew ▸ List.mem_map_of_mem hk)

/-- Joins made one after the other are made under new aliases alone. -/
theorem foldl_join_eq_newJoins (q : Query) (js : List Join) :
    js.foldl join q = { q with joins := q.joins ++ q.newJoins js } := by
  induction js generalizing q with
  | nil => simp [newJoins]
  | cons j js ih =>
      rw [List.foldl_cons, ih]
      by_cases h : q.hasJoin j.tableAlias = true
      · rw [newJoins_cons_of_hasJoin h, join_of_hasJoin h]
      · rw [newJoins_cons_of_not_hasJoin h]
        simp only [join_of_not_hasJoin h, List.append_assoc, List.singleton_append]

/-- Aliases stay distinct when a join is added. -/
theorem nodup_aliases_join {j : Join} (h : (q.joins.map Join.tableAlias).Nodup) :
    ((q.join j).joins.map Join.tableAlias).Nodup := by
  by_cases hj : q.hasJoin j.tableAlias = true
  · rwa [join_of_hasJoin hj]
  · rw [join_of_not_hasJoin hj, List.map_append, List.map_singleton, List.nodup_append]
    refine ⟨h, by simp, fun a ha b hb hab => hj ?_⟩
    obtain rfl := List.mem_singleton.mp hb
    exact hasJoin_iff.mpr (List.mem_map.mp (hab ▸ ha))

/-- Aliases stay distinct when joins are added. -/
theorem nodup_aliases_foldl_join {js : List Join} (h : (q.joins.map Join.tableAlias).Nodup) :
    ((js.foldl join q).joins.map Join.tableAlias).Nodup :=
  List.foldlRecOn js join (motive := fun q => (q.joins.map Join.tableAlias).Nodup) h
    fun _ hq _ _ => nodup_aliases_join hq

end Query

end Sql

/-! ### Visits -/

/-- A relation that is followed from a parent, and the columns that link the two. -/
structure Link where
  /-- The alias of the parent. -/
  parentAlias : String
  /-- The name of the relation, which is also the alias of the target. -/
  name        : String
  target      : ResourceType
  keys        : JoinKeys

/-- The joins from the parent to the target, a junction table first. -/
def Link.joins (l : Link) : List Join :=
  l.keys.joins l.parentAlias l.name l.target.table

/-- What is made of a relation of a tree. -/
inductive Visit where
  | joined (link : Link)
  | skipped (parent : ResourceType) (name : String)

namespace Visit

/-- The joins that a visit asks for. -/
def joins : Visit → List Join
  | .joined l   => l.joins
  | .skipped .. => []

def isJoined : Visit → Bool
  | .joined _   => true
  | .skipped .. => false

end Visit

namespace Registry

/-- The relation `name` of `parent` is declared and leads to a registered type over the keys. -/
inductive LeadsTo (r : Registry) (parent : ResourceType) (name : String) :
    ResourceType → JoinKeys → Prop where
  | intro {relation : Relation} {target : ResourceType} {keys : JoinKeys}
      (declared : parent.relation? name = some relation) (kind : relation.kind ≠ .morphTo)
      (registered : r.type? relation.target = some target)
      (linked : relation.joinKeys? parent target = some keys) : LeadsTo r parent name target keys

/-- The relations of a tree below `parent` are visited depth first, each relation before those below
it. -/
inductive Visits (r : Registry) :
    ResourceType → String → List (String × DependencyTree) → List Visit → Prop where
  | nil {parent : ResourceType} {parentAlias : String} : Visits r parent parentAlias [] []
  | joined {parent target : ResourceType} {parentAlias name : String} {keys : JoinKeys}
      {t : DependencyTree} {rest : List (String × DependencyTree)} {below after : List Visit}
      (leads : r.LeadsTo parent name target keys) (hbelow : Visits r target name t.children below)
      (hafter : Visits r parent parentAlias rest after) :
      Visits r parent parentAlias ((name, t) :: rest)
        (.joined ⟨parentAlias, name, target, keys⟩ :: (below ++ after))
  | skipped {parent : ResourceType} {parentAlias name : String} {t : DependencyTree}
      {rest : List (String × DependencyTree)} {after : List Visit}
      (stuck : ¬ ∃ target keys, r.LeadsTo parent name target keys)
      (hafter : Visits r parent parentAlias rest after) :
      Visits r parent parentAlias ((name, t) :: rest) (.skipped parent name :: after)

variable {r : Registry} {parent : ResourceType} {parentAlias name : String}

/-- A relation leads to one target, by one pair of keys. -/
theorem LeadsTo.unique {target target' : ResourceType} {keys keys' : JoinKeys}
    (h : r.LeadsTo parent name target keys) (h' : r.LeadsTo parent name target' keys') :
    target = target' ∧ keys = keys' := by
  obtain ⟨declared, -, registered, linked⟩ := h
  obtain ⟨declared', -, registered', linked'⟩ := h'
  obtain rfl := Option.some.inj (declared.symm.trans declared')
  obtain rfl := Option.some.inj (registered.symm.trans registered')
  exact ⟨rfl, Option.some.inj (linked.symm.trans linked')⟩

mutual

/-- The branches of a tree can be visited from every type. -/
theorem exists_visits_below (r : Registry) :
    ∀ (t : DependencyTree) (parent : ResourceType) (parentAlias : String),
      ∃ vs, r.Visits parent parentAlias t.children vs
  | .node cs, parent, parentAlias => exists_visits r cs parent parentAlias

/-- Branches can be visited from every type, by induction on them. -/
theorem exists_visits (r : Registry) :
    ∀ (cs : List (String × DependencyTree)) (parent : ResourceType) (parentAlias : String),
      ∃ vs, r.Visits parent parentAlias cs vs
  | [], _, _ => ⟨[], .nil⟩
  | (name, t) :: rest, parent, parentAlias => by
      obtain ⟨after, hafter⟩ := exists_visits r rest parent parentAlias
      by_cases h : ∃ target keys, r.LeadsTo parent name target keys
      · obtain ⟨target, keys, leads⟩ := h
        obtain ⟨below, hbelow⟩ := exists_visits_below r t target name
        exact ⟨_, .joined leads hbelow hafter⟩
      · exact ⟨_, .skipped h hafter⟩

end

/-- There is one way to visit branches. -/
theorem Visits.unique {cs : List (String × DependencyTree)} {vs us : List Visit}
    (h : r.Visits parent parentAlias cs vs) (h' : r.Visits parent parentAlias cs us) : vs = us := by
  induction h generalizing us with
  | nil =>
      cases h'
      rfl
  | joined leads _ _ ihbelow ihafter =>
      cases h' with
      | joined leads' hbelow' hafter' =>
          obtain ⟨rfl, rfl⟩ := leads.unique leads'
          rw [ihbelow hbelow', ihafter hafter']
      | skipped stuck hafter' => exact absurd ⟨_, _, leads⟩ stuck
  | skipped stuck _ ihafter =>
      cases h' with
      | joined leads' hbelow' hafter' => exact absurd ⟨_, _, leads'⟩ stuck
      | skipped _ hafter' => rw [ihafter hafter']

end Registry

namespace Context

variable {ctx : Context}

/-! ### The plan -/

/-- What the plan of a tree holds for a visit: joins, or the obstacle in the way of them. -/
inductive Plans : Visit → Except QueryError (List Join) → Prop where
  | joined (l : Link) : Plans (.joined l) (.ok l.joins)
  | skipped (parent : ResourceType) (name : String) (o : JoinObstacle) :
      Plans (.skipped parent name) (.error (.unsupportedRelation parent.name name o))

/-- A relation that leads somewhere is joined to its target. -/
theorem joinTarget_of_leadsTo {parent target : ResourceType} {name : String} {keys : JoinKeys}
    (parentAlias : String) (h : ctx.registry.LeadsTo parent name target keys) :
    ctx.joinTarget parent parentAlias name =
      .ok (target, (Link.mk parentAlias name target keys).joins) := by
  obtain ⟨declared, kind, registered, linked⟩ := h
  simp [joinTarget, declared, kind, registered, linked, Link.joins]

/-- A relation that leads nowhere is an unsupported one. -/
theorem joinTarget_of_stuck {parent : ResourceType} {name : String} (parentAlias : String)
    (h : ¬ ∃ target keys, ctx.registry.LeadsTo parent name target keys) :
    ∃ o, ctx.joinTarget parent parentAlias name =
      .error (.unsupportedRelation parent.name name o) := by
  simp only [joinTarget]
  split
  · exact ⟨_, rfl⟩
  · next relation declared =>
    split
    · exact ⟨_, rfl⟩
    · next kind =>
      split
      · exact ⟨_, rfl⟩
      · next target registered =>
        split
        · next keys linked => exact absurd ⟨_, _, .intro declared kind registered linked⟩ h
        · exact ⟨_, rfl⟩

/-- The plan of a tree follows its visits one by one. -/
theorem plans_of_visits {parent : ResourceType} {parentAlias : String}
    {cs : List (String × DependencyTree)} {vs : List Visit}
    (h : ctx.registry.Visits parent parentAlias cs vs) :
    List.Forall₂ Plans vs (ctx.planRelations parent parentAlias cs) := by
  induction h with
  | nil =>
      rw [planRelations]
      exact .nil
  | @joined parent target parentAlias name keys t rest below after leads hbelow hafter ihbelow
      ihafter =>
      obtain ⟨children⟩ := t
      rw [planRelations, planRelation, joinTarget_of_leadsTo parentAlias leads]
      exact .cons (.joined _) (List.rel_append ihbelow ihafter)
  | @skipped parent parentAlias name t rest after stuck hafter ihafter =>
      obtain ⟨children⟩ := t
      obtain ⟨o, ho⟩ := joinTarget_of_stuck parentAlias stuck
      rw [planRelations, planRelation, ho]
      exact .cons (.skipped parent name o) ihafter

/-! ### The stage -/

/-- A plan without obstacles runs, and so does any plan outside strict mode. -/
theorem joinStage_of_joined {t : DependencyTree} {vs : List Visit} (q : Sql.Query)
    (h : ctx.registry.Visits ctx.base ctx.tableAlias t.children vs)
    (hvs : ctx.strict = false ∨ ∀ v ∈ vs, v.isJoined = true) :
    ctx.joinStage t q = ⟨(vs.flatMap Visit.joins).foldl Sql.Query.join q, none⟩ := by
  have hplan := plans_of_visits h
  rw [joinStage, joinPlan]
  generalize ctx.planRelations ctx.base ctx.tableAlias t.children = plan at hplan ⊢
  clear h
  induction hplan generalizing q with
  | nil => rfl
  | cons hv hplan ih =>
      have hrest := hvs.imp_right fun hvs => (List.forall_mem_cons.mp hvs).2
      rw [List.flatMap_cons, List.foldl_append]
      cases hv with
      | joined l => exact ih (l.joins.foldl Sql.Query.join q) hrest
      | skipped parent name o =>
          have hlenient := hvs.resolve_right fun hvs =>
            Bool.false_ne_true (hvs _ List.mem_cons_self)
          have hreject : ctx.reject (α := Unit) (.unsupportedRelation parent.name name o) =
              .ok none := by rw [reject, hlenient, if_neg Bool.false_ne_true]
          simp only [List.map_cons, hreject]
          exact ih q hrest

/-- In strict mode a skipped relation ends the stage. -/
theorem joinStage_of_skipped {t : DependencyTree} {vs : List Visit} (q : Sql.Query)
    (h : ctx.registry.Visits ctx.base ctx.tableAlias t.children vs) (hstrict : ctx.strict = true)
    (hvs : ¬ ∀ v ∈ vs, v.isJoined = true) :
    ∃ parent name o, .skipped parent name ∈ vs ∧
      (ctx.joinStage t q).failure = some (.unsupportedRelation parent.name name o) := by
  have hplan := plans_of_visits h
  rw [joinStage, joinPlan]
  generalize ctx.planRelations ctx.base ctx.tableAlias t.children = plan at hplan ⊢
  clear h
  induction hplan generalizing q with
  | nil => exact absurd (List.forall_mem_nil _) hvs
  | cons hv hplan ih =>
      cases hv with
      | joined l =>
          have hrest := fun hrest => hvs (List.forall_mem_cons.mpr ⟨rfl, hrest⟩)
          obtain ⟨parent, name, o, hmem, hfails⟩ := ih (l.joins.foldl Sql.Query.join q) hrest
          exact ⟨parent, name, o, List.mem_cons_of_mem _ hmem, hfails⟩
      | skipped parent name o =>
          refine ⟨parent, name, o, List.mem_cons_self, ?_⟩
          have hreject : ctx.reject (α := Unit) (.unsupportedRelation parent.name name o) =
              .error (.unsupportedRelation parent.name name o) := by rw [reject, hstrict, if_pos rfl]
          simp only [List.map_cons, hreject]
          rfl

/-- All that a join stage does: it makes the joins of the enumeration, or fails for a skipped
relation. -/
theorem joinStage_cases {t : DependencyTree} {vs : List Visit} (q : Sql.Query)
    (h : ctx.registry.Visits ctx.base ctx.tableAlias t.children vs) :
    (ctx.joinStage t).Runs q ((vs.flatMap Visit.joins).foldl Sql.Query.join q) ∨
      ∃ parent name o, .skipped parent name ∈ vs ∧
        (ctx.joinStage t q).failure = some (.unsupportedRelation parent.name name o) := by
  by_cases hjoined : ctx.strict = false ∨ ∀ v ∈ vs, v.isJoined = true
  · exact .inl (joinStage_of_joined q h hjoined)
  · obtain ⟨hstrict, hskipped⟩ := not_or.mp hjoined
    exact .inr (joinStage_of_skipped q h (Bool.of_not_eq_false hstrict) hskipped)

/-- A stage that runs has made the joins of the enumeration. -/
theorem joinStage_eq_of_runs {t : DependencyTree} {vs : List Visit} {q q' : Sql.Query}
    (h : ctx.registry.Visits ctx.base ctx.tableAlias t.children vs)
    (hrun : (ctx.joinStage t).Runs q q') :
    q' = (vs.flatMap Visit.joins).foldl Sql.Query.join q := by
  rcases joinStage_cases q h with hjoins | ⟨parent, name, o, -, hfails⟩
  · exact hrun.unique hjoins
  · cases (congrArg Progress.failure hrun).symm.trans hfails

/-! ### Scope -/

/-- Every column that the `ON` of a join reads belongs to the base table or to a join up to this
one. -/
def JoinsInScope (ctx : Context) (q : Sql.Query) : Prop :=
  ∀ before j after, q.joins = before ++ j :: after →
    ∀ c ∈ j.reads, ctx.InScope { q with joins := before ++ [j] } c

/-- The joins of a query read what is in scope if the new one does. -/
theorem JoinsInScope.join {q : Sql.Query} {j : Join} (h : ctx.JoinsInScope q)
    (hj : ∀ c ∈ j.reads, ctx.InScope (q.join j) c) : ctx.JoinsInScope (q.join j) := by
  by_cases hold : q.hasJoin j.tableAlias = true
  · rwa [Sql.Query.join_of_hasJoin hold]
  · rw [Sql.Query.join_of_not_hasJoin hold] at hj ⊢
    intro before k after hsplit c hc
    -- the join is the new one, or one that was there before
    rcases List.eq_nil_or_concat' after with rfl | ⟨front, last, rfl⟩
    · obtain ⟨rfl, rfl⟩ : q.joins = before ∧ j = k := by simpa using hsplit
      exact hj c hc
    · rw [← List.cons_append, ← List.append_assoc] at hsplit
      exact h before k front (List.append_inj' hsplit rfl).1 c hc

/-- The joins to a relation of a table in scope are in scope. -/
theorem JoinsInScope.link {q : Sql.Query} {l : Link} (h : ctx.JoinsInScope q)
    (hparent : l.parentAlias = ctx.tableAlias ∨ q.hasJoin l.parentAlias = true) :
    ctx.JoinsInScope (l.joins.foldl Sql.Query.join q) := by
  have hown {u : Sql.Query} {j : Join} (column : String) :
      ctx.InScope (u.join j) (.of j.tableAlias column) :=
    ⟨j.tableAlias, rfl, .inr (Sql.Query.hasJoin_join.mpr (.inr rfl))⟩
  have hbefore {j : Join} (column : String) :
      ctx.InScope (q.join j) (.of l.parentAlias column) :=
    ⟨l.parentAlias, rfl, hparent.imp_right fun hq => Sql.Query.hasJoin_join.mpr (.inl hq)⟩
  have hlinked {j : Join} (column own : String)
      (hj : j.reads = [.of l.parentAlias column, .of j.tableAlias own]) :
      ctx.JoinsInScope (q.join j) :=
    h.join (hj ▸ List.forall_mem_cons.mpr ⟨hbefore column, List.forall_mem_singleton.mpr (hown own)⟩)
  obtain ⟨parentAlias, name, target, keys⟩ := l
  cases keys with
  | belongsTo foreignKey targetKey => exact hlinked foreignKey targetKey rfl
  | has parentKey foreignKey => exact hlinked parentKey foreignKey rfl
  | morph parentKey idColumn typeColumn value =>
      exact h.join (List.forall_mem_cons.mpr ⟨hown idColumn, List.forall_mem_cons.mpr
        ⟨hbefore parentKey, List.forall_mem_singleton.mpr (hown typeColumn)⟩⟩)
  | through parentKey junction foreignKey otherKey targetKey =>
      -- the junction reads the parent, and the target reads the junction
      have hjunction : ctx.JoinsInScope (q.join ⟨junction, junction,
          [.columns (.of parentAlias parentKey) (.of junction foreignKey)]⟩) :=
        hlinked parentKey foreignKey rfl
      refine hjunction.join (List.forall_mem_cons.mpr
        ⟨?_, List.forall_mem_singleton.mpr (hown targetKey)⟩)
      refine ⟨junction, rfl, .inr (Sql.Query.hasJoin_join.mpr (.inl ?_))⟩
      exact Sql.Query.hasJoin_join.mpr (.inr rfl)

/-- The name of a link is the alias of one of its joins. -/
theorem hasJoin_link {q : Sql.Query} (l : Link) :
    (l.joins.foldl Sql.Query.join q).hasJoin l.name = true := by
  refine Sql.Query.hasJoin_foldl_join.mpr (.inr ?_)
  obtain ⟨parentAlias, name, target, keys⟩ := l
  cases keys <;> simp [Link.joins, JoinKeys.joins]

/-- The joins of an enumeration are in scope: a relation is visited after its parent. -/
theorem joinsInScope_of_visits {parent : ResourceType} {parentAlias : String}
    {cs : List (String × DependencyTree)} {vs : List Visit} {q : Sql.Query}
    (h : ctx.registry.Visits parent parentAlias cs vs)
    (hparent : parentAlias = ctx.tableAlias ∨ q.hasJoin parentAlias = true)
    (hq : ctx.JoinsInScope q) :
    ctx.JoinsInScope ((vs.flatMap Visit.joins).foldl Sql.Query.join q) := by
  induction h generalizing q with
  | nil => exact hq
  | @joined parent target parentAlias name keys t rest below after leads hbelow hafter ihbelow
      ihafter =>
      rw [List.flatMap_cons, List.flatMap_append, List.foldl_append, List.foldl_append]
      have hlink := hq.link (l := ⟨parentAlias, name, target, keys⟩) hparent
      have hrest := ihbelow (.inr (hasJoin_link ⟨parentAlias, name, target, keys⟩)) hlink
      -- what was joined stays joined, the parent of the relations after this one too
      refine ihafter (hparent.imp_right fun hjoined => ?_) hrest
      simp only [Sql.Query.hasJoin_foldl_join]
      exact .inl (.inl hjoined)
  | skipped stuck hafter ihafter => exact ihafter hparent hq

/-- **The joins of a tree.**  A dependency tree has one enumeration of its relations.  Outside strict
mode the join stage adds the joins of the enumeration, of each alias the first and none whose alias
is joined already, and nothing else.  In strict mode it does the same unless a relation is skipped,
and then fails for a skipped relation.  Where nothing was joined before, the aliases of the joins
are distinct, and the `ON` of each join reads the base table and the joins up to it alone. -/
theorem joins_enumerated (ctx : Context) (t : DependencyTree) (q : Sql.Query) :
    ∃ visits, (∀ vs, ctx.registry.Visits ctx.base ctx.tableAlias t.children vs ↔ vs = visits) ∧
      let joined := { q with joins := q.joins ++ q.newJoins (visits.flatMap Visit.joins) }
      (ctx.strict = false → ctx.joinStage t q = ⟨joined, none⟩) ∧
      (ctx.strict = true →
        if ∀ v ∈ visits, v.isJoined then ctx.joinStage t q = ⟨joined, none⟩
        else ∃ parent name obstacle, .skipped parent name ∈ visits ∧
          (ctx.joinStage t q).failure =
            some (.unsupportedRelation parent.name name obstacle)) ∧
      (q.joins = [] → (joined.joins.map Join.tableAlias).Nodup ∧ ctx.JoinsInScope joined) := by
  obtain ⟨visits, hvisits⟩ :=
    ctx.registry.exists_visits t.children ctx.base ctx.tableAlias
  refine ⟨visits, fun vs => ⟨fun h => h.unique hvisits, fun h => h ▸ hvisits⟩, ?_⟩
  intro joined
  rw [← show (visits.flatMap Visit.joins).foldl Sql.Query.join q = joined from
    Sql.Query.foldl_join_eq_newJoins q _]
  -- without strictness, and with it, and what holds of either
  refine ⟨fun hlenient => joinStage_of_joined q hvisits (.inl hlenient), fun hstrict => ?_, ?_⟩
  · split
    · next hall => exact joinStage_of_joined q hvisits (.inr hall)
    · next hskipped => exact joinStage_of_skipped q hvisits hstrict hskipped
  · intro hq
    have hempty : ctx.JoinsInScope q := by
      intro before j after hsplit
      simp [hq] at hsplit
    exact ⟨Sql.Query.nodup_aliases_foldl_join (by simp [hq]),
      joinsInScope_of_visits hvisits (.inl rfl) hempty⟩

/-- The authors of articles and of comments have one alias, and are joined once. -/
theorem author_joined_once :
    ∃ q, (Blog.context true).joinStage (.ofPaths [["author"], ["comments", "author"], ["tags"]])
        (.ofTable "articles" "articles") = ⟨q, none⟩ ∧
      q.joins.map Join.tableAlias = ["author", "comments", "articles_tags", "tags"] ∧
      (Blog.context true).JoinsInScope q := by
  obtain ⟨visits, -, -, hstrict, hscope⟩ := joins_enumerated (Blog.context true)
    (.ofPaths [["author"], ["comments", "author"], ["tags"]]) (.ofTable "articles" "articles")
  have hstrict := hstrict rfl
  have hruns : ((Blog.context true).joinStage
      (.ofPaths [["author"], ["comments", "author"], ["tags"]])
      (.ofTable "articles" "articles")).failure = none := by decide +kernel
  split at hstrict
  · have haliases := congrArg (fun p => p.query.joins.map Join.tableAlias) hstrict
    refine ⟨_, hstrict, haliases.symm.trans ?_, (hscope rfl).2⟩
    decide +kernel
  · obtain ⟨parent, name, obstacle, -, hfails⟩ := hstrict
    cases hruns.symm.trans hfails

end Context

end ResourceQuery
