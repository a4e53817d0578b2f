import ResourceQuery.Compile.Joins
import ResourceQuery.Proofs.Compile.DependencyTree
import ResourceQuery.Proofs.Compile.Stage
import ResourceQuery.Proofs.Path.Chain

/-!
# Compile — which relations are joined

The join stage walks a dependency tree from the base type, as following a path walks the hops of the
path.  The two walks agree: when the names of a chain of hops lead to a node of the tree, the plan
of the tree holds a join under the name of each hop that has a target (`exists_planned_of_chain`).

* `joinStage_runs`: a join stage that runs has made the planned joins, in order, and nothing else.
* `hasJoin_foldl_join`: after joins, an alias is joined if it was before or is one of theirs.
-/

namespace ResourceQuery

open Sql (Join)

namespace Sql.Query

variable {q : Query} {name : String}

theorem hasJoin_iff : q.hasJoin name = true ↔ ∃ j ∈ q.joins, j.tableAlias = name := by
  simp [hasJoin]

/-- An alias is taken behind a join if it was before or the join has it. -/
theorem hasJoin_join {j : Join} :
    (q.join j).hasJoin name = true ↔ q.hasJoin name = true ∨ j.tableAlias = name := by
  rw [join]
  split
  case isTrue h =>
    constructor
    · exact .inl
    · rintro (hq | rfl)
      · exact hq
      · exact h
  case isFalse =>
    simp only [hasJoin_iff, List.mem_append, List.mem_singleton]
    constructor
    · rintro ⟨k, hk | rfl, rfl⟩
      · exact .inl ⟨k, hk, rfl⟩
      · exact .inr rfl
    · rintro (⟨k, hk, rfl⟩ | rfl)
      · exact ⟨k, .inl hk, rfl⟩
      · exact ⟨j, .inr rfl, rfl⟩

theorem projections_join {j : Join} : (q.join j).projections = q.projections := by
  rw [join]
  split <;> rfl

/-- Joins change nothing but the joins. -/
theorem foldl_join_eq (q : Query) (js : List Join) :
    js.foldl join q = { q with joins := (js.foldl join q).joins } := by
  induction js generalizing q with
  | nil => rfl
  | cons j js ih =>
      rw [List.foldl_cons, ih, join]
      split <;> rfl

/-- An alias is taken behind joins if it was before or one of them has it. -/
theorem hasJoin_foldl_join {js : List Join} :
    (js.foldl join q).hasJoin name = true ↔
      q.hasJoin name = true ∨ ∃ j ∈ js, j.tableAlias = name := by
  induction js generalizing q with
  | nil => simp
  | cons j js ih => simp [ih, hasJoin_join, or_assoc]

end Sql.Query

namespace Context

variable {ctx : Context}

/-! ### The plan -/

/-- The joins of the plan of a tree, obstacles passed over. -/
def plannedJoins (ctx : Context) (t : DependencyTree) : List Join :=
  (ctx.joinPlan t).flatMap fun
    | .ok joins => joins
    | .error _  => []

/-- A declared relation to a registered type can be joined, unless it is polymorphic. -/
theorem exists_joinTarget {parent target : ResourceType} {name : String} (parentAlias : String)
    {relation : Relation} (declared : parent.relation? name = some relation)
    (kind : relation.kind ≠ .morphTo)
    (registered : ctx.registry.type? relation.target = some target) :
    ∃ joins, ctx.joinTarget parent parentAlias name = .ok (target, joins) ∧
      ∃ j ∈ joins, j.tableAlias = name := by
  have hkeys : relation.joinKeys? parent target ≠ none :=
    fun h => kind ((relation.joinKeys?_eq_none_iff parent target).mp h)
  obtain ⟨keys, hkeys⟩ := Option.ne_none_iff_exists'.mp hkeys
  refine ⟨keys.joins parentAlias name target.table, ?_, ?_⟩
  · simp [joinTarget, declared, kind, registered, hkeys]
  · cases keys <;> simp [JoinKeys.joins]

/-- What is planned for a branch is part of the plan. -/
theorem mem_planRelations {parent : ResourceType} {parentAlias name : String} {t : DependencyTree}
    {cs : List (String × DependencyTree)} {x : Except QueryError (List Join)} (h : (name, t) ∈ cs)
    (hx : x ∈ ctx.planRelation parent parentAlias name t) :
    x ∈ ctx.planRelations parent parentAlias cs := by
  induction cs with
  | nil => cases h
  | cons c cs ih =>
      obtain ⟨other, u⟩ := c
      rw [planRelations, List.mem_append]
      rcases List.mem_cons.mp h with h | h
      · cases h
        exact .inl hx
      · exact .inr (ih h)

/-- **The plan follows every chain.**  A chain of hops whose names lead to a node of the tree is
planned hop by hop, each join under the name of its hop. -/
theorem exists_planned_of_chain {parent : ResourceType} {hops : List Hop}
    (chain : HopChain ctx.registry parent hops) {parentAlias : String} {t : DependencyTree}
    (hpath : t.HasPath (hops.map Hop.name)) {hop : Hop} (hmem : hop ∈ hops)
    (htarget : hop.target.isSome) :
    ∃ joins, .ok joins ∈ ctx.planRelations parent parentAlias t.children ∧
      ∃ j ∈ joins, j.tableAlias = hop.name := by
  induction chain generalizing parentAlias t with
  | nil => cases hmem
  | polymorphic declared kind =>
      obtain rfl := List.mem_singleton.mp hmem
      cases htarget
  | fixed declared kind registered rest ih =>
      rename_i parent target name relation hops
      -- the tree has the name of the hop as a child, and the plan goes on below it
      obtain ⟨child, hchild, hbelow⟩ := hpath
      obtain ⟨joins, hjoins, hname⟩ := exists_joinTarget parentAlias declared kind registered
      have hplan : ctx.planRelation parent parentAlias name child =
          .ok joins :: ctx.planRelations target name child.children := by
        obtain ⟨cs⟩ := child
        simp only [planRelation, hjoins, DependencyTree.children]
      have hentry : (name, child) ∈ t.children := Entries.mem_of_find? hchild
      rcases List.mem_cons.mp hmem with rfl | hmem
      · exact ⟨joins, mem_planRelations hentry (hplan ▸ List.mem_cons_self), hname⟩
      · obtain ⟨below, hin, hbelow⟩ :
            ∃ joins, .ok joins ∈ ctx.planRelations target name child.children ∧
              ∃ j ∈ joins, j.tableAlias = hop.name := ih hbelow hmem
        exact ⟨below, mem_planRelations hentry (hplan ▸ List.mem_cons_of_mem _ hin), hbelow⟩

/-! ### The stage -/

/-- A property of queries is kept by the join stage if each join keeps it. -/
theorem joinStage_keeps {R : Sql.Query → Prop} {t : DependencyTree}
    (h : ∀ q j, R q → R (q.join j)) : (ctx.joinStage t).Keeps R := by
  refine Stage.Keeps.all fun s hs => ?_
  obtain ⟨part, -, rfl⟩ := List.mem_map.mp hs
  cases part with
  | ok joins =>
      exact Stage.Keeps.change fun q hq => List.foldlRecOn joins _ hq fun q hq j _ => h q j hq
  | error e => exact Stage.Keeps.add fun _ _ _ hq => hq

/-- A join stage that runs makes the planned joins. -/
theorem joinStage_runs {t : DependencyTree} {q q' : Sql.Query} (h : (ctx.joinStage t).Runs q q') :
    q' = (ctx.plannedJoins t).foldl Sql.Query.join q := by
  rw [joinStage] at h
  rw [plannedJoins]
  generalize ctx.joinPlan t = plan at h ⊢
  induction plan generalizing q with
  | nil => exact Stage.runs_nil.mp h
  | cons part plan ih =>
      obtain ⟨q₁, hpart, hrest⟩ := Stage.runs_cons.mp h
      rw [ih hrest, List.flatMap_cons, List.foldl_append]
      cases part with
      | ok joins => rw [Stage.runs_change.mp hpart]
      | error e =>
          obtain ⟨_, -, rfl⟩ := Stage.runs_add.mp hpart
          rfl

/-- A join stage that runs joins, for a path in its tree, the table of each of the path's hops. -/
theorem joinStage_hasJoin {t : DependencyTree} {q q' : Sql.Query}
    (h : (ctx.joinStage t).Runs q q') {hops : List Hop}
    (chain : HopChain ctx.registry ctx.base hops) (hpath : t.HasPath (hops.map Hop.name))
    {hop : Hop} (hmem : hop ∈ hops) (htarget : hop.target.isSome) : q'.hasJoin hop.name = true := by
  obtain ⟨joins, hplan, j, hj, hname⟩ := exists_planned_of_chain chain hpath hmem htarget
  rw [joinStage_runs h, Sql.Query.hasJoin_foldl_join]
  exact .inr ⟨j, List.mem_flatMap.mpr ⟨_, hplan, hj⟩, hname⟩

end Context

end ResourceQuery
