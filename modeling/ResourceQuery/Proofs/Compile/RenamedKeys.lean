import ResourceQuery.Proofs.Compile.RenamedConditions
import ResourceQuery.Proofs.Compile.Scope
import ResourceQuery.Proofs.Compile.Stage

/-!
# Compile — renaming the base table

The alias of the base table is a name of its own as long as no join can have it: it is neither the
name of a relation that a registered type declares nor the name of a junction table
(`Registry.Uses`).  A renaming that keeps the names that are used and gives the base table another one
that is not (`Context.Renames`) renames what each key stands for (`qualify_renamed`), and the stages of
filters, groups and orders lead from a query and its renaming to a query and its renaming
(`filterStage_renamed`, `groupStage_renamed`, `sortStage_renamed`).

Along the way the columns that are selected belong to the base table or to a table that can be
joined (`Context.Reaches`), on which the renaming is injective (`Renames.rename_inj`).
-/

namespace ResourceQuery

open Sql (Column Condition Query)

/-! ### Names in use -/

/-- Joins along declared relations can have the alias: it is the name of a relation that a
registered type declares, or of the junction table of one. -/
inductive Registry.Uses (r : Registry) : String → Prop where
  | relation {type name : String} {parent : ResourceType} {relation : Relation}
      (registered : r.type? type = some parent) (declared : parent.relation? name = some relation) :
      Uses r name
  | junction {type name : String} {parent target : ResourceType} {relation : Relation}
      {parentKey table foreignKey otherKey targetKey : String}
      (registered : r.type? type = some parent) (declared : parent.relation? name = some relation)
      (found : r.type? relation.target = some target)
      (keys : relation.joinKeys? parent target =
        some (.through parentKey table foreignKey otherKey targetKey)) :
      Uses r table

namespace Registry

/-- The names that a relation of a type brings into use. -/
def namesOf (r : Registry) (parent : ResourceType) (name : String) (relation : Relation) :
    List String :=
  match (r.type? relation.target).bind (relation.joinKeys? parent) with
  | some (.through _ table _ _ _) => [name, table]
  | _                             => [name]

/-- All names that can be in use. -/
def joinNames (r : Registry) : List String :=
  r.types.flatMap fun (_, parent) => parent.relations.flatMap fun (name, relation) =>
    r.namesOf parent name relation

/-- A name that is used is the name of a join. -/
theorem Uses.mem_joinNames {r : Registry} {used : String} (h : r.Uses used) :
    used ∈ r.joinNames := by
  have hmem {type name : String} {parent : ResourceType} {relation : Relation}
      (registered : r.type? type = some parent) (declared : parent.relation? name = some relation)
      (hnames : used ∈ r.namesOf parent name relation) : used ∈ r.joinNames :=
    List.mem_flatMap.mpr ⟨_, Entries.mem_of_find? registered,
      List.mem_flatMap.mpr ⟨_, Entries.mem_of_find? declared, hnames⟩⟩
  cases h with
  | relation registered declared =>
      refine hmem registered declared ?_
      rw [namesOf]
      split
      · exact List.mem_cons_self
      · exact List.mem_cons_self
  | junction registered declared found keys =>
      refine hmem registered declared ?_
      rw [namesOf, found, Option.bind_some, keys]
      exact List.mem_cons_of_mem _ List.mem_cons_self

end Registry

/-- Paths from a registered type follow relations whose names are in use. -/
theorem HopChain.uses {r : Registry} {parent : ResourceType} {hops : List Hop}
    (h : HopChain r parent hops) {type : String} (hparent : r.type? type = some parent) :
    ∀ hop ∈ hops, r.Uses hop.name := by
  intro hop hmem
  induction h generalizing type with
  | nil => cases hmem
  | fixed declared kind registered rest ih =>
      rcases List.mem_cons.mp hmem with rfl | hmem
      · exact .relation hparent declared
      · exact ih registered hmem
  | polymorphic declared kind =>
      obtain rfl := List.mem_singleton.mp hmem
      exact .relation hparent declared

namespace Context

variable {ctx : Context} {σ : String → String}

/-- The context with the base table renamed. -/
def renameBase (ctx : Context) (σ : String → String) : Context :=
  { ctx with tableAlias := σ ctx.tableAlias }

/-- The renaming keeps the names in use and gives the base table of a registered type a name that is
not in use. -/
structure Renames (ctx : Context) (σ : String → String) : Prop where
  base  : ∃ type, ctx.registry.type? type = some ctx.base
  fixed : ∀ name, ctx.registry.Uses name → σ name = name
  apart : ¬ ctx.registry.Uses (σ ctx.tableAlias)

/-- The column belongs to the base table or to a table that can be joined. -/
def Reaches (ctx : Context) (c : Column) : Prop :=
  ∃ table, c.table = some table ∧ (table = ctx.tableAlias ∨ ctx.registry.Uses table)

theorem Reaches.base (ctx : Context) (name : String) : ctx.Reaches (.of ctx.tableAlias name) :=
  ⟨ctx.tableAlias, rfl, .inl rfl⟩

namespace Renames

/-- A table that can be joined is not taken for the base table. -/
theorem eq_tableAlias_iff (h : ctx.Renames σ) {table : String}
    (htable : table = ctx.tableAlias ∨ ctx.registry.Uses table) :
    σ table = σ ctx.tableAlias ↔ table = ctx.tableAlias := by
  refine ⟨fun he => htable.resolve_right fun huses => h.apart ?_, congrArg σ⟩
  rwa [← he, h.fixed table huses]

/-- A renaming keeps columns apart that keys can stand for. -/
theorem rename_inj (h : ctx.Renames σ) {c d : Column} (hc : ctx.Reaches c) (hd : ctx.Reaches d) :
    c.rename σ = d.rename σ ↔ c = d := by
  obtain ⟨table, htable, hc⟩ := hc
  obtain ⟨table', htable', hd⟩ := hd
  obtain ⟨_, name⟩ := c
  obtain ⟨_, name'⟩ := d
  subst htable htable'
  have hinj : σ table = σ table' ↔ table = table' := by
    rcases hc with rfl | hc
    · rw [eq_comm, h.eq_tableAlias_iff hd, eq_comm]
    · rcases hd with rfl | hd
      · exact h.eq_tableAlias_iff (.inr hc)
      · rw [h.fixed table hc, h.fixed table' hd]
  simp [Column.rename, hinj]

end Renames

/-! ### What keys stand for -/

/-- The second target is the first one, which is reached, of a renamed table. -/
def RenamedTarget (ctx : Context) (σ : String → String) (t u : AttributeTarget) : Prop :=
  u = t.rename σ ∧ ctx.Reaches t.sourceColumn

/-- A rejection does not depend on the alias of the base. -/
theorem reject_agree {α β : Type} {S : α → β → Prop} (e : QueryError) :
    Agree (Option.Rel S) (ctx.reject e) ((ctx.renameBase σ).reject e) := by
  have hstrict : (ctx.renameBase σ).strict = ctx.strict := rfl
  rw [reject, reject, hstrict]
  split
  · exact .error e
  · exact .ok .none

/-- The owner of an attribute is the same, under the new alias if it is the base. -/
theorem owner_renamed (h : ctx.Renames σ) {resolved : ResolvedPath}
    (huses : ∀ hop ∈ resolved.hops, ctx.registry.Uses hop.name) :
    ((ctx.renameBase σ).owner resolved).1 = (ctx.owner resolved).1 ∧
      ((ctx.renameBase σ).owner resolved).2 = σ (ctx.owner resolved).2 ∧
      ((ctx.owner resolved).2 = ctx.tableAlias ∨ ctx.registry.Uses (ctx.owner resolved).2) := by
  rw [owner, owner]
  split
  · next hop hlast =>
    have hname := huses hop (List.mem_of_getLast? hlast)
    split
    · exact ⟨rfl, (h.fixed _ hname).symm, .inr hname⟩
    · exact ⟨rfl, rfl, .inl rfl⟩
  · exact ⟨rfl, rfl, .inl rfl⟩

/-- What a path leads to is renamed. -/
theorem targetOf_renamed (h : ctx.Renames σ) (key : String) (parsed : AttributeKey)
    {resolved : ResolvedPath} (huses : ∀ hop ∈ resolved.hops, ctx.registry.Uses hop.name) :
    Agree (Option.Rel (ctx.RenamedTarget σ)) (ctx.targetOf key parsed resolved)
      ((ctx.renameBase σ).targetOf key parsed resolved) := by
  obtain ⟨htype, halias, hreaches⟩ := owner_renamed h huses
  have hreached (name : String) : ctx.Reaches (.of (ctx.owner resolved).2 name) :=
    ⟨_, rfl, hreaches⟩
  simp only [targetOf, htype, halias]
  split
  · exact reject_agree _
  · split
    · exact reject_agree _
    · next name _ =>
      split
      · split
        · exact .ok (.some ⟨rfl, hreached _⟩)
        · exact .ok (.some ⟨rfl, hreached _⟩)
      · exact .ok (.some ⟨rfl, hreached _⟩)

/-- A key stands for the same with the base table renamed. -/
theorem qualify_renamed (h : ctx.Renames σ) (key : String) :
    Agree (Option.Rel (ctx.RenamedTarget σ)) (ctx.qualify key)
      ((ctx.renameBase σ).qualify key) := by
  have hsame (path : String) :
      (ctx.renameBase σ).resolveAttribute path = ctx.resolveAttribute path := rfl
  rw [qualify, qualify, hsame]
  cases hfound : ctx.resolveAttribute (AttributeKey.ofText key).path with
  | error e => exact .error e
  | ok found =>
      cases found with
      | none => exact .ok .none
      | some resolved =>
          obtain ⟨type, hbase⟩ := h.base
          have hchain := Registry.resolveAttribute_chain (resolveAttribute_eq_some.mp hfound)
          exact targetOf_renamed h key _ (hchain.uses hbase)

/-- The column of a key is renamed. -/
theorem qualifyColumn_renamed (h : ctx.Renames σ) (key : String) :
    Agree (Option.Rel fun c d => d = c.rename σ ∧ ctx.Reaches c) (ctx.qualifyColumn key)
      ((ctx.renameBase σ).qualifyColumn key) := by
  refine (qualify_renamed h key).bind_pure fun t u htu => ?_
  cases htu with
  | none => exact .none
  | some htu =>
      obtain ⟨rfl, hreached⟩ := htu
      exact .some ⟨AttributeTarget.sourceColumn_rename _, hreached⟩

/-! ### Queries -/

/-- The second query is the first one renamed, and the columns that the first one selects are
reached. -/
def RenamedQuery (ctx : Context) (σ : String → String) (q u : Query) : Prop :=
  u = q.rename σ ∧ ∀ c, .column c ∈ q.projections → ctx.Reaches c

namespace RenamedQuery

variable {q u : Query}

/-- A projection is renamed with the query, if it is a column that a key can stand for. -/
theorem select (h : ctx.RenamedQuery σ q u) {p : Sql.Projection}
    (hp : ∀ c, p = .column c → ctx.Reaches c) :
    ctx.RenamedQuery σ (q.select p) (u.select (p.rename σ)) := by
  obtain ⟨rfl, hreached⟩ := h
  refine ⟨(Query.rename_select p).symm, fun c hc => ?_⟩
  rcases List.mem_append.mp hc with hc | hc
  · exact hreached c hc
  · exact hp c (List.mem_singleton.mp hc).symm

theorem selectColumn (h : ctx.RenamedQuery σ q u) {c : Column} (hc : ctx.Reaches c) :
    ctx.RenamedQuery σ (q.selectColumn c) (u.selectColumn (c.rename σ)) := by
  refine h.select fun d hd => ?_
  cases hd
  exact hc

theorem makeDistinct (h : ctx.RenamedQuery σ q u) :
    ctx.RenamedQuery σ q.makeDistinct u.makeDistinct := by
  obtain ⟨rfl, hreached⟩ := h
  exact ⟨rfl, hreached⟩

theorem load (h : ctx.RenamedQuery σ q u) (e : Sql.EagerLoad) :
    ctx.RenamedQuery σ (q.load e) (u.load e) := by
  obtain ⟨rfl, hreached⟩ := h
  exact ⟨rfl, hreached⟩

theorem groupBy (h : ctx.RenamedQuery σ q u) (t : Sql.GroupTerm) :
    ctx.RenamedQuery σ (q.groupBy t) (u.groupBy (t.rename σ)) := by
  obtain ⟨rfl, hreached⟩ := h
  exact ⟨(Query.rename_groupBy t).symm, hreached⟩

theorem orderBy (h : ctx.RenamedQuery σ q u) (t : Sql.OrderTerm) :
    ctx.RenamedQuery σ (q.orderBy t) (u.orderBy (t.rename σ)) := by
  obtain ⟨rfl, hreached⟩ := h
  exact ⟨(Query.rename_orderBy t).symm, hreached⟩

theorem restrictAll (h : ctx.RenamedQuery σ q u) (cs : List Condition) :
    ctx.RenamedQuery σ (cs.foldl Query.restrict q)
      ((cs.map (Condition.rename σ)).foldl Query.restrict u) := by
  obtain ⟨rfl, hreached⟩ := h
  rw [Query.foldl_restrict, Query.foldl_restrict]
  exact ⟨by simp [Query.rename], hreached⟩

theorem joinAll (h : ctx.RenamedQuery σ q u) (js : List Sql.Join) :
    ctx.RenamedQuery σ (js.foldl Query.join q)
      ((js.map (Sql.Join.rename σ)).foldl Query.join u) := by
  obtain ⟨rfl, hreached⟩ := h
  refine ⟨(Query.rename_foldl_join js).symm, ?_⟩
  rwa [Query.foldl_join_eq]

end RenamedQuery

/-! ### Filters, groups and orders -/

/-- The conditions of a term are renamed. -/
theorem termConditions_renamed (h : ctx.Renames σ) (f : Filter) (term : FilterTerm) :
    Agree (fun cs ds => ds = cs.map (Condition.rename σ)) (ctx.termConditions f term)
      ((ctx.renameBase σ).termConditions f term) := by
  cases term with
  | equality key value =>
      simp only [termConditions]
      split
      · exact .ok rfl
      · refine (qualify_renamed h key).bind_pure fun t u htu => ?_
        cases htu with
        | none => rfl
        | some htu =>
            obtain ⟨rfl, -⟩ := htu
            exact (AttributeTarget.equalityConditions_rename _ value).symm
  | typed op key value =>
      refine (qualify_renamed h key).bind_pure fun t u htu => ?_
      cases htu with
      | none => rfl
      | some htu =>
          obtain ⟨rfl, -⟩ := htu
          exact (AttributeTarget.typedConditions_rename _ op value _).symm

/-- A filter restricts the renamed query by the renamed conditions. -/
theorem filterStage_renamed (h : ctx.Renames σ) (f : Filter) :
    Stage.Related (ctx.RenamedQuery σ) (ctx.filterStage f) ((ctx.renameBase σ).filterStage f) := by
  refine .all_map (List.forall₂_same.mpr fun term _ => ?_)
  refine .add (termConditions_renamed h f term) ?_
  rintro q u cs _ hqu rfl
  exact hqu.restrictAll cs

theorem groupStage_renamed (h : ctx.Renames σ) (group : List String) :
    Stage.Related (ctx.RenamedQuery σ) (ctx.groupStage group)
      ((ctx.renameBase σ).groupStage group) := by
  refine .all_map (List.forall₂_same.mpr fun key _ => ?_)
  refine .add ((qualify_renamed h key).bind_pure (S := Option.Rel fun t u => u = t.rename σ) ?_) ?_
  · intro t u htu
    cases htu with
    | none => exact .none
    | some htu => exact .some (htu.1 ▸ (AttributeTarget.groupTerm_rename _).symm)
  · intro q u a b hqu hab
    cases hab with
    | none => exact hqu
    | some hab => exact hab ▸ hqu.groupBy _

theorem sortStage_renamed (h : ctx.Renames σ) (sort : List String) :
    Stage.Related (ctx.RenamedQuery σ) (ctx.sortStage sort)
      ((ctx.renameBase σ).sortStage sort) := by
  refine .all_map (List.forall₂_same.mpr fun entry _ => ?_)
  refine .add ((qualify_renamed h _).bind_pure (S := Option.Rel fun t u => u = t.rename σ) ?_) ?_
  · intro t u htu
    cases htu with
    | none => exact .none
    | some htu => exact .some (htu.1 ▸ (AttributeTarget.orderTerm_rename _ _).symm)
  · intro q u a b hqu hab
    cases hab with
    | none => exact hqu
    | some hab => exact hab ▸ hqu.orderBy _

end Context

end ResourceQuery
