import ResourceQuery.Proofs.Compile.Prepare

/-!
# Compile — lenient compilation does not fail

All that can fail while a query is prepared is the rejection of a key, and outside strict mode a
rejection yields nothing instead of an error (`reject_lenient`).  So every key stands for something or
for nothing (`qualify_succeeds`), every stage runs, and every request for a registered type is
prepared (`prepare_succeeds`).
-/

namespace ResourceQuery

namespace Context

variable {ctx : Context}

section

variable (hlenient : ctx.strict = false)

include hlenient

/-! ### Keys -/

theorem reject_lenient {α : Type} (e : QueryError) : ctx.reject (α := α) e = .ok none := by
  rw [reject, hlenient, if_neg Bool.false_ne_true]

/-- A path is accepted or passed over. -/
theorem accept_succeeds (path : String) (result : Except PathError ResolvedPath) :
    ∃ found, ctx.accept path result = .ok found := by
  cases result with
  | ok resolved => exact ⟨some resolved, rfl⟩
  | error e => exact ⟨none, reject_lenient hlenient _⟩

theorem targetOf_succeeds (key : String) (parsed : AttributeKey) (resolved : ResolvedPath) :
    ∃ found, ctx.targetOf key parsed resolved = .ok found := by
  simp only [targetOf, reject_lenient hlenient]
  split
  · exact ⟨_, rfl⟩
  · split
    · exact ⟨_, rfl⟩
    · split
      · split <;> exact ⟨_, rfl⟩
      · exact ⟨_, rfl⟩

/-- A key stands for something or nothing. -/
theorem qualify_succeeds (key : String) : ∃ found, ctx.qualify key = .ok found := by
  refine bind_succeeds (accept_succeeds hlenient _ _) fun found => ?_
  cases found with
  | none => exact ⟨none, rfl⟩
  | some resolved => exact targetOf_succeeds hlenient key _ resolved

theorem qualifyColumn_succeeds (key : String) : ∃ found, ctx.qualifyColumn key = .ok found :=
  bind_succeeds (qualify_succeeds hlenient key) fun _ => ⟨_, rfl⟩

theorem termConditions_succeeds (f : Filter) (term : FilterTerm) :
    ∃ conditions, ctx.termConditions f term = .ok conditions := by
  cases term with
  | equality key value =>
      rw [termConditions]
      split
      · exact ⟨_, rfl⟩
      · exact bind_succeeds (qualify_succeeds hlenient key) fun _ => ⟨_, rfl⟩
  | typed op key value => exact bind_succeeds (qualify_succeeds hlenient key) fun _ => ⟨_, rfl⟩

theorem project_succeeds (q : Sql.Query) (c : Sql.Column) (change : Sql.Query → Sql.Query) :
    ∃ q', ctx.project q c change = .ok q' := by
  refine bind_succeeds ?_ fun _ => ⟨_, rfl⟩
  simp only [isProjectable]
  split
  · exact ⟨_, rfl⟩
  · split
    · exact bind_succeeds ⟨_, reject_lenient hlenient _⟩ fun _ => ⟨_, rfl⟩
    · exact ⟨_, rfl⟩

theorem addBaseField_succeeds (field : String) (q : Sql.Query) :
    ∃ q', ctx.addBaseField field q = .ok q' := by
  rw [addBaseField]
  split
  · refine bind_succeeds (qualifyColumn_succeeds hlenient _) fun found => ?_
    cases found with
    | none => exact ⟨q, rfl⟩
    | some c => exact project_succeeds hlenient q c _
  · refine bind_succeeds (qualify_succeeds hlenient field) fun found => ?_
    cases found with
    | none => exact ⟨q, rfl⟩
    | some target =>
        cases target with
        | column c => exact project_succeeds hlenient q c _
        | json a => exact project_succeeds hlenient q a.column _

/-! ### Dependencies -/

theorem dependencies_succeeds (key : String) : ∃ names, ctx.dependencies key = .ok names := by
  simp only [dependencies]
  split
  · exact bind_succeeds (accept_succeeds hlenient _ _) fun _ => ⟨_, rfl⟩
  · exact ⟨[], rfl⟩

theorem dependencyPaths_succeeds (keys : List String) :
    ∃ paths, ctx.dependencyPaths keys = .ok paths := by
  induction keys with
  | nil => exact ⟨[], rfl⟩
  | cons key keys ih =>
      exact bind_succeeds (dependencies_succeeds hlenient key) fun _ =>
        bind_succeeds ih fun _ => ⟨_, rfl⟩

/-! ### Stages -/

/-- What cannot be joined is left out. -/
theorem joinStage_succeeds (t : DependencyTree) : (ctx.joinStage t).Succeeds := by
  refine Stage.Succeeds.all fun s hs => ?_
  obtain ⟨part, -, rfl⟩ := List.mem_map.mp hs
  cases part with
  | ok joins => exact Stage.Succeeds.change _
  | error e => exact Stage.Succeeds.add ⟨_, reject_lenient hlenient e⟩

theorem baseFieldsStage_succeeds (names includes : List String) :
    (ctx.baseFieldsStage names includes).Succeeds := by
  have hfields : ∀ s ∈ names.map (fun field => Stage.step (ctx.addBaseField field)), s.Succeeds := by
    intro s hs
    obtain ⟨field, -, rfl⟩ := List.mem_map.mp hs
    exact Stage.Succeeds.step (addBaseField_succeeds hlenient field)
  refine Stage.Succeeds.all ?_
  simp only [List.cons_append, List.forall_mem_cons, List.forall_mem_append]
  exact ⟨Stage.Succeeds.change _, hfields, Stage.Succeeds.change _, nofun⟩

theorem fieldsStage_succeeds (fields : Entries (List String)) (includes : List String) :
    (ctx.fieldsStage fields includes).Succeeds := by
  refine Stage.Succeeds.all fun s hs => ?_
  obtain ⟨⟨key, names⟩, -, rfl⟩ := List.mem_map.mp hs
  intro q
  simp only [Stage.Runs, fieldsetStage]
  split
  · exact baseFieldsStage_succeeds hlenient names includes q
  · split
    · exact Stage.Succeeds.skip q
    · split
      · exact Stage.Succeeds.addEach (fun _ => qualifyColumn_succeeds hlenient _) names q
      · exact Stage.Succeeds.skip q

/-- The stages behind the joins do not fail. -/
theorem paramStages_succeeds (p : Params) : (Compiler.paramStages ctx p).Succeeds := by
  have hqualify {α : Type} (key : String) (f : AttributeTarget → α) :
      ∃ found, (do return (← ctx.qualify key).map f : Except QueryError (Option α)) = .ok found :=
    bind_succeeds (qualify_succeeds hlenient key) fun _ => ⟨_, rfl⟩
  refine Stage.Succeeds.all ?_
  simp only [List.forall_mem_cons]
  refine ⟨?_, ?_, ?_, ?_, fieldsStage_succeeds hlenient _ _, nofun⟩
  · exact Stage.Succeeds.addEach (termConditions_succeeds hlenient p.filter) _
  · exact Stage.Succeeds.addEach (fun key => hqualify key _) _
  · exact Stage.Succeeds.addEach (fun entry => hqualify (sortEntry entry).1 _) _
  · exact Stage.Succeeds.addEach
      (fun path => bind_succeeds (accept_succeeds hlenient _ _) fun _ => ⟨_, rfl⟩) _

theorem dependencyStage_succeeds (fields : Entries (List String)) (t : DependencyTree) :
    (Compiler.dependencyStage ctx fields t).Succeeds := by
  rw [Compiler.dependencyStage]
  split
  · exact Stage.Succeeds.skip
  · refine (joinStage_succeeds hlenient t).andThen ?_
    split
    · exact Stage.Succeeds.skip
    · exact Stage.Succeeds.change _

end

end Context

namespace Compiler

/-- Outside strict mode, every request for a registered type is prepared. -/
theorem prepare_succeeds {c : Compiler} {r : Request} {base : ResourceType}
    (hlenient : c.config.strictPaths = false) (hbase : c.registry.type? r.base = some base) :
    ∃ p, c.prepare r = .ok p := by
  have hstrict : (c.context base r.tableAlias).strict = false := hlenient
  obtain ⟨tree, htree⟩ := bind_succeeds (Context.dependencyPaths_succeeds hstrict
    (requestKeys r.params.filter r.params.group r.params.sort)) fun _ => ⟨_, rfl⟩
  obtain ⟨joined, hjoined⟩ := Context.dependencyStage_succeeds hstrict r.params.fields tree
    (c.start base r.tableAlias)
  obtain ⟨q, hq⟩ := Context.paramStages_succeeds hstrict r.params joined
  exact ⟨_, prepare_of_runs hbase htree hjoined hq⟩

end Compiler

end ResourceQuery
