import ResourceQuery.Proofs.Blog
import ResourceQuery.Proofs.Compile.Enumeration

/-!
# Compile — strict mode only rejects

A compilation consults its strictness in one place: where a key cannot be resolved, strict mode
rejects it with an error and lenient mode goes on without it (`Context.reject`).  So each part of a
strict compilation is *the same unless rejected* as the lenient part (`SameUnlessRejected`): it has
the same result, or fails with the rejection of a key.  Composed computations and sequences of stages
are the same unless rejected when their parts are, and with them the whole compilation.

* `prepare_same`: the prepared query of a request.
* `strict_compile`: the statements of a request.
-/

namespace ResourceQuery

/-- The error rejects a key of the request. -/
def QueryError.isRejection : QueryError → Bool
  | .invalidPath ..         => true
  | .notAnAttribute _       => true
  | .unsupportedRelation .. => true
  | _                       => false

/-- `x` is `y`, or the rejection of a key in its place. -/
def SameUnlessRejected {α : Type} (x y : Except QueryError α) : Prop :=
  x = y ∨ ∃ e, e.isRejection = true ∧ x = .error e

namespace SameUnlessRejected

variable {α β : Type} {x y : Except QueryError α}

theorem refl (x : Except QueryError α) : SameUnlessRejected x x :=
  .inl rfl

/-- What follows a step is the same unless rejected if both are. -/
theorem bind {f g : α → Except QueryError β} (h : SameUnlessRejected x y)
    (hfg : ∀ a, SameUnlessRejected (f a) (g a)) : SameUnlessRejected (x >>= f) (y >>= g) := by
  rcases h with rfl | ⟨e, he, rfl⟩
  · cases x with
    | error e => exact .inl rfl
    | ok a => exact hfg a
  · exact .inr ⟨e, he, rfl⟩

theorem bind_left (f : α → Except QueryError β) (h : SameUnlessRejected x y) :
    SameUnlessRejected (x >>= f) (y >>= f) :=
  h.bind fun a => refl (f a)

/-- What succeeds is the same without rejections. -/
theorem of_ok {a : α} (h : SameUnlessRejected x y) (hx : x = .ok a) : y = .ok a := by
  rcases h with rfl | ⟨e, -, rfl⟩
  · exact hx
  · cases hx

/-- What fails is a rejection, or the same failure. -/
theorem of_error {e : QueryError} (h : SameUnlessRejected x y) (hx : x = .error e) :
    e.isRejection = true ∨ y = .error e := by
  rcases h with rfl | ⟨e, he, rfl⟩
  · exact .inr hx
  · cases hx
    exact .inl he

end SameUnlessRejected

/-! ### Stages -/

/-- The stage does what the other one does, or fails with the rejection of a key. -/
def Stage.SameUnlessRejected (s t : Stage) : Prop :=
  ∀ q, s q = t q ∨ ∃ e, e.isRejection = true ∧ (s q).failure = some e

namespace Stage.SameUnlessRejected

variable {s t u v : Stage} {ss ts : List Stage}

theorem refl (s : Stage) : Stage.SameUnlessRejected s s :=
  fun _ => .inl rfl

theorem step {f g : Sql.Query → Except QueryError Sql.Query}
    (h : ∀ q, ResourceQuery.SameUnlessRejected (f q) (g q)) :
    Stage.SameUnlessRejected (.step f) (.step g) := by
  intro q
  rcases h q with h | ⟨e, he, h⟩
  · exact .inl (by rw [Stage.step, Stage.step, h])
  · exact .inr ⟨e, he, by rw [Stage.step, h]⟩

theorem add {α : Type} {x y : Except QueryError α} {put : Sql.Query → α → Sql.Query}
    (h : ResourceQuery.SameUnlessRejected x y) :
    Stage.SameUnlessRejected (.add x put) (.add y put) := by
  refine step fun q => ?_
  rcases h with rfl | ⟨e, he, rfl⟩
  · exact .inl rfl
  · exact .inr ⟨e, he, rfl⟩

theorem andThen (hst : Stage.SameUnlessRejected s t) (huv : Stage.SameUnlessRejected u v) :
    Stage.SameUnlessRejected (.andThen s u) (.andThen t v) := by
  intro q
  simp only [Stage.andThen]
  rcases hst q with h | ⟨e, he, h⟩
  · -- both go on from the same query, or have failed alike
    rw [h]
    split
    · exact huv _
    · exact .inl rfl
  · rw [h]
    exact .inr ⟨e, he, h⟩

theorem all (h : List.Forall₂ Stage.SameUnlessRejected ss ts) :
    Stage.SameUnlessRejected (.all ss) (.all ts) := by
  induction h with
  | nil => exact refl _
  | cons h _ ih => exact h.andThen ih

theorem all_map {α : Type} {f g : α → Stage} (xs : List α)
    (h : ∀ x, Stage.SameUnlessRejected (f x) (g x)) :
    Stage.SameUnlessRejected (.all (xs.map f)) (.all (xs.map g)) :=
  all (forall₂_map_map xs h)

/-- The result of a stage is the same unless rejected. -/
theorem result {q : Sql.Query} (h : Stage.SameUnlessRejected s t) :
    ResourceQuery.SameUnlessRejected (s q).result (t q).result := by
  rcases h q with h | ⟨e, he, h⟩
  · exact .inl (by rw [h])
  · exact .inr ⟨e, he, by rw [Progress.result, h]⟩

end Stage.SameUnlessRejected

namespace Context

variable {ctx : Context}

/-- The context outside strict mode. -/
def lenient (ctx : Context) : Context :=
  { ctx with strict := false }

/-! ### Keys -/

/-- A rejection is passed over without strictness. -/
theorem reject_same {α : Type} {e : QueryError} (h : e.isRejection = true) :
    SameUnlessRejected (ctx.reject (α := α) e) (ctx.lenient.reject e) := by
  simp only [reject]
  split
  · exact .inr ⟨e, h, rfl⟩
  · exact .inl rfl

/-- A path that is refused is passed over without strictness. -/
theorem accept_same (path : String) (result : Except PathError ResolvedPath) :
    SameUnlessRejected (ctx.accept path result) (ctx.lenient.accept path result) := by
  cases result with
  | ok resolved => exact .refl _
  | error e => exact reject_same rfl

/-- What a path leads to does not depend on strictness, unless it is rejected. -/
theorem targetOf_same (key : String) (parsed : AttributeKey) (resolved : ResolvedPath) :
    SameUnlessRejected (ctx.targetOf key parsed resolved)
      (ctx.lenient.targetOf key parsed resolved) := by
  simp only [targetOf]
  split
  · exact reject_same rfl
  · split
    · exact reject_same rfl
    · exact .refl _

/-- What a key stands for does not depend on strictness, unless it is rejected. -/
theorem qualify_same (key : String) :
    SameUnlessRejected (ctx.qualify key) (ctx.lenient.qualify key) := by
  refine (accept_same _ _).bind fun found => ?_
  cases found with
  | none => exact .refl _
  | some resolved => exact targetOf_same key _ resolved

theorem qualifyColumn_same (key : String) :
    SameUnlessRejected (ctx.qualifyColumn key) (ctx.lenient.qualifyColumn key) :=
  (qualify_same key).bind_left _

theorem termConditions_same (f : Filter) (term : FilterTerm) :
    SameUnlessRejected (ctx.termConditions f term) (ctx.lenient.termConditions f term) := by
  cases term with
  | equality key value =>
      simp only [termConditions]
      split
      · exact .refl _
      · exact (qualify_same key).bind_left _
  | typed op key value => exact (qualify_same key).bind_left _

theorem project_same (q : Sql.Query) (c : Sql.Column) (change : Sql.Query → Sql.Query) :
    SameUnlessRejected (ctx.project q c change) (ctx.lenient.project q c change) := by
  refine SameUnlessRejected.bind_left _ ?_
  have halias : ctx.lenient.tableAlias = ctx.tableAlias := rfl
  simp only [isProjectable, halias]
  split
  · exact .refl _
  · split
    · exact (reject_same rfl).bind_left _
    · exact .refl _

theorem addBaseField_same (field : String) (q : Sql.Query) :
    SameUnlessRejected (ctx.addBaseField field q) (ctx.lenient.addBaseField field q) := by
  simp only [addBaseField]
  split
  · refine (qualifyColumn_same _).bind fun found => ?_
    cases found with
    | none => exact .refl _
    | some c => exact project_same q c _
  · refine (qualify_same field).bind fun found => ?_
    cases found with
    | none => exact .refl _
    | some target =>
        cases target with
        | column c => exact project_same q c _
        | json a => exact project_same q a.column _

/-! ### Dependencies -/

theorem dependencies_same (key : String) :
    SameUnlessRejected (ctx.dependencies key) (ctx.lenient.dependencies key) := by
  simp only [dependencies]
  split
  · exact (accept_same _ _).bind_left _
  · exact .refl _

theorem dependencyPaths_same (keys : List String) :
    SameUnlessRejected (ctx.dependencyPaths keys) (ctx.lenient.dependencyPaths keys) := by
  induction keys with
  | nil => exact .refl _
  | cons key keys ih => exact (dependencies_same key).bind fun path => ih.bind_left _

theorem dependencyTree_same (filter : Filter) (group sort : List String) :
    SameUnlessRejected (ctx.dependencyTree filter group sort)
      (ctx.lenient.dependencyTree filter group sort) :=
  (dependencyPaths_same _).bind_left _

/-! ### Parts of a compilation -/

/-- A relation that cannot be joined is rejected, and the stage is the same without one. -/
theorem joinStage_same (t : DependencyTree) :
    (ctx.joinStage t).SameUnlessRejected (ctx.lenient.joinStage t) := by
  intro q
  obtain ⟨visits, hvisits⟩ := ctx.registry.exists_visits t.children ctx.base ctx.tableAlias
  have hlenient : ctx.lenient.joinStage t q = _ := joinStage_of_joined q hvisits (.inl rfl)
  rcases joinStage_cases q hvisits with hjoins | ⟨parent, name, o, -, hfails⟩
  · exact .inl (hjoins.trans hlenient.symm)
  · exact .inr ⟨_, rfl, hfails⟩

theorem baseFieldsStage_same (names includes : List String) :
    (ctx.baseFieldsStage names includes).SameUnlessRejected
      (ctx.lenient.baseFieldsStage names includes) := by
  refine .all (.cons (.refl _) (List.rel_append ?_ (.cons (.refl _) .nil)))
  exact forall₂_map_map names fun field => .step (addBaseField_same field)

theorem joinedFieldsStage_same (key : String) (names : List String) :
    (ctx.joinedFieldsStage key names).SameUnlessRejected
      (ctx.lenient.joinedFieldsStage key names) :=
  .all_map names fun _ => .add (qualifyColumn_same _)

theorem fieldsetStage_same (includes : List String) (key : String) (names : List String) :
    (ctx.fieldsetStage includes key names).SameUnlessRejected
      (ctx.lenient.fieldsetStage includes key names) := by
  intro q
  have hkey : ctx.lenient.isBaseKey key = ctx.isBaseKey key := rfl
  simp only [fieldsetStage, hkey]
  split
  · exact baseFieldsStage_same names includes q
  · split
    · exact .inl rfl
    · split
      · exact joinedFieldsStage_same key names q
      · exact .inl rfl

theorem paramStages_same (p : Params) :
    (Compiler.paramStages ctx p).SameUnlessRejected (Compiler.paramStages ctx.lenient p) := by
  refine .all (.cons ?_ (.cons ?_ (.cons ?_ (.cons ?_ (.cons ?_ .nil)))))
  · exact .all_map _ fun term => .add (termConditions_same p.filter term)
  · exact .all_map _ fun key => .add ((qualify_same key).bind_left _)
  · exact .all_map _ fun entry => .add ((qualify_same (sortEntry entry).1).bind_left _)
  · exact .all_map _ fun path => .add ((accept_same path _).bind_left _)
  · exact .all_map _ fun entry => fieldsetStage_same p.includes entry.1 entry.2

theorem dependencyStage_same (fields : Entries (List String)) (t : DependencyTree) :
    (Compiler.dependencyStage ctx fields t).SameUnlessRejected
      (Compiler.dependencyStage ctx.lenient fields t) := by
  rw [Compiler.dependencyStage, Compiler.dependencyStage]
  split
  · exact .refl _
  · exact (joinStage_same t).andThen (.refl _)

end Context

/-! ### Requests -/

namespace Compiler

/-- The compiler in strict mode or outside it. -/
def withStrictness (c : Compiler) (strict : Bool) : Compiler :=
  { c with config := { c.config with strictPaths := strict } }

/-- Preparing a request does not depend on strictness, unless the request is rejected. -/
theorem prepare_same (c : Compiler) (r : Request) :
    SameUnlessRejected (c.prepare r) ((c.withStrictness false).prepare r) := by
  have htype : (c.withStrictness false).registry.type? r.base = c.registry.type? r.base := rfl
  rw [prepare, prepare, htype]
  split
  · exact .refl _
  · refine SameUnlessRejected.bind ?_ fun tree => SameUnlessRejected.bind_left _ ?_
    · exact Context.dependencyTree_same _ _ _
    · exact ((Context.dependencyStage_same r.params.fields tree).andThen
        (Context.paramStages_same r.params)).result

/-- **Strictness only rejects.**  What a compiler makes of a request in strict mode it also makes of it
outside strict mode: the same statements with the same values, and the same loads.  What it fails
with in strict mode is the rejection of a key, or it fails with the same error outside strict mode. -/
theorem strict_compile (c : Compiler) (r : Request) :
    (∀ out, (c.withStrictness true).compile r = .ok out →
      (c.withStrictness false).compile r = .ok out) ∧
    ∀ e, (c.withStrictness true).compile r = .error e →
      e.isRejection = true ∨ (c.withStrictness false).compile r = .error e := by
  have hsame : SameUnlessRejected ((c.withStrictness true).compile r)
      ((c.withStrictness false).compile r) :=
    (prepare_same (c.withStrictness true) r).bind_left fun p : PreparedQuery =>
      p.compile.mapError .sql
  exact ⟨fun _ h => hsame.of_ok h, fun _ h => hsame.of_error h⟩

/-- A filter over a declared relation is compiled to the same statement in either mode. -/
theorem first_name_compiled :
    ∃ out, (Blog.compiler.withStrictness true).compile (Blog.filtered "author.firstName") =
        .ok out ∧
      (Blog.compiler.withStrictness false).compile (Blog.filtered "author.firstName") = .ok out ∧
      out.query.sql = "SELECT \"articles\".* FROM \"articles\" LEFT OUTER JOIN \"people\" AS " ++
        "\"author\" ON \"articles\".\"author_id\" = \"author\".\"id\" WHERE " ++
        "\"author\".\"first_name\" IN ($1)" := by
  have htest : (((Blog.compiler.withStrictness true).compile
      (Blog.filtered "author.firstName")).toOption.any fun out =>
        out.query.sql = "SELECT \"articles\".* FROM \"articles\" LEFT OUTER JOIN \"people\" AS " ++
          "\"author\" ON \"articles\".\"author_id\" = \"author\".\"id\" WHERE " ++
          "\"author\".\"first_name\" IN ($1)") = true := by decide +kernel
  obtain ⟨out, hout, hsql⟩ := exists_ok_of_any htest
  exact ⟨out, hout, (strict_compile Blog.compiler _).1 out hout, of_decide_eq_true hsql⟩

end Compiler

end ResourceQuery
