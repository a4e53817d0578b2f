import ResourceQuery.Compile.Request
import ResourceQuery.Proofs.Compile.Fieldsets

/-!
# Compile — what every prepared query has

A query is prepared by stages in fixed order (`prepare_eq_ok`, `runs_paramStages`), and the request
may change it after them (`prepare_unadjusted`).  All that the stages do to a query is to join, to
add conditions, groups, orders, loads and entries of the `SELECT` list, and to drop repeated rows;
the only raw fragments that they add are expressions over JSON attributes.  A property that all of
this keeps (`KeptByStages`) therefore holds of every prepared query whose start has it
(`prepare_keeps`).
-/

namespace ResourceQuery

open Sql (Column Condition GroupTerm Join OrderTerm Projection EagerLoad)

namespace Context

variable {ctx : Context} {fields : Entries (List String)} {includes : List String}

/-- A property of queries is kept by the includes if each load keeps it. -/
theorem includeStage_keeps {R : Sql.Query → Prop} (h : ∀ q load, R q → R (q.load load)) :
    (ctx.includeStage includes fields).Keeps R := by
  refine Stage.Keeps.all fun s hs => ?_
  obtain ⟨path, -, rfl⟩ := List.mem_map.mp hs
  exact Stage.Keeps.add fun _ _ q hq => List.foldlRecOn _ _ hq fun q hq load _ => h q load hq

end Context

/-- The property is kept by all that stages do to a query. -/
structure KeptByStages (R : Sql.Query → Prop) : Prop where
  join         : ∀ q (j : Join), R q → R (q.join j)
  restrict     : ∀ q (c : Condition), c.Reads (fun _ => True) → R q → R (q.restrict c)
  groupBy      : ∀ q (t : GroupTerm), t.Reads (fun _ => True) → R q → R (q.groupBy t)
  orderBy      : ∀ q (t : OrderTerm), t.Reads (fun _ => True) → R q → R (q.orderBy t)
  load         : ∀ q (e : EagerLoad), R q → R (q.load e)
  makeDistinct : ∀ q, R q → R q.makeDistinct
  select       : ∀ q (p : Projection), p.Reads (fun _ => True) → R q → R (q.select p)

namespace Compiler

variable {c : Compiler} {r : Request} {p : PreparedQuery} {ctx : Context}

/-- A property of queries is kept by the joins if each join and the base table's `*` keep it. -/
theorem dependencyStage_keeps {R : Sql.Query → Prop} {fields : Entries (List String)}
    {t : DependencyTree} (hjoin : ∀ q j, R q → R (q.join j))
    (hselect : ∀ q, R q → R (q.selectColumn (.all ctx.tableAlias))) :
    (dependencyStage ctx fields t).Keeps R := by
  rw [dependencyStage]
  split
  · exact Stage.Keeps.skip
  · refine Stage.Keeps.andThen (Context.joinStage_keeps hjoin) ?_
    split
    · exact Stage.Keeps.skip
    · exact Stage.Keeps.change hselect

/-- The stages that a prepared query has gone through. -/
theorem prepare_eq_ok (h : c.prepare r = .ok p) :
    ∃ base tree joined q, c.registry.type? r.base = some base ∧
      (c.context base r.tableAlias).dependencyTree r.params.filter r.params.group r.params.sort =
        .ok tree ∧
      (dependencyStage (c.context base r.tableAlias) r.params.fields tree).Runs
        (c.start base r.tableAlias) joined ∧
      (paramStages (c.context base r.tableAlias) r.params).Runs joined q ∧
      p.query = r.adjust q := by
  rw [prepare] at h
  split at h
  · cases h
  · next base hbase =>
    obtain ⟨tree, htree, h⟩ := bind_eq_ok.mp h
    obtain ⟨q, hq, rfl⟩ := bind_pure_eq_ok.mp h
    obtain ⟨joined, hjoined, hparams⟩ := Stage.runs_andThen.mp (Progress.result_eq_ok.mp hq)
    exact ⟨base, tree, joined, q, hbase, htree, hjoined, hparams, rfl⟩

/-- Whether a prepared query is for a collection, and its page, follow from the request and the
settings. -/
theorem prepare_shape (h : c.prepare r = .ok p) :
    p.page = (if r.collection then r.params.page.or c.config.pagination else none) ∧
      p.collection = r.collection := by
  rw [prepare] at h
  split at h
  · cases h
  · obtain ⟨tree, -, h⟩ := bind_eq_ok.mp h
    obtain ⟨q, -, rfl⟩ := bind_pure_eq_ok.mp h
    exact ⟨rfl, rfl⟩

/-- A prepared query compiles as it stands. -/
theorem compile_of_prepare (h : c.prepare r = .ok p) : c.compile r = p.compile.mapError .sql := by
  rw [compile, h]
  rfl

/-- The last change of a request comes after everything else. -/
theorem prepare_unadjusted (h : c.prepare r = .ok p) :
    ∃ q, c.prepare { r with adjust := id } = .ok { p with query := q } ∧ p.query = r.adjust q := by
  rw [prepare] at h ⊢
  split at h
  · cases h
  · next base hbase =>
    obtain ⟨tree, htree, h⟩ := bind_eq_ok.mp h
    obtain ⟨q, hq, rfl⟩ := bind_pure_eq_ok.mp h
    refine ⟨q, ?_, rfl⟩
    rw [hbase]
    exact bind_eq_ok.mpr ⟨tree, htree, bind_pure_eq_ok.mpr ⟨q, hq, rfl⟩⟩

/-- What the stages leave is the prepared query. -/
theorem prepare_of_runs {base : ResourceType} {tree : DependencyTree} {joined q : Sql.Query}
    (hbase : c.registry.type? r.base = some base)
    (htree : (c.context base r.tableAlias).dependencyTree r.params.filter r.params.group
      r.params.sort = .ok tree)
    (hjoined : (dependencyStage (c.context base r.tableAlias) r.params.fields tree).Runs
      (c.start base r.tableAlias) joined)
    (hparams : (paramStages (c.context base r.tableAlias) r.params).Runs joined q) :
    c.prepare r = .ok
      { resourceType := r.base
        query        := r.adjust q
        page         := if r.collection then r.params.page.or c.config.pagination else none
        collection   := r.collection } := by
  rw [prepare, hbase]
  refine bind_eq_ok.mpr ⟨tree, htree, bind_pure_eq_ok.mpr ⟨q, ?_, rfl⟩⟩
  exact Progress.result_eq_ok.mpr (Stage.runs_andThen.mpr ⟨joined, hjoined, hparams⟩)

/-- The stages run in three parts: conditions, groups and orders; what is loaded; and what is projected. -/
theorem runs_paramStages {params : Params} {q q' : Sql.Query} :
    (paramStages ctx params).Runs q q' ↔ ∃ u v,
      (Stage.all [ctx.filterStage params.filter, ctx.groupStage params.group,
        ctx.sortStage params.sort]).Runs q u ∧
      (ctx.includeStage params.includes params.fields).Runs u v ∧
      (ctx.fieldsStage params.fields params.includes).Runs v q' := by
  simp only [paramStages, Stage.runs_cons, Stage.runs_nil]
  constructor
  · rintro ⟨q₁, hfilter, q₂, hgroup, q₃, hsort, q₄, hinclude, q₅, hfields, rfl⟩
    exact ⟨q₃, q₄, ⟨q₁, hfilter, q₂, hgroup, q₃, hsort, rfl⟩, hinclude, hfields⟩
  · rintro ⟨q₃, q₄, ⟨q₁, hfilter, q₂, hgroup, _, hsort, rfl⟩, hinclude, hfields⟩
    exact ⟨q₁, hfilter, q₂, hgroup, q₃, hsort, q₄, hinclude, q', hfields, rfl⟩

variable {R : Sql.Query → Prop} {params : Params} {q q' : Sql.Query}

/-- The stages between the joins and the fieldsets keep a property of queries if each condition, group,
order and load keeps it. -/
theorem exists_before_fields (h : (paramStages ctx params).Runs q q')
    (hrestrict : ∀ q (c : Condition), c.Reads (fun _ => True) → R q → R (q.restrict c))
    (hgroup : ∀ q (t : GroupTerm), t.Reads (fun _ => True) → R q → R (q.groupBy t))
    (horder : ∀ q (t : OrderTerm), t.Reads (fun _ => True) → R q → R (q.orderBy t))
    (hload : ∀ q (e : EagerLoad), R q → R (q.load e)) (hq : R q) :
    ∃ v, R v ∧ (ctx.fieldsStage params.fields params.includes).Runs v q' := by
  obtain ⟨u, v, hclauses, hincludes, hfields⟩ := runs_paramStages.mp h
  have hu : R u := hclauses.keeps
    (Stage.Keeps.all (Context.clauseStages_keep (fun _ _ _ _ => trivial) hrestrict hgroup horder)) hq
  exact ⟨v, hincludes.keeps (Context.includeStage_keeps hload) hu, hfields⟩

/-- The stages after the joins join nothing. -/
theorem paramStages_joins (h : (paramStages ctx params).Runs q q') : q'.joins = q.joins := by
  obtain ⟨v, hv, hfields⟩ := exists_before_fields (R := fun u => u.joins = q.joins) h
    (fun _ _ _ h => h) (fun _ _ _ h => h) (fun _ _ _ h => h) (fun _ _ h => h) rfl
  exact hfields.keeps Context.fieldsStage_joins hv

/-- What every stage keeps is kept by all of them. -/
theorem paramStages_keep (hR : KeptByStages R) (h : (paramStages ctx params).Runs q q')
    (hq : R q) : R q' := by
  obtain ⟨v, hv, hfields⟩ :=
    exists_before_fields h hR.restrict hR.groupBy hR.orderBy hR.load hq
  refine hfields.keeps (Stage.Keeps.all (Context.fieldsStage_keeps hR.makeDistinct ?_)) hv
  intro q e hq he
  cases he with
  | checked reads => exact hR.select q _ (reads.mono fun _ _ => trivial) hq
  | joined field => exact hR.select q _ trivial hq

/-- What every stage keeps holds of a prepared query if it holds at the start. -/
theorem prepare_keeps (hR : KeptByStages R) (hadjust : r.adjust = id) (h : c.prepare r = .ok p)
    (hstart : ∀ base, R (c.start base r.tableAlias)) : R p.query := by
  obtain ⟨base, tree, joined, q, -, -, hjoined, hparams, hq⟩ := prepare_eq_ok h
  have hjoined : R joined :=
    hjoined.keeps (dependencyStage_keeps hR.join fun q => hR.select q _ trivial) (hstart base)
  rw [hq, hadjust]
  exact paramStages_keep hR hparams hjoined

end Compiler

end ResourceQuery
