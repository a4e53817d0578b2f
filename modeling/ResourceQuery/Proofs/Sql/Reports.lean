import ResourceQuery.Proofs.Except
import ResourceQuery.Proofs.Sql.Parts
import ResourceQuery.Proofs.Sql.Written

/-!
# Sql — what stops the writing of a query

Only fragments stop the writing of a query that is not too complex, and of these the first in the order
of the text whose placeholders do not match its parameters.  What is written from some fragments
*reports* them (`Reports`): it fails with the error of the first that has one, and succeeds when none
has.  Each part of a query reports its own fragments.

* `Reports.bind`: a computation after another reports the fragments of both, in order.
* `Condition.reports_template`, `reports_templatesOf`: conditions, and lists of entries.
* `Query.reports_build`, `Query.reports_buildCount`: the statements of a query.
-/

namespace ResourceQuery.Sql

/-- The fragment has as many placeholders as parameters. -/
def Fragment.Fits (f : Fragment) : Prop :=
  placeholders .outside f.sql.toList = f.params.length

instance (f : Fragment) : Decidable f.Fits :=
  inferInstanceAs (Decidable (_ = _))

theorem Fragment.mismatch?_eq_none {f : Fragment} : f.mismatch? = none ↔ f.Fits :=
  ite_eq_left_iff.trans (by simp [Fits])

theorem Fragment.Fits.template {f : Fragment} (h : f.Fits) :
    f.template = .ok (fill .outside f.sql.toList f.params) := by
  rw [Fragment.template, mismatch?_eq_none.mpr h]

variable {α β : Type} {fs gs : List Fragment}

/-- The computation fails with the error of the first of the fragments that has one, and succeeds when
none has. -/
def Reports (x : Except SqlError α) (fs : List Fragment) : Prop :=
  match fs.findSome? Fragment.mismatch? with
  | some e => x = .error e
  | none   => ∃ a, x = .ok a

namespace Reports

variable {x : Except SqlError α}

theorem ok (a : α) : Reports (.ok a) [] :=
  ⟨a, rfl⟩

theorem fragment (f : Fragment) : Reports f.template [f] := by
  rw [Reports, List.findSome?_singleton, Fragment.template]
  cases f.mismatch? with
  | some e => rfl
  | none => exact ⟨_, rfl⟩

/-- What runs behind a result reports its fragments behind those of the result. -/
theorem bind {f : α → Except SqlError β} (hx : Reports x fs) (hf : ∀ a, Reports (f a) gs) :
    Reports (x >>= f) (fs ++ gs) := by
  rw [Reports, List.findSome?_append]
  rw [Reports] at hx
  cases hfirst : fs.findSome? Fragment.mismatch? with
  | some e =>
      rw [hfirst] at hx
      rw [hx]
      rfl
  | none =>
      rw [hfirst] at hx
      obtain ⟨a, rfl⟩ := hx
      exact hf a

/-- What is returned after a computation reports nothing more. -/
theorem bind_pure {f : α → β} (hx : Reports x fs) : Reports (x >>= fun a => pure (f a)) fs := by
  have h := hx.bind (f := fun a => pure (f a)) fun a => ok (f a)
  rwa [List.append_nil] at h

/-- What is written from a list, and fixed when the list is empty. -/
theorem unless_empty {xs : List β} {a : α} (hx : Reports x fs) (hnil : xs = [] → fs = []) :
    Reports (if xs.isEmpty then .ok a else x) fs := by
  cases xs with
  | nil =>
      rw [hnil rfl]
      exact ok a
  | cons b xs => exact hx

theorem succeeds (hx : Reports x fs) (h : ∀ f ∈ fs, f.Fits) : ∃ a, x = .ok a := by
  have hnone : fs.findSome? Fragment.mismatch? = none :=
    List.findSome?_eq_none_iff.mpr fun f hf => Fragment.mismatch?_eq_none.mpr (h f hf)
  rwa [Reports, hnone] at hx

end Reports

namespace Condition

mutual

/-- A condition reports its fragments, by induction on its structure. -/
theorem reports_template : ∀ c : Condition, Reports c.template c.fragments
  | .raw f => .fragment f
  | .or parts => (reports_templates parts).bind_pure.unless_empty fun h => h ▸ rfl
  | .and parts => (reports_templates parts).bind_pure.unless_empty fun h => h ▸ rfl
  | .not part => (reports_template part).bind_pure
  | .compare .. | .isIn .. | .notIn .. | .isNull _ | .isNotNull _ | .like .. | .always | .never => .ok _

theorem reports_templates : ∀ cs : List Condition, Reports (templates cs) (fragmentsOf cs)
  | [] => .ok []
  | c :: cs => (reports_template c).bind fun _ => (reports_templates cs).bind_pure

end

end Condition

/-- Items report their fragments one after the other. -/
theorem reports_templatesOf {write : α → Except SqlError Template} {fragments : α → List Fragment}
    (hwrite : ∀ x, Reports (write x) (fragments x)) (xs : List α) :
    Reports (templatesOf write xs) (xs.flatMap fragments) := by
  induction xs with
  | nil => exact .ok []
  | cons x xs ih => exact (hwrite x).bind fun _ => ih.bind_pure

theorem Projection.reports_template (p : Projection) : Reports p.template p.fragments := by
  cases p with
  | column c => exact .ok _
  | aggregate function c result => exact .ok _
  | expression f => exact .fragment f

theorem GroupTerm.reports_template (g : GroupTerm) : Reports g.template g.fragments := by
  cases g with
  | column c => exact .ok _
  | expression f => exact .fragment f

theorem OrderTerm.reports_template (o : OrderTerm) : Reports o.template o.fragments := by
  cases o with
  | column c order => exact .ok _
  | expression f order => exact (Reports.fragment f).bind_pure

namespace Query

/-- The fragments of a query without its orders. -/
def selectFragments (q : Query) : List Fragment :=
  q.projections.flatMap Projection.fragments ++ Condition.fragmentsOf q.conditions ++
    q.groupTerms.flatMap GroupTerm.fragments

/-- The fragments in the count of a query. -/
def countFragments (q : Query) : List Fragment :=
  if q.distinct || !q.groupTerms.isEmpty then q.selectFragments
  else Condition.fragmentsOf q.conditions

variable (q : Query)

/-- The fragments that the count reports are among those of the query. -/
theorem countFragments_subset : q.countFragments ⊆ q.fragments := by
  intro f hf
  rw [countFragments] at hf
  split at hf
  case isTrue => exact List.mem_append_left _ hf
  case isFalse =>
    exact List.mem_append_left _ (List.mem_append_left _ (List.mem_append_right _ hf))

theorem reports_whereTemplate : Reports q.whereTemplate (Condition.fragmentsOf q.conditions) :=
  (Condition.reports_templates q.conditions).bind_pure.unless_empty fun h => h ▸ rfl

theorem reports_selectList :
    Reports q.selectList (q.projections.flatMap Projection.fragments) :=
  (reports_templatesOf Projection.reports_template q.projections).bind_pure.unless_empty fun h => h ▸ rfl

theorem reports_groupTemplate :
    Reports q.groupTemplate (q.groupTerms.flatMap GroupTerm.fragments) :=
  (reports_templatesOf GroupTerm.reports_template q.groupTerms).bind_pure.unless_empty fun h => h ▸ rfl

theorem reports_orderTemplate :
    Reports q.orderTemplate (q.orderTerms.flatMap OrderTerm.fragments) :=
  (reports_templatesOf OrderTerm.reports_template q.orderTerms).bind_pure.unless_empty fun h => h ▸ rfl

theorem reports_selectTemplate : Reports q.selectTemplate q.selectFragments := by
  rw [selectFragments, List.append_assoc]
  exact q.reports_selectList.bind fun _ => q.reports_whereTemplate.bind fun _ =>
    q.reports_groupTemplate.bind_pure

theorem reports_countTemplate : Reports q.countTemplate q.countFragments := by
  rw [countTemplate, countFragments]
  split
  case isTrue => exact q.reports_selectTemplate.bind_pure
  case isFalse => exact q.reports_whereTemplate.bind_pure

variable {q}

/-- What stops a query within its limits on size is the first fragment that does not match. -/
theorem reports_build (hvalid : q.validate = .ok ()) : Reports q.build q.fragments := by
  have htemplate : Reports q.template q.fragments :=
    q.reports_selectTemplate.bind fun _ => q.reports_orderTemplate.bind_pure
  rw [build_eq_template, hvalid]
  exact htemplate.bind_pure

theorem reports_buildCount (hvalid : q.validate = .ok ()) : Reports q.buildCount q.countFragments := by
  rw [buildCount_eq_template, hvalid]
  exact q.reports_countTemplate.bind_pure

end Query

end ResourceQuery.Sql
