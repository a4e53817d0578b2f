import ResourceQuery.Proofs.Blog
import ResourceQuery.Proofs.Compile.AlikeStages
import ResourceQuery.Proofs.Request.SameShape

/-!
# Compile — filter values are bound and nothing else

A filter value reaches a statement as a parameter alone.  Values of the same shape give conditions that
differ at most in the texts that they bind (`Column.conditions_masked`,
`JsonAttribute.conditions_masked`), so that two filters of the same shape lead from alike queries to
alike queries (`filterStage_alike`).  With them two requests that differ in filter values of the same
shape are compiled to the same text with equally many values, or fail with the same error
(`filter_values_bound`): no value can change what a statement does.
-/

namespace ResourceQuery

open Sql (Condition Value)

namespace Sql

/-- Texts of one shape are masked alike. -/
theorem masked_texts {vs ws : List String} (h : List.Forall₂ SameNull vs ws) :
    (vs.map Value.text).map Value.masked = (ws.map Value.text).map Value.masked := by
  simp only [List.map_map]
  exact map_eq_of_rel h fun _ _ _ => rfl

/-- The conditions of alternatives, if there are any. -/
theorem alternatives_masked {cs ds : List Condition}
    (h : Condition.maskedAll cs = Condition.maskedAll ds) :
    Condition.maskedAll (if cs.isEmpty then [] else [.anyOf cs]) =
      Condition.maskedAll (if ds.isEmpty then [] else [.anyOf ds]) := by
  rw [Condition.isEmpty_of_masked h]
  split
  · rfl
  · simp only [Condition.maskedAll, Condition.masked_anyOf, h]

/-! ### Conditions on a plain column -/

namespace Column

variable (c : Column) {vs ws : List (Option String)}

theorem contains_none (h : List.Forall₂ (Option.Rel SameNull) vs ws) :
    vs.contains none = ws.contains none := by
  induction h with
  | nil => rfl
  | cons hvw _ ih =>
      rw [List.contains_cons, List.contains_cons, ih]
      cases hvw with
      | none => rfl
      | some _ => rfl

theorem equality_masked (h : List.Forall₂ (Option.Rel SameNull) vs ws) :
    (c.equality vs).masked = (c.equality ws).masked := by
  have hgiven := masked_texts (rel_given h)
  simp only [equality, contains_none h, List.isEmpty_map, isEmpty_of_rel (rel_given h)]
  split
  · split
    · rfl
    · simp only [Condition.masked_anyOf, Condition.maskedAll, Condition.masked, hgiven]
  · simp only [Condition.masked, hgiven]

theorem comparison_masked (op : Comparison) {v w : Option String} (h : Option.Rel SameNull v w) :
    Condition.maskedAll (c.comparison op v) = Condition.maskedAll (c.comparison op w) := by
  cases h with
  | none => rfl
  | some _ => rfl

/-- Values of the same shape give conditions that differ at most in the texts that they bind. -/
theorem conditions_masked (op : FilterOperator) {v w : FilterValue} (h : v.SameShape w)
    {folded folded' : Option FilterValue}
    (hfolded : Option.Rel FilterValue.SameShape folded folded') :
    Condition.maskedAll (c.conditions op v folded) =
      Condition.maskedAll (c.conditions op w folded') := by
  cases op with
  | like =>
      refine alternatives_masked ?_
      have hlike : Condition.maskedAll ((v.values.filterMap id).map fun s => .like c ("%" ++ s ++ "%")) =
          Condition.maskedAll ((w.values.filterMap id).map fun s => .like c ("%" ++ s ++ "%")) := by
        simp only [Condition.maskedAll_eq_map, List.map_map]
        exact map_eq_of_rel (rel_given h.values) fun _ _ _ => rfl
      rw [Condition.maskedAll_append, Condition.maskedAll_append, hlike]
      cases hfolded with
      | none => rfl
      | some hfold =>
          exact congrArg (_ ++ [·]) (c.equality_masked hfold.values)
  | not =>
      have hgiven := masked_texts (rel_given h.values)
      simp only [conditions, contains_none h.values, List.isEmpty_map,
        isEmpty_of_rel (rel_given h.values), Condition.maskedAll_append]
      congr 1
      split
      · rfl
      · simp only [Condition.maskedAll, Condition.masked, hgiven]
  | lt => exact c.comparison_masked .lt h.scalar?
  | lte => exact c.comparison_masked .le h.scalar?
  | gt => exact c.comparison_masked .gt h.scalar?
  | gte => exact c.comparison_masked .ge h.scalar?

end Column

/-! ### Conditions on a JSON attribute -/

namespace JsonAttribute

variable (a : JsonAttribute) {vs ws : List (Option String)}

/-- The texts among values of one shape are of one shape. -/
theorem texts_sameNull (h : List.Forall₂ (Option.Rel SameNull) vs ws) :
    List.Forall₂ SameNull (texts vs) (texts ws) := by
  refine List.rel_filter (fun s t hst => ?_) (rel_given h)
  simp only [decide_eq_true_eq]
  exact not_congr hst

theorem hasNull_eq (h : List.Forall₂ (Option.Rel SameNull) vs ws) : hasNull vs = hasNull ws := by
  induction h with
  | nil => rfl
  | cons hvw _ ih =>
      simp only [hasNull, List.any_cons] at ih ⊢
      rw [ih]
      cases hvw with
      | none => rfl
      | some hst => exact congrArg (· || _) (decide_eq_decide.mpr hst)

theorem membership_masked (keyword : String) {vs ws : List String}
    (h : List.Forall₂ SameNull vs ws) :
    (a.membership keyword vs).masked = (a.membership keyword ws).masked := by
  have hslots : vs.map (fun _ => "?") = ws.map (fun _ => "?") := map_eq_of_rel h fun _ _ _ => rfl
  simp only [membership, Condition.masked, Fragment.masked, Fragment.append, List.map_append, hslots,
    masked_texts h]

theorem equality_masked (h : List.Forall₂ (Option.Rel SameNull) vs ws) :
    (a.equality vs).masked = (a.equality ws).masked := by
  have hin := a.membership_masked "IN" (texts_sameNull h)
  simp only [equality, hasNull_eq h, isEmpty_of_rel (texts_sameNull h)]
  split
  · split
    · rfl
    · simp only [Condition.masked_anyOf, Condition.maskedAll, hin]
  · split
    · rfl
    · exact hin

theorem comparison_masked (op : Comparison) (h : List.Forall₂ (Option.Rel SameNull) vs ws) :
    Condition.maskedAll (a.comparison op vs) = Condition.maskedAll (a.comparison op ws) := by
  have htexts := texts_sameNull h
  simp only [comparison]
  generalize texts vs = given at htexts
  generalize texts ws = given' at htexts
  cases htexts with
  | nil => rfl
  | cons _ _ =>
      simp [Condition.maskedAll, Condition.masked, Fragment.masked, Fragment.append, Value.masked]

/-- Values of the same shape give conditions that differ at most in the texts that they bind. -/
theorem conditions_masked (filter : JsonFilter) (h : List.Forall₂ (Option.Rel SameNull) vs ws)
    {folded folded' : Option (List (Option String))}
    (hfolded : Option.Rel (List.Forall₂ (Option.Rel SameNull)) folded folded') :
    Condition.maskedAll (a.conditions filter vs folded) =
      Condition.maskedAll (a.conditions filter ws folded') := by
  cases filter with
  | equal => exact congrArg ([·]) (a.equality_masked h)
  | typed op =>
      cases op with
      | like =>
          refine alternatives_masked ?_
          have hlike : Condition.maskedAll ((texts vs).map a.containing) =
              Condition.maskedAll ((texts ws).map a.containing) := by
            simp only [Condition.maskedAll_eq_map, List.map_map]
            refine map_eq_of_rel (texts_sameNull h) fun s t _ => ?_
            simp [containing, Condition.masked, Fragment.masked, Fragment.append, Value.masked]
          rw [Condition.maskedAll_append, Condition.maskedAll_append, hlike]
          cases hfolded with
          | none => rfl
          | some hfold => exact congrArg (_ ++ [·]) (a.equality_masked hfold)
      | not =>
          simp only [conditions, hasNull_eq h, isEmpty_of_rel (texts_sameNull h), Condition.maskedAll_append]
          congr 1
          split
          · rfl
          · exact congrArg ([·]) (a.membership_masked "NOT IN" (texts_sameNull h))
      | lt => exact a.comparison_masked .lt h
      | lte => exact a.comparison_masked .le h
      | gt => exact a.comparison_masked .gt h
      | gte => exact a.comparison_masked .ge h

end JsonAttribute

end Sql

/-! ### Conditions on what a key stands for -/

namespace AttributeTarget

variable (t : AttributeTarget) {v w : FilterValue}

theorem equalityConditions_masked (h : v.SameShape w) :
    Condition.maskedAll (t.equalityConditions v) = Condition.maskedAll (t.equalityConditions w) := by
  cases t with
  | column c => exact congrArg ([·]) (c.equality_masked h.values)
  | json a => exact a.conditions_masked .equal h.values .none

theorem jsonValues_sameShape (op : FilterOperator) (h : v.SameShape w) :
    List.Forall₂ (Option.Rel SameNull) (jsonValues op v) (jsonValues op w) := by
  cases op with
  | like => exact h.values
  | not => exact h.values
  | lt => exact .cons h.scalar? .nil
  | gt => exact .cons h.scalar? .nil
  | lte => exact .cons h.scalar? .nil
  | gte => exact .cons h.scalar? .nil

/-- The conditions of an operator with values of one shape are masked alike. -/
theorem typedConditions_masked (op : FilterOperator) (h : v.SameShape w)
    {folded folded' : Option FilterValue}
    (hfolded : Option.Rel FilterValue.SameShape folded folded') :
    Condition.maskedAll (t.typedConditions op v folded) =
      Condition.maskedAll (t.typedConditions op w folded') := by
  cases t with
  | column c => exact c.conditions_masked op h hfolded
  | json a =>
      refine a.conditions_masked (.typed op) (jsonValues_sameShape op h) ?_
      cases hfolded with
      | none => exact .none
      | some hfold => exact .some hfold.values

end AttributeTarget

/-! ### Stages -/

namespace Context

variable (ctx : Context) {f g : Filter}

/-- The conditions of terms of one shape are masked alike, or both fail. -/
theorem termConditions_masked (h : f.SameShape g) {term term' : FilterTerm}
    (hterm : term.SameShape term') :
    Agree (fun cs ds => Condition.maskedAll cs = Condition.maskedAll ds)
      (ctx.termConditions f term) (ctx.termConditions g term') := by
  cases hterm with
  | equality key value =>
      simp only [termConditions, isSome_of_rel (h.typed? .like key)]
      -- whether an equality is folded depends on the keys, which are the same
      split
      · exact .ok rfl
      · refine Agree.bind_pure (R := Eq) (.refl (fun _ => rfl) _) ?_
        rintro found _ rfl
        cases found with
        | none => rfl
        | some target => exact target.equalityConditions_masked value
  | typed op key value =>
      refine Agree.bind_pure (R := Eq) (.refl (fun _ => rfl) _) ?_
      rintro found _ rfl
      cases found with
      | none => rfl
      | some target =>
          refine target.typedConditions_masked op value ?_
          split
          · exact h.equality? key
          · exact .none

/-- Filters of one shape restrict queries alike. -/
theorem filterStage_alike (h : f.SameShape g) : (ctx.filterStage f).Alike (ctx.filterStage g) := by
  refine Stage.Related.all_map (h.terms.imp fun term term' hterm => ?_)
  exact .add (ctx.termConditions_masked h hterm) fun _ _ _ _ hqu hcs => hqu.foldl_restrict hcs

end Context

/-! ### Requests -/

/-- The request with another filter. -/
def Request.withFilter (r : Request) (f : Filter) : Request :=
  { r with params := { r.params with filter := f } }

/-- The prepared queries differ at most in the texts that their conditions bind. -/
def PreparedQuery.Alike (p p' : PreparedQuery) : Prop :=
  ∃ q, p.query.Alike q ∧ p' = { p with query := q }

/-- The results have the same texts with equally many values each, and load the same relations. -/
structure CompiledQuery.SameText (out out' : CompiledQuery) : Prop where
  resourceType : out.resourceType = out'.resourceType
  query        : out.query.SameText out'.query
  countQuery   : out.countQuery.SameText out'.countQuery
  eagerLoads   : out.eagerLoads = out'.eagerLoads

/-- Prepared queries that are alike compile to the same text. -/
theorem PreparedQuery.Alike.compile {p p' : PreparedQuery} (h : p.Alike p') :
    Agree CompiledQuery.SameText p.compile p'.compile := by
  obtain ⟨q, hq, rfl⟩ := h
  obtain ⟨resourceType, query, page, collection⟩ := p
  have hloads : query.eagerLoads = q.eagerLoads := by
    obtain ⟨cs, -, rfl⟩ := hq
    rfl
  have hcount (s s' : Sql.Statement) (hs : s.SameText s') : Agree CompiledQuery.SameText
      (query.buildCount >>= fun count => pure ⟨resourceType, s, count, query.eagerLoads⟩)
      (q.buildCount >>= fun count => pure ⟨resourceType, s', count, q.eagerLoads⟩) :=
    (Sql.Query.buildCount_alike hq).bind_pure fun _ _ hcount => ⟨rfl, hs, hcount, hloads⟩
  cases page with
  | none => exact (Sql.Query.build_alike hq).bind hcount
  | some page => exact (Sql.Query.buildPage_alike hq page).bind hcount

namespace Compiler

theorem paramStages_alike (ctx : Context) (p : Params) {f : Filter} (h : p.filter.SameShape f) :
    (paramStages ctx p).Alike (paramStages ctx { p with filter := f }) := by
  refine Stage.Related.all (.cons (ctx.filterStage_alike h) (List.forall₂_same.mpr ?_))
  simp only [List.forall_mem_cons, List.not_mem_nil, IsEmpty.forall_iff, implies_true, and_true]
  exact ⟨ctx.groupStage_alike p.group, ctx.sortStage_alike p.sort,
    ctx.includeStage_alike p.includes p.fields, ctx.fieldsStage_alike p.fields p.includes⟩

/-- Requests with filters of one shape are prepared alike. -/
theorem prepare_alike (c : Compiler) (r : Request) (f : Filter)
    (hadjust : ∀ q u, q.Alike u → (r.adjust q).Alike (r.adjust u))
    (hshape : r.params.filter.SameShape f) :
    Agree PreparedQuery.Alike (c.prepare r) (c.prepare (r.withFilter f)) := by
  have hbase : (r.withFilter f).base = r.base := rfl
  rw [prepare, prepare, hbase]
  split
  · exact .error _
  · next base _ =>
    have htree : (c.context base r.tableAlias).dependencyTree r.params.filter r.params.group
        r.params.sort = (c.context base r.tableAlias).dependencyTree f r.params.group
          r.params.sort := by
      rw [Context.dependencyTree, Context.dependencyTree, hshape.keys]
    refine Agree.bind (R := Eq) (htree ▸ .refl (fun _ => rfl) _) ?_
    rintro tree _ rfl
    have hstages := Stage.Related.andThen
      (dependencyStage_alike (c.context base r.tableAlias) r.params.fields tree)
      (paramStages_alike (c.context base r.tableAlias) r.params hshape)
    refine (hstages.result (.refl (c.start base r.tableAlias))).bind_pure fun q u hqu => ?_
    exact ⟨r.adjust u, hadjust q u hqu, rfl⟩

/-- **Filter values are bound and nothing else.**  Let two requests differ in filter values of the
same shape alone, and let the last change that they ask for not look at values.  Then both are compiled,
to the same texts with equally many values and to the same loads, or both fail with the same error. -/
theorem filter_values_bound (c : Compiler) (r : Request) (f : Filter)
    (hadjust : ∀ q u, q.Alike u → (r.adjust q).Alike (r.adjust u))
    (hshape : r.params.filter.SameShape f) :
    Agree CompiledQuery.SameText (c.compile r) (c.compile (r.withFilter f)) := by
  refine (prepare_alike c r f hadjust hshape).bind fun p p' hp => ?_
  exact hp.compile.mapError QueryError.sql

/-- Whatever the first name of an author is, the articles are looked up by one statement. -/
theorem first_name_bound :
    ∃ out out', Blog.compiler.compile (Blog.filtered "author.firstName") = .ok out ∧
      Blog.compiler.compile ((Blog.filtered "author.firstName").withFilter
        ⟨[.equality "author.firstName" (.single "x' OR 'x' = 'x")]⟩) = .ok out' ∧
      out.SameText out' := by
  have hwhole : SameNull "x" "x' OR 'x' = 'x" := by simp [SameNull]
  have hpiece : Text.split ',' "x" = ["x"] := by decide +kernel
  have hpiece' : Text.split ',' "x' OR 'x' = 'x" = ["x' OR 'x' = 'x"] := by decide +kernel
  have hshape : (Blog.filtered "author.firstName").params.filter.SameShape
      ⟨[.equality "author.firstName" (.single "x' OR 'x' = 'x")]⟩ := by
    refine .cons (.equality _ (.single hwhole ?_)) .nil
    rw [hpiece, hpiece']
    exact .cons hwhole .nil
  have hsame := filter_values_bound Blog.compiler (Blog.filtered "author.firstName") _
    (fun _ _ h => h) hshape
  have hruns : ((Blog.compiler.compile (Blog.filtered "author.firstName")).toOption.any fun _ =>
      true) = true := by decide +kernel
  obtain ⟨out, hout, -⟩ := exists_ok_of_any hruns
  rw [hout] at hsame
  cases hother : Blog.compiler.compile ((Blog.filtered "author.firstName").withFilter
      ⟨[.equality "author.firstName" (.single "x' OR 'x' = 'x")]⟩) with
  | error e =>
      rw [hother] at hsame
      cases hsame
  | ok out' =>
      rw [hother] at hsame
      cases hsame with
      | ok h => exact ⟨out, out', hout, rfl, h⟩

end Compiler

end ResourceQuery
