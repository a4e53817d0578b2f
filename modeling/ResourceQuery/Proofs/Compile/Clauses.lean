import ResourceQuery.Compile.Filters
import ResourceQuery.Proofs.Compile.DependencyTree
import ResourceQuery.Proofs.Compile.Stage
import ResourceQuery.Proofs.Sql.Reads

/-!
# Compile — the columns that filters, groups and orders read

What a target adds to a query reads the target's column alone.  So when every key of a filter, of
groups and of orders stands for a column with `P`, all that their stages do is to add clauses that
read such columns (`clauseStages_keep`).

`filterStage_keeps`, `groupStage_keeps` and `sortStage_keeps` reduce an invariant of each stage to
what one condition or one term does to a query.
-/

namespace ResourceQuery

variable {P : Sql.Column → Prop}

/-! ### Conditions on targets -/

namespace Sql.Column

variable {c : Column}

/-- An equality reads its own column. -/
theorem reads_equality (h : P c) (values : List (Option String)) : (c.equality values).Reads P := by
  simp only [equality]
  split
  · split
    · exact .isNull h
    · refine Condition.reads_anyOf fun d hd => ?_
      rcases List.mem_cons.mp hd with rfl | hd
      · exact .isNull h
      · obtain rfl := List.mem_singleton.mp hd
        exact .isIn _ h
  · exact .isIn _ h

/-- A comparison reads its own column. -/
theorem reads_comparison (h : P c) (op : Comparison) (value : Option String) :
    ∀ d ∈ c.comparison op value, d.Reads P := by
  cases value with
  | none => nofun
  | some v =>
      intro d hd
      obtain rfl := List.mem_singleton.mp hd
      exact .compare op _ h

/-- The conditions of an operator read their own column. -/
theorem reads_conditions (h : P c) (op : FilterOperator) (value : FilterValue)
    (folded : Option FilterValue) : ∀ d ∈ c.conditions op value folded, d.Reads P := by
  intro d hd
  cases op with
  | like =>
      simp only [conditions] at hd
      split at hd
      · cases hd
      · obtain rfl := List.mem_singleton.mp hd
        refine Condition.reads_anyOf fun d hd => ?_
        rcases List.mem_append.mp hd with hd | hd
        · obtain ⟨v, -, rfl⟩ := List.mem_map.mp hd
          exact .like _ h
        · obtain ⟨f, -, rfl⟩ := Option.map_eq_some_iff.mp (Option.mem_toList.mp hd)
          exact reads_equality h f.values
  | not =>
      rcases List.mem_append.mp hd with hd | hd
      · split at hd
        · obtain rfl := List.mem_singleton.mp hd
          exact .isNotNull h
        · cases hd
      · split at hd
        · cases hd
        · obtain rfl := List.mem_singleton.mp hd
          exact .notIn _ h
  | lt => exact reads_comparison h .lt value.scalar? d hd
  | gt => exact reads_comparison h .gt value.scalar? d hd
  | lte => exact reads_comparison h .le value.scalar? d hd
  | gte => exact reads_comparison h .ge value.scalar? d hd

end Sql.Column

namespace AttributeTarget

variable {target : AttributeTarget}

/-- The conditions of an equality read the column that the key stands for. -/
theorem reads_equalityConditions (h : P target.sourceColumn) (value : FilterValue) :
    ∀ c ∈ target.equalityConditions value, c.Reads P := by
  cases target with
  | column column =>
      intro c hc
      obtain rfl := List.mem_singleton.mp hc
      exact Sql.Column.reads_equality h value.values
  | json a => exact Sql.JsonAttribute.reads_conditions h .equal value.values none

/-- The conditions of an operator read the column that the key stands for. -/
theorem reads_typedConditions (h : P target.sourceColumn) (op : FilterOperator)
    (value : FilterValue) (folded : Option FilterValue) :
    ∀ c ∈ target.typedConditions op value folded, c.Reads P := by
  cases target with
  | column column => exact Sql.Column.reads_conditions h op value folded
  | json a => exact Sql.JsonAttribute.reads_conditions h (.typed op) _ _

/-- A group reads the column that its key stands for. -/
theorem reads_groupTerm (h : P target.sourceColumn) : target.groupTerm.Reads P := by
  cases target with
  | column column => exact h
  | json a => exact ⟨a, rfl, h⟩

/-- An order reads the column that its key stands for. -/
theorem reads_orderTerm (h : P target.sourceColumn) (order : Sql.SortOrder) :
    (target.orderTerm order).Reads P := by
  cases target with
  | column column => exact h
  | json a => exact ⟨a, rfl, h⟩

end AttributeTarget

/-- The key of a term. -/
def FilterTerm.key : FilterTerm → String
  | .equality key _ => key
  | .typed _ key _  => key

/-- The key of a term is a key of the filter. -/
theorem Filter.key_mem_keys {f : Filter} {term : FilterTerm} (h : term ∈ f.terms) :
    term.key ∈ f.keys := by
  obtain ⟨clause, hclause, hterm⟩ := List.mem_flatMap.mp h
  refine List.mem_flatMap.mpr ⟨clause, hclause, ?_⟩
  cases clause with
  | equality key value =>
      obtain rfl := List.mem_singleton.mp hterm
      exact List.mem_singleton.mpr rfl
  | typed op entries =>
      obtain ⟨entry, hentry, rfl⟩ := List.mem_map.mp hterm
      exact List.mem_map.mpr ⟨entry, hentry, rfl⟩

/-! ### Keys of a request -/

section

variable {filter : Filter} {group sort : List String}

theorem mem_requestKeys_filter {term : FilterTerm} (h : term ∈ filter.terms) :
    term.key ∈ requestKeys filter group sort :=
  List.mem_append_left _ (List.mem_append_left _ (Filter.key_mem_keys h))

theorem mem_requestKeys_group {key : String} (h : key ∈ group) :
    key ∈ requestKeys filter group sort :=
  List.mem_append_left _ (List.mem_append_right _ h)

theorem mem_requestKeys_sort {entry : String} (h : entry ∈ sort) :
    (sortEntry entry).1 ∈ requestKeys filter group sort :=
  List.mem_append_right _ (List.mem_map.mpr ⟨entry, h, rfl⟩)

end

namespace Context

variable {ctx : Context}

/-! ### Stages -/

/-- The conditions of a term read nothing but what its key stands for. -/
theorem reads_termConditions {f : Filter} {term : FilterTerm} {cs : List Sql.Condition}
    (h : ∀ target, ctx.qualify term.key = .ok (some target) → P target.sourceColumn)
    (hcs : ctx.termConditions f term = .ok cs) : ∀ c ∈ cs, c.Reads P := by
  cases term with
  | equality key value =>
      simp only [termConditions] at hcs
      split at hcs
      · cases hcs
        nofun
      · obtain ⟨found, hfound, rfl⟩ := bind_pure_eq_ok.mp hcs
        cases found with
        | none => nofun
        | some target => exact AttributeTarget.reads_equalityConditions (h target hfound) value
  | typed op key value =>
      obtain ⟨found, hfound, rfl⟩ := bind_pure_eq_ok.mp hcs
      cases found with
      | none => nofun
      | some target => exact AttributeTarget.reads_typedConditions (h target hfound) op value _

/-- A property of queries is kept by the filter stage if each condition that it may add keeps it. -/
theorem filterStage_keeps {R : Sql.Query → Prop} {f : Filter}
    (h : ∀ term ∈ f.terms, ∀ cs, ctx.termConditions f term = .ok cs → ∀ c ∈ cs, ∀ q, R q →
      R (q.restrict c)) : (ctx.filterStage f).Keeps R := by
  refine Stage.Keeps.all fun s hs => ?_
  obtain ⟨term, hterm, rfl⟩ := List.mem_map.mp hs
  exact Stage.Keeps.add fun cs hcs q hq => List.foldlRecOn cs _ hq fun q hq c hc =>
    h term hterm cs hcs c hc q hq

/-- A property of queries is kept by the group stage if each term that it may add keeps it. -/
theorem groupStage_keeps {R : Sql.Query → Prop} {group : List String}
    (h : ∀ key ∈ group, ∀ target, ctx.qualify key = .ok (some target) → ∀ q, R q →
      R (q.groupBy target.groupTerm)) : (ctx.groupStage group).Keeps R := by
  refine Stage.Keeps.all fun s hs => ?_
  obtain ⟨key, hkey, rfl⟩ := List.mem_map.mp hs
  refine Stage.Keeps.add fun found hfound q hq => List.foldlRecOn _ _ hq fun q hq term hterm => ?_
  obtain ⟨resolved, hresolved, rfl⟩ := bind_pure_eq_ok.mp hfound
  obtain ⟨target, rfl, rfl⟩ := Option.map_eq_some_iff.mp (Option.mem_toList.mp hterm)
  exact h key hkey target hresolved q hq

/-- A property of queries is kept by the sort stage if each term that it may add keeps it. -/
theorem sortStage_keeps {R : Sql.Query → Prop} {sort : List String}
    (h : ∀ entry ∈ sort, ∀ target, ctx.qualify (sortEntry entry).1 = .ok (some target) → ∀ q, R q →
      R (q.orderBy (target.orderTerm (sortEntry entry).2))) : (ctx.sortStage sort).Keeps R := by
  refine Stage.Keeps.all fun s hs => ?_
  obtain ⟨entry, hentry, rfl⟩ := List.mem_map.mp hs
  refine Stage.Keeps.add fun found hfound q hq => List.foldlRecOn _ _ hq fun q hq term hterm => ?_
  obtain ⟨resolved, hresolved, rfl⟩ := bind_pure_eq_ok.mp hfound
  obtain ⟨target, rfl, rfl⟩ := Option.map_eq_some_iff.mp (Option.mem_toList.mp hterm)
  exact h entry hentry target hresolved q hq

/-- When the keys of a filter, of groups and of orders stand for columns with `P`, a property of
queries is kept by their stages if each condition, group and order that reads such columns keeps
it. -/
theorem clauseStages_keep {R : Sql.Query → Prop} {filter : Filter} {group sort : List String}
    (h : ∀ key ∈ requestKeys filter group sort, ∀ target, ctx.qualify key = .ok (some target) →
      P target.sourceColumn)
    (hrestrict : ∀ q c, c.Reads P → R q → R (q.restrict c))
    (hgroup : ∀ q t, t.Reads P → R q → R (q.groupBy t))
    (horder : ∀ q t, t.Reads P → R q → R (q.orderBy t)) :
    ∀ s ∈ [ctx.filterStage filter, ctx.groupStage group, ctx.sortStage sort], s.Keeps R := by
  have hfilter : (ctx.filterStage filter).Keeps R := by
    refine filterStage_keeps fun term hterm cs hcs c hc q hq => hrestrict q c ?_ hq
    exact reads_termConditions (h _ (mem_requestKeys_filter hterm)) hcs c hc
  have hgroups : (ctx.groupStage group).Keeps R := by
    refine groupStage_keeps fun key hkey target htarget q hq => hgroup q _ ?_ hq
    exact AttributeTarget.reads_groupTerm (h key (mem_requestKeys_group hkey) target htarget)
  have horders : (ctx.sortStage sort).Keeps R := by
    refine sortStage_keeps fun entry hentry target htarget q hq => horder q _ ?_ hq
    exact AttributeTarget.reads_orderTerm (h _ (mem_requestKeys_sort hentry) target htarget) _
  simp only [List.forall_mem_cons]
  exact ⟨hfilter, hgroups, horders, nofun⟩

end Context

end ResourceQuery
