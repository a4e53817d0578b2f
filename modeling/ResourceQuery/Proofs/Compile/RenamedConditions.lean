import ResourceQuery.Compile.Sort
import ResourceQuery.Proofs.Compile.JsonFilters
import ResourceQuery.Proofs.Sql.Rename

/-!
# Compile — renaming what a key stands for

What is made of a column or of a JSON attribute is renamed by renaming the table of the column: the
conditions of a filter (`equalityConditions_rename`, `typedConditions_rename`) and the terms of
groups and orders (`groupTerm_rename`, `orderTerm_rename`).  The values of a filter are not looked
at.
-/

namespace ResourceQuery

open Sql (Condition Value)

variable {σ : String → String}

namespace Sql

theorem rename_alternatives (cs : List Condition) :
    (if cs.isEmpty then [] else [.anyOf cs]).map (Condition.rename σ) =
      if (cs.map (Condition.rename σ)).isEmpty then []
      else [.anyOf (cs.map (Condition.rename σ))] := by
  rw [List.isEmpty_map]
  split
  · rfl
  · rw [List.map_singleton, Condition.rename_anyOf]

/-! ### Conditions on a plain column -/

namespace Column

variable (c : Column)

theorem equality_rename (values : List (Option String)) :
    (c.equality values).rename σ = (c.rename σ).equality values := by
  simp only [equality]
  split
  · split
    · rfl
    · rw [Condition.rename_anyOf]
      rfl
  · rfl

theorem comparison_rename (op : Comparison) (value : Option String) :
    (c.comparison op value).map (Condition.rename σ) = (c.rename σ).comparison op value := by
  cases value <;> rfl

theorem conditions_rename (op : FilterOperator) (value : FilterValue)
    (folded : Option FilterValue) :
    (c.conditions op value folded).map (Condition.rename σ) =
      (c.rename σ).conditions op value folded := by
  cases op with
  | like =>
      refine (rename_alternatives _).trans ?_
      rw [List.map_append, List.map_map, ← Option.toList_map, Option.map_map]
      simp only [conditions, Function.comp_def, Condition.rename, equality_rename]
  | not =>
      simp only [conditions, List.map_append]
      congr 1 <;> split <;> rfl
  | lt => exact c.comparison_rename .lt _
  | lte => exact c.comparison_rename .le _
  | gt => exact c.comparison_rename .gt _
  | gte => exact c.comparison_rename .ge _

end Column

/-! ### Conditions on a JSON attribute -/

namespace JsonAttribute

variable (a : JsonAttribute)

/-- A predicate is renamed by renaming the attribute, if there are no quotes around it. -/
theorem predicate_rename {before after : String} (values : List Value)
    (hbefore : Reading.isPlainText before = true) (hafter : Reading.isPlainText after = true) :
    (a.predicate before after values).rename σ = (a.rename σ).predicate before after values := by
  have hafter : Reading.between.rename σ after.toList = after.toList := by
    simpa [Reading.rename, Reading.spelling] using Reading.rename_plain hafter []
  exact congrArg Condition.raw (a.rename_around before after hbefore hafter values)

theorem isNull_rename : a.isNull.rename σ = (a.rename σ).isNull := by
  rw [a.isNull_translated a.column, (a.rename σ).isNull_translated a.column]
  exact a.predicate_rename [] rfl rfl

theorem isNotNull_rename : a.isNotNull.rename σ = (a.rename σ).isNotNull := by
  rw [a.isNotNull_translated a.column, (a.rename σ).isNotNull_translated a.column]
  exact a.predicate_rename [] rfl rfl

theorem containing_rename (value : String) :
    (a.containing value).rename σ = (a.rename σ).containing value := by
  rw [a.containing_translated a.column, (a.rename σ).containing_translated a.column]
  exact a.predicate_rename [.text ("%" ++ value ++ "%")] rfl rfl

/-- The slots of values read as plain text. -/
theorem isPlainText_slots (values : List Value) : Reading.isPlainText (slots values) = true := by
  have hslots : ∀ s ∈ values.map fun _ => "?", Reading.isPlainText s = true :=
    List.forall_mem_map.mpr fun _ _ => rfl
  simp only [slots, Reading.isPlainText_append]
  exact ⟨⟨rfl, Reading.isPlainText_joinWith rfl hslots⟩, rfl⟩

theorem membership_rename (keyword : String) (given : List String)
    (hkeyword : Reading.isPlainText keyword = true) :
    (a.membership keyword given).rename σ = (a.rename σ).membership keyword given := by
  rw [membership_eq, membership_eq]
  refine a.predicate_rename _ rfl ?_
  simp only [Reading.isPlainText_append]
  exact ⟨⟨⟨rfl, hkeyword⟩, rfl⟩, isPlainText_slots _⟩

theorem equality_rename (values : List (Option String)) :
    (a.equality values).rename σ = (a.rename σ).equality values := by
  have hin := a.membership_rename (σ := σ) "IN" (texts values) rfl
  simp only [equality]
  split
  · split
    · exact a.isNull_rename
    · rw [Condition.rename_anyOf, List.map_cons, List.map_singleton, isNull_rename, hin]
  · split
    · rfl
    · exact hin

theorem comparison_rename (op : Comparison) (values : List (Option String)) :
    (a.comparison op values).map (Condition.rename σ) = (a.rename σ).comparison op values := by
  have hop : Reading.isPlainText (" " ++ op.sql ++ " ?") = true := by
    cases op <;> rfl
  simp only [comparison]
  split
  · rfl
  · next v _ _ =>
    have h : (a.predicate "" (" " ++ op.sql ++ " ?") [.text v]).rename σ = _ :=
      a.predicate_rename [.text v] rfl hop
    simpa [predicate, Fragment.append] using h

/-- The conditions of a filter are renamed by renaming the attribute. -/
theorem conditions_rename (filter : JsonFilter) (values : List (Option String))
    (folded : Option (List (Option String))) :
    (a.conditions filter values folded).map (Condition.rename σ) =
      (a.rename σ).conditions filter values folded := by
  cases filter with
  | equal => exact congrArg ([·]) (a.equality_rename values)
  | typed op =>
      cases op with
      | like =>
          refine (rename_alternatives _).trans ?_
          rw [List.map_append, List.map_map, ← Option.toList_map, Option.map_map]
          simp only [conditions, Function.comp_def, containing_rename, equality_rename]
      | not =>
          have hnotIn := a.membership_rename (σ := σ) "NOT IN" (texts values) rfl
          simp only [conditions, List.map_append]
          congr 1
          · split
            · exact congrArg ([·]) a.isNotNull_rename
            · rfl
          · split
            · rfl
            · exact congrArg ([·]) hnotIn
      | lt => exact a.comparison_rename .lt values
      | lte => exact a.comparison_rename .le values
      | gt => exact a.comparison_rename .gt values
      | gte => exact a.comparison_rename .ge values

end JsonAttribute

end Sql

/-! ### What a key stands for -/

namespace AttributeTarget

variable (t : AttributeTarget)

/-- The column or the JSON attribute of a renamed table. -/
def rename (σ : String → String) : AttributeTarget → AttributeTarget
  | .column c => .column (c.rename σ)
  | .json a   => .json (a.rename σ)

theorem sourceColumn_rename : (t.rename σ).sourceColumn = t.sourceColumn.rename σ := by
  cases t <;> rfl

theorem equalityConditions_rename (value : FilterValue) :
    (t.equalityConditions value).map (Condition.rename σ) =
      (t.rename σ).equalityConditions value := by
  cases t with
  | column c => exact congrArg ([·]) (c.equality_rename value.values)
  | json a => exact a.conditions_rename .equal value.values none

theorem typedConditions_rename (op : FilterOperator) (value : FilterValue)
    (folded : Option FilterValue) :
    (t.typedConditions op value folded).map (Condition.rename σ) =
      (t.rename σ).typedConditions op value folded := by
  cases t with
  | column c => exact c.conditions_rename op value folded
  | json a => exact a.conditions_rename (.typed op) _ _

theorem groupTerm_rename : t.groupTerm.rename σ = (t.rename σ).groupTerm := by
  cases t with
  | column c => rfl
  | json a => exact congrArg Sql.GroupTerm.expression a.rename_expression

theorem orderTerm_rename (order : Sql.SortOrder) :
    (t.orderTerm order).rename σ = (t.rename σ).orderTerm order := by
  cases t with
  | column c => rfl
  | json a => exact congrArg (Sql.OrderTerm.expression · order) a.rename_expression

end AttributeTarget

end ResourceQuery
