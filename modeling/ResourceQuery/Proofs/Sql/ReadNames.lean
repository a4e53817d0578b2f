import ResourceQuery.Proofs.Sql.JsonTokens
import ResourceQuery.Proofs.Sql.StatementNames

/-!
# Sql — the names of the columns that a query reads

Where a part of a query reads a column, its names are those of the column: an expression over a JSON
attribute has no others (`names_expression`), and with its alias only the leaf of the path besides
(`names_aliased`).  Conditions that read one column have all of its names or, where they compare it with
nothing, none at all (`Column.GivesNames`, `Condition.givesNames_of_reads`).
-/

namespace ResourceQuery.Sql

open Template

/-! ### JSON attributes -/

namespace JsonAttribute

variable (a : JsonAttribute)

theorem names_expression_text : (text a.expression.sql).Names a.column.names := by
  rw [expression_eq, text_append, text_append]
  exact ((names_column a.column).started rfl).ended (JsonCast.isPlainText_access a.cast)

theorem names_expression : a.expression.names = a.column.names :=
  identifiers_of_names_text a.names_expression_text

theorem names_aliased : a.aliased.names = a.column.names ++ [a.leaf] := by
  have hsql : a.aliased.sql = a.expression.sql ++ " AS " ++ quoteIdentifier a.leaf := rfl
  refine identifiers_of_names_text ?_
  rw [hsql, text_append, text_append]
  exact a.names_expression_text.joined rfl (names_identifier a.leaf)

/-- Text without quotes around the expression changes nothing about its names. -/
theorem names_around {before after : String} (hbefore : Reading.isPlainText before = true)
    (hafter : Reading.isPlainText after = true) :
    identifiers (before ++ a.expression.sql ++ after) = a.column.names := by
  refine identifiers_of_names_text ?_
  rw [text_append, text_append]
  exact (a.names_expression_text.started hbefore).ended hafter

theorem names_before {after : String} (hafter : Reading.isPlainText after = true) :
    identifiers (a.expression.sql ++ after) = a.column.names := by
  have haround : identifiers ("" ++ a.expression.sql ++ after) = a.column.names :=
    a.names_around rfl hafter
  rwa [String.empty_append] at haround

/-- A membership names the column of its attribute, its keyword being plain. -/
theorem names_membership {keyword : String} (hkeyword : Reading.isPlainText keyword = true)
    (values : List String) : (a.membership keyword values).names = a.column.names := by
  refine a.names_before ?_
  have hslots : ∀ s ∈ values.map fun _ => "?", Reading.isPlainText s = true :=
    List.forall_mem_map.mpr fun _ _ => rfl
  simp only [Reading.isPlainText_append]
  exact ⟨⟨⟨⟨rfl, hkeyword⟩, rfl⟩, Reading.isPlainText_joinWith rfl hslots⟩, rfl⟩

variable {a}

/-- The tests that filters make on an attribute have the names of its column. -/
theorem Tests.names {c : Condition} (h : a.Tests c) : c.names = a.column.names := by
  cases h with
  | isNull => exact a.names_before rfl
  | isNotNull => exact a.names_before rfl
  | isIn nonempty => exact a.names_membership rfl _
  | notIn nonempty => exact a.names_membership rfl _
  | compared op value =>
      have hop : Reading.isPlainText (" " ++ op.sql ++ " ?") = true := by cases op <;> rfl
      exact a.names_before hop
  | containing value =>
      have hsql : (a.containing value).names =
          identifiers ("LOWER((" ++ a.expression.sql ++ (")::text) LIKE LOWER(?)" ++ "")) := by
        rw [← String.append_assoc]
        rfl
      exact hsql.trans (a.names_around rfl rfl)

end JsonAttribute

/-! ### Conditions on one column -/

/-- If there are names at all, they are those of the column. -/
def Column.GivesNames (column : Column) (ns : List String) : Prop :=
  ns ≠ [] → ∀ n, n ∈ ns ↔ n ∈ column.names

namespace Column

variable {column : Column} {ns ms : List String}

theorem givesNames_nil : column.GivesNames [] :=
  fun h => absurd rfl h

theorem givesNames_self : column.GivesNames column.names :=
  fun _ _ => Iff.rfl

/-- Two lists of names that a column gives are one. -/
theorem GivesNames.append (hns : column.GivesNames ns) (hms : column.GivesNames ms) :
    column.GivesNames (ns ++ ms) := by
  intro hne n
  by_cases hempty : ns = []
  · subst hempty
    exact hms hne n
  · rw [List.mem_append, hns hempty]
    by_cases hempty' : ms = []
    · simp [hempty']
    · rw [hms hempty', or_self]

end Column

namespace Condition

variable {column : Column}

/-- Conditions that name what a column gives do so together. -/
theorem givesNames_namesOf {cs : List Condition} (h : ∀ c ∈ cs, column.GivesNames c.names) :
    column.GivesNames (namesOf cs) := by
  induction cs with
  | nil => exact Column.givesNames_nil
  | cons c cs ih =>
      obtain ⟨hc, hcs⟩ := List.forall_mem_cons.mp h
      exact hc.append (ih hcs)

/-- A condition that reads one column has the names of this column, if any. -/
theorem Reads.givesNames {c : Condition} (h : c.Reads (· = column)) : column.GivesNames c.names := by
  induction h with
  | compare _ _ hc | isNull hc | isNotNull hc | like _ hc =>
      subst hc
      exact Column.givesNames_self
  | isIn values hc | notIn values hc =>
      subst hc
      rw [names]
      split
      · exact Column.givesNames_nil
      · exact Column.givesNames_self
  | json hc tests =>
      rw [tests.names, hc]
      exact Column.givesNames_self
  | or _ ih | and _ ih => exact givesNames_namesOf ih
  | not _ ih => exact ih
  | always | never => exact Column.givesNames_nil

theorem givesNames_of_reads {cs : List Condition} (h : ∀ c ∈ cs, c.Reads (· = column)) :
    column.GivesNames (namesOf cs) :=
  givesNames_namesOf fun c hc => (h c hc).givesNames

end Condition

/-- The expressions over JSON attributes leave no quote open. -/
theorem Query.isClosed_of_reads {P : Column → Prop} {q : Query} (hclauses : q.ClausesRead P)
    (hselect : q.SelectReads P) : ∀ f ∈ q.fragments, f.IsClosed := by
  intro f hf
  obtain ⟨_, hfills, -⟩ := fitted_of_reads (Q := fun _ => True) hclauses hselect f hf
  exact hfills.closed

end ResourceQuery.Sql
