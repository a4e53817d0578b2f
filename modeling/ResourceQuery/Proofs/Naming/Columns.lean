import ResourceQuery.Naming

/-!
# Naming — attributes without a column name

A convention should give every attribute a column name (`NamingConvention.Erases` tells where it does
not).  Under snake case the words of the attribute are put together, and underscores are no words: an
attribute of underscores alone has none (`words_eq_nil`).  Under the conventions that can be configured it
is the only kind of attribute without a column name (`NamingConvention.erases_iff`).
-/

namespace ResourceQuery

namespace Naming

variable {mode : Mode} {word cs : List Char}

/-- No word is empty: one ends in front of its last character only when that is not the first one. -/
theorem nil_not_mem_cut (h : mode = .upper → word ≠ []) : [] ∉ cut mode word cs := by
  induction mode, word, cs using cut.induct with
  | case1 mode word hempty => simp [cut, hempty]
  | case2 mode word hempty =>
      rw [cut, if_neg hempty]
      simpa using hempty
  | case3 mode word c => simp [cut]
  | case4 mode word c d rest hlower ih =>
      rw [cut, if_pos hlower]
      simpa using ih (by simp)
  | case5 mode word c d rest hlower hupper ih =>
      rw [cut, if_neg hlower, if_pos hupper]
      simpa using ⟨h hupper.1, ih (by simp)⟩
  | case6 mode word c d rest hlower hupper ih =>
      rw [cut, if_neg hlower, if_neg hupper]
      exact ih fun _ => List.cons_ne_nil c word

/-- Cutting a text that is not empty leaves a word. -/
theorem cut_ne_nil (hcs : cs ≠ []) : cut mode word cs ≠ [] := by
  induction mode, word, cs using cut.induct with
  | case1 | case2 => exact absurd rfl hcs
  | case3 mode word c => exact List.cons_ne_nil _ _
  | case4 mode word c d rest hlower ih =>
      rw [cut, if_pos hlower]
      exact List.cons_ne_nil _ _
  | case5 mode word c d rest hlower hupper ih =>
      rw [cut, if_neg hlower, if_pos hupper]
      exact List.cons_ne_nil _ _
  | case6 mode word c d rest hlower hupper ih =>
      rw [cut, if_neg hlower, if_neg hupper]
      exact ih (List.cons_ne_nil d rest)

/-- No word is empty. -/
theorem nil_not_mem_words (cs : List Char) : [] ∉ words cs := by
  rw [words, List.mem_flatMap]
  rintro ⟨run, -, hword⟩
  have hfresh : Mode.fresh = .upper → ([] : List Char) ≠ [] := by simp
  split at hword
  · cases hword
  · exact nil_not_mem_cut hfresh hword

/-- Only underscores have no words between them. -/
theorem words_eq_nil : words cs = [] ↔ ∀ c ∈ cs, c = '_' := by
  rw [words, List.flatMap_eq_nil_iff, ← Text.forall_mem_splitOn_eq_nil]
  refine forall₂_congr fun run _ => ?_
  split
  case isTrue hempty => exact iff_of_true rfl (List.isEmpty_iff.mp hempty)
  case isFalse hne =>
    have hne : run ≠ [] := mt List.isEmpty_iff.mpr hne
    exact iff_of_false (cut_ne_nil hne) hne

/-- A name in snake case is empty only if the name had nothing but underscores. -/
theorem snakeCase_eq_empty {name : String} : snakeCase name = "" ↔ ∀ c ∈ name.toList, c = '_' := by
  have hwords : "" ∉ (words name.toList).map lowered := by
    rw [List.mem_map]
    rintro ⟨word, hword, hempty⟩
    have hchars : word.map Char.toLower = [] := by
      simpa [lowered] using congrArg String.toList hempty
    rw [List.map_eq_nil_iff.mp hchars] at hword
    exact nil_not_mem_words _ hword
  rw [snakeCase, Text.joinWith_eq_empty hwords, List.map_eq_nil_iff, words_eq_nil]

end Naming

namespace NamingConvention

variable {convention : NamingConvention} {name : String}

/-- The convention leaves an attribute without a column name. -/
def Erases (convention : NamingConvention) (name : String) : Prop :=
  convention.toColumn name = ""

/-- Of the conventions that can be configured, snake case alone leaves an attribute that has a name without
a column name, and only if it consists of underscores. -/
theorem erases_iff (hbuiltIn : convention.IsBuiltIn) (hname : name ≠ "") :
    convention.Erases name ↔ convention = .snakeCase ∧ ∀ c ∈ name.toList, c = '_' := by
  rcases isBuiltIn_iff.mp hbuiltIn with rfl | rfl
  · exact iff_of_false hname fun h => verbatim_ne_snakeCase h.1
  · rw [Erases, and_iff_right rfl]
    change Naming.snakeColumn name = "" ↔ _
    rw [Naming.snakeColumn]
    split
    case isTrue => exact Naming.snakeCase_eq_empty
    case isFalse hother =>
      refine iff_of_false hname fun hall => hother ?_
      simp only [Naming.isIdentifier, Bool.and_eq_true, List.all_eq_true, Bool.or_eq_true,
        decide_eq_true_eq]
      exact ⟨by simpa using hname, fun c hc => .inr (hall c hc)⟩

example : NamingConvention.snakeCase.Erases "__" := by
  unfold Erases
  decide +kernel

end NamingConvention

end ResourceQuery
