import Mathlib.Data.List.Forall2
import ResourceQuery.Proofs.Naming.Words

/-!
# Naming — names in snake case

Under snake case a column name spells the words of its attribute, in lower case and with single
underscores between them (`StoredAs`).  It has every character of the attribute but the underscores
(`filter_snakeCase`), and cut at its underscores it gives the words again (`splitOn_snakeCase`); as it
has no capitals, there is no boundary left at which more would be cut (`IsSnakeCase.words_eq`).

* `snakeCase_eq_iff`: the column name is what spells the words, and nothing else is.
* `snakeCase_eq_self_iff`: the names in snake case (`IsSnakeCase`) are those that stay as they are.
* `NamingConvention.toColumn_toColumn`: a column name is its own column name.
* `NamingConvention.toColumn_eq_self_iff`: the names that are their own column names.
-/

namespace ResourceQuery

namespace Naming

variable {word cs : List Char} {name stored : String}

/-- No word has an underscore in it. -/
theorem underscore_not_mem_of_mem_words (hword : word ∈ words cs) : '_' ∉ word := by
  intro hmem
  have hflat : '_' ∈ (words cs).flatten := List.mem_flatten_of_mem hword hmem
  simp [flatten_words] at hflat

/-! ### Names in snake case -/

/-- The name has no capitals, and a word before and behind each of its underscores. -/
structure IsSnakeCase (name : String) : Prop where
  noCapital   : ∀ c ∈ name.toList, c.isUpper = false
  noEmptyWord : [] ∉ Text.splitOn '_' name.toList

/-- The words of a name in snake case stand between its underscores. -/
theorem IsSnakeCase.words_eq (h : IsSnakeCase name) :
    words name.toList = Text.splitOn '_' name.toList := by
  have hrun : ∀ run ∈ Text.splitOn '_' name.toList, runWords run = [run] := by
    intro run hrun
    have hne : run ≠ [] := fun hempty => h.noEmptyWord (hempty ▸ hrun)
    exact (areWords_runWords run).eq_singleton
      (fun c hc => h.noCapital c (Text.mem_of_mem_splitOn hrun hc)) hne
  rw [Naming.words_eq, List.map_congr_left hrun]
  exact List.flatMap_singleton' _

/-! ### Column names -/

/-- Only the underscore itself has the underscore as its small letter. -/
theorem toLower_eq_underscore {c : Char} (h : c.toLower = '_') : c = '_' := by
  cases hcase : c.isUpper with
  | false => rwa [toLower_of_isUpper_eq_false hcase] at h
  | true =>
      have hlower := isLower_toLower hcase
      rw [h] at hlower
      cases hlower

theorem snakeCase_of_words_eq_nil (h : words name.toList = []) : snakeCase name = "" := by
  rw [snakeCase, h]
  rfl

/-- Cut at its underscores, the column name gives the words. -/
theorem splitOn_snakeCase (h : words name.toList ≠ []) :
    Text.splitOn '_' (snakeCase name).toList = (words name.toList).map (List.map Char.toLower) := by
  have hpieces : ∀ s ∈ (words name.toList).map lowered, '_' ∉ s.toList := by
    intro s hs hmem
    obtain ⟨word, hword, rfl⟩ := List.mem_map.mp hs
    rw [lowered, String.toList_ofList] at hmem
    obtain ⟨c, hc, hunderscore⟩ := List.mem_map.mp hmem
    exact underscore_not_mem_of_mem_words hword (toLower_eq_underscore hunderscore ▸ hc)
  have hsplit := Text.splitOn_joinWith hpieces (mt List.map_eq_nil_iff.mp h)
  rw [snakeCase]
  refine hsplit.trans ?_
  simp [lowered]

/-- The column name holds every character of the attribute but the underscores, in lower case. -/
theorem filter_snakeCase (name : String) :
    (snakeCase name).toList.filter (· != '_') =
      (name.toList.filter (· != '_')).map Char.toLower := by
  rw [← flatten_words name.toList]
  by_cases h : words name.toList = []
  · rw [snakeCase_of_words_eq_nil h, h]
    rfl
  · rw [← Text.flatten_splitOn, splitOn_snakeCase h, List.map_flatten]

/-- A name with words is in snake case after its conversion. -/
theorem isSnakeCase_snakeCase (h : words name.toList ≠ []) : IsSnakeCase (snakeCase name) where
  noCapital c hc := by
    by_cases hunderscore : c = '_'
    · rw [hunderscore]
      rfl
    · have hmem : c ∈ (snakeCase name).toList.filter (· != '_') :=
        List.mem_filter.mpr ⟨hc, by simpa using hunderscore⟩
      rw [filter_snakeCase] at hmem
      obtain ⟨d, -, rfl⟩ := List.mem_map.mp hmem
      cases hcase : d.isUpper with
      | false => rwa [toLower_of_isUpper_eq_false hcase]
      | true => exact isUpper_of_isLower (isLower_toLower hcase)
  noEmptyWord hmem := by
    rw [splitOn_snakeCase h] at hmem
    obtain ⟨word, hword, hempty⟩ := List.mem_map.mp hmem
    exact nil_not_mem_words _ (List.map_eq_nil_iff.mp hempty ▸ hword)

/-- A name in snake case is its own conversion. -/
theorem IsSnakeCase.snakeCase_eq (h : IsSnakeCase name) : snakeCase name = name := by
  have hlowered : (words name.toList).map lowered = Text.split '_' name := by
    rw [h.words_eq, Text.split]
    refine List.map_congr_left fun piece hpiece => congrArg String.ofList ?_
    refine (List.map_congr_left fun c hc => ?_).trans (List.map_id' piece)
    exact toLower_of_isUpper_eq_false (h.noCapital c (Text.mem_of_mem_splitOn hpiece hc))
  rw [snakeCase, hlowered]
  exact Text.joinWith_split '_' name

/-- The names that a conversion leaves alone are those in snake case. -/
theorem snakeCase_eq_self_iff (hname : name ≠ "") : snakeCase name = name ↔ IsSnakeCase name := by
  refine ⟨fun h => ?_, IsSnakeCase.snakeCase_eq⟩
  have hwords : words name.toList ≠ [] := fun hnil =>
    hname (h.symm.trans (snakeCase_of_words_eq_nil hnil))
  exact h ▸ isSnakeCase_snakeCase hwords

/-- A second conversion changes nothing. -/
theorem snakeCase_snakeCase (name : String) : snakeCase (snakeCase name) = snakeCase name := by
  by_cases h : words name.toList = []
  · rw [snakeCase_of_words_eq_nil h]
    rfl
  · exact (isSnakeCase_snakeCase h).snakeCase_eq

/-- The text spells the words of the name, which are cut at underscores and at the boundaries between
them, in lower case and with single underscores between neighbours. -/
def StoredAs (name stored : String) : Prop :=
  ∃ parts, List.Forall₂ AreWords (Text.splitOn '_' name.toList) parts ∧
    stored = Text.joinWith "_" (parts.flatten.map lowered)

/-- A name is stored as exactly one name, its conversion. -/
theorem snakeCase_eq_iff : snakeCase name = stored ↔ StoredAs name stored := by
  have hparts : List.Forall₂ AreWords (Text.splitOn '_' name.toList)
      ((Text.splitOn '_' name.toList).map runWords) :=
    List.forall₂_map_right_iff.mpr (List.forall₂_same.mpr fun run _ => areWords_runWords run)
  constructor
  · rintro rfl
    exact ⟨_, hparts, rfl⟩
  · rintro ⟨parts, hwords, rfl⟩
    have hunique : Relator.RightUnique AreWords := fun _ _ _ => AreWords.unique
    rw [hunique.forall₂ hwords hparts]
    rfl

end Naming

namespace NamingConvention

variable {convention : NamingConvention} {name : String}

/-- A column name under a convention that can be configured is its own column name. -/
theorem toColumn_toColumn (hbuiltIn : convention.IsBuiltIn) (name : String) :
    convention.toColumn (convention.toColumn name) = convention.toColumn name := by
  rcases isBuiltIn_iff.mp hbuiltIn with rfl | rfl
  · rfl
  · change Naming.snakeColumn (Naming.snakeColumn name) = Naming.snakeColumn name
    by_cases hname : Naming.isIdentifier name = true
    · simp only [Naming.snakeColumn, if_pos hname, Naming.snakeCase_snakeCase, ite_self]
    · simp only [Naming.snakeColumn, if_neg hname]

/-- The names that are their own column names under a convention that can be configured. -/
theorem toColumn_eq_self_iff (hbuiltIn : convention.IsBuiltIn) :
    convention.toColumn name = name ↔
      (convention = .snakeCase → Naming.isIdentifier name = true → Naming.IsSnakeCase name) := by
  rcases isBuiltIn_iff.mp hbuiltIn with rfl | rfl
  · exact iff_of_true rfl fun h => absurd h verbatim_ne_snakeCase
  · rw [forall_prop_of_true rfl]
    change Naming.snakeColumn name = name ↔ _
    rw [Naming.snakeColumn]
    split
    case isTrue hname =>
      have hne : name ≠ "" := by
        rintro rfl
        cases hname
      rw [forall_prop_of_true hname, Naming.snakeCase_eq_self_iff hne]
    case isFalse hother => exact iff_of_true rfl fun hname => absurd hname hother

end NamingConvention

end ResourceQuery
