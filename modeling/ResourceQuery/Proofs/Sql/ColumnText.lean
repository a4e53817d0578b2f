import ResourceQuery.Sql.Identifier

/-!
# Sql — columns told from their text

A quoted name says itself where it ends: at the first quote that is not doubled (`readName?`).  So it can
be read back from a text that goes on behind it with anything but a quote, and two such texts are the
same only if the names and what follows them are (`quoteIdentifier_append_inj`).  From this the parts of
a column are told one after the other; the mark for all columns is no quoted name, and behind the name of
a table there is a point.

* `readIdentifier?_eq_some`: what is read from a text, and from which texts.
* `Column.sql_injective`: columns with the same text are the same.
-/

namespace ResourceQuery.Sql

/-- The name up to the quote that ends it, behind the one that begins it, and the text after it; a doubled
quote belongs to the name. -/
def readName? : List Char → Option (List Char × List Char)
  | []               => none
  | '"' :: '"' :: cs => (readName? cs).map fun (name, rest) => ('"' :: name, rest)
  | '"' :: cs        => some ([], cs)
  | c :: cs          => (readName? cs).map fun (name, rest) => (c :: name, rest)

/-- The quoted identifier that a text begins with, and the text after it. -/
def readIdentifier? (s : String) : Option (String × String) :=
  match s.toList with
  | '"' :: cs => (readName? cs).map fun (name, rest) => (String.ofList name, String.ofList rest)
  | _         => none

variable {cs name rest : List Char}

/-- A quoted name is read back, whatever other than a quote follows. -/
theorem readName?_doubleQuotes (name : List Char) (hrest : rest.head? ≠ some '"') :
    readName? (doubleQuotes name ++ '"' :: rest) = some (name, rest) := by
  induction name with
  | nil =>
      rw [doubleQuotes, List.nil_append, readName?]
      rintro cs rfl
      exact hrest rfl
  | cons c name ih =>
      rw [doubleQuotes]
      split
      case isTrue hc => rw [List.cons_append, List.cons_append, readName?, ih, hc]; rfl
      case isFalse hc =>
        rw [List.cons_append, readName?, ih]
        · rfl
        · exact fun cs h => absurd h hc
        · exact fun h => absurd h hc

/-- What is read as a name has been quoted. -/
theorem eq_of_readName? (h : readName? cs = some (name, rest)) :
    cs = doubleQuotes name ++ '"' :: rest ∧ rest.head? ≠ some '"' := by
  induction cs using readName?.induct generalizing name with
  | case1 => cases h
  | case2 cs ih =>
      rw [readName?] at h
      obtain ⟨⟨inner, after⟩, hinner, h⟩ := Option.map_eq_some_iff.mp h
      cases h
      obtain ⟨rfl, hrest⟩ := ih hinner
      exact ⟨by simp [doubleQuotes], hrest⟩
  | case3 cs hsingle =>
      rw [readName?] at h
      · cases h
        refine ⟨rfl, fun hquote => ?_⟩
        obtain ⟨after, hafter⟩ := List.head?_eq_some_iff.mp hquote
        exact hsingle after hafter
      · exact hsingle
  | case4 c cs hdouble hquote ih =>
      rw [readName?] at h
      · obtain ⟨⟨inner, after⟩, hinner, h⟩ := Option.map_eq_some_iff.mp h
        cases h
        obtain ⟨rfl, hrest⟩ := ih hinner
        exact ⟨by simp [doubleQuotes, show c ≠ '"' from hquote], hrest⟩
      · exact hdouble
      · exact hquote

theorem readName?_eq_some :
    readName? cs = some (name, rest) ↔ cs = doubleQuotes name ++ '"' :: rest ∧ rest.head? ≠ some '"' :=
  ⟨eq_of_readName?, fun ⟨hcs, hrest⟩ => hcs ▸ readName?_doubleQuotes name hrest⟩

/-- A text begins with the quoted identifier that is read, and not with a longer one. -/
theorem readIdentifier?_eq_some {s name rest : String} :
    readIdentifier? s = some (name, rest) ↔
      s = quoteIdentifier name ++ rest ∧ rest.toList.head? ≠ some '"' := by
  have hchars : s = quoteIdentifier name ++ rest ↔
      s.toList = '"' :: (doubleQuotes name.toList ++ '"' :: rest.toList) := by
    rw [← String.toList_inj, String.toList_append, toList_quoteIdentifier]
    simp
  rw [hchars, readIdentifier?]
  split
  case h_1 cs hs =>
    rw [hs, List.cons.injEq, and_iff_right rfl, ← readName?_eq_some, Option.map_eq_some_iff]
    constructor
    · rintro ⟨⟨inner, after⟩, hread, h⟩
      cases h
      rw [String.toList_ofList, String.toList_ofList, hread]
    · intro hread
      exact ⟨_, hread, by simp⟩
  case h_2 hother =>
    exact iff_of_false nofun fun h => hother _ h.1

variable {n m s t : String}

/-- Names that begin the same text are the same, and so is what follows them. -/
theorem quoteIdentifier_append_inj (hs : s.toList.head? ≠ some '"') (ht : t.toList.head? ≠ some '"')
    (h : quoteIdentifier n ++ s = quoteIdentifier m ++ t) : n = m ∧ s = t := by
  have hn : readIdentifier? (quoteIdentifier n ++ s) = some (n, s) :=
    readIdentifier?_eq_some.mpr ⟨rfl, hs⟩
  have hm : readIdentifier? (quoteIdentifier n ++ s) = some (m, t) :=
    readIdentifier?_eq_some.mpr ⟨h, ht⟩
  exact Prod.mk.inj (Option.some.inj (hn.symm.trans hm))

/-- A text that begins with a quoted name is not the mark for all columns. -/
theorem quoteIdentifier_append_ne_star : quoteIdentifier n ++ s ≠ "*" := by
  intro h
  have hchars := congrArg String.toList h
  rw [String.toList_append, toList_quoteIdentifier] at hchars
  cases hchars

namespace Column

/-- The name of a column in SQL. -/
def nameSql (name : String) : String :=
  if name = "*" then "*" else quoteIdentifier name

theorem sql_bare (name : String) : (bare name).sql = nameSql name := rfl

theorem sql_of (table name : String) :
    (of table name).sql = quoteIdentifier table ++ ("." ++ nameSql name) :=
  String.append_assoc

theorem nameSql_cases (name : String) :
    (name = "*" ∧ nameSql name = "*") ∨ nameSql name = quoteIdentifier name ++ "" := by
  rw [nameSql, String.append_empty]
  split
  case isTrue hstar => exact .inl ⟨hstar, rfl⟩
  case isFalse => exact .inr rfl

/-- Different names of columns are written differently. -/
theorem nameSql_injective : Function.Injective nameSql := by
  intro n m h
  have hend : "".toList.head? ≠ some '"' := by simp
  rcases nameSql_cases n with ⟨rfl, hn⟩ | hn
  · rcases nameSql_cases m with ⟨rfl, -⟩ | hm
    · rfl
    · exact absurd (hm.symm.trans (h.symm.trans hn)) quoteIdentifier_append_ne_star
  · rcases nameSql_cases m with ⟨-, hm⟩ | hm
    · exact absurd (hn.symm.trans (h.trans hm)) quoteIdentifier_append_ne_star
    · exact (quoteIdentifier_append_inj hend hend (hn.symm.trans (h.trans hm))).1

/-- Behind the name of a table there is a point. -/
theorem sql_of_ne_bare {table : String} : (of table n).sql ≠ (bare m).sql := by
  rw [sql_of, sql_bare]
  rcases nameSql_cases m with ⟨-, hm⟩ | hm <;> rw [hm]
  · exact quoteIdentifier_append_ne_star
  · intro h
    have hpoint := (quoteIdentifier_append_inj (by simp) (by simp) h).2
    simp at hpoint

/-- Different columns are written differently. -/
theorem sql_injective : Function.Injective sql
  | ⟨none, _⟩,       ⟨none, _⟩,        h => congrArg bare (nameSql_injective h)
  | ⟨none, _⟩,       ⟨some _, _⟩,      h => absurd h.symm sql_of_ne_bare
  | ⟨some _, _⟩,     ⟨none, _⟩,        h => absurd h sql_of_ne_bare
  | ⟨some table, n⟩, ⟨some table', m⟩, h => by
      have hparts : quoteIdentifier table ++ ("." ++ nameSql n) =
          quoteIdentifier table' ++ ("." ++ nameSql m) :=
        (sql_of table n).symm.trans (h.trans (sql_of table' m))
      obtain ⟨rfl, hrest⟩ := quoteIdentifier_append_inj (by simp) (by simp) hparts
      obtain rfl := nameSql_injective ((String.append_right_inj ".").mp hrest)
      rfl

end Column

/-- **Names and columns can be told from SQL text.**  A name is read from a text, and a rest is left,
exactly when the text is the quoted name with the rest behind it and the rest does not begin with a
quote; so what is read of a quoted name is the name, whatever quotes stand in it.  Columns with the same
text are the same. -/
theorem names_and_columns_told :
    (∀ text name rest, readIdentifier? text = some (name, rest) ↔
      text = quoteIdentifier name ++ rest ∧ rest.toList.head? ≠ some '"') ∧
    ∀ c d : Column, c.sql = d.sql ↔ c = d :=
  ⟨fun _ _ _ => readIdentifier?_eq_some, fun _ _ => Column.sql_injective.eq_iff⟩

example : readIdentifier? "\"we\"\"ird\".*" = some ("we\"ird", ".*") := by decide +kernel

end ResourceQuery.Sql
