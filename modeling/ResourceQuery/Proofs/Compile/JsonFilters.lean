import ResourceQuery.Proofs.Blog
import ResourceQuery.Proofs.Except
import ResourceQuery.Proofs.Compile.Clauses

/-!
# Compile — filters on JSON attributes and on columns agree

Filters on plain columns and on JSON attributes are compiled by separate code.  A condition on a column
is carried over to a JSON attribute predicate by predicate (`JsonAttribute.translate`): what it says of
the column is said of the expression that reads the attribute.  That keeps the number of predicates and
the texts that are bound (`leafCount_translate`, `boundTexts_translate`).

Where no value is the text `null`, which a JSON attribute takes for the null, the conditions on a JSON
attribute are the translated conditions on a column (`conditions_translated`), and with them what a
term of a filter adds to a query (`json_filters_translated`).
-/

namespace ResourceQuery

open Sql (Condition Value JsonAttribute)

namespace Sql

/-! ### The values of a condition -/

/-- The text that is bound. -/
def Value.text? : Value → Option String
  | .text s => some s
  | _       => none

namespace Condition

mutual

/-- The texts that a condition binds, in order. -/
def boundTexts : Condition → List String
  | .compare _ _ value                     => value.text?.toList
  | .isIn _ values | .notIn _ values       => values.filterMap Value.text?
  | .like _ pattern                        => [pattern]
  | .raw fragment                          => fragment.params.filterMap Value.text?
  | .or parts | .and parts                 => boundTextsOf parts
  | .not part                              => boundTexts part
  | .isNull _ | .isNotNull _ | .always | .never => []

/-- The texts that conditions bind, in order. -/
def boundTextsOf : List Condition → List String
  | []      => []
  | c :: cs => boundTexts c ++ boundTextsOf cs

end

end Condition

/-! ### From a column to a JSON attribute -/

namespace JsonAttribute

variable (a : JsonAttribute)

/-- A predicate on the expression that reads the attribute. -/
def predicate (before after : String) (values : List Value) : Condition :=
  .raw ⟨before ++ a.expression.sql ++ after, a.expression.params ++ values⟩

/-- A list with a placeholder for each value. -/
def slots (values : List Value) : String :=
  "(" ++ Text.joinWith ", " (values.map fun _ => "?") ++ ")"

mutual

/-- What a condition on a column says, of the attribute. -/
def translate : Condition → Condition
  | .compare _ op value => a.predicate "" (" " ++ op.sql ++ " ?") [value]
  | .isIn _ values      =>
    if values.isEmpty then .never else a.predicate "" (" IN " ++ slots values) values
  | .notIn _ values     =>
    if values.isEmpty then .always else a.predicate "" (" NOT IN " ++ slots values) values
  | .isNull _           => a.predicate "" " IS NULL" []
  | .isNotNull _        => a.predicate "" " IS NOT NULL" []
  | .like _ pattern     => a.predicate "LOWER((" ")::text) LIKE LOWER(?)" [.text pattern]
  | .raw fragment       => .raw fragment
  | .or parts           => .or (translateAll parts)
  | .and parts          => .and (translateAll parts)
  | .not part           => .not (translate part)
  | .always             => .always
  | .never              => .never

/-- What conditions on a column say, of the attribute. -/
def translateAll : List Condition → List Condition
  | []      => []
  | c :: cs => translate c :: translateAll cs

end

/-- Conditions are translated one by one. -/
theorem translateAll_eq_map (cs : List Condition) : a.translateAll cs = cs.map a.translate := by
  induction cs with
  | nil => rfl
  | cons c cs ih => rw [translateAll, ih, List.map_cons]

/-- A choice is translated condition by condition. -/
theorem translate_anyOf (cs : List Condition) :
    a.translate (.anyOf cs) = .anyOf (cs.map a.translate) := by
  cases cs with
  | nil => rfl
  | cons c cs =>
      cases cs with
      | nil => rfl
      | cons d cs =>
          have hor : Condition.anyOf (c :: d :: cs) = .or (c :: d :: cs) := rfl
          rw [hor, translate, translateAll_eq_map]
          rfl

mutual

/-- A translation has as many leaves, by induction on the condition. -/
theorem leafCount_translate : ∀ c : Condition, (a.translate c).leafCount = c.leafCount
  | .compare .. | .isNull _ | .isNotNull _ | .like .. | .raw _ | .always | .never => rfl
  | .isIn _ values | .notIn _ values => by
      simp only [translate]
      split <;> rfl
  | .or parts => leafCounts_translateAll parts
  | .and parts => leafCounts_translateAll parts
  | .not part => leafCount_translate part

/-- Translations have as many leaves. -/
theorem leafCounts_translateAll : ∀ cs : List Condition,
    Condition.leafCounts (a.translateAll cs) = Condition.leafCounts cs
  | [] => rfl
  | c :: cs => by
      rw [translateAll, Condition.leafCounts, Condition.leafCounts, leafCount_translate c,
        leafCounts_translateAll cs]

end

/-- A predicate binds the texts among its values. -/
theorem boundTexts_predicate (before after : String) (values : List Value) :
    (a.predicate before after values).boundTexts = values.filterMap Value.text? := by
  have hpath : a.expression.params = [.texts a.path] := by
    rw [expression]
    split <;> rfl
  rw [predicate, Condition.boundTexts, hpath]
  rfl

mutual

/-- A translation binds the same texts, by induction on the condition. -/
theorem boundTexts_translate : ∀ c : Condition, (a.translate c).boundTexts = c.boundTexts
  | .compare _ _ value => a.boundTexts_predicate "" _ [value]
  | .isIn _ values | .notIn _ values => by
      cases values with
      | nil => rfl
      | cons v vs => exact a.boundTexts_predicate "" _ (v :: vs)
  | .isNull _ | .isNotNull _ => a.boundTexts_predicate "" _ []
  | .like _ pattern => a.boundTexts_predicate _ _ [.text pattern]
  | .raw _ | .always | .never => rfl
  | .or parts => boundTextsOf_translateAll parts
  | .and parts => boundTextsOf_translateAll parts
  | .not part => boundTexts_translate part

/-- Translations bind the same texts. -/
theorem boundTextsOf_translateAll : ∀ cs : List Condition,
    Condition.boundTextsOf (a.translateAll cs) = Condition.boundTextsOf cs
  | [] => rfl
  | c :: cs => by
      rw [translateAll, Condition.boundTextsOf, Condition.boundTextsOf, boundTexts_translate c,
        boundTextsOf_translateAll cs]

end

/-! ### The two compilers -/

section

variable {values : List (Option String)} (h : some "null" ∉ values)

include h

theorem texts_eq_given : texts values = values.filterMap id := by
  refine List.filter_eq_self.mpr fun v hv => ?_
  have hmem : some v ∈ values := by simpa using hv
  have hnull : v ≠ "null" := fun he => h (he ▸ hmem)
  simpa using hnull

/-- Where null is not spelled out, it counts exactly if it is among the values. -/
theorem hasNull_eq_contains : hasNull values = values.contains none := by
  induction values with
  | nil => rfl
  | cons v values ih =>
      obtain ⟨hv, hrest⟩ := not_or.mp (mt List.mem_cons.mpr h)
      rw [hasNull, List.any_cons, List.contains_cons]
      cases v with
      | none => rfl
      | some s =>
          have hs : decide (s = "null") = false := decide_eq_false fun he => hv (he ▸ rfl)
          have hany := ih hrest
          rw [hasNull] at hany
          simpa [hs] using hany

end

/-- A membership is a predicate over the texts that are given. -/
theorem membership_eq (keyword : String) (given : List String) :
    a.membership keyword given =
      a.predicate "" (" " ++ keyword ++ " " ++ slots (given.map .text)) (given.map .text) := by
  have hopen : " (" = " " ++ "(" := rfl
  simp only [membership, predicate, slots, Fragment.append, List.map_map, String.empty_append, hopen,
    String.append_assoc]
  rfl

theorem isIn_translated (c : Column) {given : List String} (h : ¬ given.isEmpty = true) :
    a.membership "IN" given = a.translate (.isIn c (given.map .text)) := by
  rw [membership_eq, translate, List.isEmpty_map, if_neg h]
  rfl

theorem notIn_translated (c : Column) {given : List String} (h : ¬ given.isEmpty = true) :
    a.membership "NOT IN" given = a.translate (.notIn c (given.map .text)) := by
  rw [membership_eq, translate, List.isEmpty_map, if_neg h]
  rfl

variable {values : List (Option String)}

theorem isNull_translated (c : Column) : a.isNull = a.translate (.isNull c) := by
  simp [isNull, translate, predicate, Fragment.mapSql]

theorem isNotNull_translated (c : Column) : a.isNotNull = a.translate (.isNotNull c) := by
  simp [isNotNull, translate, predicate, Fragment.mapSql]

theorem containing_translated (c : Column) (value : String) :
    a.containing value = a.translate (.like c ("%" ++ value ++ "%")) := by
  simp [containing, translate, predicate, Fragment.mapSql, Fragment.append]

/-- A JSON equality is the translated equality of a column, unless null is spelled out. -/
theorem equality_translated (c : Column) (h : some "null" ∉ values) :
    a.equality values = a.translate (c.equality values) := by
  simp only [equality, Column.equality, texts_eq_given h, hasNull_eq_contains h, List.isEmpty_map]
  split
  · split
    · exact a.isNull_translated c
    · next hgiven =>
      rw [translate_anyOf, List.map_cons, List.map_singleton, a.isNull_translated c,
        a.isIn_translated c hgiven]
  · split
    · next hempty => rw [translate, List.isEmpty_map, if_pos hempty]
    · next hgiven => exact a.isIn_translated c hgiven

/-- A JSON comparison is the translated comparison of a column, unless null is spelled out. -/
theorem comparison_translated (c : Column) (op : Comparison) {value : Option String}
    (h : value ≠ some "null") :
    a.comparison op [value] = (c.comparison op value).map a.translate := by
  cases value with
  | none => rfl
  | some v =>
      have htexts : texts [some v] = [v] := texts_eq_given (by simpa using Ne.symm h)
      simp [comparison, htexts, Column.comparison, translate, predicate, Fragment.append]

variable {value : FilterValue}

/-- What a JSON attribute is like is what a column is like, translated, unless null is spelled out. -/
theorem like_translated (c : Column) {folded : Option FilterValue} (h : some "null" ∉ value.values)
    (hfolded : ∀ v, folded = some v → some "null" ∉ v.values) :
    a.conditions (.typed .like) value.values (folded.map FilterValue.values) =
      (c.conditions .like value folded).map a.translate := by
  have hpatterns : (texts value.values).map a.containing =
      ((value.values.filterMap id).map fun v => .like c ("%" ++ v ++ "%")).map a.translate := by
    rw [texts_eq_given h, List.map_map]
    exact List.map_congr_left fun v _ => a.containing_translated c v
  have hfold : ((folded.map FilterValue.values).map a.equality).toList =
      (folded.map fun f => c.equality f.values).toList.map a.translate := by
    cases folded with
    | none => rfl
    | some v => exact congrArg ([·]) (a.equality_translated c (hfolded v rfl))
  simp only [conditions, Column.conditions, hpatterns, hfold, ← List.map_append, List.isEmpty_map]
  split
  · rfl
  · rw [List.map_singleton, a.translate_anyOf]

/-- A JSON exclusion is the translated exclusion of a column, unless null is spelled out. -/
theorem not_translated (c : Column) (h : some "null" ∉ value.values) :
    a.conditions (.typed .not) value.values none =
      (c.conditions .not value none).map a.translate := by
  simp only [conditions, Column.conditions, texts_eq_given h, hasNull_eq_contains h,
    List.isEmpty_map, List.map_append]
  congr 1
  · split
    · exact congrArg ([·]) (a.isNotNull_translated c)
    · rfl
  · split
    · rfl
    · next hgiven => exact congrArg ([·]) (a.notIn_translated c hgiven)

end JsonAttribute

end Sql

/-! ### Terms -/

/-- Some value to choose from is the text `null`. -/
def FilterValue.SpellsNull (v : FilterValue) : Prop :=
  some "null" ∈ v.values

/-- The scalar of a value that does not spell null out is not a spelled null. -/
theorem FilterValue.scalar?_ne_null {v : FilterValue} (h : ¬ v.SpellsNull) :
    v.scalar? ≠ some "null" := by
  intro hscalar
  refine h ?_
  cases v with
  | null => cases hscalar
  | single s =>
      obtain rfl : s = "null" := Option.some.inj hscalar
      have hpiece : Text.split ',' "null" = ["null"] := by decide +kernel
      simp [SpellsNull, values, hpiece]
  | many values =>
      obtain ⟨v, hv, rfl⟩ := List.exists_of_findSome?_eq_some hscalar
      exact hv

namespace AttributeTarget

variable (a : JsonAttribute) (c : Sql.Column) {value : FilterValue}

/-- The conditions of a JSON equality are those of a column, translated. -/
theorem equalityConditions_translated (h : ¬ value.SpellsNull) :
    equalityConditions (.json a) value =
      (equalityConditions (.column c) value).map a.translate :=
  congrArg ([·]) (a.equality_translated c h)

/-- The conditions of a JSON operator are those of a column, translated. -/
theorem typedConditions_translated (op : FilterOperator) {folded : Option FilterValue}
    (h : ¬ value.SpellsNull) (hfolded : ∀ v, folded = some v → ¬ v.SpellsNull) :
    typedConditions (.json a) op value folded =
      (typedConditions (.column c) op value folded).map a.translate := by
  cases op with
  | like => exact a.like_translated c h hfolded
  | not => exact a.not_translated c h
  | lt => exact a.comparison_translated c .lt (FilterValue.scalar?_ne_null h)
  | lte => exact a.comparison_translated c .le (FilterValue.scalar?_ne_null h)
  | gt => exact a.comparison_translated c .gt (FilterValue.scalar?_ne_null h)
  | gte => exact a.comparison_translated c .ge (FilterValue.scalar?_ne_null h)

end AttributeTarget

namespace FilterTerm

/-- What is asked of the key. -/
def value : FilterTerm → FilterValue
  | .equality _ value => value
  | .typed _ _ value  => value

/-- The equality on the same key that joins the alternatives of a `like`. -/
def folded? (f : Filter) : FilterTerm → Option FilterValue
  | .typed .like key _ => f.equality? key
  | _                  => none

/-- The terms of two filters ask the same of their keys, in the same company: an equality is or is not
folded into a `like` on its key, and a `like` has the same equality folded into it. -/
inductive AsksAs (f f' : Filter) : FilterTerm → FilterTerm → Prop where
  | equality (key key' : String) (value : FilterValue)
      (folded : (f.typed? .like key).isSome = (f'.typed? .like key').isSome) :
      AsksAs f f' (.equality key value) (.equality key' value)
  | typed (op : FilterOperator) (key key' : String) (value : FilterValue)
      (folded : folded? f (.typed op key value) = folded? f' (.typed op key' value)) :
      AsksAs f f' (.typed op key value) (.typed op key' value)

end FilterTerm

namespace Context

/-- The conditions of a typed term whose key stands for something. -/
theorem termConditions_typed (ctx : Context) (f : Filter) (op : FilterOperator) (key : String)
    (value : FilterValue) {target : AttributeTarget} (h : ctx.qualify key = .ok (some target)) :
    ctx.termConditions f (.typed op key value) =
      .ok (target.typedConditions op value (FilterTerm.folded? f (.typed op key value))) := by
  rw [termConditions, h]
  cases op <;> rfl

/-- The conditions of an equality whose key stands for something, and none if it is folded into a
pattern. -/
theorem termConditions_equality (ctx : Context) (f : Filter) (key : String) (value : FilterValue)
    {target : AttributeTarget} (h : ctx.qualify key = .ok (some target)) :
    ctx.termConditions f (.equality key value) =
      .ok (if (f.typed? .like key).isSome then [] else target.equalityConditions value) := by
  rw [termConditions, h]
  split <;> rfl

/-- **Filters on JSON attributes and on columns agree.**  Let a key stand for a JSON attribute and
another one for a column, and let two terms ask the same of them, for values none of which is the text
`null`.  Then the conditions on the attribute are those on the column, translated one by one, with as
many predicates and the same texts bound in the same order. -/
theorem json_filters_translated (ctx ctx' : Context) (f f' : Filter) (term term' : FilterTerm)
    (a : JsonAttribute) (c : Sql.Column) (hjson : ctx.qualify term.key = .ok (some (.json a)))
    (hcolumn : ctx'.qualify term'.key = .ok (some (.column c))) (hasks : term.AsksAs f f' term')
    (hvalue : ¬ term.value.SpellsNull) (hfolded : ∀ v, term.folded? f = some v → ¬ v.SpellsNull) :
    ∃ cs, ctx'.termConditions f' term' = .ok cs ∧
      ctx.termConditions f term = .ok (cs.map a.translate) ∧
      Condition.leafCounts (cs.map a.translate) = Condition.leafCounts cs ∧
      Condition.boundTextsOf (cs.map a.translate) = Condition.boundTextsOf cs := by
  have hcounts (cs : List Condition) :
      Condition.leafCounts (cs.map a.translate) = Condition.leafCounts cs ∧
        Condition.boundTextsOf (cs.map a.translate) = Condition.boundTextsOf cs := by
    rw [← a.translateAll_eq_map]
    exact ⟨a.leafCounts_translateAll cs, a.boundTextsOf_translateAll cs⟩
  cases hasks with
  | equality key key' value folded =>
      refine ⟨_, termConditions_equality ctx' f' key' value hcolumn, ?_, hcounts _⟩
      rw [termConditions_equality ctx f key value hjson, folded]
      split
      · rfl
      · exact congrArg Except.ok (AttributeTarget.equalityConditions_translated a c hvalue)
  | typed op key key' value folded =>
      refine ⟨_, termConditions_typed ctx' f' op key' value hcolumn, ?_, hcounts _⟩
      rw [termConditions_typed ctx f op key value hjson, ← folded]
      exact congrArg Except.ok (AttributeTarget.typedConditions_translated a c op hvalue hfolded)

/-- A filter under `like` with an equality folded into it. -/
def foldedLike (key : String) : Filter :=
  ⟨[.equality key (.many [none, some "b"]), .typed .like [(key, .single "a,c")]]⟩

/-- Articles with a zip code inside a JSON column are filtered as articles with a title. -/
theorem zip_as_title :
    ∃ cs, (Blog.context true).termConditions (foldedLike "title")
        (.typed .like "title" (.single "a,c")) = .ok cs ∧
      (Blog.context true).termConditions (foldedLike "meta:zip")
        (.typed .like "meta:zip" (.single "a,c")) =
          .ok (cs.map (JsonAttribute.of (.of "articles" "meta") "zip" none).translate) ∧
      Condition.boundTextsOf cs = ["%a%", "%c%", "b"] := by
  have hjson : (Blog.context true).qualify "meta:zip" =
      .ok (some (.json (.of (.of "articles" "meta") "zip" none))) := by decide +kernel
  have hcolumn : (Blog.context true).qualify "title" =
      .ok (some (.column (.of "articles" "title"))) := by decide +kernel
  have hvalue : ¬ (FilterValue.single "a,c").SpellsNull := by
    have hpieces : (FilterValue.single "a,c").values = [some "a", some "c"] := by decide +kernel
    simp [FilterValue.SpellsNull, hpieces]
  have hfolded (v : FilterValue)
      (hv : (foldedLike "meta:zip").equality? "meta:zip" = some v) : ¬ v.SpellsNull := by
    obtain rfl : FilterValue.many [none, some "b"] = v := Option.some.inj hv
    simp [FilterValue.SpellsNull, FilterValue.values]
  obtain ⟨cs, hcs, htranslated, -, -⟩ := json_filters_translated (Blog.context true)
    (Blog.context true) (foldedLike "meta:zip") (foldedLike "title")
    (.typed .like "meta:zip" (.single "a,c")) (.typed .like "title" (.single "a,c")) _ _ hjson hcolumn
    (.typed _ _ _ _ rfl) hvalue hfolded
  refine ⟨cs, hcs, htranslated, ?_⟩
  have htexts : ((Blog.context true).termConditions (foldedLike "title")
      (.typed .like "title" (.single "a,c"))).toOption.map Condition.boundTextsOf =
        some ["%a%", "%c%", "b"] := by decide +kernel
  rw [hcs] at htexts
  exact Option.some.inj htexts

end Context

end ResourceQuery
