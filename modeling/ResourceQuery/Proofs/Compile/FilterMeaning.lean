import Mathlib.Data.List.Infix
import ResourceQuery.Proofs.Blog
import ResourceQuery.Proofs.Request.FilterTerms
import ResourceQuery.Proofs.Request.Offered
import ResourceQuery.Proofs.Sql.Truth

/-!
# Compile — what a filter asks of a row

A clause of a filter asks something of the columns that its keys stand for (`Asks`): to be among the values
on offer (`IsAmong`), to be outside them (`IsOutside`), to contain one of some texts, or to compare with a
text.  What is on offer is said of the filter as it is written (`FilterValue.Offers`, `Filter.Equates`), not
with the functions that read it.  The null is a value like others here; the conditions have to see to it,
since to SQL every test of the null is unknown.  They do: the `WHERE` clause of a filter keeps the rows that
have what all clauses ask for (`filter_meaning`).

* `Column.truth_equality`, `Column.truth_conditions`: the same for one column.
* `truth_termConditions`: the same for one term of a clause.
-/

namespace ResourceQuery

open Sql (Column Comparison Condition Truth)

namespace Sql.Row

variable {α : Type}

/-! ### What the terms of a filter ask of a column -/

/-- The column holds a value that compares with the text. -/
def Compares (r : Row α) (c : Column) (op : Comparison) (text : String) : Prop :=
  ∃ x, r.value c = some x ∧ r.compare op x (.text text) = true

/-- The column holds a value that contains the text, as the database matches. -/
def Contains (r : Row α) (c : Column) (text : String) : Prop :=
  ∃ x, r.value c = some x ∧ r.like x ("%" ++ text ++ "%") = true

/-- The column equals one of the texts on offer, or is null and the null is on offer. -/
def IsAmong (r : Row α) (c : Column) (value : FilterValue) : Prop :=
  (∃ v, value.Offers v ∧ r.Compares c .eq v) ∨ (r.value c = none ∧ value.OffersNull)

/-- The column is not null if the null is on offer, and is not null and differs from all texts on offer if
there are any. -/
def IsOutside (r : Row α) (c : Column) (value : FilterValue) : Prop :=
  (value.OffersNull → r.value c ≠ none) ∧
    ((∃ v, value.Offers v) → r.value c ≠ none ∧ ∀ v, value.Offers v → ¬ r.Compares c .eq v)

/-- What a typed entry asks of the column of its key, given which values an equality has on the same
key. -/
def Satisfies (r : Row α) (c : Column) (op : FilterOperator) (value : FilterValue)
    (equated : FilterValue → Prop) : Prop :=
  match op with
  | .like =>
    (∃ v, value.Offers v) ∨ (∃ e, equated e) →
      (∃ v, value.Offers v ∧ r.Contains c v) ∨ ∃ e, equated e ∧ r.IsAmong c e
  | .not  => r.IsOutside c value
  | .lt   => ∀ v, value.ComparesWith v → r.Compares c .lt v
  | .lte  => ∀ v, value.ComparesWith v → r.Compares c .le v
  | .gt   => ∀ v, value.ComparesWith v → r.Compares c .gt v
  | .gte  => ∀ v, value.ComparesWith v → r.Compares c .ge v

variable {r : Row α} {c : Column}

/-- A test is passed by a value for which it holds, and not by the null. -/
theorem test_eq_yes {holds : α → Bool} :
    r.test c holds = .yes ↔ ∃ x, r.value c = some x ∧ holds x = true := by
  rw [test]
  cases r.value c <;> simp

/-- A test is failed by a value for which it does not hold, and not by the null. -/
theorem test_eq_no {holds : α → Bool} :
    r.test c holds = .no ↔ ∃ x, r.value c = some x ∧ holds x = false := by
  rw [test]
  cases r.value c <;> simp

/-- A membership among texts holds for a row that compares as equal with one of them. -/
theorem membership_eq_yes {texts : List String} :
    r.membership c (texts.map .text) = .yes ↔ ∃ v ∈ texts, r.Compares c .eq v := by
  rw [membership, Truth.any_eq_yes, List.map_map, List.mem_map]
  exact exists_congr fun v => and_congr_right fun _ => test_eq_yes

/-- A column is known to be none of some texts when it is not null and differs from all of them. -/
theorem membership_eq_no {texts : List String} (h : texts ≠ []) :
    r.membership c (texts.map .text) = .no ↔
      r.value c ≠ none ∧ ∀ v ∈ texts, ¬ r.Compares c .eq v := by
  obtain ⟨w, ws, rfl⟩ := List.exists_cons_of_ne_nil h
  rw [membership, Truth.any_eq_no, List.map_map]
  simp only [List.forall_mem_map, Function.comp_apply, compared, test_eq_no, Compares]
  constructor
  · intro hall
    obtain ⟨x, hx, -⟩ := hall w List.mem_cons_self
    refine ⟨by simp [hx], fun v hv => ?_⟩
    rintro ⟨y, hy, heq⟩
    obtain ⟨z, hz, hne⟩ := hall v hv
    obtain rfl : y = z := Option.some.inj (hy.symm.trans hz)
    rw [heq] at hne
    cases hne
  · rintro ⟨hnull, hall⟩ v hv
    obtain ⟨x, hx⟩ := Option.ne_none_iff_exists'.mp hnull
    exact ⟨x, hx, Bool.eq_false_iff.mpr fun heq => hall v hv ⟨x, hx, heq⟩⟩

end Sql.Row

/-! ### The conditions on a column -/

namespace Sql.Column

variable {α : Type} {r : Row α} {c : Column} {value : FilterValue}

theorem mem_texts {values : List (Option String)} {v : String} :
    v ∈ values.filterMap id ↔ some v ∈ values := by
  simp

theorem mem_offered {v : String} : v ∈ value.values.filterMap id ↔ value.Offers v :=
  mem_texts.trans FilterValue.offers_iff.symm

theorem exists_offered : (∃ v, value.Offers v) ↔ value.values.filterMap id ≠ [] := by
  simp only [← mem_offered]
  exact ⟨fun ⟨v, hv⟩ => List.ne_nil_of_mem hv, List.exists_mem_of_ne_nil _⟩

/-- The condition of an equality is true of the rows whose column is among its values. -/
theorem truth_equality (value : FilterValue) :
    (c.equality value.values).truth r = .yes ↔ r.IsAmong c value := by
  have hin : (Condition.isIn c ((value.values.filterMap id).map .text)).truth r = .yes ↔
      ∃ v, value.Offers v ∧ r.Compares c .eq v := by
    simp only [Condition.truth, Row.membership_eq_yes, mem_offered]
  have hnull : (Condition.isNull c).truth r = .yes ↔ r.value c = none := by
    simp [Condition.truth]
  simp only [equality, List.contains_iff_mem, List.isEmpty_iff, List.map_eq_nil_iff, Row.IsAmong,
    FilterValue.offersNull_iff]
  split
  case isTrue hnone =>
    split
    case isTrue hempty =>
      -- no text is given, so only the null is left
      have hnotext : ¬ ∃ v, value.Offers v ∧ r.Compares c .eq v := by
        rintro ⟨v, hv, -⟩
        exact exists_offered.mp ⟨v, hv⟩ hempty
      rw [hnull, and_iff_left hnone, or_iff_right hnotext]
    case isFalse =>
      simp only [Condition.truth_anyOf, List.mem_cons, List.not_mem_nil, or_false, or_and_right,
        exists_or, exists_eq_left, hnull, hin, and_iff_left hnone]
      exact or_comm
  case isFalse hnone =>
    rw [hin, or_iff_left fun h => hnone h.2]

/-- Without a text to compare with there is no condition, and nothing is asked. -/
theorem truth_comparison (op : Comparison) (value : FilterValue) :
    (∀ d ∈ c.comparison op value.scalar?, d.truth r = .yes) ↔
      ∀ v, value.ComparesWith v → r.Compares c op v := by
  simp only [FilterValue.comparesWith_iff]
  cases value.scalar? with
  | none => simp [comparison]
  | some v => simp [comparison, Condition.truth, Row.compared, Row.test_eq_yes, Row.Compares]

/-- One of the alternatives of a `like` is true when a text is contained or the equality holds. -/
theorem truth_alternatives (value : FilterValue) (equality : Option FilterValue) :
    (∃ d ∈ (value.values.filterMap id).map (fun v => .like c ("%" ++ v ++ "%")) ++
        (equality.map fun e => c.equality e.values).toList, d.truth r = .yes) ↔
      (∃ v, value.Offers v ∧ r.Contains c v) ∨ ∃ e, equality = some e ∧ r.IsAmong c e := by
  constructor
  · rintro ⟨d, hd, hyes⟩
    rcases List.mem_append.mp hd with hd | hd
    · obtain ⟨v, hv, rfl⟩ := List.mem_map.mp hd
      exact .inl ⟨v, mem_offered.mp hv, Row.test_eq_yes.mp hyes⟩
    · obtain ⟨e, rfl, rfl⟩ := Option.map_eq_some_iff.mp (Option.mem_toList.mp hd)
      exact .inr ⟨e, rfl, (truth_equality e).mp hyes⟩
  · rintro (⟨v, hv, hcontains⟩ | ⟨e, rfl, hamong⟩)
    · exact ⟨_, List.mem_append_left _ (List.mem_map.mpr ⟨v, mem_offered.mpr hv, rfl⟩),
        Row.test_eq_yes.mpr hcontains⟩
    · exact ⟨_, List.mem_append_right _ (List.mem_singleton.mpr rfl), (truth_equality e).mpr hamong⟩

/-- Under `like`, a text on offer is contained or the equality on the same key holds. -/
theorem truth_like (value : FilterValue) (equality : Option FilterValue) :
    (∀ d ∈ c.conditions .like value equality, d.truth r = .yes) ↔
      r.Satisfies c .like value fun e => equality = some e := by
  simp only [conditions, Row.Satisfies, ← truth_alternatives, List.isEmpty_iff, exists_offered]
  split
  case isTrue hempty =>
    -- without alternatives there is no condition, and nothing is asked
    obtain ⟨htexts, hequality⟩ := List.append_eq_nil_iff.mp hempty
    have hnothing : ¬ (value.values.filterMap id ≠ [] ∨ ∃ e, equality = some e) := by
      rintro (htext | ⟨e, rfl⟩)
      · exact htext (List.map_eq_nil_iff.mp htexts)
      · cases hequality
    exact ⟨fun _ h => absurd h hnothing, fun _ => List.forall_mem_nil _⟩
  case isFalse hfull =>
    have hasked : value.values.filterMap id ≠ [] ∨ ∃ e, equality = some e := by
      by_contra hnone
      obtain ⟨htexts, hequality⟩ := not_or.mp hnone
      exact hfull (by simp_all [Option.eq_none_iff_forall_ne_some])
    rw [List.forall_mem_singleton, Condition.truth_anyOf]
    exact ⟨fun h _ => h, fun h => h hasked⟩

/-- Under `not`, the column is outside the values. -/
theorem truth_not (value : FilterValue) (equality : Option FilterValue) {equated : FilterValue → Prop} :
    (∀ d ∈ c.conditions .not value equality, d.truth r = .yes) ↔
      r.Satisfies c .not value equated := by
  simp only [conditions, Row.Satisfies, Row.IsOutside, List.forall_mem_append]
  refine and_congr ?_ ?_
  · rw [FilterValue.offersNull_iff]
    by_cases hnone : none ∈ value.values
    · simp [hnone, Condition.truth, Option.isSome_iff_ne_none]
    · simp [hnone]
  · simp only [exists_offered, List.isEmpty_iff, List.map_eq_nil_iff]
    split
    case isTrue hempty => exact ⟨fun _ h => absurd hempty h, fun _ => List.forall_mem_nil _⟩
    case isFalse hgiven =>
      rw [List.forall_mem_singleton, Condition.truth, Truth.not_eq_yes, Row.membership_eq_no hgiven]
      simp only [mem_offered]
      exact ⟨fun h _ => h, fun h => h hgiven⟩

/-- The conditions of a typed entry are true of the rows that have what the entry asks for. -/
theorem truth_conditions (op : FilterOperator) (value : FilterValue)
    (equality : Option FilterValue) :
    (∀ d ∈ c.conditions op value equality, d.truth r = .yes) ↔
      r.Satisfies c op value fun e => equality = some e := by
  cases op with
  | like => exact truth_like value equality
  | not => exact truth_not value equality
  | lt => exact truth_comparison .lt value
  | gt => exact truth_comparison .gt value
  | lte => exact truth_comparison .le value
  | gte => exact truth_comparison .ge value

end Sql.Column

/-! ### The conditions of a filter -/

namespace Context

variable {α : Type} {ctx : Context} {f : Filter}

/-- The key stands for a plain column or for nothing. -/
def IsPlain (ctx : Context) (key : String) : Prop :=
  ctx.qualify key = .ok none ∨ ∃ c, ctx.qualify key = .ok (some (.column c))

/-- What a clause of a filter asks of a row.  Nothing is asked of a key that stands for nothing, and an
equality on a key that is also under `like` asks nothing of its own. -/
def Asks (ctx : Context) (f : Filter) (r : Sql.Row α) : FilterClause → Prop
  | .equality key value =>
    ¬ f.Matches key → ∀ c, ctx.qualify key = .ok (some (.column c)) → r.IsAmong c value
  | .typed op entries   =>
    ∀ key value, (key, value) ∈ entries →
      ∀ c, ctx.qualify key = .ok (some (.column c)) → r.Satisfies c op value (f.Equates key)

/-- What a term of a clause asks of a row. -/
def AsksOne (ctx : Context) (f : Filter) (r : Sql.Row α) : FilterTerm → Prop
  | .equality key value =>
    ¬ f.Matches key → ∀ c, ctx.qualify key = .ok (some (.column c)) → r.IsAmong c value
  | .typed op key value =>
    ∀ c, ctx.qualify key = .ok (some (.column c)) → r.Satisfies c op value (f.Equates key)

/-- A clause asks what its terms ask. -/
theorem asks_iff {r : Sql.Row α} (clause : FilterClause) :
    ctx.Asks f r clause ↔ ∀ term ∈ clause.terms, ctx.AsksOne f r term := by
  cases clause with
  | equality key value =>
      rw [FilterClause.terms, List.forall_mem_singleton]
      rfl
  | typed op entries =>
      rw [FilterClause.terms, List.forall_mem_map, Prod.forall]
      rfl

/-- Only a `like` looks at the equality on the same key. -/
theorem satisfies_folded {r : Sql.Row α} {c : Column} {op : FilterOperator} {key : String}
    {value : FilterValue} :
    (r.Satisfies c op value fun e => (if op = .like then f.equality? key else none) = some e) ↔
      r.Satisfies c op value (f.Equates key) := by
  cases op with
  | like =>
      have hequated : (fun e => f.equality? key = some e) = f.Equates key :=
        funext fun e => propext Filter.equality?_eq_some_iff
      rw [if_pos rfl, hequated]
  | not | lt | lte | gt | gte => exact Iff.rfl

theorem forall_column_of_none {key : String} {P : Column → Prop} (h : ctx.qualify key = .ok none) :
    ∀ c, ctx.qualify key = .ok (some (.column c)) → P c := by
  rw [h]
  nofun

/-- What is asked of the column of a key is asked of one column. -/
theorem forall_column_iff {key : String} {c : Column} {P : Column → Prop}
    (h : ctx.qualify key = .ok (some (.column c))) :
    (∀ d, ctx.qualify key = .ok (some (.column d)) → P d) ↔ P c := by
  refine ⟨fun hall => hall c h, fun hc d hd => ?_⟩
  cases h.symm.trans hd
  exact hc

/-- The conditions of a term are true of the rows that have what the term asks for. -/
theorem truth_termConditions {term : FilterTerm} (h : ctx.IsPlain term.key) :
    ∃ cs, ctx.termConditions f term = .ok cs ∧ ∀ (α : Type) (r : Sql.Row α),
      (∀ d ∈ cs, d.truth r = .yes) ↔ ctx.AsksOne f r term := by
  cases term with
  | equality key value =>
      have h : ctx.IsPlain key := h
      by_cases hlike : f.Matches key
      · have hfound := Filter.typed?_like_isSome_iff.mpr hlike
        refine ⟨[], by simp only [termConditions, if_pos hfound], fun α r => ?_⟩
        exact ⟨fun _ hnone => absurd hlike hnone, fun _ => List.forall_mem_nil _⟩
      · simp only [termConditions, if_neg (mt Filter.typed?_like_isSome_iff.mp hlike)]
        rcases h with hkey | ⟨c, hkey⟩
        · refine ⟨[], bind_pure_eq_ok.mpr ⟨none, hkey, rfl⟩, fun α r => ?_⟩
          exact ⟨fun _ _ => forall_column_of_none hkey, fun _ => List.forall_mem_nil _⟩
        · refine ⟨[c.equality value.values], bind_pure_eq_ok.mpr ⟨_, hkey, rfl⟩, fun α r => ?_⟩
          rw [List.forall_mem_singleton, Column.truth_equality, AsksOne, forall_column_iff hkey]
          exact ⟨fun h _ => h, fun h => h hlike⟩
  | typed op key value =>
      have h : ctx.IsPlain key := h
      rcases h with hkey | ⟨c, hkey⟩
      · refine ⟨[], bind_pure_eq_ok.mpr ⟨none, hkey, rfl⟩, fun α r => ?_⟩
        exact ⟨fun _ => forall_column_of_none hkey, fun _ => List.forall_mem_nil _⟩
      · refine ⟨_, bind_pure_eq_ok.mpr ⟨_, hkey, rfl⟩, fun α r => ?_⟩
        rw [AsksOne, forall_column_iff hkey, ← satisfies_folded]
        exact Column.truth_conditions op value _

/-- What the terms of a filter add to a query is true of the rows that have what all of them ask. -/
theorem exists_added (terms : List FilterTerm) (h : ∀ term ∈ terms, ctx.IsPlain term.key) :
    ∃ added, (∀ q, Stage.all (terms.map fun term => .add (ctx.termConditions f term)
        fun q conditions => conditions.foldl Sql.Query.restrict q) q =
          ⟨{ q with conditions := q.conditions ++ added }, none⟩) ∧
      ∀ (α : Type) (r : Sql.Row α),
        (∀ d ∈ added, d.truth r = .yes) ↔ ∀ term ∈ terms, ctx.AsksOne f r term := by
  induction terms with
  | nil => exact ⟨[], fun q => by simp, fun α r => by simp⟩
  | cons term terms ih =>
      obtain ⟨hterm, hterms⟩ := List.forall_mem_cons.mp h
      obtain ⟨cs, hcs, hfirst⟩ := truth_termConditions (f := f) hterm
      obtain ⟨added, hrun, hrest⟩ := ih hterms
      refine ⟨cs ++ added, fun q => ?_, fun α r => ?_⟩
      · refine Stage.runs_cons.mpr ⟨_, Stage.runs_add.mpr ⟨cs, hcs, rfl⟩, ?_⟩
        rw [Sql.Query.foldl_restrict, Stage.Runs, hrun, List.append_assoc]
      · rw [List.forall_mem_append, List.forall_mem_cons, hfirst, hrest]

/-- **What a filter asks of a row.**  When every key of a filter stands for a plain column or for
nothing, the filter stage succeeds, and what it adds to the `WHERE` clause is true of the rows that
have what every clause of the filter asks for.  In a filter that pushes have made, each equality is the one
on its key, and it is applied by exactly one term, be it the equality itself or the `like` into which it is
folded. -/
theorem filter_meaning (ctx : Context) (f : Filter) (hplain : ∀ key ∈ f.keys, ctx.IsPlain key) :
    (∃ added, (∀ q, ctx.filterStage f q =
        ⟨{ q with conditions := q.conditions ++ added }, none⟩) ∧
      ∀ (α : Type) (r : Sql.Row α),
        Condition.truthOfAll r added = .yes ↔ ∀ clause ∈ f.clauses, ctx.Asks f r clause) ∧
    (f.Built → ∀ key value, .equality key value ∈ f.clauses →
      f.Equates key value ∧ f.terms.countP (f.applies key) = 1) := by
  have hterms : ∀ term ∈ f.terms, ctx.IsPlain term.key :=
    fun term hterm => hplain _ (Filter.key_mem_keys hterm)
  obtain ⟨added, hrun, hasks⟩ := exists_added (f := f) f.terms hterms
  refine ⟨⟨added, hrun, fun α r => ?_⟩, fun hbuilt key value hmem => ?_⟩
  · rw [Condition.truthOfAll_eq_yes, hasks, Filter.terms, List.forall_mem_flatMap]
    exact forall₂_congr fun clause _ => (asks_iff clause).symm
  · exact ⟨Filter.equality?_eq_some_iff.mp (hbuilt.equality?_eq hmem), hbuilt.countP_applies hmem⟩

/-- The title is `a`, is null or contains `b` or `c`, the kind is one of two, the status is neither null nor
`draft`, there are more than 5 views, and a path that cannot be followed is compared. -/
def titled : Filter :=
  ({} : Filter)
    |>.pushEquality "title" (.many [some "a", none])
    |>.pushEquality "kind" (.single "news,blog")
    |>.pushTyped .like "title" (.single "b,c")
    |>.pushTyped .not "status" (.many [none, some "draft"])
    |>.pushTyped .gt "views" (.many [none, some "5"])
    |>.pushTyped .gt "editor.name" (.single "5")

/-- An article with its title, kind, status and views, in a database that matches and compares texts
character by character. -/
def article (title kind status views : Option String) : Sql.Row String where
  value c :=
    if c = .of "articles" "title" then title
    else if c = .of "articles" "kind" then kind
    else if c = .of "articles" "status" then status
    else if c = .of "articles" "views" then views
    else none
  compare op x v :=
    match op, v with
    | .eq, .text s => x = s
    | .gt, .text s => s < x
    | _,   _       => false
  like x pattern := decide (pattern.toList.filter (· ≠ '%') <:+: x.toList)
  raw _ := .unknown

/-- Articles with the title `a`, with no title, and with one that contains `c`. -/
def keptArticles : List (Sql.Row String) :=
  [article (some "a") (some "news") (some "live") (some "7"),
   article none (some "blog") (some "live") (some "7"),
   article (some "xcx") (some "news") (some "live") (some "6")]

/-- Articles that fail on the title, on the kind, which is the whole text, on the status twice, and on the
views twice. -/
def droppedArticles : List (Sql.Row String) :=
  [article (some "d") (some "news") (some "live") (some "7"),
   article (some "a") (some "news,blog") (some "live") (some "7"),
   article (some "a") (some "news") none (some "7"),
   article (some "a") (some "news") (some "draft") (some "7"),
   article (some "a") (some "news") (some "live") (some "5"),
   article (some "a") (some "news") (some "live") none]

/-- Rows are kept and dropped as the filter says, and the values under its key are as they have been
pushed. -/
theorem titled_meaning :
    (∀ key ∈ titled.keys, (Blog.context false).IsPlain key) ∧ titled.Built ∧
    (∃ added, (∀ q, (Blog.context false).filterStage titled q =
        ⟨{ q with conditions := q.conditions ++ added }, none⟩) ∧
      (∀ r ∈ keptArticles, Condition.truthOfAll r added = .yes ∧
        ∀ clause ∈ titled.clauses, (Blog.context false).Asks titled r clause) ∧
      ∀ r ∈ droppedArticles, Condition.truthOfAll r added ≠ .yes ∧
        ¬ ∀ clause ∈ titled.clauses, (Blog.context false).Asks titled r clause) ∧
    titled.Equates "title" (.many [some "a", none]) ∧
    titled.terms.countP (titled.applies "title") = 1 := by
  have hkeys : titled.keys = ["title", "kind", "title", "status", "views", "editor.name"] := by
    decide +kernel
  have hplain : ∀ key ∈ titled.keys, (Blog.context false).IsPlain key := by
    simp only [hkeys, List.forall_mem_cons]
    have hcolumn (key : String)
        (h : (Blog.context false).qualify key = .ok (some (.column (.of "articles" key)))) :
        (Blog.context false).IsPlain key := .inr ⟨_, h⟩
    exact ⟨hcolumn "title" (by decide +kernel), hcolumn "kind" (by decide +kernel),
      hcolumn "title" (by decide +kernel), hcolumn "status" (by decide +kernel),
      hcolumn "views" (by decide +kernel), .inl (by decide +kernel), nofun⟩
  have hbuilt : titled.Built :=
    .typed _ _ _ (.typed _ _ _ (.typed _ _ _ (.typed _ _ _ (.equality _ _ (.equality _ _ .empty)))))
  obtain ⟨⟨added, hrun, hasks⟩, honce⟩ := filter_meaning (Blog.context false) titled hplain
  have hmem : .equality "title" (.many [some "a", none]) ∈ titled.clauses := by decide +kernel
  obtain ⟨hequates, hcount⟩ := honce hbuilt _ _ hmem
  -- what is added is what the stage adds to a query without conditions
  have hadded : ((Blog.context false).filterStage titled (.ofTable "articles" "articles")).1.conditions =
      added := by
    rw [hrun]
    rfl
  have hkept : ∀ r ∈ keptArticles, Condition.truthOfAll r added = .yes := by
    rw [← hadded]
    decide +kernel
  have hdropped : ∀ r ∈ droppedArticles, Condition.truthOfAll r added ≠ .yes := by
    rw [← hadded]
    decide +kernel
  exact ⟨hplain, hbuilt,
    ⟨added, hrun, fun r hr => ⟨hkept r hr, (hasks _ r).mp (hkept r hr)⟩,
      fun r hr => ⟨hdropped r hr, mt (hasks _ r).mpr (hdropped r hr)⟩⟩, hequates, hcount⟩

end Context

end ResourceQuery
