import ResourceQuery.Proofs.Except
import ResourceQuery.Proofs.Sql.Reports

/-!
# Sql — the statements of a query agree

A query is written down as a whole (`build`), one page at a time (`buildPage`) and as a count of its
rows (`buildCount`).  When its fragments fit their parameters, only the limits on size stand in the
way, and they stop all three alike (`TooComplex`).  Otherwise the three are parts of one text:

* a page is the query without its own window, followed by the window of the page;
* the count of a distinct or grouped query is taken over the query without its order, as a subquery;
* any other count is the query for all columns in no order (`bare`) with `*` replaced by the count.

The values go with the text in each case: what is left out takes its values along, and the
placeholders after it are numbered anew.
-/

namespace ResourceQuery.Sql

/-! ### Text around a template -/

namespace Template

theorem statement_text_append (s : String) (t : Template) :
    (text s ++ t).statement = ⟨s ++ t.statement.sql, t.statement.params⟩ := by
  simp only [statement, charsFrom_append, charsFrom_text, params_append, params_text,
    List.nil_append, List.length_nil, Nat.add_zero, Statement.mk.injEq, and_true]
  rw [String.ofList_append, String.ofList_toList]

theorem statement_append_text (t : Template) (s : String) :
    (t ++ text s).statement = ⟨t.statement.sql ++ s, t.statement.params⟩ := by
  simp only [statement, charsFrom_append, charsFrom_text, params_append, params_text,
    List.append_nil, Statement.mk.injEq, and_true]
  rw [String.ofList_append, String.ofList_toList]

end Template

namespace Query

variable {q : Query}

/-- When all fragments fit, the parts of a statement have templates. -/
theorem templates_exist (h : ∀ f ∈ q.fragments, f.Fits) :
    (∃ t, q.selectList = .ok t) ∧ (∃ t, q.whereTemplate = .ok t) ∧ (∃ t, q.groupTemplate = .ok t) ∧
      ∃ t, q.orderTemplate = .ok t := by
  simp only [fragments, List.forall_mem_append] at h
  obtain ⟨⟨⟨hprojections, hconditions⟩, hgroups⟩, horders⟩ := h
  exact ⟨q.reports_selectList.succeeds hprojections, q.reports_whereTemplate.succeeds hconditions,
    q.reports_groupTemplate.succeeds hgroups, q.reports_orderTemplate.succeeds horders⟩

/-! ### Variants of a query -/

/-- The query without limit and offset. -/
def unpaged (q : Query) : Query :=
  { q with limit := none, offset := none }

/-- The query in no order. -/
def unordered (q : Query) : Query :=
  { q with orderTerms := [] }

/-- The query for all columns in no order. -/
def bare (q : Query) : Query :=
  { q with projections := [], orderTerms := [] }

/-- The text of a limit and an offset. -/
def windowText (limit offset : UInt64) : String :=
  " LIMIT " ++ toString limit.toNat ++ if 0 < offset then " OFFSET " ++ toString offset.toNat else ""

/-- The query has more predicates or more joins than it may have. -/
def TooComplex (q : Query) : Prop :=
  q.maxConditions < q.predicates.length ∨ q.maxJoins < q.joins.length

instance (q : Query) : Decidable q.TooComplex :=
  inferInstanceAs (Decidable (_ ∨ _))

/-- A query that is too complex is refused as such. -/
theorem validate_of_tooComplex (h : q.TooComplex) :
    ∃ e, e.isTooComplex = true ∧ q.validate = .error e := by
  rw [validate, conditionCount_eq]
  split
  · exact ⟨_, rfl, rfl⟩
  · next hfew => exact ⟨_, rfl, if_pos (h.resolve_left hfew)⟩

theorem validate_of_not_tooComplex (h : ¬ q.TooComplex) : q.validate = .ok () := by
  obtain ⟨hconditions, hjoins⟩ := not_or.mp h
  rw [validate, conditionCount_eq, if_neg hconditions, if_neg hjoins]

variable {select ordering : Template}

/-- The statement of a query whose parts have templates. -/
theorem build_eq (hvalid : q.validate = .ok ()) (hselect : q.selectTemplate = .ok select)
    (hordering : q.orderTemplate = .ok ordering) :
    q.build = .ok (select ++ ordering ++ Template.text q.windowSql).statement := by
  simp only [build_eq_template, template, hvalid, hselect, hordering]
  rfl

theorem buildCount_eq {t : Template} (hvalid : q.validate = .ok ()) (ht : q.countTemplate = .ok t) :
    q.buildCount = .ok t.statement := by
  simp only [buildCount_eq_template, hvalid, ht]
  rfl

/-- All values are bound before the window. -/
theorem build_eq_unpaged (hvalid : q.validate = .ok ()) (hselect : q.selectTemplate = .ok select)
    (hordering : q.orderTemplate = .ok ordering) :
    q.unpaged.build = .ok (select ++ ordering).statement ∧
      q.build = .ok ⟨(select ++ ordering).statement.sql ++ q.windowSql,
        (select ++ ordering).statement.params⟩ := by
  constructor
  · rw [build_eq (q := q.unpaged) hvalid hselect hordering]
    exact congrArg (fun t => Except.ok (Template.statement t)) (List.append_nil _)
  · rw [build_eq hvalid hselect hordering, Template.statement_append_text]

/-- The count of a distinct or grouped query is over the query without its order. -/
theorem buildCount_of_collapsed (hcollapsed : (q.distinct || !q.groupTerms.isEmpty) = true)
    (hvalid : q.validate = .ok ()) (hselect : q.selectTemplate = .ok select) :
    ∃ inner, q.unordered.unpaged.build = .ok inner ∧
      q.buildCount =
        .ok ⟨"SELECT COUNT(*) AS total FROM (" ++ inner.sql ++ ") AS counted", inner.params⟩ := by
  refine ⟨select.statement, ?_, ?_⟩
  · rw [(build_eq_unpaged (q := q.unordered) hvalid hselect rfl).1, List.append_nil]
  · have ht : q.countTemplate = .ok (Template.text "SELECT COUNT(*) AS total FROM (" ++ select ++
        Template.text ") AS counted") := by
      rw [countTemplate, if_pos hcollapsed, hselect]
      rfl
    rw [buildCount_eq hvalid ht, Template.statement_append_text, Template.statement_text_append]

/-- Any other count has the tables and the conditions of the query. -/
theorem buildCount_of_not_collapsed (hplain : ¬ (q.distinct || !q.groupTerms.isEmpty) = true)
    (hvalid : q.validate = .ok ()) {condition : Template}
    (hcondition : q.whereTemplate = .ok condition) :
    ∃ rest params, q.bare.unpaged.build = .ok ⟨"SELECT *" ++ rest, params⟩ ∧
      q.buildCount = .ok ⟨"SELECT COUNT(*) AS total" ++ rest, params⟩ := by
  obtain ⟨hdistinct, hgroups⟩ : q.distinct = false ∧ q.groupTerms = [] := by simpa using hplain
  have hrest (head : String) : Template.text (head ++ " FROM ") ++ q.fromTemplate ++ condition =
      Template.text head ++ (Template.text " FROM " ++ q.fromTemplate ++ condition) := by
    rw [Template.text_append, List.append_assoc, List.append_assoc, List.append_assoc]
  -- the bare query keeps the tables and the conditions, which is what the count writes
  have hselect : q.bare.selectTemplate =
      .ok (Template.text ("SELECT *" ++ " FROM ") ++ q.fromTemplate ++ condition) := by
    have hlist : q.bare.selectList = .ok (Template.text "*") := rfl
    have hwhere : q.bare.whereTemplate = .ok condition := hcondition
    have hgrouping : q.bare.groupTemplate = .ok [] := if_pos (by rw [bare, hgroups]; rfl)
    have hkeyword : "SELECT " ++ (if q.bare.distinct then "DISTINCT " else "") = "SELECT " := by
      rw [bare, hdistinct]
      rfl
    have hhead : Template.text "SELECT *" = Template.text "SELECT " ++ Template.text "*" := by
      rw [← Template.text_append]
      rfl
    simp only [selectTemplate, hlist, hwhere, hgrouping, hkeyword, Template.text_append, hhead]
    exact congrArg Except.ok (List.append_nil _)
  refine ⟨(Template.text " FROM " ++ q.fromTemplate ++ condition).statement.sql,
    (Template.text " FROM " ++ q.fromTemplate ++ condition).statement.params, ?_, ?_⟩
  · rw [(build_eq_unpaged (q := q.bare) hvalid hselect rfl).1, List.append_nil, hrest,
      Template.statement_text_append]
  · have ht : q.countTemplate =
        .ok (Template.text ("SELECT COUNT(*) AS total" ++ " FROM ") ++ q.fromTemplate ++
          condition) := by
      rw [countTemplate, if_neg hplain, hcondition]
      rfl
    rw [buildCount_eq hvalid ht, hrest, Template.statement_text_append]

/-- **The statements of a query agree.**  When every fragment has as many placeholders as parameters,
a query that is too complex has none of its statements, for the same reason; otherwise it has all.
With `s` the statement of the query without a window, a page adds its own limit and, if it is not
zero, its offset to the text of `s` and no values.  The count of a distinct or grouped query is taken
over the statement of the query without its order; any other count is the statement of the query for
all columns in no order with the count in the place of `*`. -/
theorem renderings_agree (q : Query) (hfits : ∀ f ∈ q.fragments, f.Fits) :
    (q.TooComplex → ∃ e, e.isTooComplex = true ∧ q.build = .error e ∧
      (∀ page, q.buildPage page = .error e) ∧ q.buildCount = .error e) ∧
    (¬ q.TooComplex → ∃ s, q.unpaged.build = .ok s ∧ q.build = .ok ⟨s.sql ++ q.windowSql, s.params⟩ ∧
      (∀ page : PageRequest, q.buildPage page =
        .ok ⟨s.sql ++ windowText page.limitOffset.1 page.limitOffset.2, s.params⟩) ∧
      if q.distinct || !q.groupTerms.isEmpty then
        ∃ inner, q.unordered.unpaged.build = .ok inner ∧ q.buildCount =
          .ok ⟨"SELECT COUNT(*) AS total FROM (" ++ inner.sql ++ ") AS counted", inner.params⟩
      else
        ∃ rest params, q.bare.unpaged.build = .ok ⟨"SELECT *" ++ rest, params⟩ ∧
          q.buildCount = .ok ⟨"SELECT COUNT(*) AS total" ++ rest, params⟩) := by
  constructor
  · intro hcomplex
    obtain ⟨e, he, hinvalid⟩ := validate_of_tooComplex hcomplex
    -- validation looks at neither the window nor the page
    have hbuild (page : Query) (hpage : page.validate = .error e) : page.build = .error e := by
      rw [build, hpage]
      rfl
    refine ⟨e, he, hbuild q hinvalid, fun page => hbuild (q.paginate _ _) hinvalid, ?_⟩
    rw [buildCount, hinvalid]
    rfl
  · intro hsmall
    have hvalid := validate_of_not_tooComplex hsmall
    obtain ⟨⟨list, hlist⟩, ⟨condition, hcondition⟩, ⟨grouping, hgrouping⟩, ordering, hordering⟩ :=
      templates_exist hfits
    obtain ⟨select, hselect⟩ : ∃ select, q.selectTemplate = .ok select := by
      simp only [selectTemplate, hlist, hcondition, hgrouping]
      exact ⟨_, rfl⟩
    obtain ⟨hunpaged, hbuild⟩ := build_eq_unpaged hvalid hselect hordering
    refine ⟨_, hunpaged, hbuild, fun page => ?_, ?_⟩
    · exact (build_eq_unpaged (q := q.paginate page.limitOffset.1 page.limitOffset.2) hvalid hselect
        hordering).2
    · split
      · next hcollapsed => exact buildCount_of_collapsed hcollapsed hvalid hselect
      · next hplain => exact buildCount_of_not_collapsed hplain hvalid hcondition

/-- Values in the `SELECT` list, in a join, in a condition and in an order. -/
def ranked : Query :=
  ((((ofTable "t" "t").select (.expression ⟨"round(a, ?)", [.int 2]⟩)).join
    ⟨"u", "u", [.value (.of "u" "kind") (.text "k")]⟩).restrict
      (.compare (.of "t" "b") .ge (.int 3))).orderBy (.expression ⟨"mod(c, ?)", [.int 7]⟩ .desc)

/-- A query with a rank renders alike with a page, without a fieldset and as a count. -/
theorem ranked_agree :
    ∃ s rest params, ranked.unpaged.build = .ok s ∧
      ranked.buildPage (.numbered 10 3) = .ok ⟨s.sql ++ " LIMIT 10 OFFSET 20", s.params⟩ ∧
      ranked.bare.unpaged.build = .ok ⟨"SELECT *" ++ rest, params⟩ ∧
      ranked.buildCount = .ok ⟨"SELECT COUNT(*) AS total" ++ rest, params⟩ := by
  have hfits : ∀ f ∈ ranked.fragments, f.Fits := by decide +kernel
  have hsmall : ¬ ranked.TooComplex := by decide +kernel
  obtain ⟨s, hs, -, hpage, hcount⟩ := (renderings_agree ranked hfits).2 hsmall
  obtain ⟨rest, params, hbare, hcount⟩ := hcount
  refine ⟨s, rest, params, hs, ?_, hbare, hcount⟩
  have hwindow : windowText (PageRequest.numbered 10 3).limitOffset.1
      (PageRequest.numbered 10 3).limitOffset.2 = " LIMIT 10 OFFSET 20" := by decide +kernel
  rw [hpage, hwindow]

end Query

end ResourceQuery.Sql
