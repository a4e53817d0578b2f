import ResourceQuery.Proofs.Sql.Identifiers

/-!
# Sql — the names in statements

What a query puts between quotes are the names of its tables, its columns and its results, and what is
quoted in its raw fragments (`Query.names`, `Query.countNames`).  One lemma for each function that
writes a part of a statement says that the identifiers of the part are its names; a fragment has to
close its quotes for that.

* `identifiers_of_build`: the identifiers of the statement of a query, of a page and of the count are
  the names in the query.
-/

namespace ResourceQuery.Sql

/-! ### Names -/

namespace Condition

mutual

/-- The quoted identifiers of a condition. -/
def names : Condition → List String
  | .compare c _ _     => c.names
  | .isIn c values     => if values.isEmpty then [] else c.names
  | .notIn c values    => if values.isEmpty then [] else c.names
  | .isNull c          => c.names
  | .isNotNull c       => c.names
  | .like c _          => c.names
  | .raw fragment      => fragment.names
  | .or parts          => namesOf parts
  | .and parts         => namesOf parts
  | .not part          => names part
  | .always            => []
  | .never             => []

/-- The quoted identifiers of a list of conditions. -/
def namesOf : List Condition → List String
  | []      => []
  | c :: cs => names c ++ namesOf cs

end

theorem namesOf_append (cs ds : List Condition) : namesOf (cs ++ ds) = namesOf cs ++ namesOf ds := by
  induction cs with
  | nil => rfl
  | cons c cs ih => rw [List.cons_append, namesOf, namesOf, ih, List.append_assoc]

end Condition

def Projection.names : Projection → List String
  | .column c             => c.names
  | .aggregate _ c result => c.names ++ [result]
  | .expression fragment  => fragment.names

def GroupTerm.names : GroupTerm → List String
  | .column c            => c.names
  | .expression fragment => fragment.names

def OrderTerm.names : OrderTerm → List String
  | .column c _            => c.names
  | .expression fragment _ => fragment.names

def JoinCondition.names : JoinCondition → List String
  | .columns left right => left.names ++ right.names
  | .value c _          => c.names

namespace Query

/-- The names of a table with its schema, and its alias unless that is its name. -/
def tableNames (q : Query) (table tableAlias : String) : List String :=
  q.schema.toList ++ [table] ++ if table = tableAlias then [] else [tableAlias]

/-- The names in a join. -/
def joinNames (q : Query) (j : Join) : List String :=
  q.tableNames j.table j.tableAlias ++ j.on.flatMap JoinCondition.names

/-- The names of the tables and the joins. -/
def sourceNames (q : Query) : List String :=
  q.tableNames q.table q.tableAlias ++ q.joins.flatMap q.joinNames

/-- The names of the tables, the joins and the conditions. -/
def rowNames (q : Query) : List String :=
  q.sourceNames ++ Condition.namesOf q.conditions

/-- The names in a query without its orders. -/
def selectNames (q : Query) : List String :=
  q.projections.flatMap Projection.names ++ q.rowNames ++ q.groupTerms.flatMap GroupTerm.names

/-- The names in a query: of the `SELECT` list, the tables, the joins, the conditions, the groups and
the orders. -/
def names (q : Query) : List String :=
  q.selectNames ++ q.orderTerms.flatMap OrderTerm.names

/-- The names in the count of a query. -/
def countNames (q : Query) : List String :=
  if q.distinct || !q.groupTerms.isEmpty then q.selectNames else q.rowNames

end Query

/-! ### The parts of a statement -/

open Template
open Reading (isPlainText)

namespace Condition

theorem valueList_names (vs : List Value) : (valueList vs).Names [] := by
  have h : NamesEach (vs.flatMap fun _ => []) (vs.map fun v => [.bind v]) :=
    namesEach_map fun v _ => names_bind v
  rw [List.flatMap_eq_nil_iff.mpr fun _ _ => rfl] at h
  exact h.combined rfl

theorem membership_names (c : Column) {s : String} (hs : isJoint s = true) (vs : List Value) :
    (text (c.sql ++ s) ++ valueList vs).Names c.names := by
  rw [text_append]
  simpa using (names_column c).joined hs (valueList_names vs)

mutual

/-- A condition names what its columns do, by induction on its structure. -/
theorem template_names : ∀ (c : Condition) (t : Template), c.template = .ok t →
    (∀ f ∈ c.fragments, f.IsClosed) → t.Names c.names
  | .compare c op value, t, h, _ => by
      obtain rfl := Except.ok.inj h
      have hop : isPlainText (" " ++ (op.sql ++ " ")) = true := by cases op <;> rfl
      rw [String.append_assoc, String.append_assoc, text_append]
      exact ((names_column c).ended hop).bound value
  | .isIn c vs, t, h, _ => by
      obtain rfl := Except.ok.inj h
      cases vs with
      | nil => exact names_plain rfl
      | cons v vs => exact membership_names c (s := " IN ") rfl (v :: vs)
  | .notIn c vs, t, h, _ => by
      obtain rfl := Except.ok.inj h
      cases vs with
      | nil => exact names_plain rfl
      | cons v vs => exact membership_names c (s := " NOT IN ") rfl (v :: vs)
  | .isNull c, t, h, _ => by
      obtain rfl := Except.ok.inj h
      rw [text_append]
      exact (names_column c).ended rfl
  | .isNotNull c, t, h, _ => by
      obtain rfl := Except.ok.inj h
      rw [text_append]
      exact (names_column c).ended rfl
  | .like c pattern, t, h, _ => by
      obtain rfl := Except.ok.inj h
      simp only [text_append]
      exact ((((names_column c).started rfl).ended rfl).bound _).ended rfl
  | .raw f, t, h, hf => Fragment.template_names (hf f (List.mem_singleton.mpr rfl)) h
  | .or parts, t, h, hf => by
      cases parts with
      | nil =>
          obtain rfl := Except.ok.inj h
          exact names_plain rfl
      | cons c cs =>
          obtain ⟨ts, hts, rfl⟩ := bind_pure_eq_ok.mp h
          exact (templates_names (c :: cs) ts hts hf).combined rfl
  | .and parts, t, h, hf => by
      cases parts with
      | nil =>
          obtain rfl := Except.ok.inj h
          exact names_plain rfl
      | cons c cs =>
          obtain ⟨ts, hts, rfl⟩ := bind_pure_eq_ok.mp h
          exact (templates_names (c :: cs) ts hts hf).combined rfl
  | .not part, t, h, hf => by
      obtain ⟨u, hu, rfl⟩ := bind_pure_eq_ok.mp h
      exact ((template_names part u hu hf).started rfl).ended rfl
  | .always, t, h, _ => by
      obtain rfl := Except.ok.inj h
      exact names_plain rfl
  | .never, t, h, _ => by
      obtain rfl := Except.ok.inj h
      exact names_plain rfl

theorem templates_names : ∀ (cs : List Condition) (ts : List Template), templates cs = .ok ts →
    (∀ f ∈ fragmentsOf cs, f.IsClosed) → NamesEach (namesOf cs) ts
  | [], ts, h, _ => by
      obtain rfl := Except.ok.inj h
      exact .nil
  | c :: cs, ts, h, hf => by
      obtain ⟨hc, hcs⟩ := List.forall_mem_append.mp hf
      obtain ⟨t, ht, h⟩ := bind_eq_ok.mp h
      obtain ⟨us, hus, rfl⟩ := bind_pure_eq_ok.mp h
      exact .cons (template_names c t ht hc) (templates_names cs us hus hcs)

end

end Condition

/-- Items that are written one by one name what each of them does. -/
theorem templatesOf_names {α : Type} {write : α → Except SqlError Template}
    {names : α → List String} {xs : List α} {ts : List Template} (h : templatesOf write xs = .ok ts)
    (hx : ∀ x ∈ xs, ∀ t, write x = .ok t → t.Names (names x)) :
    NamesEach (xs.flatMap names) ts := by
  induction xs generalizing ts with
  | nil =>
      obtain rfl := Except.ok.inj h
      exact .nil
  | cons x xs ih =>
      obtain ⟨hhead, htail⟩ := List.forall_mem_cons.mp hx
      obtain ⟨t, ht, h⟩ := bind_eq_ok.mp h
      obtain ⟨us, hus, rfl⟩ := bind_pure_eq_ok.mp h
      exact .cons (hhead t ht) (ih hus htail)

theorem Projection.template_names {p : Projection} {t : Template} (h : p.template = .ok t)
    (hf : ∀ f ∈ p.fragments, f.IsClosed) : t.Names p.names := by
  cases p with
  | column c =>
      obtain rfl := Except.ok.inj h
      exact names_column c
  | aggregate function c result =>
      obtain rfl := Except.ok.inj h
      have hcall : isPlainText (function.name ++ "(") = true := by cases function <;> rfl
      rw [text_append, text_append, text_append]
      exact ((names_column c).started hcall).joined rfl (names_identifier result)
  | expression f => exact Fragment.template_names (hf f (List.mem_singleton.mpr rfl)) h

theorem GroupTerm.template_names {g : GroupTerm} {t : Template} (h : g.template = .ok t)
    (hf : ∀ f ∈ g.fragments, f.IsClosed) : t.Names g.names := by
  cases g with
  | column c =>
      obtain rfl := Except.ok.inj h
      exact names_column c
  | expression f => exact Fragment.template_names (hf f (List.mem_singleton.mpr rfl)) h

theorem OrderTerm.template_names {o : OrderTerm} {t : Template} (h : o.template = .ok t)
    (hf : ∀ f ∈ o.fragments, f.IsClosed) : t.Names o.names := by
  have horder (order : SortOrder) : isPlainText (" " ++ order.sql) = true := by cases order <;> rfl
  cases o with
  | column c order =>
      obtain rfl := Except.ok.inj h
      rw [String.append_assoc, text_append]
      exact (names_column c).ended (horder order)
  | expression f order =>
      obtain ⟨u, hu, rfl⟩ := bind_pure_eq_ok.mp h
      exact (Fragment.template_names (hf f (List.mem_singleton.mpr rfl)) hu).ended (horder order)

theorem JoinCondition.template_names (c : JoinCondition) : c.template.Names c.names := by
  cases c with
  | columns left right =>
      simp only [template, text_append]
      exact (names_column left).joined rfl (names_column right)
  | value column v =>
      simp only [template, text_append]
      exact ((names_column column).ended rfl).bound v

/-! ### Statements -/

namespace Query

variable {q : Query} {t : Template}

/-- A table under an alias names both, and otherwise itself. -/
theorem named_names {s : String} {ns : List String} (hs : (text s).Names ns)
    (table tableAlias : String) :
    (text (if table = tableAlias then s else s ++ " AS " ++ quoteIdentifier tableAlias)).Names
      (ns ++ if table = tableAlias then [] else [tableAlias]) := by
  by_cases hsame : table = tableAlias
  · rwa [if_pos hsame, if_pos hsame, List.append_nil]
  · rw [if_neg hsame, if_neg hsame, text_append, text_append]
    exact hs.joined rfl (names_identifier tableAlias)

/-- A table names its schema, itself and its alias. -/
theorem tableSql_names (table tableAlias : String) :
    (text (q.tableSql table tableAlias)).Names (q.tableNames table tableAlias) := by
  cases hschema : q.schema with
  | none =>
      simp only [tableSql, tableNames, hschema]
      exact named_names (names_identifier table) table tableAlias
  | some schema =>
      have hqualified : (text (quoteIdentifier schema ++ "." ++ quoteIdentifier table)).Names
          [schema, table] := by
        rw [text_append, text_append]
        exact (names_identifier schema).joined rfl (names_identifier table)
      simp only [tableSql, tableNames, hschema]
      exact named_names hqualified table tableAlias

/-- A join names its table and the columns of its conditions. -/
theorem joinTemplate_names (j : Join) : (q.joinTemplate j).ClauseNames (q.joinNames j) := by
  have hon : (Template.join " AND " (j.on.map JoinCondition.template)).Names
      (j.on.flatMap JoinCondition.names) :=
    (namesEach_map fun c _ => c.template_names).join rfl
  rw [joinTemplate, text_append, text_append, List.append_assoc, List.append_assoc]
  rw [← List.append_assoc (text (q.tableSql j.table j.tableAlias))]
  exact ((tableSql_names j.table j.tableAlias).joined rfl hon).clause rfl

theorem fromTemplate_names (q : Query) : q.fromTemplate.Names q.sourceNames :=
  (tableSql_names q.table q.tableAlias).followed
    (clauseNames_flatMap fun j _ => joinTemplate_names j)

theorem whereTemplate_names (h : q.whereTemplate = .ok t)
    (hf : ∀ f ∈ Condition.fragmentsOf q.conditions, f.IsClosed) :
    t.ClauseNames (Condition.namesOf q.conditions) := by
  simp only [whereTemplate] at h
  generalize q.conditions = cs at h hf
  cases cs with
  | nil =>
      obtain rfl := Except.ok.inj h
      exact clauseNames_nil
  | cons c cs =>
      obtain ⟨ts, hts, rfl⟩ := bind_pure_eq_ok.mp h
      exact ((Condition.templates_names _ ts hts hf).join rfl).clause rfl

theorem selectList_names (h : q.selectList = .ok t)
    (hf : ∀ f ∈ q.projections.flatMap Projection.fragments, f.IsClosed) :
    t.Names (q.projections.flatMap Projection.names) := by
  simp only [selectList] at h
  generalize q.projections = ps at h hf
  cases ps with
  | nil =>
      obtain rfl := Except.ok.inj h
      exact names_plain rfl
  | cons p ps =>
      obtain ⟨ts, hts, rfl⟩ := bind_pure_eq_ok.mp h
      refine (templatesOf_names hts fun p hp t ht => ?_).join rfl
      exact Projection.template_names ht fun f hmem => hf f (List.mem_flatMap.mpr ⟨p, hp, hmem⟩)

/-- A clause that lists entries under a keyword, empty without entries. -/
theorem listClause_names {α : Type} {write : α → Except SqlError Template}
    {names : α → List String} {xs : List α} {keyword : String} (hkeyword : isJoint keyword = true)
    (h : (if xs.isEmpty then .ok [] else do
      return text keyword ++ Template.join ", " (← templatesOf write xs)) = Except.ok t)
    (hx : ∀ x ∈ xs, ∀ t, write x = .ok t → t.Names (names x)) :
    t.ClauseNames (xs.flatMap names) := by
  cases xs with
  | nil =>
      obtain rfl := Except.ok.inj h
      exact clauseNames_nil
  | cons x xs =>
      obtain ⟨ts, hts, rfl⟩ := bind_pure_eq_ok.mp h
      exact ((templatesOf_names hts hx).join rfl).clause hkeyword

theorem groupTemplate_names (h : q.groupTemplate = .ok t)
    (hf : ∀ f ∈ q.groupTerms.flatMap GroupTerm.fragments, f.IsClosed) :
    t.ClauseNames (q.groupTerms.flatMap GroupTerm.names) :=
  listClause_names rfl h fun g hg _ ht =>
    GroupTerm.template_names ht fun f hmem => hf f (List.mem_flatMap.mpr ⟨g, hg, hmem⟩)

theorem orderTemplate_names (h : q.orderTemplate = .ok t)
    (hf : ∀ f ∈ q.orderTerms.flatMap OrderTerm.fragments, f.IsClosed) :
    t.ClauseNames (q.orderTerms.flatMap OrderTerm.names) :=
  listClause_names rfl h fun o ho _ ht =>
    OrderTerm.template_names ht fun f hmem => hf f (List.mem_flatMap.mpr ⟨o, ho, hmem⟩)

/-- A query names what its clauses do, one after the other. -/
theorem selectTemplate_names (h : q.selectTemplate = .ok t) (hf : ∀ f ∈ q.fragments, f.IsClosed) :
    t.Names q.selectNames := by
  simp only [fragments, List.forall_mem_append] at hf
  obtain ⟨⟨⟨hprojections, hconditions⟩, hgroups⟩, -⟩ := hf
  obtain ⟨list, hlist, h⟩ := bind_eq_ok.mp h
  obtain ⟨condition, hcondition, h⟩ := bind_eq_ok.mp h
  obtain ⟨grouping, hgrouping, rfl⟩ := bind_pure_eq_ok.mp h
  have hselect : isPlainText ("SELECT " ++ if q.distinct then "DISTINCT " else "") = true := by
    cases q.distinct <;> rfl
  have hrows := (((selectList_names hlist hprojections).started hselect).joined (s := " FROM ") rfl
    q.fromTemplate_names).followed (whereTemplate_names hcondition hconditions)
  simpa only [selectNames, rowNames, List.append_assoc] using
    hrows.followed (groupTemplate_names hgrouping hgroups)

theorem countTemplate_names (h : q.countTemplate = .ok t) (hf : ∀ f ∈ q.fragments, f.IsClosed) :
    t.Names q.countNames := by
  simp only [countTemplate] at h
  simp only [countNames]
  split at h
  · next hcounted =>
    obtain ⟨select, hselect, rfl⟩ := bind_pure_eq_ok.mp h
    rw [if_pos hcounted]
    exact ((selectTemplate_names hselect hf).started rfl).ended rfl
  · next hcounted =>
    obtain ⟨condition, hcondition, rfl⟩ := bind_pure_eq_ok.mp h
    rw [if_neg hcounted]
    simp only [fragments, List.forall_mem_append] at hf
    exact (q.fromTemplate_names.started rfl).followed (whereTemplate_names hcondition hf.1.1.2)

/-- The window is plain text. -/
theorem isPlainText_windowSql (q : Query) : isPlainText q.windowSql = true := by
  have hnumber (n : UInt64) : isPlainText (toString n.toNat) = true := Reading.isPlain_digits _
  rw [windowSql, Reading.isPlainText_append]
  constructor
  · split
    · exact Reading.isPlainText_append.mpr ⟨rfl, hnumber _⟩
    · rfl
  · split
    · split
      · exact Reading.isPlainText_append.mpr ⟨rfl, hnumber _⟩
      · rfl
    · rfl

/-- The identifiers of a statement are the names of the query. -/
theorem identifiers_of_statement {s : Statement} (h : q.build = .ok s)
    (hf : ∀ f ∈ q.fragments, f.IsClosed) : identifiers s.sql = q.names := by
  obtain ⟨select, ordering, -, hselect, hordering, rfl⟩ := templates_of_build h
  have horders : ∀ f ∈ q.orderTerms.flatMap OrderTerm.fragments, f.IsClosed :=
    fun f hmem => hf f (List.mem_append_right _ hmem)
  exact (((selectTemplate_names hselect hf).followed
    (orderTemplate_names hordering horders)).ended q.isPlainText_windowSql).identifiers

/-- **The quoted identifiers of statements.**  When no fragment of a query leaves a quote open, the
quoted identifiers of its statement and of the statement of a page are the names in the query, in the
order of the text, and those of its count are the names in what is counted. -/
theorem identifiers_of_build (q : Query) (hf : ∀ f ∈ q.fragments, f.IsClosed) :
    (∀ s, q.build = .ok s → identifiers s.sql = q.names) ∧
    (∀ page s, q.buildPage page = .ok s → identifiers s.sql = q.names) ∧
    (∀ s, q.buildCount = .ok s → identifiers s.sql = q.countNames) := by
  refine ⟨fun s h => identifiers_of_statement h hf, fun page s h => ?_, fun s h => ?_⟩
  · rw [buildPage] at h
    exact identifiers_of_statement (q := q.paginate _ _) h hf
  · obtain ⟨t, ht, rfl⟩ := template_of_buildCount h
    exact (countTemplate_names ht hf).identifiers

/-! ### The names in a query -/

variable {n : String}

/-- The names in a query come from its table and its joins, or from the entries of its lists. -/
theorem mem_names : n ∈ q.names ↔
    (∃ e ∈ q.projections, n ∈ e.names) ∨ n ∈ q.sourceNames ∨ n ∈ Condition.namesOf q.conditions ∨
      (∃ g ∈ q.groupTerms, n ∈ g.names) ∨ ∃ o ∈ q.orderTerms, n ∈ o.names := by
  simp only [names, selectNames, rowNames, List.mem_append, List.mem_flatMap, or_assoc]

/-- What is counted has no other names. -/
theorem mem_names_of_mem_countNames (h : n ∈ q.countNames) : n ∈ q.names := by
  rw [countNames] at h
  rw [names, selectNames]
  split at h
  · exact List.mem_append_left _ h
  · exact List.mem_append_left _ (List.mem_append_left _ (List.mem_append_right _ h))

theorem mem_names_restrict {cs : List Condition} :
    n ∈ (cs.foldl restrict q).names ↔ n ∈ q.names ∨ n ∈ Condition.namesOf cs := by
  have hsource : sourceNames { q with conditions := q.conditions ++ cs } = q.sourceNames := rfl
  rw [foldl_restrict, mem_names, mem_names, hsource]
  simp only [Condition.namesOf_append, List.mem_append, or_assoc, or_left_comm, or_comm]

theorem mem_names_groupBy {g : GroupTerm} :
    n ∈ (q.groupBy g).names ↔ n ∈ q.names ∨ n ∈ g.names := by
  have hsource : (q.groupBy g).sourceNames = q.sourceNames := rfl
  rw [mem_names, mem_names, hsource]
  simp only [groupBy, List.mem_append, List.mem_singleton, or_and_right, exists_or, exists_eq_left,
    or_assoc, or_left_comm, or_comm]

theorem mem_names_orderBy {o : OrderTerm} :
    n ∈ (q.orderBy o).names ↔ n ∈ q.names ∨ n ∈ o.names := by
  have hsource : (q.orderBy o).sourceNames = q.sourceNames := rfl
  rw [mem_names, mem_names, hsource]
  simp only [orderBy, List.mem_append, List.mem_singleton, or_and_right, exists_or, exists_eq_left,
    or_assoc]

end Query

end ResourceQuery.Sql
