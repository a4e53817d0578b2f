import ResourceQuery.Sql.JsonAttribute

/-!
# Sql — the columns that a query reads

`Reads P` says of a part of a query that every column it reads has the property `P`.  Where the part
is a raw fragment, the fragment is an expression over a JSON attribute, and the column read is the
attribute's: in conditions one of the tests that filters make (`JsonAttribute.Tests`), in the
`SELECT` list the expression with its alias, in groups and orders the expression itself.

* `reads_conditions`: the conditions of a filter on a JSON attribute read the attribute's column
  alone.
* `ClausesRead`, `SelectReads`: the same for the conditions, groups and orders of a query, and for
  its `SELECT` list.
-/

namespace ResourceQuery.Sql

variable {P Q : Column → Prop}

/-- The condition is a test that a filter makes on the attribute. -/
inductive JsonAttribute.Tests (a : JsonAttribute) : Condition → Prop where
  | isNull    : a.Tests a.isNull
  | isNotNull : a.Tests a.isNotNull
  | isIn {values : List String} (nonempty : values ≠ []) : a.Tests (a.membership "IN" values)
  | notIn {values : List String} (nonempty : values ≠ []) : a.Tests (a.membership "NOT IN" values)
  | containing (value : String) : a.Tests (a.containing value)
  | compared (op : Comparison) (value : String) :
      a.Tests (.raw (a.expression.append (" " ++ op.sql ++ " ?") [.text value]))

/-! ### Conditions -/

namespace Condition

/-- Every column that the condition reads has `P`. -/
inductive Reads (P : Column → Prop) : Condition → Prop where
  | compare {column : Column} (op : Comparison) (value : Value) :
      P column → Reads P (.compare column op value)
  | isIn {column : Column} (values : List Value) : P column → Reads P (.isIn column values)
  | notIn {column : Column} (values : List Value) : P column → Reads P (.notIn column values)
  | isNull {column : Column} : P column → Reads P (.isNull column)
  | isNotNull {column : Column} : P column → Reads P (.isNotNull column)
  | like {column : Column} (pattern : String) : P column → Reads P (.like column pattern)
  | json {a : JsonAttribute} {c : Condition} : P a.column → a.Tests c → Reads P c
  | or {parts : List Condition} : (∀ c ∈ parts, Reads P c) → Reads P (.or parts)
  | and {parts : List Condition} : (∀ c ∈ parts, Reads P c) → Reads P (.and parts)
  | not {part : Condition} : Reads P part → Reads P (.not part)
  | always : Reads P .always
  | never : Reads P .never

/-- What reads columns of one kind reads columns of a wider one. -/
theorem Reads.mono (h : ∀ column, P column → Q column) {c : Condition} (hc : c.Reads P) :
    c.Reads Q := by
  induction hc with
  | compare op value hp => exact .compare op value (h _ hp)
  | isIn values hp => exact .isIn values (h _ hp)
  | notIn values hp => exact .notIn values (h _ hp)
  | isNull hp => exact .isNull (h _ hp)
  | isNotNull hp => exact .isNotNull (h _ hp)
  | like pattern hp => exact .like pattern (h _ hp)
  | json hp ht => exact .json (h _ hp) ht
  | or _ ih => exact .or ih
  | and _ ih => exact .and ih
  | not _ ih => exact .not ih
  | always => exact .always
  | never => exact .never

/-- Alternatives read what each of them reads. -/
theorem reads_anyOf {cs : List Condition} (h : ∀ c ∈ cs, c.Reads P) : (anyOf cs).Reads P := by
  cases cs with
  | nil => exact .never
  | cons c cs =>
      cases cs with
      | nil => exact h c List.mem_cons_self
      | cons d cs => exact .or h

end Condition

namespace JsonAttribute

variable {a : JsonAttribute}

/-- A JSON equality reads the column of its attribute. -/
theorem reads_equality (h : P a.column) (values : List (Option String)) :
    (a.equality values).Reads P := by
  have isNull : a.isNull.Reads P := .json h .isNull
  have isIn : ¬ (texts values).isEmpty → (a.membership "IN" (texts values)).Reads P :=
    fun hne => .json h (.isIn fun e => hne (by rw [e]; rfl))
  simp only [equality]
  split
  · split
    · exact isNull
    · refine Condition.reads_anyOf fun c hc => ?_
      rcases List.mem_cons.mp hc with rfl | hc
      · exact isNull
      · obtain rfl := List.mem_singleton.mp hc
        exact isIn ‹_›
  · split
    · exact .never
    · exact isIn ‹_›

/-- A JSON comparison reads the column of its attribute. -/
theorem reads_comparison (h : P a.column) (op : Comparison) (values : List (Option String)) :
    ∀ c ∈ a.comparison op values, c.Reads P := by
  intro c hc
  rw [comparison] at hc
  split at hc
  · cases hc
  · obtain rfl := List.mem_singleton.mp hc
    exact .json h (.compared op _)

/-- The conditions of a filter on an attribute read its column alone. -/
theorem reads_conditions (h : P a.column) (filter : JsonFilter) (values : List (Option String))
    (folded : Option (List (Option String))) :
    ∀ c ∈ a.conditions filter values folded, c.Reads P := by
  intro c hc
  cases filter with
  | equal =>
      obtain rfl := List.mem_singleton.mp hc
      exact reads_equality h values
  | typed op =>
      cases op with
      | like =>
          simp only [conditions] at hc
          split at hc
          · cases hc
          · obtain rfl := List.mem_singleton.mp hc
            -- the alternatives are the patterns and the equality that is folded into them
            refine Condition.reads_anyOf fun c hc => ?_
            rcases List.mem_append.mp hc with hc | hc
            · obtain ⟨v, -, rfl⟩ := List.mem_map.mp hc
              exact .json h (.containing v)
            · obtain ⟨vs, -, rfl⟩ := Option.map_eq_some_iff.mp (Option.mem_toList.mp hc)
              exact reads_equality h vs
      | not =>
          rcases List.mem_append.mp hc with hc | hc
          · split at hc
            · obtain rfl := List.mem_singleton.mp hc
              exact .json h .isNotNull
            · cases hc
          · split at hc
            · cases hc
            · obtain rfl := List.mem_singleton.mp hc
              exact .json h (.notIn fun e => by simp [e] at *)
      | lt => exact reads_comparison h .lt values c hc
      | gt => exact reads_comparison h .gt values c hc
      | lte => exact reads_comparison h .le values c hc
      | gte => exact reads_comparison h .ge values c hc

end JsonAttribute

/-! ### Entries of the other lists -/

/-- Every column that an entry of the `SELECT` list reads has `P`. -/
def Projection.Reads (P : Column → Prop) : Projection → Prop
  | .column c        => P c
  | .aggregate _ c _ => P c
  | .expression f    => ∃ a : JsonAttribute, f = a.aliased ∧ P a.column

/-- Every column that an entry of the `GROUP BY` list reads has `P`. -/
def GroupTerm.Reads (P : Column → Prop) : GroupTerm → Prop
  | .column c     => P c
  | .expression f => ∃ a : JsonAttribute, f = a.expression ∧ P a.column

/-- Every column that an entry of the `ORDER BY` list reads has `P`. -/
def OrderTerm.Reads (P : Column → Prop) : OrderTerm → Prop
  | .column c _     => P c
  | .expression f _ => ∃ a : JsonAttribute, f = a.expression ∧ P a.column

/-- A projection that reads columns of one kind reads columns of a wider one. -/
theorem Projection.Reads.mono (h : ∀ column, P column → Q column) {p : Projection}
    (hp : p.Reads P) : p.Reads Q := by
  cases p with
  | column c => exact h c hp
  | aggregate function c result => exact h c hp
  | expression f =>
      obtain ⟨a, hf, ha⟩ := hp
      exact ⟨a, hf, h _ ha⟩

theorem GroupTerm.Reads.mono (h : ∀ column, P column → Q column) {t : GroupTerm} (ht : t.Reads P) :
    t.Reads Q := by
  cases t with
  | column c => exact h c ht
  | expression f =>
      obtain ⟨a, hf, ha⟩ := ht
      exact ⟨a, hf, h _ ha⟩

theorem OrderTerm.Reads.mono (h : ∀ column, P column → Q column) {t : OrderTerm} (ht : t.Reads P) :
    t.Reads Q := by
  cases t with
  | column c order => exact h c ht
  | expression f order =>
      obtain ⟨a, hf, ha⟩ := ht
      exact ⟨a, hf, h _ ha⟩

/-! ### Queries -/

namespace Query

/-- Every column that the conditions, the groups and the orders of the query read has `P`. -/
structure ClausesRead (P : Column → Prop) (q : Query) : Prop where
  conditions : ∀ c ∈ q.conditions, c.Reads P
  groupTerms : ∀ t ∈ q.groupTerms, t.Reads P
  orderTerms : ∀ t ∈ q.orderTerms, t.Reads P

/-- Every column that the `SELECT` list of the query reads has `P`. -/
def SelectReads (P : Column → Prop) (q : Query) : Prop :=
  ∀ p ∈ q.projections, p.Reads P

/-- A column is selected if it stands among the projections. -/
theorem selectsColumn_iff {q : Query} {c : Column} :
    q.selectsColumn c = true ↔ .column c ∈ q.projections := by
  rw [selectsColumn, List.any_eq_true]
  constructor
  · rintro ⟨p, hp, hc⟩
    cases p with
    | column d =>
        obtain rfl : d = c := by simpa using hc
        exact hp
    | aggregate function d result => cases hc
    | expression f => cases hc
  · exact fun h => ⟨_, h, decide_eq_true rfl⟩

variable {q : Query}

theorem ClausesRead.mono (h : ∀ column, P column → Q column) (hq : q.ClausesRead P) :
    q.ClausesRead Q where
  conditions c hc := (hq.conditions c hc).mono h
  groupTerms t ht := (hq.groupTerms t ht).mono h
  orderTerms t ht := (hq.orderTerms t ht).mono h

/-- Clauses are left alone by what changes something else. -/
theorem ClausesRead.of_same {q' : Query} (h : q.ClausesRead P) (hc : q'.conditions = q.conditions)
    (hg : q'.groupTerms = q.groupTerms) (ho : q'.orderTerms = q.orderTerms) : q'.ClausesRead P where
  conditions := hc ▸ h.conditions
  groupTerms := hg ▸ h.groupTerms
  orderTerms := ho ▸ h.orderTerms

theorem ClausesRead.join (h : q.ClausesRead P) (j : Join) : (q.join j).ClausesRead P := by
  rw [Query.join]
  split
  · exact h
  · exact h.of_same rfl rfl rfl

theorem ClausesRead.restrict (h : q.ClausesRead P) {c : Condition} (hc : c.Reads P) :
    (q.restrict c).ClausesRead P :=
  { h with conditions := List.forall_mem_append.mpr ⟨h.conditions, by simpa using hc⟩ }

theorem ClausesRead.groupBy (h : q.ClausesRead P) {t : GroupTerm} (ht : t.Reads P) :
    (q.groupBy t).ClausesRead P :=
  { h with groupTerms := List.forall_mem_append.mpr ⟨h.groupTerms, by simpa using ht⟩ }

theorem ClausesRead.orderBy (h : q.ClausesRead P) {t : OrderTerm} (ht : t.Reads P) :
    (q.orderBy t).ClausesRead P :=
  { h with orderTerms := List.forall_mem_append.mpr ⟨h.orderTerms, by simpa using ht⟩ }

theorem mem_select {p entry : Projection} (h : entry ∈ q.projections) :
    entry ∈ (q.select p).projections :=
  List.mem_append_left [p] h

theorem SelectReads.mono (h : ∀ column, P column → Q column) (hq : q.SelectReads P) :
    q.SelectReads Q :=
  fun p hp => (hq p hp).mono h

theorem SelectReads.select (h : q.SelectReads P) {p : Projection} (hp : p.Reads P) :
    (q.select p).SelectReads P :=
  List.forall_mem_append.mpr ⟨h, by simpa using hp⟩

end Query

end ResourceQuery.Sql
