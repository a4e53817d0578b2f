import ResourceQuery.Proofs.Sql.Reads
import ResourceQuery.Proofs.Sql.StatementTokens

/-!
# Sql — the tokens of expressions over JSON attributes

Expressions over a JSON attribute are the only raw fragments that filters, groups, orders and
fieldsets make.  Where their placeholders stand is read off part by part (`Fragment.Fills`), and all
of them have as many placeholders as parameters and are blocks of fixed tokens (`expression_fitted`,
`aliased_fitted`, `Tests.fitted`).
-/

namespace ResourceQuery.Sql

variable {Q : Token → Prop}

open Template

/-! ### Put together from blocks -/

namespace Fragment

variable {s : String}

/-- The parameters of the fragment have their places in it, and what they give is a block. -/
def FittedBlock (Q : Token → Prop) (f : Fragment) : Prop :=
  ∃ t, Fills f.sql f.params t ∧ t.Block Q

theorem FittedBlock.isBlock {f : Fragment} (h : f.FittedBlock Q) : f.IsBlock Q := by
  obtain ⟨t, hfills, hblock⟩ := h
  intro u hu
  obtain ⟨-, rfl⟩ := template_eq_ok hu
  exact hfills.filled ▸ hblock

/-- None of the texts of statements has a placeholder or an open quote. -/
theorem fills_text (h : s ∈ joints ++ starts ++ ends) : Fills s [] (text s) := by
  have hall : (joints ++ starts ++ ends).all isPlain = true := by decide +kernel
  exact fills_plain (List.all_eq_true.mp hall s h)

end Fragment

/-! ### Identifiers and columns -/

/-- A quoted name has no placeholders, and quotes end behind it where they would without. -/
theorem doubleQuotes_plain (name ds : List Char) :
    Fragment.placeholders .identifier (doubleQuotes name ++ ds) =
        Fragment.placeholders .identifier ds ∧
      Quoting.past .identifier (doubleQuotes name ++ ds) = Quoting.past .identifier ds := by
  induction name with
  | nil => exact ⟨rfl, rfl⟩
  | cons c cs ih =>
      by_cases hc : c = '"'
      · -- the first quote leads outside, the second one back
        subst hc
        simp only [doubleQuotes, if_true, List.cons_append]
        exact ih
      · simp only [doubleQuotes, hc, if_false, List.cons_append]
        rw [Fragment.placeholders_char (by simp), Quoting.past, List.foldl_cons,
          Quoting.next_identifier hc]
        exact ih

open Fragment (Fills fills_text)

/-- A quoted identifier has no placeholders to fill. -/
theorem fills_identifier (name : String) :
    Fills (quoteIdentifier name) [] (text (quoteIdentifier name)) := by
  obtain ⟨hcount, hclosed⟩ := doubleQuotes_plain name.toList ['"']
  refine ⟨?_, ?_, Fragment.fill_nil⟩
  · rw [toList_quoteIdentifier, Fragment.placeholders_char (by simp)]
    exact hcount
  · rw [toList_quoteIdentifier]
    exact hclosed

/-- A column has no placeholders to fill. -/
theorem fills_column (c : Column) : Fills c.sql [] (text c.sql) := by
  have hname : Fills (if c.name = "*" then "*" else quoteIdentifier c.name) []
      (text (if c.name = "*" then "*" else quoteIdentifier c.name)) := by
    split
    · exact Fragment.fills_plain (by decide +kernel)
    · exact fills_identifier c.name
  cases htable : c.table with
  | none => simpa only [Column.sql, htable] using hname
  | some table =>
      have hpoint : Fills "." [] (text ".") := fills_text (by simp [joints])
      simp only [Column.sql, htable, text_append]
      exact ((fills_identifier table).append hpoint).append hname

/-! ### Expressions -/

namespace JsonAttribute

variable (a : JsonAttribute)

/-- What follows the path in the expression. -/
def closing : String :=
  match a.cast with
  | some cast => ")::" ++ cast.sql
  | none      => ")"

/-- The template of the expression. -/
def expressionTemplate : Template :=
  text "(" ++ text a.column.sql ++ text " #>> " ++ [.bind (.texts a.path)] ++ text a.closing

theorem closing_mem : a.closing ∈ ends := by
  rw [closing]
  split
  · next cast _ => cases cast <;> simp [ends, JsonCast.sql]
  · simp [ends]

/-- The expression of a JSON attribute is filled with its path. -/
theorem expression_fills : Fills a.expression.sql a.expression.params a.expressionTemplate := by
  have hopen : Fills "(" [] (text "(") := fills_text (by simp [starts])
  have harrow : Fills " #>> " [] (text " #>> ") := fills_text (by simp [joints])
  have hsql : a.expression.sql = "(" ++ a.column.sql ++ " #>> " ++ "?" ++ a.closing := by
    have hslot : " #>> ?)" = " #>> " ++ "?" ++ ")" := by decide +kernel
    have hcast : ")::" = ")" ++ "::" := by decide +kernel
    cases hc : a.cast <;> simp only [expression, closing, hc, hslot, hcast, String.append_assoc]
  have hparams : a.expression.params = [.texts a.path] := by
    cases hc : a.cast <;> simp only [expression, hc]
  rw [hsql, hparams]
  exact (((hopen.append (fills_column a.column)).append harrow).append
    (Fragment.fills_slot (.texts a.path))).append (fills_text (by simp [a.closing_mem]))

theorem expression_block : a.expressionTemplate.Block Q :=
  (((block_column a.column).started (by simp [starts])).joined (by simp [joints])
    (block_bind _)).ended a.closing_mem

variable {a : JsonAttribute}

theorem expression_fitted : a.expression.FittedBlock Q :=
  ⟨_, a.expression_fills, a.expression_block⟩

theorem aliased_fitted : a.aliased.FittedBlock Q := by
  have has : Fills " AS " [] (text " AS ") := fills_text (by simp [joints])
  have hfills := (a.expression_fills.append has).append (fills_identifier a.leaf)
  rw [List.append_nil, List.append_nil] at hfills
  exact ⟨_, hfills, a.expression_block.joined (by simp [joints]) (block_identifier a.leaf)⟩

/-- What ends an expression leaves it filled. -/
theorem ended_fills {e : String} (he : e ∈ ends) :
    Fills (a.expression.mapSql fun sql => sql ++ e).sql
      (a.expression.mapSql fun sql => sql ++ e).params (a.expressionTemplate ++ text e) := by
  have hfills : Fills e [] (text e) := fills_text (by simp [he])
  have h := a.expression_fills.append hfills
  rw [List.append_nil] at h
  exact h

theorem ended_fitted {e : String} (he : e ∈ ends) :
    (a.expression.mapSql fun sql => sql ++ e).FittedBlock Q :=
  ⟨_, ended_fills he, a.expression_block.ended he⟩

theorem compared_fills {s : String} (hs : s ∈ joints) (v : Value) :
    Fills (a.expression.append (s ++ "?") [v]).sql (a.expression.append (s ++ "?") [v]).params
      (a.expressionTemplate ++ text s ++ [.bind v]) := by
  have hfills : Fills s [] (text s) := fills_text (by simp [hs])
  have h := (a.expression_fills.append hfills).append (Fragment.fills_slot v)
  rw [List.append_nil, String.append_assoc] at h
  exact h

theorem compared_fitted {s : String} (hs : s ∈ joints) (v : Value) :
    (a.expression.append (s ++ "?") [v]).FittedBlock Q :=
  ⟨_, compared_fills hs v, a.expression_block.joined hs (block_bind v)⟩

theorem slots_fill (values : List String) :
    Fills (Text.joinWith ", " (values.map fun _ => "?")) (values.map .text)
      (Template.join ", " (values.map fun v => [.bind (.text v)])) := by
  have hcomma : Fills ", " [] (text ", ") := fills_text (by simp [joints])
  induction values with
  | nil => exact ⟨rfl, rfl, rfl⟩
  | cons v vs ih =>
      cases vs with
      | nil => exact Fragment.fills_slot (.text v)
      | cons w ws => exact ((Fragment.fills_slot (.text v)).append hcomma).append ih

theorem listed_fills {s : String} (hs : s ∈ joints) (values : List String) :
    Fills (a.expression.append (s ++ Text.joinWith ", " (values.map fun _ => "?") ++ ")")
        (values.map .text)).sql
      (a.expression.append (s ++ Text.joinWith ", " (values.map fun _ => "?") ++ ")")
        (values.map .text)).params
      (a.expressionTemplate ++ text s ++
        Template.join ", " (values.map fun v => [.bind (.text v)]) ++ text ")") := by
  have hfills : Fills s [] (text s) := fills_text (by simp [hs])
  have hend : Fills ")" [] (text ")") := fills_text (by simp [ends])
  have h := ((a.expression_fills.append hfills).append (slots_fill values)).append hend
  simp only [List.append_nil, String.append_assoc] at h
  simp only [Fragment.append, String.append_assoc]
  exact h

/-- A list fits as a block. -/
theorem listed_fitted {s : String} (hs : s ∈ joints) (values : List String) :
    (a.expression.append (s ++ Text.joinWith ", " (values.map fun _ => "?") ++ ")")
      (values.map .text)).FittedBlock Q := by
  have hslots : (Template.join ", " (values.map fun v => [.bind (.text v)])).Block Q := by
    refine block_join (by simp [joints]) fun t ht => ?_
    obtain ⟨v, -, rfl⟩ := List.mem_map.mp ht
    exact block_bind _
  exact ⟨_, listed_fills hs values, (a.expression_block.joined hs hslots).ended (by simp [ends])⟩

theorem contained_fills (v : Value) :
    Fills ((a.expression.mapSql fun sql => "LOWER((" ++ sql ++ ")::text) LIKE LOWER(?)").append ""
        [v]).sql
      ((a.expression.mapSql fun sql => "LOWER((" ++ sql ++ ")::text) LIKE LOWER(?)").append ""
        [v]).params
      (text "LOWER((" ++ a.expressionTemplate ++ text ")::text) LIKE LOWER(" ++ [.bind v] ++
        text ")") := by
  have hstart : Fills "LOWER((" [] (text "LOWER((") := fills_text (by simp [starts])
  have hlike : Fills ")::text) LIKE LOWER(" [] (text ")::text) LIKE LOWER(") :=
    fills_text (by simp [joints])
  have hend : Fills ")" [] (text ")") := fills_text (by simp [ends])
  have h := (((hstart.append a.expression_fills).append hlike).append
    (Fragment.fills_slot v)).append hend
  have hsplit : ")::text) LIKE LOWER(?)" = ")::text) LIKE LOWER(" ++ ("?" ++ ")") := by
    decide +kernel
  simp only [List.append_nil, List.nil_append, String.append_assoc] at h
  simp only [Fragment.append, Fragment.mapSql, hsplit, String.append_assoc, String.append_empty]
  exact h

theorem contained_fitted (v : Value) :
    ((a.expression.mapSql fun sql => "LOWER((" ++ sql ++ ")::text) LIKE LOWER(?)").append ""
      [v]).FittedBlock Q :=
  ⟨_, contained_fills v, ((a.expression_block.started (by simp [starts])).joined
    (by simp [joints]) (block_bind v)).ended (by simp [ends])⟩

/-- The conditions of filters on an attribute are fitted blocks. -/
theorem Tests.fitted {c : Condition} (h : a.Tests c) : ∀ f ∈ c.fragments, f.FittedBlock Q := by
  intro f hf
  cases h with
  | isNull =>
      obtain rfl := List.mem_singleton.mp hf
      exact ended_fitted (by simp [ends])
  | isNotNull =>
      obtain rfl := List.mem_singleton.mp hf
      exact ended_fitted (by simp [ends])
  | isIn nonempty =>
      obtain rfl := List.mem_singleton.mp hf
      exact listed_fitted (by simp [joints]) _
  | notIn nonempty =>
      obtain rfl := List.mem_singleton.mp hf
      exact listed_fitted (by simp [joints]) _
  | containing value =>
      obtain rfl := List.mem_singleton.mp hf
      exact contained_fitted _
  | compared op value =>
      obtain rfl := List.mem_singleton.mp hf
      have hsplit : " " ++ op.sql ++ " ?" = " " ++ op.sql ++ " " ++ "?" := by
        cases op <;> decide +kernel
      rw [hsplit]
      exact compared_fitted (by cases op <;> simp [joints, Comparison.sql]) _

end JsonAttribute

/-! ### Queries that read JSON attributes alone -/

variable {P : Column → Prop}

theorem Condition.mem_fragmentsOf {cs : List Condition} {f : Fragment} :
    f ∈ fragmentsOf cs ↔ ∃ c ∈ cs, f ∈ c.fragments := by
  induction cs with
  | nil => simp [fragmentsOf]
  | cons c cs ih => simp [fragmentsOf, ih]

/-- The fragments of a condition that a key stands for fit as blocks. -/
theorem Condition.Reads.fitted {c : Condition} (h : c.Reads P) :
    ∀ f ∈ c.fragments, f.FittedBlock Q := by
  induction h with
  | json _ tests => exact tests.fitted
  | or _ ih | and _ ih =>
      intro f hf
      obtain ⟨c, hc, hf⟩ := mem_fragmentsOf.mp hf
      exact ih c hc f hf
  | not _ ih => exact ih
  | compare | isIn | notIn | isNull | isNotNull | like | always | never => nofun

theorem Projection.Reads.fitted {p : Projection} (h : p.Reads P) :
    ∀ f ∈ p.fragments, f.FittedBlock Q := by
  cases p with
  | column c => nofun
  | aggregate function c result => nofun
  | expression g =>
      obtain ⟨a, rfl, -⟩ := h
      intro f hf
      obtain rfl := List.mem_singleton.mp hf
      exact JsonAttribute.aliased_fitted

theorem GroupTerm.Reads.fitted {g : GroupTerm} (h : g.Reads P) :
    ∀ f ∈ g.fragments, f.FittedBlock Q := by
  cases g with
  | column c => nofun
  | expression g =>
      obtain ⟨a, rfl, -⟩ := h
      intro f hf
      obtain rfl := List.mem_singleton.mp hf
      exact JsonAttribute.expression_fitted

theorem OrderTerm.Reads.fitted {o : OrderTerm} (h : o.Reads P) :
    ∀ f ∈ o.fragments, f.FittedBlock Q := by
  cases o with
  | column c order => nofun
  | expression g order =>
      obtain ⟨a, rfl, -⟩ := h
      intro f hf
      obtain rfl := List.mem_singleton.mp hf
      exact JsonAttribute.expression_fitted

/-- The raw fragments of a query whose parts read columns and JSON attributes are fitted blocks. -/
theorem Query.fitted_of_reads {q : Query} (hclauses : q.ClausesRead P)
    (hselect : q.SelectReads P) : ∀ f ∈ q.fragments, f.FittedBlock Q := by
  simp only [fragments, List.forall_mem_append, List.forall_mem_flatMap]
  refine ⟨⟨⟨fun p hp => (hselect p hp).fitted, ?_⟩,
    fun g hg => (hclauses.groupTerms g hg).fitted⟩,
    fun o ho => (hclauses.orderTerms o ho).fitted⟩
  intro f hf
  obtain ⟨c, hc, hf⟩ := Condition.mem_fragmentsOf.mp hf
  exact (hclauses.conditions c hc).fitted f hf

theorem Query.isBlock_of_reads {q : Query} (hclauses : q.ClausesRead P)
    (hselect : q.SelectReads P) : ∀ f ∈ q.fragments, f.IsBlock Q :=
  fun f hf => (fitted_of_reads hclauses hselect f hf).isBlock

end ResourceQuery.Sql
