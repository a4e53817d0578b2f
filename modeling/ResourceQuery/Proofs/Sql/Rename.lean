import ResourceQuery.Proofs.Sql.Lexer
import ResourceQuery.Sql.JsonAttribute

/-!
# Sql — renaming the tables of a query

`rename σ` replaces the alias `t` of a table by `σ t`, where columns are qualified by it and where
it is the alias of the base table.  The names of tables and columns, the aliases of joins and the
bound values stay as they are.

In the text of a raw fragment a quoted identifier in front of a point is the alias of a table.  It
is found by reading the text as the lexer does (`Reading.rename`), so that everything else is kept:
characters outside quotes (`rename_plain`) and identifiers that no point follows
(`rename_identifier`).  Renaming therefore commutes with writing an expression over a JSON attribute
(`rename_expression`, `rename_aliased`), whatever of its own is written around it (`rename_around`).
Queries are renamed entry by entry, which commutes with adding to them (`rename_join` and the like).
-/

namespace ResourceQuery.Sql

variable {σ : String → String}

/-! ### Text -/

namespace Reading

/-- The text of a reading that ends in front of a character, an identifier in front of a point
renamed. -/
def renamed (σ : String → String) (r : Reading) (next : Char) : List Char :=
  match r with
  | .closed .identifier name =>
    if next = '.' then (quoteIdentifier (σ (String.ofList name))).toList else r.spelling
  | _                        => r.spelling

/-- A character that begins nothing that is read on. -/
def passed (c : Char) : List Char :=
  if (start c).2 = .between then [c] else []

/-- A text, and what has been read before it, with every identifier in front of a point renamed. -/
def rename (σ : String → String) (r : Reading) : List Char → List Char
  | []      => r.spelling
  | c :: cs =>
    match r.extend? c with
    | some longer => longer.rename σ cs
    | none        => r.renamed σ c ++ passed c ++ (start c).2.rename σ cs

/-- No quote is open. -/
def IsUnquoted : Reading → Prop
  | .between | .run _ _       => True
  | .quoted _ _ | .closed _ _ => False

variable {r : Reading} {c : Char} {cs ds : List Char}

/-- The character is no quote. -/
def isPlain (c : Char) : Bool :=
  c ≠ '"' && c ≠ '\''

/-- The text has no quotes. -/
def isPlainText (s : String) : Bool :=
  s.toList.all isPlain

theorem isPlainText_append {s t : String} :
    isPlainText (s ++ t) = true ↔ isPlainText s = true ∧ isPlainText t = true := by
  rw [isPlainText, String.toList_append, List.all_append, Bool.and_eq_true]
  rfl

/-- Plain texts that are joined are plain. -/
theorem isPlainText_joinWith {sep : String} {ss : List String} (hsep : isPlainText sep = true)
    (hss : ∀ s ∈ ss, isPlainText s = true) : isPlainText (Text.joinWith sep ss) = true := by
  induction ss with
  | nil => rfl
  | cons s ss ih =>
      obtain ⟨hs, hss⟩ := List.forall_mem_cons.mp hss
      cases ss with
      | nil => exact hs
      | cons t ss =>
          rw [Text.joinWith_cons_cons, isPlainText_append, isPlainText_append]
          exact ⟨⟨hs, hsep⟩, ih hss⟩

/-- Between tokens, a character is passed or starts the next one. -/
theorem passed_spelling (c : Char) : passed c ++ (start c).2.spelling = [c] := by
  have hstarts := starts c
  rw [passed]
  generalize start c = s at hstarts
  cases hstarts with
  | blank | mark => rfl
  | quote q => cases q <;> rfl
  | placeholder => rfl
  | @run _ k _ hk =>
      cases k with
      | placeholder => exact absurd rfl hk
      | word | number | operator => rfl

theorem isUnquoted_start (h : isPlain c = true) : (start c).2.IsUnquoted := by
  have hstarts := starts c
  generalize start c = s at hstarts
  cases hstarts with
  | blank | placeholder | run | mark => trivial
  | quote q => cases q <;> cases h

theorem isPlain_of_continues {k : Run} (h : k.continues c = true) : isPlain c = true := by
  rw [isPlain, Bool.and_eq_true, decide_eq_true_eq, decide_eq_true_eq]
  constructor <;> rintro rfl <;> cases k <;> cases h

theorem renamed_of_isUnquoted (h : r.IsUnquoted) (c : Char) : r.renamed σ c = r.spelling := by
  cases r with
  | between | run => rfl
  | quoted | closed => exact h.elim

theorem rename_between : between.rename σ (c :: cs) = passed c ++ (start c).2.rename σ cs := rfl

theorem rename_of_parted (h : r.extend? c = none) :
    r.rename σ (c :: cs) = r.renamed σ c ++ between.rename σ (c :: cs) := by
  rw [rename_between, Reading.rename, h, List.append_assoc]

theorem rename_of_extend? {longer : Reading} (h : r.extend? c = some longer) :
    r.rename σ (c :: cs) = longer.rename σ cs := by
  rw [Reading.rename, h]

/-- What has been read outside quotes is kept. -/
theorem rename_of_isUnquoted (h : r.IsUnquoted) :
    r.rename σ cs = r.spelling ++ between.rename σ cs := by
  induction cs generalizing r with
  | nil => exact (List.append_nil _).symm
  | cons c cs ih =>
      cases hlonger : r.extend? c with
      | none => rw [rename_of_parted hlonger, renamed_of_isUnquoted h]
      | some longer =>
          rw [rename_of_extend? hlonger]
          have hspelling := spelling_extend hlonger
          cases extends_of_extend? hlonger with
          | @run k text _ hc =>
              -- the character goes on with a run, and between tokens it would begin one
              have hlonger : (Reading.run k (text ++ [c])).IsUnquoted := trivial
              have hstart := isUnquoted_start (isPlain_of_continues hc)
              rw [ih hlonger, hspelling, rename_between, ih hstart, ← List.append_assoc (passed c),
                passed_spelling, List.append_assoc]
          | inside | close | reopen => exact h.elim

/-- A text without quotes is kept. -/
theorem rename_plain (h : cs.all isPlain = true) (ds : List Char) :
    between.rename σ (cs ++ ds) = cs ++ between.rename σ ds := by
  induction cs with
  | nil => rfl
  | cons c cs ih =>
      obtain ⟨hc, hcs⟩ := Bool.and_eq_true_iff.mp h
      rw [List.cons_append, rename_between, rename_of_isUnquoted (isUnquoted_start hc),
        ← List.append_assoc, passed_spelling, ih hcs]
      rfl

/-- A quoted name is passed up to its closing quote. -/
theorem rename_doubleQuotes (name text : List Char) :
    (quoted .identifier text).rename σ (doubleQuotes name ++ '"' :: ds) =
      (closed .identifier (text ++ name)).rename σ ds := by
  induction name generalizing text with
  | nil => simp [doubleQuotes, Reading.rename, extend?, Quoted.quote]
  | cons c name ih =>
      by_cases hc : c = '"'
      · subst hc
        simp [doubleQuotes, Reading.rename, extend?, Quoted.quote, ih]
      · simp [doubleQuotes, Reading.rename, extend?, Quoted.quote, hc, ih]

end Reading

/-- The identifier is spelled as the lexer reads it. -/
theorem spelling_identifier (name : String) :
    (Reading.closed .identifier name.toList).spelling = (quoteIdentifier name).toList := by
  have hdoubled (cs : List Char) : Quoted.identifier.doubled cs = doubleQuotes cs := by
    induction cs with
    | nil => rfl
    | cons c cs ih =>
        rw [doubleQuotes, ← ih, Quoted.doubled, List.flatMap_cons, Quoted.quote]
        split
        case isTrue hc =>
          subst hc
          rfl
        case isFalse => rfl
  simp [Reading.spelling, Token.spelling, hdoubled, quoteIdentifier, Quoted.quote]

namespace Reading

variable {ds : List Char}

/-- The next character is neither a quote nor a point. -/
def IsApart (ds : List Char) : Prop :=
  ∀ c ∈ ds.head?, c ≠ '"' ∧ c ≠ '.'

theorem rename_identifier_cons (name : String) (ds : List Char) :
    between.rename σ ((quoteIdentifier name).toList ++ ds) =
      (closed .identifier name.toList).rename σ ds := by
  rw [toList_quoteIdentifier, List.cons_append, List.append_assoc, rename_between]
  exact rename_doubleQuotes name.toList []

/-- An identifier that no point follows is kept. -/
theorem rename_identifier (name : String) (h : IsApart ds) :
    between.rename σ ((quoteIdentifier name).toList ++ ds) =
      (quoteIdentifier name).toList ++ between.rename σ ds := by
  rw [rename_identifier_cons, ← spelling_identifier]
  cases ds with
  | nil => exact (List.append_nil _).symm
  | cons c ds =>
      obtain ⟨hquote, hpoint⟩ := h c rfl
      have hparted : (closed .identifier name.toList).extend? c = none := if_neg hquote
      rw [rename_of_parted hparted, renamed, if_neg hpoint]

/-- An identifier in front of a point is renamed. -/
theorem rename_qualifier (name : String) (ds : List Char) :
    between.rename σ ((quoteIdentifier name).toList ++ '.' :: ds) =
      (quoteIdentifier (σ name)).toList ++ '.' :: between.rename σ ds := by
  have hplain : ['.'].all isPlain = true := rfl
  have hpoint : between.rename σ ('.' :: ds) = '.' :: between.rename σ ds :=
    rename_plain hplain ds
  rw [rename_identifier_cons, rename_of_parted rfl, hpoint, renamed, if_pos rfl,
    String.ofList_toList]

end Reading

/-! ### Columns and fragments -/

/-- The column of a renamed table. -/
def Column.rename (σ : String → String) (c : Column) : Column :=
  { c with table := c.table.map σ }

/-- The fragment with the tables of its columns renamed. -/
def Fragment.rename (σ : String → String) (f : Fragment) : Fragment :=
  { f with sql := String.ofList (Reading.between.rename σ f.sql.toList) }

/-- A column is renamed within a text. -/
theorem rename_column (c : Column) {ds : List Char} (h : Reading.IsApart ds) :
    Reading.between.rename σ (c.sql.toList ++ ds) =
      (c.rename σ).sql.toList ++ Reading.between.rename σ ds := by
  have hname : Reading.between.rename σ
      ((if c.name = "*" then "*" else quoteIdentifier c.name).toList ++ ds) =
        (if c.name = "*" then "*" else quoteIdentifier c.name).toList ++
          Reading.between.rename σ ds := by
    split
    · have hstar : Reading.isPlainText "*" = true := rfl
      exact Reading.rename_plain hstar ds
    · exact Reading.rename_identifier c.name h
  obtain ⟨table, name⟩ := c
  cases table with
  | none => exact hname
  | some table =>
      have hpoint : ".".toList = ['.'] := rfl
      simp only [Column.sql, Column.rename, Option.map_some, String.toList_append, hpoint,
        List.append_assoc, List.cons_append, List.nil_append, Reading.rename_qualifier]
      exact congrArg (_ ++ '.' :: ·) hname

/-! ### JSON attributes -/

/-- What follows the column in the expression over a JSON attribute. -/
def JsonCast.access : Option JsonCast → String
  | some cast => " #>> ?)" ++ "::" ++ cast.sql
  | none      => " #>> ?)"

theorem JsonCast.isPlainText_access (cast : Option JsonCast) :
    Reading.isPlainText (access cast) = true := by
  rcases cast with _ | _ | _ | _ <;> rfl

/-- What follows a JSON column stands apart from it. -/
theorem JsonCast.isApart_access (cast : Option JsonCast) (ds : List Char) :
    Reading.IsApart ((access cast).toList ++ ds) := by
  have hblank : (access cast).toList.head? = some ' ' := by
    rcases cast with _ | _ | _ | _ <;> rfl
  intro c hc
  rw [List.head?_append, hblank] at hc
  cases hc
  decide

namespace JsonAttribute

variable (a : JsonAttribute)

/-- The attribute of a column of a renamed table. -/
def rename (σ : String → String) : JsonAttribute :=
  { a with column := a.column.rename σ }

theorem expression_eq :
    a.expression = ⟨"(" ++ a.column.sql ++ JsonCast.access a.cast, [.texts a.path]⟩ := by
  obtain ⟨column, path, cast⟩ := a
  cases cast <;> simp [expression, JsonCast.access, String.append_assoc]

/-- The expression is renamed by renaming the table of its column, whatever is written after it. -/
theorem rename_expression_append (ds : List Char) :
    Reading.between.rename σ (a.expression.sql.toList ++ ds) =
      (a.rename σ).expression.sql.toList ++ Reading.between.rename σ ds := by
  have hopen : Reading.isPlainText "(" = true := rfl
  simp only [expression_eq, String.toList_append, List.append_assoc]
  rw [Reading.rename_plain hopen, rename_column _ (JsonCast.isApart_access a.cast ds),
    Reading.rename_plain (JsonCast.isPlainText_access a.cast)]
  rfl

theorem params_rename : (a.rename σ).expression.params = a.expression.params := by
  rw [expression_eq, expression_eq]
  rfl

/-- So is a text around the expression that has no qualifiers of its own. -/
theorem rename_around (before after : String)
    (hbefore : Reading.isPlainText before = true)
    (hafter : Reading.between.rename σ after.toList = after.toList) (values : List Value) :
    Fragment.rename σ ⟨before ++ a.expression.sql ++ after, a.expression.params ++ values⟩ =
      ⟨before ++ (a.rename σ).expression.sql ++ after,
        (a.rename σ).expression.params ++ values⟩ := by
  rw [Fragment.rename, params_rename, String.toList_append, String.toList_append, List.append_assoc,
    Reading.rename_plain hbefore, rename_expression_append, hafter]
  simp [String.ofList_append, String.append_assoc]

theorem rename_expression : a.expression.rename σ = (a.rename σ).expression := by
  have h := a.rename_around (σ := σ) "" "" rfl rfl []
  simpa using h

example : ((JsonAttribute.mk ⟨some "t", "t"⟩ ["t"] none).expression.rename fun _ => "a").sql =
    "(\"a\".\"t\" #>> ?)" := rfl

/-- An attribute with its alias is renamed in its column, and keeps the alias. -/
theorem rename_aliased : a.aliased.rename σ = (a.rename σ).aliased := by
  have has : Reading.isPlainText " AS " = true := rfl
  have hafter : Reading.between.rename σ (" AS " ++ quoteIdentifier a.leaf).toList =
      (" AS " ++ quoteIdentifier a.leaf).toList := by
    have hleaf : Reading.between.rename σ ((quoteIdentifier a.leaf).toList ++ []) = _ :=
      Reading.rename_identifier a.leaf nofun
    rw [List.append_nil, Reading.rename, Reading.spelling, List.append_nil] at hleaf
    rw [String.toList_append, Reading.rename_plain has, hleaf]
  have h := a.rename_around "" _ rfl hafter []
  have hleaf : (a.rename σ).leaf = a.leaf := rfl
  simpa [aliased, Fragment.mapSql, String.append_assoc, hleaf] using h

end JsonAttribute

/-! ### Conditions -/

namespace Condition

mutual

/-- The condition with the tables of its columns renamed. -/
def rename (σ : String → String) : Condition → Condition
  | .compare c op value => .compare (c.rename σ) op value
  | .isIn c values      => .isIn (c.rename σ) values
  | .notIn c values     => .notIn (c.rename σ) values
  | .isNull c           => .isNull (c.rename σ)
  | .isNotNull c        => .isNotNull (c.rename σ)
  | .like c pattern     => .like (c.rename σ) pattern
  | .raw fragment       => .raw (fragment.rename σ)
  | .or parts           => .or (renameAll σ parts)
  | .and parts          => .and (renameAll σ parts)
  | .not part           => .not (rename σ part)
  | .always             => .always
  | .never              => .never

/-- The conditions with the tables of their columns renamed. -/
def renameAll (σ : String → String) : List Condition → List Condition
  | []      => []
  | c :: cs => rename σ c :: renameAll σ cs

end

theorem renameAll_eq_map (cs : List Condition) : renameAll σ cs = cs.map (rename σ) := by
  induction cs with
  | nil => rfl
  | cons c cs ih => rw [renameAll, ih, List.map_cons]

/-- Alternatives are renamed one by one. -/
theorem rename_anyOf (cs : List Condition) : (anyOf cs).rename σ = anyOf (cs.map (rename σ)) := by
  cases cs with
  | nil => rfl
  | cons c cs =>
      cases cs with
      | nil => rfl
      | cons d cs => exact congrArg Condition.or (renameAll_eq_map _)

end Condition

/-! ### Queries -/

/-- The entry with the tables of its columns renamed. -/
def Projection.rename (σ : String → String) : Projection → Projection
  | .column c              => .column (c.rename σ)
  | .aggregate f c result  => .aggregate f (c.rename σ) result
  | .expression fragment   => .expression (fragment.rename σ)

/-- The entry with the tables of its columns renamed. -/
def GroupTerm.rename (σ : String → String) : GroupTerm → GroupTerm
  | .column c            => .column (c.rename σ)
  | .expression fragment => .expression (fragment.rename σ)

/-- The entry with the tables of its columns renamed. -/
def OrderTerm.rename (σ : String → String) : OrderTerm → OrderTerm
  | .column c order            => .column (c.rename σ) order
  | .expression fragment order => .expression (fragment.rename σ) order

/-- The predicate with the tables of its columns renamed. -/
def JoinCondition.rename (σ : String → String) : JoinCondition → JoinCondition
  | .columns left right => .columns (left.rename σ) (right.rename σ)
  | .value c v          => .value (c.rename σ) v

/-- The join with the tables of the columns that it reads renamed; it keeps its own alias. -/
def Join.rename (σ : String → String) (j : Join) : Join :=
  { j with on := j.on.map (JoinCondition.rename σ) }

namespace Query

/-- The query with the base table and the tables of all columns renamed. -/
def rename (σ : String → String) (q : Query) : Query :=
  { q with
    tableAlias  := σ q.tableAlias
    projections := q.projections.map (Projection.rename σ)
    joins       := q.joins.map (Join.rename σ)
    conditions  := q.conditions.map (Condition.rename σ)
    groupTerms  := q.groupTerms.map (GroupTerm.rename σ)
    orderTerms  := q.orderTerms.map (OrderTerm.rename σ) }

variable {q : Query}

theorem rename_select (p : Projection) :
    (q.select p).rename σ = (q.rename σ).select (p.rename σ) := by
  simp [select, rename]

theorem rename_groupBy (t : GroupTerm) :
    (q.groupBy t).rename σ = (q.rename σ).groupBy (t.rename σ) := by
  simp [groupBy, rename]

theorem rename_orderBy (t : OrderTerm) :
    (q.orderBy t).rename σ = (q.rename σ).orderBy (t.rename σ) := by
  simp [orderBy, rename]

theorem hasJoin_rename (name : String) : (q.rename σ).hasJoin name = q.hasJoin name := by
  rw [hasJoin, rename, List.any_map]
  rfl

/-- A join is renamed with the query, its alias being kept. -/
theorem rename_join (j : Join) : (q.join j).rename σ = (q.rename σ).join (j.rename σ) := by
  have halias : (j.rename σ).tableAlias = j.tableAlias := rfl
  rw [join, join, hasJoin_rename, halias]
  split
  · rfl
  · simp [rename]

theorem rename_foldl_join (js : List Join) :
    (js.foldl join q).rename σ = (js.map (Join.rename σ)).foldl join (q.rename σ) := by
  induction js generalizing q with
  | nil => rfl
  | cons j js ih => rw [List.foldl_cons, ih, rename_join, List.map_cons, List.foldl_cons]

end Query

end ResourceQuery.Sql
