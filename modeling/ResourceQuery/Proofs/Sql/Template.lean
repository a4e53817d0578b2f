import ResourceQuery.Sql.Statement

/-!
# Sql — templates

A template is SQL text with values in the places of its placeholders.  Its places are numbered from left to
right, `$1`, `$2`, …, and its values are in the same order.  The parts of a query have templates; that a
part is written as its template says is shown apart (`ResourceQuery.Proofs.Sql.Written`).

A fragment has a template when it has as many placeholders as parameters.  Otherwise the error counts
the placeholders up to the first one without a parameter, or all of them when parameters are left
over (`Fragment.mismatch?`).

* `params_append`, `params_text`: the values of a composed template are those of its parts, in order;
  plain text has none.
* `charsFrom_append`: the places of a later part are numbered from where those of an earlier part end.
-/

namespace ResourceQuery.Sql

/-- A character of SQL text, or a place for a value. -/
inductive Piece where
  | char (c : Char)
  | bind (value : Value)

/-- SQL text with values in place. -/
abbrev Template := List Piece

namespace Template

/-- A template without values. -/
def text (s : String) : Template :=
  s.toList.map .char

/-- Templates with a text between neighbours. -/
def join (sep : String) : List Template → Template
  | []           => []
  | [t]          => t
  | t :: u :: ts => t ++ text sep ++ join sep (u :: ts)

/-- The values in the order of their places. -/
def params : Template → List Value
  | []           => []
  | .char _ :: t => params t
  | .bind v :: t => v :: params t

/-- The text of a template whose first place has number `n`. -/
def charsFrom (n : Nat) : Template → List Char
  | []           => []
  | .char c :: t => c :: charsFrom n t
  | .bind _ :: t => '$' :: (toString n).toList ++ charsFrom (n + 1) t

/-- The statement of a template. -/
def statement (t : Template) : Statement :=
  ⟨String.ofList (charsFrom 1 t), params t⟩

@[simp] theorem params_nil : params [] = [] := rfl

@[simp] theorem params_bind (v : Value) (t : Template) : params (.bind v :: t) = v :: params t := rfl

@[simp] theorem params_append (t u : Template) : params (t ++ u) = params t ++ params u := by
  induction t with
  | nil => rfl
  | cons p t ih => cases p <;> simp [params, ih]

@[simp] theorem params_text (s : String) : params (text s) = [] := by
  unfold text
  induction s.toList with
  | nil => rfl
  | cons c cs ih => simpa [params] using ih

/-- The values of templates with a text between neighbours are those of the templates, in order. -/
@[simp] theorem params_join (sep : String) (ts : List Template) :
    params (join sep ts) = ts.flatMap params := by
  induction ts with
  | nil => rfl
  | cons t ts ih =>
      cases ts with
      | nil => simp [join]
      | cons u us => simpa [join] using ih

@[simp] theorem params_flatten (ts : List Template) : params ts.flatten = ts.flatMap params := by
  induction ts with
  | nil => rfl
  | cons t ts ih => rw [List.flatten_cons, params_append, ih, List.flatMap_cons]

theorem join_empty (ts : List Template) : join "" ts = ts.flatten := by
  induction ts with
  | nil => rfl
  | cons t ts ih =>
      cases ts with
      | nil => simp [join]
      | cons u us => simp [join, ih, text]

theorem text_append (s t : String) : text (s ++ t) = text s ++ text t := by
  simp [text]

/-- The places of a later part are numbered on from those of an earlier one. -/
theorem charsFrom_append (n : Nat) (t u : Template) :
    charsFrom n (t ++ u) = charsFrom n t ++ charsFrom (n + (params t).length) u := by
  induction t generalizing n with
  | nil => rfl
  | cons p t ih =>
      cases p with
      | char c => simp [charsFrom, params, ih]
      | bind v => simp [charsFrom, params, ih, Nat.add_assoc, Nat.add_comm]

/-- A text without places is itself, whatever the number of the first place. -/
theorem charsFrom_text (n : Nat) (s : String) : charsFrom n (text s) = s.toList := by
  unfold text
  induction s.toList with
  | nil => rfl
  | cons c cs ih => rw [List.map_cons, charsFrom, ih]

end Template

/-! ### Fragments -/

namespace Fragment

/-- The number of placeholders in a text. -/
def placeholders (q : Quoting) : List Char → Nat
  | []      => 0
  | c :: cs =>
    if q = .outside ∧ c = '?' then placeholders q cs + 1 else placeholders (q.next c) cs

/-- The text with values put in the place of its placeholders while there are any. -/
def fill (q : Quoting) : List Char → List Value → Template
  | [],      _  => []
  | c :: cs, vs =>
    if q = .outside ∧ c = '?' then
      match vs with
      | []      => .char c :: fill q cs []
      | v :: vs => .bind v :: fill q cs vs
    else .char c :: fill (q.next c) cs vs

/-- The error of a fragment whose placeholders and parameters do not match. -/
def mismatch? (f : Fragment) : Option SqlError :=
  let found := placeholders .outside f.sql.toList
  if found = f.params.length then none
  else some (.placeholderMismatch f.sql (min found (f.params.length + 1)) f.params.length)

/-- The template of a fragment. -/
def template (f : Fragment) : Except SqlError Template :=
  match f.mismatch? with
  | some e => .error e
  | none   => .ok (fill .outside f.sql.toList f.params)

end Fragment

/-! ### Conditions -/

namespace Condition

/-- A parenthesised list of values. -/
def valueList (values : List Value) : Template :=
  Template.text "(" ++ Template.join ", " (values.map fun v => [.bind v]) ++ Template.text ")"

mutual

/-- The template of a condition. -/
def template : Condition → Except SqlError Template
  | .compare column op value =>
    .ok (Template.text (column.sql ++ " " ++ op.sql ++ " ") ++ [.bind value])
  | .isIn column values      =>
    .ok (if values.isEmpty then Template.text "FALSE"
      else Template.text (column.sql ++ " IN ") ++ valueList values)
  | .notIn column values     =>
    .ok (if values.isEmpty then Template.text "TRUE"
      else Template.text (column.sql ++ " NOT IN ") ++ valueList values)
  | .isNull column           => .ok (Template.text (column.sql ++ " IS NULL"))
  | .isNotNull column        => .ok (Template.text (column.sql ++ " IS NOT NULL"))
  | .like column pattern     =>
    .ok (Template.text ("LOWER(" ++ column.sql ++ "::text) LIKE LOWER(") ++ [.bind (.text pattern)] ++
      Template.text ")")
  | .raw fragment            => fragment.template
  | .or parts                =>
    if parts.isEmpty then .ok (Template.text "FALSE")
    else do return Template.text "(" ++ Template.join " OR " (← templates parts) ++ Template.text ")"
  | .and parts               =>
    if parts.isEmpty then .ok (Template.text "TRUE")
    else do return Template.text "(" ++ Template.join " AND " (← templates parts) ++ Template.text ")"
  | .not part                => do return Template.text "(NOT " ++ (← template part) ++ Template.text ")"
  | .always                  => .ok (Template.text "TRUE")
  | .never                   => .ok (Template.text "FALSE")

/-- The templates of a list of conditions, or the first error. -/
def templates : List Condition → Except SqlError (List Template)
  | []      => .ok []
  | c :: cs => do return (← template c) :: (← templates cs)

end

end Condition

/-! ### Queries -/

namespace Projection

/-- The template of an entry of the `SELECT` list. -/
def template : Projection → Except SqlError Template
  | .column c             => .ok (Template.text c.sql)
  | .aggregate f c result =>
    .ok (Template.text (f.name ++ "(" ++ c.sql ++ ") AS " ++ quoteIdentifier result))
  | .expression fragment  => fragment.template

end Projection

namespace GroupTerm

/-- The template of an entry of the `GROUP BY` list. -/
def template : GroupTerm → Except SqlError Template
  | .column c            => .ok (Template.text c.sql)
  | .expression fragment => fragment.template

end GroupTerm

namespace OrderTerm

/-- The template of an entry of the `ORDER BY` list. -/
def template : OrderTerm → Except SqlError Template
  | .column c order            => .ok (Template.text (c.sql ++ " " ++ order.sql))
  | .expression fragment order => do return (← fragment.template) ++ Template.text (" " ++ order.sql)

end OrderTerm

namespace JoinCondition

/-- The template of a predicate in the `ON` of a join. -/
def template : JoinCondition → Template
  | .columns left right => Template.text (left.sql ++ " = " ++ right.sql)
  | .value c v          => Template.text (c.sql ++ " = ") ++ [.bind v]

end JoinCondition

/-- The templates that `write` gives for a list, or the first error. -/
def templatesOf {α : Type} (write : α → Except SqlError Template) :
    List α → Except SqlError (List Template)
  | []      => .ok []
  | x :: xs => do return (← write x) :: (← templatesOf write xs)

namespace Query

/-- The template of one join. -/
def joinTemplate (q : Query) (j : Join) : Template :=
  Template.text (" LEFT OUTER JOIN " ++ q.tableSql j.table j.tableAlias ++ " ON ") ++
    Template.join " AND " (j.on.map JoinCondition.template)

/-- The table and its joins. -/
def fromTemplate (q : Query) : Template :=
  Template.text (q.tableSql q.table q.tableAlias) ++ q.joins.flatMap q.joinTemplate

/-- The `WHERE` clause, empty without conditions. -/
def whereTemplate (q : Query) : Except SqlError Template :=
  if q.conditions.isEmpty then .ok []
  else do return Template.text " WHERE " ++ Template.join " AND " (← Condition.templates q.conditions)

/-- The `SELECT` list. -/
def selectList (q : Query) : Except SqlError Template :=
  if q.projections.isEmpty then .ok (Template.text "*")
  else do return Template.join ", " (← templatesOf Projection.template q.projections)

/-- The `GROUP BY` clause, empty without entries. -/
def groupTemplate (q : Query) : Except SqlError Template :=
  if q.groupTerms.isEmpty then .ok []
  else do
    return Template.text " GROUP BY " ++ Template.join ", " (← templatesOf GroupTerm.template q.groupTerms)

/-- The `ORDER BY` clause, empty without entries. -/
def orderTemplate (q : Query) : Except SqlError Template :=
  if q.orderTerms.isEmpty then .ok []
  else do
    return Template.text " ORDER BY " ++ Template.join ", " (← templatesOf OrderTerm.template q.orderTerms)

/-- The query without ordering and window. -/
def selectTemplate (q : Query) : Except SqlError Template := do
  let list ← q.selectList
  let condition ← q.whereTemplate
  let grouping ← q.groupTemplate
  return Template.text ("SELECT " ++ if q.distinct then "DISTINCT " else "") ++ list ++
    Template.text " FROM " ++ q.fromTemplate ++ condition ++ grouping

/-- The template of the whole query. -/
def template (q : Query) : Except SqlError Template := do
  let select ← q.selectTemplate
  let ordering ← q.orderTemplate
  return select ++ ordering ++ Template.text q.windowSql

/-- The template of the count of the rows. -/
def countTemplate (q : Query) : Except SqlError Template :=
  if q.distinct || !q.groupTerms.isEmpty then do
    return Template.text "SELECT COUNT(*) AS total FROM (" ++ (← q.selectTemplate) ++
      Template.text ") AS counted"
  else do
    return Template.text "SELECT COUNT(*) AS total FROM " ++ q.fromTemplate ++ (← q.whereTemplate)

end Query

end ResourceQuery.Sql
