import ResourceQuery.Proofs.Sql.Lexer
import ResourceQuery.Proofs.Sql.Template

/-!
# Sql — the tokens of templates

The SQL that the compiler writes itself consists of quoted identifiers, numbered placeholders, and
words, operators and marks from a fixed list (`Token.isFixed`).  `Template.Lexes Q A B` says this of
a template that may also have tokens with `Q` in it: read after anything with `A` it leads to a
reading with `B`, and no token reaches into it from the text before.  Such statements compose
(`Lexes.append`), so a template is read part by part.

A *block* is read between two tokens and ends outside quotes (`Template.Block`).  Fixed text comes
in four kinds, by whether it may follow a token directly and whether the token after it may follow
directly (`starts`, `joints`, `ends`, `words`).
-/

namespace ResourceQuery.Sql

/-! ### Fixed tokens -/

/-- The words of statements, those of windows left out. -/
def keywords : List String :=
  ["SELECT", "DISTINCT", "FROM", "LEFT", "OUTER", "JOIN", "ON", "AS", "WHERE", "AND", "OR", "NOT",
    "IN", "IS", "NULL", "TRUE", "FALSE", "LIKE", "LOWER", "GROUP", "ORDER", "BY", "ASC", "DESC",
    "COUNT", "total", "counted", "count", "sum", "avg", "max", "min", "text", "numeric", "date",
    "timestamp"]

/-- The operators of statements. -/
def operators : List String :=
  ["=", "!=", "<", "<=", ">", ">=", "#>>", "::"]

/-- The marks of statements. -/
def marks : List Char :=
  ['(', ')', ',', '.', '*']

namespace Token

/-- The token is a quoted identifier or on one of the lists. -/
def isFixed : Token → Bool
  | .run .word text       => keywords.contains (String.ofList text)
  | .run .operator text   => operators.contains (String.ofList text)
  | .quoted .identifier _ => true
  | .mark c               => marks.contains c
  | _                     => false

/-- The number of a placeholder. -/
def placeholder? : Token → Option (List Char)
  | .run .placeholder digits => some digits
  | _                        => none

/-- A token with the digits of a placeholder is that placeholder. -/
theorem eq_of_placeholder? {t : Token} {digits : List Char} (h : t.placeholder? = some digits) :
    t = .run .placeholder digits := by
  cases t with
  | run k text =>
      cases k with
      | placeholder => exact congrArg (Token.run .placeholder) (Option.some.inj h)
      | word | number | operator => cases h
  | quoted q text | mark c | unterminated => cases h

/-- A fixed token is no placeholder. -/
theorem placeholder?_of_isFixed {t : Token} (h : t.isFixed) : t.placeholder? = none := by
  cases t with
  | run k text => cases k <;> first | rfl | cases h
  | quoted q text => rfl
  | mark c => rfl
  | unterminated => rfl

end Token

/-- The tokens are placeholders with the `k` numbers from `n` on, in order, and others, which are
fixed or have `Q`. -/
structure Numbered (Q : Token → Prop) (n k : Nat) (ts : List Token) : Prop where
  numbers : ts.filterMap Token.placeholder? = (List.range' n k).map fun i => (toString i).toList
  others  : ∀ t ∈ ts, t.placeholder? = none → t.isFixed = true ∨ Q t

variable {Q : Token → Prop} {n k l : Nat} {ts us : List Token}

theorem Numbered.append (ht : Numbered Q n k ts) (hu : Numbered Q (n + k) l us) :
    Numbered Q n (k + l) (ts ++ us) where
  numbers := by
    rw [List.filterMap_append, ht.numbers, hu.numbers, ← List.map_append, List.range'_append_1]
  others := List.forall_mem_append.mpr ⟨ht.others, hu.others⟩

theorem numbered_of_isFixed (h : ts.all Token.isFixed = true) : Numbered Q n 0 ts where
  numbers := by
    simpa using fun t ht => Token.placeholder?_of_isFixed (List.all_eq_true.mp h t ht)
  others t ht _ := .inl (List.all_eq_true.mp h t ht)

/-! ### Readings -/

namespace Reading

/-- No token has begun. -/
def Between (r : Reading) : Prop :=
  r = between

/-- The text so far ends in no quotes. -/
def isOutside : Reading → Bool
  | .quoted _ _ => false
  | _           => true

def Outside (r : Reading) : Prop :=
  r.isOutside = true

/-- The text so far ends in an identifier or no token has begun. -/
def Settled (r : Reading) : Prop :=
  r = between ∨ ∃ name, r = closed .identifier name

theorem Between.outside {r : Reading} (h : r.Between) : r.Outside := by
  rw [h]
  rfl

theorem Settled.outside {r : Reading} (h : r.Settled) : r.Outside := by
  rcases h with rfl | ⟨name, rfl⟩ <;> rfl

/-- The characters that belong to no token but a quoted one. -/
def isApart (c : Char) : Bool :=
  c = ' ' || c = '(' || c = ')' || c = ',' || c = '.'

/-- A character that stands apart does not extend what is outside quotes. -/
theorem extend?_of_isApart {r : Reading} {c : Char} (hr : r.Outside) (hc : isApart c = true) :
    r.extend? c = none := by
  simp only [isApart, Bool.or_eq_true, decide_eq_true_eq] at hc
  rcases hc with (((rfl | rfl) | rfl) | rfl) | rfl <;>
  cases r with
  | between => rfl
  | run k text => cases k <;> rfl
  | quoted q text => cases hr
  | closed q text => cases q <;> rfl

end Reading

/-- The tokens of a column. -/
def Column.tokens (c : Column) : List Token :=
  (c.table.toList.flatMap fun table => [.quoted .identifier table.toList, .mark '.']) ++
    [if c.name = "*" then .mark '*' else .quoted .identifier c.name.toList]

/-! ### Templates read part by part -/

namespace Template

open Reading (Between Outside Settled between)

variable {A B C : Reading → Prop} {t u : Template}

/-- From every reading with `A`, whatever the number of the first place, the text leads to a reading
with `B`; its tokens begin where it begins, and are its places as placeholders and tokens with
`Q`. -/
def Lexes (Q : Token → Prop) (A B : Reading → Prop) (t : Template) : Prop :=
  ∀ n r, A r → B (r.after (t.charsFrom n)) ∧
    ∃ ts, r.tokens (t.charsFrom n) = r.finish ++ ts ∧ Numbered Q n t.params.length ts

/-- From every reading with `A`, the text whose first place has number `n` leads to a reading with
`B`, and its tokens are `ts`. -/
def LexesTo (A B : Reading → Prop) (n : Nat) (t : Template) (ts : List Token) : Prop :=
  ∀ r, A r → B (r.after (t.charsFrom n)) ∧ r.tokens (t.charsFrom n) = r.finish ++ ts

/-- The template is read between two tokens and ends outside quotes. -/
def Block (Q : Token → Prop) (t : Template) : Prop :=
  t.Lexes Q Between Outside

section

variable {n : Nat} {ts us : List Token}

/-- Templates are read one after the other. -/
theorem LexesTo.append (ht : t.LexesTo A B n ts) (hu : u.LexesTo B C (n + t.params.length) us) :
    (t ++ u).LexesTo A C n (ts ++ us) := by
  intro r hr
  obtain ⟨hmid, hts⟩ := ht r hr
  obtain ⟨hend, hus⟩ := hu _ hmid
  rw [charsFrom_append]
  exact ⟨by rwa [Reading.after_append], by rw [Reading.tokens_append hus, hts, List.append_assoc]⟩

theorem LexesTo.weaken {A' B' : Reading → Prop} (h : t.LexesTo A B n ts) (hA : ∀ r, A' r → A r)
    (hB : ∀ r, B r → B' r) : t.LexesTo A' B' n ts :=
  fun r hr => ⟨hB _ (h r (hA r hr)).1, (h r (hA r hr)).2⟩

end

theorem LexesTo.lexes
    (h : ∀ n, ∃ ts, t.LexesTo A B n ts ∧ Numbered Q n t.params.length ts) : t.Lexes Q A B := by
  intro n r hr
  obtain ⟨ts, hts, hn⟩ := h n
  exact ⟨(hts r hr).1, ts, (hts r hr).2, hn⟩

/-- Templates are read one after the other, in whatever state the first one leaves. -/
theorem Lexes.append (ht : t.Lexes Q A B) (hu : u.Lexes Q B C) : (t ++ u).Lexes Q A C := by
  intro n r hr
  obtain ⟨hmid, ts, hts, hnt⟩ := ht n r hr
  obtain ⟨hend, us, hus, hnu⟩ := hu (n + t.params.length) _ hmid
  rw [charsFrom_append, params_append, List.length_append]
  refine ⟨by rwa [Reading.after_append], ts ++ us, ?_, hnt.append hnu⟩
  rw [Reading.tokens_append hus, hts, List.append_assoc]

theorem Lexes.weaken {A' B' : Reading → Prop} (h : t.Lexes Q A B) (hA : ∀ r, A' r → A r)
    (hB : ∀ r, B r → B' r) : t.Lexes Q A' B' := by
  intro n r hr
  obtain ⟨hend, htokens⟩ := h n r (hA r hr)
  exact ⟨hB _ hend, htokens⟩

theorem lexes_nil (h : ∀ r, A r → B r) : Lexes Q A B [] := by
  intro n r hr
  exact ⟨h r hr, [], (List.append_nil _).symm, rfl, nofun⟩

/-- The tokens of a block on its own. -/
theorem Block.tokens (h : t.Block Q) (n : Nat) :
    (between.after (t.charsFrom n)).Outside ∧
      Numbered Q n t.params.length (between.tokens (t.charsFrom n)) := by
  obtain ⟨hend, ts, hts, hn⟩ := h n between rfl
  rw [hts]
  exact ⟨hend, hn⟩

/-! ### Fixed text -/

/-- The text has fixed tokens alone. -/
def isFixedText (s : String) : Bool :=
  (lex s).all Token.isFixed

/-- No token reaches into the text. -/
def beginsApart (s : String) : Bool :=
  s.toList.head?.any Reading.isApart

/-- No token reaches out of the text. -/
def endsApart (s : String) : Bool :=
  between.after s.toList = between

def endsOutside (s : String) : Bool :=
  (between.after s.toList).isOutside

section

variable {s : String} {n : Nat} {ts : List Token}

theorem lexesTo_text (hB : B (between.after s.toList)) : (text s).LexesTo Between B n (lex s) := by
  intro r hr
  obtain rfl : r = between := hr
  rw [charsFrom_text]
  exact ⟨hB, rfl⟩

/-- Text read between tokens may follow a token that its first character does not belong to. -/
theorem LexesTo.after_token {c : Char} {cs : List Char} (h : (text s).LexesTo Between B n ts)
    (hs : s.toList = c :: cs) (hA : ∀ r, A r → r.extend? c = none) :
    (text s).LexesTo A B n ts := by
  intro r hr
  obtain ⟨hend, hts⟩ := h between rfl
  rw [charsFrom_text, hs] at *
  rw [Reading.after_of_parted (hA r hr), Reading.tokens_of_parted (hA r hr)]
  exact ⟨hend, congrArg (r.finish ++ ·) hts⟩

theorem LexesTo.apart (h : (text s).LexesTo Between B n ts) (hs : beginsApart s = true) :
    (text s).LexesTo Outside B n ts := by
  obtain ⟨c, hc, hapart⟩ := (Option.any_eq_true _ _).mp hs
  obtain ⟨cs, hcs⟩ := List.head?_eq_some_iff.mp hc
  exact h.after_token hcs fun r hr => Reading.extend?_of_isApart hr hapart

theorem lexes_fixed (hs : ts.all Token.isFixed = true) (h : ∀ n, (text s).LexesTo A B n ts) :
    (text s).Lexes Q A B :=
  LexesTo.lexes fun n => ⟨ts, h n, by
    rw [params_text]
    exact numbered_of_isFixed hs⟩

end

/-- The texts of statements that no token reaches into or out of. -/
def joints : List String :=
  [" ", ", ", ".", "(", ") AS ", " AS ", " ON ", " AND ", " OR ", " IN ", " NOT IN ", " IN (",
    " NOT IN (", " = ", " != ", " > ", " < ", " >= ", " <= ", " #>> ", ")::text) LIKE LOWER(",
    " FROM ", " LEFT OUTER JOIN ", " WHERE ", " GROUP BY ", " ORDER BY "]

/-- The texts of statements that no token reaches out of. -/
def starts : List String :=
  ["(", "(NOT ", "LOWER(", "LOWER((", "::text) LIKE LOWER(", "SELECT ", "SELECT DISTINCT ",
    "SELECT COUNT(*) AS total FROM ", "SELECT COUNT(*) AS total FROM ("]

/-- The texts of statements that no token reaches into. -/
def ends : List String :=
  [")", ")::numeric", ")::date", ")::timestamp", ") AS counted", " IS NULL", " IS NOT NULL", " ASC",
    " DESC"]

/-- The texts of statements that stand between two tokens. -/
def words : List String :=
  ["*", "TRUE", "FALSE", "count", "sum", "avg", "max", "min", "=", "!=", ">", "<", ">=", "<="]

variable {s o e : String}

theorem fixed_of_joint (h : s ∈ joints) :
    isFixedText s = true ∧ beginsApart s = true ∧ endsApart s = true := by
  have hall : joints.all (fun s => isFixedText s && (beginsApart s && endsApart s)) = true := by
    decide +kernel
  simpa using List.all_eq_true.mp hall s h

theorem fixed_of_start (h : s ∈ starts) : isFixedText s = true ∧ endsApart s = true := by
  have hall : starts.all (fun s => isFixedText s && endsApart s) = true := by decide +kernel
  simpa using List.all_eq_true.mp hall s h

theorem fixed_of_end (h : s ∈ ends) :
    isFixedText s = true ∧ beginsApart s = true ∧ endsOutside s = true := by
  have hall : ends.all (fun s => isFixedText s && (beginsApart s && endsOutside s)) = true := by
    decide +kernel
  simpa using List.all_eq_true.mp hall s h

theorem fixed_of_word (h : s ∈ words) : isFixedText s = true ∧ endsOutside s = true := by
  have hall : words.all (fun s => isFixedText s && endsOutside s) = true := by decide +kernel
  simpa using List.all_eq_true.mp hall s h

theorem lexes_start (h : s ∈ starts) : (text s).Lexes Q Between Between := by
  obtain ⟨hfixed, hends⟩ := fixed_of_start h
  have hend : between.after s.toList = between := of_decide_eq_true hends
  exact lexes_fixed hfixed fun _ => lexesTo_text hend

theorem block_word (h : s ∈ words) : (text s).Block Q := by
  obtain ⟨hfixed, hends⟩ := fixed_of_word h
  exact lexes_fixed hfixed fun _ => lexesTo_text hends

theorem lexes_joint (h : s ∈ joints) : (text s).Lexes Q Outside Between := by
  obtain ⟨hfixed, hbegins, hends⟩ := fixed_of_joint h
  have hend : between.after s.toList = between := of_decide_eq_true hends
  exact lexes_fixed hfixed fun _ => (lexesTo_text hend).apart hbegins

theorem lexes_end (h : e ∈ ends) : (text e).Lexes Q Outside Outside := by
  obtain ⟨hfixed, hbegins, hends⟩ := fixed_of_end h
  exact lexes_fixed hfixed fun _ => (lexesTo_text hends).apart hbegins

/-! ### Blocks -/

theorem Block.started (ht : t.Block Q) (ho : o ∈ starts) : (text o ++ t).Block Q :=
  (lexes_start ho).append ht

theorem Block.ended (ht : t.Block Q) (he : e ∈ ends) : (t ++ text e).Block Q :=
  Lexes.append ht (lexes_end he)

theorem Block.joined (ht : t.Block Q) (hs : s ∈ joints) (hu : u.Block Q) :
    (t ++ text s ++ u).Block Q :=
  (Lexes.append ht (lexes_joint hs)).append hu

theorem block_nil : Block Q [] :=
  lexes_nil fun _ => Between.outside

/-- Blocks that are joined are a block. -/
theorem block_join {ts : List Template} (hs : s ∈ joints) (h : ∀ t ∈ ts, t.Block Q) :
    (join s ts).Block Q := by
  induction ts with
  | nil => exact block_nil
  | cons t ts ih =>
      obtain ⟨ht, hts⟩ := List.forall_mem_cons.mp h
      cases ts with
      | nil => exact ht
      | cons u us => exact ht.joined hs (ih hts)

/-- A place is one token, a placeholder with its number. -/
theorem lexesTo_bind (n : Nat) (v : Value) :
    LexesTo Between Outside n [.bind v] [.run .placeholder (toString n).toList] := by
  intro r hr
  obtain rfl : r = between := hr
  have hdigits : ∀ c ∈ (toString n).toList, Run.placeholder.continues c :=
    fun c => Text.isDigit_of_mem_repr
  obtain ⟨htokens, hafter⟩ := Reading.tokens_run [] [] hdigits
  rw [List.append_nil] at htokens hafter
  have hchars : charsFrom n [.bind v] = '$' :: (toString n).toList := List.append_nil _
  rw [hchars]
  refine ⟨?_, htokens⟩
  rw [Reading.after, show (between.step '$').2 = .run .placeholder [] from rfl, hafter]
  rfl

theorem block_bind (v : Value) : Block Q [.bind v] := by
  refine LexesTo.lexes fun n => ⟨_, lexesTo_bind n v, rfl, ?_⟩
  intro t ht hnone
  obtain rfl := List.mem_singleton.mp ht
  cases hnone

/-! ### Identifiers and columns -/

/-- A doubled quote does not end a quoted name. -/
theorem after_doubleQuotes (name text ds : List Char) :
    (Reading.quoted .identifier text).after (doubleQuotes name ++ ds) =
        (Reading.quoted .identifier (text ++ name)).after ds ∧
      (Reading.quoted .identifier text).tokens (doubleQuotes name ++ ds) =
        (Reading.quoted .identifier (text ++ name)).tokens ds := by
  induction name generalizing text with
  | nil => simp [doubleQuotes]
  | cons c cs ih =>
      by_cases hc : c = '"'
      · -- the first quote closes the identifier, the second one opens it again
        subst hc
        have hopen : (Reading.closed .identifier text).step '"' =
            ([], .quoted .identifier (text ++ ['"'])) := rfl
        have hclose : (Reading.quoted .identifier text).step '"' =
            ([], .closed .identifier text) := rfl
        simp only [doubleQuotes, if_true, List.cons_append, Reading.after, Reading.tokens, hclose,
          hopen, ih, List.nil_append, List.append_assoc, and_self]
      · have hstep : (Reading.quoted .identifier text).step c =
            ([], .quoted .identifier (text ++ [c])) := by
          simp [Reading.step, Reading.extend?, Quoted.quote, hc]
        simp only [doubleQuotes, hc, if_false, List.cons_append, Reading.after, Reading.tokens,
          hstep, ih, List.nil_append, List.append_assoc, and_self]

/-- A quoted identifier is one token. -/
theorem lex_quoteIdentifier (name : String) :
    between.after (quoteIdentifier name).toList = .closed .identifier name.toList ∧
      lex (quoteIdentifier name) = [.quoted .identifier name.toList] := by
  obtain ⟨hafter, htokens⟩ := after_doubleQuotes name.toList [] ['"']
  rw [lex, toList_quoteIdentifier]
  exact ⟨hafter, htokens⟩

theorem lexesTo_identifier (n : Nat) (name : String) :
    (text (quoteIdentifier name)).LexesTo Between Settled n [.quoted .identifier name.toList] := by
  obtain ⟨hafter, htokens⟩ := lex_quoteIdentifier name
  exact htokens ▸ lexesTo_text (.inr ⟨name.toList, hafter⟩)

theorem block_identifier (name : String) : (text (quoteIdentifier name)).Block Q :=
  lexes_fixed rfl fun n => (lexesTo_identifier n name).weaken (fun _ => id) fun _ => Settled.outside

/-- A column is read as its name, behind that of its table if there is one. -/
theorem lexesTo_column (n : Nat) (c : Column) : (text c.sql).LexesTo Between Settled n c.tokens := by
  have hname : (text (if c.name = "*" then "*" else quoteIdentifier c.name)).LexesTo
      Between Settled n [if c.name = "*" then .mark '*' else .quoted .identifier c.name.toList] := by
    split
    · exact lexesTo_text (.inl (by decide +kernel))
    · exact lexesTo_identifier n c.name
  cases htable : c.table with
  | none =>
      simp only [Column.sql, Column.tokens, htable]
      exact hname
  | some table =>
      have htext : (text (quoteIdentifier table)).LexesTo Between Outside n
          [.quoted .identifier table.toList] :=
        (lexesTo_identifier n table).weaken (fun _ => id) fun _ => Settled.outside
      have hend : between.after ".".toList = between := by decide +kernel
      have hpoint : (text ".").LexesTo Outside Between n [.mark '.'] :=
        (lexesTo_text hend).apart (by decide +kernel)
      simp only [Column.sql, Column.tokens, htable, text_append]
      exact (htext.append (by simpa using hpoint)).append (by simpa using hname)

theorem lexes_column (c : Column) : (text c.sql).Lexes Q Between Settled := by
  refine lexes_fixed ?_ fun n => lexesTo_column n c
  rw [Column.tokens]
  split <;> cases c.table <;> rfl

theorem block_column (c : Column) : (text c.sql).Block Q :=
  (lexes_column c).weaken (fun _ => id) fun _ => Settled.outside

end Template

end ResourceQuery.Sql
