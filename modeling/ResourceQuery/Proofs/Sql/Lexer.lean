import ResourceQuery.Sql.Identifier
import ResourceQuery.Text.Word

/-!
# Sql — reading SQL text

A lexer for the text of statements.  Between two quotes everything is text, a quote of the same kind
being doubled there; outside quotes it tells words, numbers, operators and numbered placeholders,
drops blanks, and takes any other character for a mark.  It is a machine that reads one character
after the other (`Reading.step`), so that what it finds in a composed text is what it finds in the
parts, as long as no token reaches from one part into the next (`tokens_append`,
`tokens_of_parted`).

* `lex_spells`: the tokens, written one after the other with blanks between them, are the text.
-/

namespace ResourceQuery.Sql

/-- What stands between quotes. -/
inductive Quoted where
  | identifier
  | literal
  deriving DecidableEq

/-- The quote around it. -/
def Quoted.quote : Quoted → Char
  | .identifier => '"'
  | .literal    => '\''

/-- What stands outside quotes and has more than one character. -/
inductive Run where
  | word
  | number
  | operator
  /-- A dollar sign and a number. -/
  | placeholder
  deriving DecidableEq

namespace Run

def isOperatorChar (c : Char) : Bool :=
  c = '=' || c = '<' || c = '>' || c = '!' || c = '#' || c = ':'

/-- The character belongs to a run that has begun before it. -/
def continues : Run → Char → Bool
  | .word,        c => c.isAlphanum || c = '_'
  | .number,      c => c.isDigit
  | .operator,    c => isOperatorChar c
  | .placeholder, c => c.isDigit

/-- The run that a character begins. -/
def ofFirst? (c : Char) : Option Run :=
  if c = '$' then some .placeholder
  else if c.isDigit then some .number
  else if c.isAlpha || c = '_' then some .word
  else if isOperatorChar c then some .operator
  else none

end Run

/-- A part of SQL text. -/
inductive Token where
  /-- A run, the dollar sign of a placeholder left out. -/
  | run (run : Run) (text : List Char)
  /-- What stands between quotes, each doubled quote written once. -/
  | quoted (quoted : Quoted) (text : List Char)
  | mark (c : Char)
  /-- A quote without its counterpart. -/
  | unterminated
  deriving DecidableEq

/-- What has been read and is not a token yet. -/
inductive Reading where
  | between
  | run (run : Run) (text : List Char)
  | quoted (quoted : Quoted) (text : List Char)
  /-- The text up to a quote, which ends it unless the quote is followed by another. -/
  | closed (quoted : Quoted) (text : List Char)
  deriving DecidableEq

namespace Reading

/-- The tokens of a reading when the text ends. -/
def finish : Reading → List Token
  | .between       => []
  | .run r text    => [.run r text]
  | .quoted _ _    => [.unterminated]
  | .closed q text => [.quoted q text]

/-- The reading with a character more, if the character belongs to it. -/
def extend? : Reading → Char → Option Reading
  | .between,       _ => none
  | .run r text,    c => if r.continues c then some (.run r (text ++ [c])) else none
  | .quoted q text, c =>
    if c = q.quote then some (.closed q text) else some (.quoted q (text ++ [c]))
  | .closed q text, c => if c = q.quote then some (.quoted q (text ++ [c])) else none

/-- The tokens and the reading that a character gives after a token has ended. -/
def start (c : Char) : List Token × Reading :=
  if c = ' ' then ([], .between)
  else if c = Quoted.identifier.quote then ([], .quoted .identifier [])
  else if c = Quoted.literal.quote then ([], .quoted .literal [])
  else
    match Run.ofFirst? c with
    | some .placeholder => ([], .run .placeholder [])
    | some r            => ([], .run r [c])
    | none              => ([.mark c], .between)

/-- Reads a character. -/
def step (r : Reading) (c : Char) : List Token × Reading :=
  match r.extend? c with
  | some longer => ([], longer)
  | none        => (r.finish ++ (start c).1, (start c).2)

/-- The reading after a text. -/
def after (r : Reading) : List Char → Reading
  | []      => r
  | c :: cs => (r.step c).2.after cs

/-- The tokens of a text, the one that has begun before it included. -/
def tokens (r : Reading) : List Char → List Token
  | []      => r.finish
  | c :: cs => (r.step c).1 ++ (r.step c).2.tokens cs

end Reading

/-- The tokens of SQL text. -/
def lex (s : String) : List Token :=
  Reading.between.tokens s.toList

namespace Reading

/-- What a character may start. -/
inductive Starts : Char → List Token × Reading → Prop where
  | blank : Starts ' ' ([], .between)
  | quote (q : Quoted) : Starts q.quote ([], .quoted q [])
  | placeholder : Starts '$' ([], .run .placeholder [])
  | run {c : Char} {k : Run} :
      (∀ q, c ≠ Quoted.quote q) → k ≠ .placeholder → Starts c ([], .run k [c])
  | mark {c : Char} : (∀ q, c ≠ Quoted.quote q) → Starts c ([.mark c], .between)

/-- How a character may belong to a reading. -/
inductive Extends : Reading → Char → Reading → Prop where
  | run {k : Run} {text : List Char} {c : Char} (h : k.continues c = true) :
      Extends (.run k text) c (.run k (text ++ [c]))
  | inside {q : Quoted} {text : List Char} {c : Char} (h : c ≠ q.quote) :
      Extends (.quoted q text) c (.quoted q (text ++ [c]))
  | close {q : Quoted} {text : List Char} : Extends (.quoted q text) q.quote (.closed q text)
  | reopen {q : Quoted} {text : List Char} :
      Extends (.closed q text) q.quote (.quoted q (text ++ [q.quote]))

variable {r : Reading} {c : Char} {cs ds : List Char}

/-- A reading that is extended goes on in one of the ways there are. -/
theorem extends_of_extend? {longer : Reading} (h : r.extend? c = some longer) :
    Extends r c longer := by
  cases r with
  | between => cases h
  | run k text =>
      by_cases hc : k.continues c = true
      · rw [extend?, if_pos hc] at h
        exact Option.some.inj h ▸ .run hc
      · rw [extend?, if_neg hc] at h
        cases h
  | quoted q text =>
      by_cases hc : c = q.quote
      · rw [extend?, if_pos hc] at h
        exact Option.some.inj h ▸ hc ▸ .close
      · rw [extend?, if_neg hc] at h
        exact Option.some.inj h ▸ .inside hc
  | closed q text =>
      by_cases hc : c = q.quote
      · rw [extend?, if_pos hc] at h
        exact Option.some.inj h ▸ hc ▸ .reopen
      · rw [extend?, if_neg hc] at h
        cases h

/-- A reading starts in one of the ways there are. -/
theorem starts (c : Char) : Starts c (start c) := by
  -- the characters in the order in which they are told apart
  by_cases hblank : c = ' '
  · subst hblank
    exact .blank
  by_cases hidentifier : c = Quoted.identifier.quote
  · subst hidentifier
    exact .quote .identifier
  by_cases hliteral : c = Quoted.literal.quote
  · subst hliteral
    exact .quote .literal
  have hquote (q : Quoted) : c ≠ q.quote := by cases q <;> assumption
  simp only [start, hblank, hidentifier, hliteral, if_false, Run.ofFirst?]
  by_cases hdollar : c = '$'
  · subst hdollar
    exact .placeholder
  rw [if_neg hdollar]
  by_cases hdigit : c.isDigit = true
  · rw [if_pos hdigit]
    exact .run hquote nofun
  rw [if_neg hdigit]
  by_cases hletter : (c.isAlpha || c = '_') = true
  · rw [if_pos hletter]
    exact .run hquote nofun
  rw [if_neg hletter]
  by_cases hoperator : Run.isOperatorChar c = true
  · rw [if_pos hoperator]
    exact .run hquote nofun
  rw [if_neg hoperator]
  exact .mark hquote

/-! ### Composed texts -/

theorem after_append : r.after (cs ++ ds) = (r.after cs).after ds := by
  induction cs generalizing r with
  | nil => rfl
  | cons c cs ih => exact ih

/-- When no token reaches from a text into the next one, the tokens of both are those of the
parts. -/
theorem tokens_append {ts : List Token} (h : (r.after cs).tokens ds = (r.after cs).finish ++ ts) :
    r.tokens (cs ++ ds) = r.tokens cs ++ ts := by
  induction cs generalizing r with
  | nil => exact h
  | cons c cs ih =>
      rw [List.cons_append, tokens, tokens, ih h, List.append_assoc]

theorem step_of_parted (h : r.extend? c = none) :
    r.step c = (r.finish ++ (between.step c).1, (between.step c).2) := by
  have hstart : between.step c = start c := rfl
  rw [hstart]
  simp only [step, h]

theorem after_of_parted (h : r.extend? c = none) : r.after (c :: cs) = between.after (c :: cs) := by
  rw [after, after, step_of_parted h]

/-- A text whose first character does not belong to the token before it has its own tokens. -/
theorem tokens_of_parted (h : r.extend? c = none) :
    r.tokens (c :: cs) = r.finish ++ between.tokens (c :: cs) := by
  rw [tokens, tokens, step_of_parted h, List.append_assoc]

/-- What continues a run is read as a part of it. -/
theorem tokens_run {k : Run} (text ds : List Char) (h : ∀ c ∈ cs, k.continues c) :
    (run k text).tokens (cs ++ ds) = (run k (text ++ cs)).tokens ds ∧
      (run k text).after (cs ++ ds) = (run k (text ++ cs)).after ds := by
  induction cs generalizing text with
  | nil => simp
  | cons c cs ih =>
      obtain ⟨hc, hcs⟩ := List.forall_mem_cons.mp h
      have hstep : (run k text).step c = ([], .run k (text ++ [c])) := by simp [step, extend?, hc]
      rw [List.cons_append, tokens, after, hstep]
      simpa using ih (text ++ [c]) hcs

/-- A digit starts a number. -/
theorem start_of_isDigit (hc : c.isDigit = true) : start c = ([], .run .number [c]) := by
  have hne (d : Char) (hd : d.isDigit = false) : c ≠ d := by
    rintro rfl
    rw [hd] at hc
    cases hc
  simp only [start, Run.ofFirst?, Quoted.quote, hne ' ' rfl, hne '"' rfl, hne '\'' rfl, hne '$' rfl,
    hc, if_true, if_false]

/-- A number is read as one token. -/
theorem tokens_digits (n : Nat) :
    between.tokens (toString n).toList = [.run .number (toString n).toList] ∧
      between.after (toString n).toList = .run .number (toString n).toList := by
  have hdigits : ∀ c ∈ (toString n).toList, c.isDigit = true := fun c => Text.isDigit_of_mem_repr
  have hnonempty : (toString n).toList ≠ [] := fun h => Nat.toDigits_ne_nil (Nat.toList_repr ▸ h)
  obtain ⟨c, cs, hcs⟩ := List.exists_cons_of_ne_nil hnonempty
  rw [hcs] at hdigits ⊢
  obtain ⟨hc, hrest⟩ := List.forall_mem_cons.mp hdigits
  have hstep : between.step c = ([], .run .number [c]) := start_of_isDigit hc
  rw [tokens, after, hstep]
  have hrun := tokens_run (k := .number) [c] [] hrest
  rwa [List.append_nil] at hrun

end Reading

/-! ### Spelling -/

/-- The text between quotes with its quotes doubled. -/
def Quoted.doubled (q : Quoted) (text : List Char) : List Char :=
  text.flatMap fun c => if c = q.quote then [c, c] else [c]

/-- The text of a token. -/
def Token.spelling : Token → List Char
  | .run .placeholder digits => '$' :: digits
  | .run _ text              => text
  | .quoted q text           => q.quote :: q.doubled text ++ [q.quote]
  | .mark c                  => [c]
  | .unterminated            => []

/-- The text is that of the tokens, one after the other, with blanks before, between and after
them. -/
inductive Spells : List Token → List Char → Prop where
  | nil : Spells [] []
  | blank {ts : List Token} {cs : List Char} : Spells ts cs → Spells ts (' ' :: cs)
  | token {ts : List Token} {cs : List Char} (t : Token) :
      Spells ts cs → Spells (t :: ts) (t.spelling ++ cs)

namespace Reading

/-- The text that has been read and is not a token yet. -/
def spelling : Reading → List Char
  | .between       => []
  | .run r text    => (Token.run r text).spelling
  | .quoted q text => q.quote :: q.doubled text
  | .closed q text => (Token.quoted q text).spelling

/-- An extended reading has spelled one more character. -/
theorem spelling_extend {r longer : Reading} {c : Char} (h : r.extend? c = some longer) :
    longer.spelling = r.spelling ++ [c] := by
  cases extends_of_extend? h with
  | @run k text => cases k <;> simp [spelling, Token.spelling]
  | inside hne => simp [spelling, Quoted.doubled, hne]
  | close => simp [spelling, Token.spelling]
  | reopen => simp [spelling, Token.spelling, Quoted.doubled]

/-- What has been finished without an open quote spells what has been read. -/
theorem spells_finish {r : Reading} (h : .unterminated ∉ r.finish) {ts : List Token}
    {cs : List Char} (hts : Spells ts cs) : Spells (r.finish ++ ts) (r.spelling ++ cs) := by
  cases r with
  | between => exact hts
  | run k text => exact .token _ hts
  | quoted q text => exact absurd (List.mem_singleton.mpr rfl) h
  | closed q text => exact .token _ hts

/-- A started reading spells the character that has started it. -/
theorem spells_start {c : Char} {ts : List Token} {cs : List Char}
    (hts : Spells ts ((start c).2.spelling ++ cs)) : Spells ((start c).1 ++ ts) (c :: cs) := by
  have hstarts := starts c
  generalize start c = s at hts hstarts
  cases hstarts with
  | blank => exact .blank hts
  | quote q => exact hts
  | placeholder => exact hts
  | mark hc => exact .token (.mark c) hts
  | run hc hk =>
      rename_i k
      cases k with
      | placeholder => exact absurd rfl hk
      | word | number | operator => exact hts

/-- Tokens spell the text that they have been read from, if no quote is left open. -/
theorem spells_tokens {r : Reading} {cs : List Char} (h : .unterminated ∉ r.tokens cs) :
    Spells (r.tokens cs) (r.spelling ++ cs) := by
  induction cs generalizing r with
  | nil => simpa [tokens] using spells_finish h .nil
  | cons c cs ih =>
      simp only [tokens, step] at h ⊢
      cases hlonger : r.extend? c with
      | some longer =>
          -- no token has ended, the character belongs to what is read
          simp only [hlonger, List.nil_append] at h ⊢
          simpa [spelling_extend hlonger] using ih h
      | none =>
          -- a token ends before the character
          simp only [hlonger, List.append_assoc, List.mem_append, not_or] at h ⊢
          exact spells_finish h.1 (spells_start (ih h.2.2))

end Reading

/-- **The lexer loses nothing.**  Text without an unterminated quote is spelled by its tokens. -/
theorem lex_spells {s : String} (h : .unterminated ∉ lex s) : Spells (lex s) s.toList :=
  Reading.spells_tokens h

end ResourceQuery.Sql
