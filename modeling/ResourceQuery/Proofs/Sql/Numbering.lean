import ResourceQuery.Proofs.Sql.StatementTokens

/-!
# Sql — placeholders are numbered in the order of their values

Fragments are the one part of a statement that may hold any text.  A fragment is *tidy* when its
quotes are balanced and, outside quotes, it has no dollar sign and no placeholder right before a
digit (`Fragment.isTidy`).  Reading a tidy fragment, the lexer is between the quotes where the
fragment is (`quoting_step`), so it finds a numbered placeholder for each parameter and none in the
other text (`tokens_fill`).  When all fragments of a query are tidy, the placeholders in its
statements are `$1`, `$2`, … in this order, and the values that go with them are those of the parts
of the query in the order of the text (`placeholders_numbered`).
-/

namespace ResourceQuery.Sql

/-- The numbers of the placeholders among tokens. -/
def Token.numbers (ts : List Token) : List (List Char) :=
  ts.filterMap placeholder?

theorem Token.numbers_append (ts us : List Token) : numbers (ts ++ us) = numbers ts ++ numbers us :=
  List.filterMap_append

/-! ### The lexer and the quoting of fragments -/

/-- What the characters between the quotes are part of. -/
def Quoted.quoting : Quoted → Quoting
  | .identifier => .identifier
  | .literal    => .literal

/-- A character other than the quote leaves quoted text open. -/
theorem Quoted.next_of_ne {q : Quoted} {c : Char} (h : c ≠ q.quote) :
    q.quoting.next c = q.quoting := by
  cases q with
  | identifier => exact Quoting.next_identifier h
  | literal => exact Quoting.next_literal h

theorem Quoting.next_of_ne {c : Char} (h : ∀ q, c ≠ Quoted.quote q) :
    Quoting.next .outside c = .outside :=
  Quoting.next_outside (h .identifier) (h .literal)

namespace Reading

open Token (numbers numbers_append)

/-- What the next character is part of. -/
def quoting : Reading → Quoting
  | .quoted q _ => q.quoting
  | _           => .outside

/-- A placeholder has been read, as far as its number goes. -/
def isPlaceholder : Reading → Bool
  | .run .placeholder _ => true
  | _                   => false

variable {r : Reading} {c : Char}

theorem outside_of_quoting (h : r.quoting = .outside) : r.Outside := by
  cases r with
  | quoted q text => cases q <;> cases h
  | between | run | closed => rfl

/-- The quotes behind the first character of a reading. -/
theorem quoting_start (c : Char) : (start c).2.quoting = Quoting.next .outside c := by
  have hstarts := starts c
  generalize start c = s at hstarts
  cases hstarts with
  | blank | placeholder => rfl
  | quote q => cases q <;> rfl
  | run hc hk => exact (Quoting.next_of_ne hc).symm
  | mark hc => exact (Quoting.next_of_ne hc).symm

/-- A reading that is parted from the next character is outside quotes. -/
theorem quoting_of_parted (h : r.extend? c = none) : r.quoting = .outside := by
  cases r with
  | quoted q text =>
      rw [extend?] at h
      split at h <;> cases h
  | between | run | closed => rfl

theorem ne_quote_of_continues {k : Run} (h : k.continues c = true) (q : Quoted) : c ≠ q.quote := by
  rintro rfl
  cases k <;> cases q <;> cases h

/-- The lexer is between quotes where the quoting of fragments is. -/
theorem quoting_step : (r.step c).2.quoting = r.quoting.next c := by
  rw [step]
  cases hlonger : r.extend? c with
  | none =>
      rw [quoting_of_parted hlonger]
      exact quoting_start c
  | some longer =>
      cases extends_of_extend? hlonger with
      | run h => exact (Quoting.next_of_ne (ne_quote_of_continues h)).symm
      | inside h => exact (Quoted.next_of_ne h).symm
      | @close q => cases q <;> rfl
      | @reopen q => cases q <;> rfl

/-- A character other than the dollar starts no placeholder. -/
theorem numbers_start (hdollar : c ≠ '$') :
    numbers ((start c).1 ++ (start c).2.finish) = [] ∧ (start c).2.isPlaceholder = false := by
  have hstarts := starts c
  generalize start c = s at hstarts
  cases hstarts with
  | blank | quote | mark => exact ⟨rfl, rfl⟩
  | placeholder => exact absurd rfl hdollar
  | @run _ k hc hk => cases k <;> first | exact ⟨rfl, rfl⟩ | exact absurd rfl hk

/-- A character that is no dollar sign outside quotes, and no digit after a placeholder, adds no
placeholder to the tokens and begins none. -/
theorem numbers_step (hdollar : r.quoting = .outside → c ≠ '$')
    (hdigit : r.isPlaceholder = true → c.isDigit = false) :
    numbers ((r.step c).1 ++ (r.step c).2.finish) = numbers r.finish ∧
      (r.step c).2.isPlaceholder = false := by
  rw [step]
  cases hlonger : r.extend? c with
  | none =>
      obtain ⟨hstart, hnone⟩ := numbers_start (hdollar (quoting_of_parted hlonger))
      refine ⟨?_, hnone⟩
      rw [List.append_assoc, numbers_append, hstart, List.append_nil]
  | some longer =>
      cases extends_of_extend? hlonger with
      | inside | close | reopen => exact ⟨rfl, rfl⟩
      | @run k text c h =>
          cases k with
          | placeholder =>
              rw [Run.continues, hdigit rfl] at h
              cases h
          | word | number | operator => exact ⟨rfl, rfl⟩

/-- Outside quotes, a dollar sign begins a placeholder. -/
theorem step_dollar (h : r.quoting = .outside) : r.step '$' = (r.finish, .run .placeholder []) := by
  have hparted : r.extend? '$' = none := by
    cases r with
    | between => rfl
    | run k text => cases k <;> rfl
    | quoted q text => cases q <;> cases h
    | closed q text => cases q <;> rfl
  rw [step_of_parted hparted]
  exact Prod.ext (List.append_nil _) rfl

end Reading

/-! ### Tidy fragments -/

namespace Fragment

/-- Quotes are balanced, and outside quotes there is no dollar sign and no placeholder right before
a digit. -/
def tidyFrom (q : Quoting) : List Char → Bool
  | []      => q = .outside
  | c :: cs =>
    (q ≠ .outside || c ≠ '$' && !(c = '?' && cs.head?.any Char.isDigit)) && tidyFrom (q.next c) cs

/-- The text of the fragment is tidy. -/
def isTidy (f : Fragment) : Bool :=
  tidyFrom .outside f.sql.toList

/-- A tidy text is tidy behind its first character, which is no dollar and no question mark in front of a
digit. -/
theorem tidyFrom_cons {q : Quoting} {c : Char} {cs : List Char} (h : tidyFrom q (c :: cs) = true) :
    (q = .outside → c ≠ '$' ∧ (c = '?' → cs.head?.any Char.isDigit = false)) ∧
      tidyFrom (q.next c) cs = true := by
  rw [tidyFrom, Bool.and_eq_true] at h
  refine ⟨fun hq => ?_, h.2⟩
  have hfirst := h.1
  rw [hq] at hfirst
  simp only [ne_eq, not_true_eq_false, decide_false, Bool.false_or, Bool.and_eq_true,
    decide_eq_true_eq, Bool.not_eq_true'] at hfirst
  refine ⟨hfirst.1, fun hc => ?_⟩
  simpa [hc] using hfirst.2

/-- Reading a tidy text, the lexer finds a numbered placeholder for each value, after what it has
read before. -/
theorem tokens_fill {q : Quoting} {cs : List Char} {vs : List Value} {r : Reading} (n : Nat)
    (hr : r.quoting = q) (hcount : placeholders q cs = vs.length) (htidy : tidyFrom q cs = true)
    (hdigit : r.isPlaceholder = true → cs.head?.any Char.isDigit = false) :
    (r.after (Template.charsFrom n (fill q cs vs))).quoting = .outside ∧
      Token.numbers (r.tokens (Template.charsFrom n (fill q cs vs))) =
        Token.numbers r.finish ++ (List.range' n vs.length).map fun i => (toString i).toList := by
  induction cs generalizing q vs r n with
  | nil =>
      have hq : q = .outside := of_decide_eq_true htidy
      rw [List.eq_nil_of_length_eq_zero hcount.symm]
      exact ⟨hr.trans hq, (List.append_nil _).symm⟩
  | cons c cs ih =>
      obtain ⟨hfirst, hrest⟩ := tidyFrom_cons htidy
      by_cases hslot : q = .outside ∧ c = '?'
      · obtain ⟨rfl, rfl⟩ := hslot
        -- the dollar sign ends what is read, and the digits run up to the next character
        rw [placeholders_slot] at hcount
        cases vs with
        | nil => cases hcount
        | cons v vs =>
            have hdigits : ∀ d ∈ (toString n).toList, Run.placeholder.continues d = true :=
              fun d => Text.isDigit_of_mem_repr
            obtain ⟨hquoting, hnumbers⟩ := ih (q := .outside)
              (r := .run .placeholder (toString n).toList) (n + 1) rfl (Nat.succ.inj hcount) hrest
              fun _ => (hfirst rfl).2 rfl
            obtain ⟨htokens, hafter⟩ := Reading.tokens_run []
              (Template.charsFrom (n + 1) (fill .outside cs vs)) hdigits
            rw [List.nil_append] at htokens hafter
            rw [fill_slot, Template.charsFrom, List.cons_append, Reading.after, Reading.tokens,
              Reading.step_dollar hr, hafter, htokens, Token.numbers_append, hnumbers]
            exact ⟨hquoting, rfl⟩
      · rw [placeholders_char hslot] at hcount
        -- the character stays as it is, and is no dollar sign outside quotes
        have hdollar : r.quoting = .outside → c ≠ '$' := fun h => (hfirst (hr.symm.trans h)).1
        obtain ⟨hstep, hnone⟩ := Reading.numbers_step hdollar fun h => by simpa using hdigit h
        have hnext : (r.step c).2.quoting = q.next c := by rw [Reading.quoting_step, hr]
        obtain ⟨hquoting, hnumbers⟩ := ih (q := q.next c) n hnext hcount hrest
          fun h => absurd (hnone.symm.trans h) Bool.false_ne_true
        rw [fill_char hslot, Template.charsFrom, Reading.after, Reading.tokens,
          Token.numbers_append, hnumbers, ← List.append_assoc, ← Token.numbers_append, hstep]
        exact ⟨hquoting, rfl⟩

/-- A tidy fragment is a block. -/
theorem isBlock_of_isTidy {f : Fragment} (h : f.isTidy = true) : f.IsBlock fun _ => True := by
  intro t ht n r hr
  obtain rfl : r = .between := hr
  obtain ⟨hcount, rfl⟩ := template_eq_ok ht
  obtain ⟨hquoting, hnumbers⟩ := tokens_fill n (r := .between) rfl hcount h nofun
  rw [params_fill hcount]
  exact ⟨Reading.outside_of_quoting hquoting, _, rfl, hnumbers, fun _ _ _ => .inr trivial⟩

end Fragment

/-! ### Statements -/

/-- The placeholders outside quotes are `$1`, `$2`, … up to the number of the parameters, in
order. -/
def Statement.IsNumbered (s : Statement) : Prop :=
  Token.numbers (lex s.sql) = (List.range' 1 s.params.length).map fun i => (toString i).toList

namespace Query

/-- The window has no placeholders. -/
theorem numbers_windowTokens (q : Query) : Token.numbers q.windowTokens = [] := by
  have hlimit : Token.numbers (lex " LIMIT ") = [] := by decide +kernel
  have hoffset : Token.numbers (lex " OFFSET ") = [] := by decide +kernel
  have hnumber (s : String) (hs : Token.numbers (lex s) = []) (o : Option UInt64) :
      Token.numbers (o.toList.flatMap (numberTokens s)) = [] := by
    cases o with
    | none => rfl
    | some n =>
        rw [Option.toList_some, List.flatMap_singleton, numberTokens, Token.numbers_append, hs]
        rfl
  rw [windowTokens, Token.numbers_append, hnumber _ hlimit, hnumber _ hoffset, List.append_nil]

variable {q : Query}

/-- A query of tidy fragments is numbered, and its values stand in the order of their numbers. -/
theorem build_isNumbered {s : Statement} (h : q.build = .ok s)
    (hf : ∀ f ∈ q.fragments, f.isTidy = true) : s.IsNumbered ∧ s.params = q.values := by
  obtain ⟨hparams, front, hlex, hfront⟩ :=
    tokens_of_build h fun f hmem => Fragment.isBlock_of_isTidy (hf f hmem)
  refine ⟨?_, hparams⟩
  rw [Statement.IsNumbered, hlex, Token.numbers_append, numbers_windowTokens, List.append_nil]
  exact hfront.numbers

/-- **Placeholders are numbered in the order of their values.**  When the fragments of a query are
tidy, the placeholders of its statement, of the statement of a page and of the count are numbered
from 1 on, in order, and the parameters are the values of the query, or of what it counts by, in the
order of the text. -/
theorem placeholders_numbered (q : Query) (hf : ∀ f ∈ q.fragments, f.isTidy = true) :
    (∀ s, q.build = .ok s → s.IsNumbered ∧ s.params = q.values) ∧
    (∀ page s, q.buildPage page = .ok s → s.IsNumbered ∧ s.params = q.values) ∧
    (∀ s, q.buildCount = .ok s → s.IsNumbered ∧ s.params = q.countValues) := by
  refine ⟨fun s h => build_isNumbered h hf, ?_, ?_⟩
  · intro page s h
    rw [buildPage] at h
    exact build_isNumbered (q := q.paginate _ _) h hf
  · intro s h
    obtain ⟨hparams, hnumbered⟩ :=
      tokens_of_buildCount h fun f hmem => Fragment.isBlock_of_isTidy (hf f hmem)
    exact ⟨hnumbered.numbers, hparams⟩

/-- Placeholders in the list, in a join, in a fragment with question marks between quotes, in a group
and in an order. -/
def mixed : Query :=
  let raw : Condition := .raw ⟨"\"x?\" = ? AND y = '?' AND z < ?", [.int 4, .int 5]⟩
  let listed := (ofTable "t" "t").select (.expression ⟨"a + ?", [.int 1]⟩)
  let joined := listed.join ⟨"u", "u", [.value (.of "u" "kind") (.text "k")]⟩
  let restricted := joined.restrict
    (.not (.or [.isIn (.bare "a") [.int 2, .int 3], raw, .like (.bare "b") "%x%"]))
  let grouped := restricted.groupBy (.expression ⟨"coalesce(b, ?)", [.int 6]⟩)
  grouped.orderBy (.expression ⟨"c * ?", [.int 7]⟩ .desc)

/-- The text and the values of a query with values in every clause. -/
theorem mixed_numbered :
    ∃ s, mixed.build = .ok s ∧ s.IsNumbered ∧ s.params =
        [.int 1, .text "k", .int 2, .int 3, .int 4, .int 5, .text "%x%", .int 6, .int 7] ∧
      s.sql = "SELECT a + $1 FROM \"t\" LEFT OUTER JOIN \"u\" ON \"u\".\"kind\" = $2 WHERE " ++
        "(NOT (\"a\" IN ($3, $4) OR \"x?\" = $5 AND y = '?' AND z < $6 OR " ++
        "LOWER(\"b\"::text) LIKE LOWER($7))) GROUP BY coalesce(b, $8) ORDER BY c * $9 DESC" := by
  have hf : ∀ f ∈ mixed.fragments, f.isTidy = true := by decide +kernel
  have htest : (mixed.build.toOption.any fun s => s.sql =
      "SELECT a + $1 FROM \"t\" LEFT OUTER JOIN \"u\" ON \"u\".\"kind\" = $2 WHERE " ++
        "(NOT (\"a\" IN ($3, $4) OR \"x?\" = $5 AND y = '?' AND z < $6 OR " ++
        "LOWER(\"b\"::text) LIKE LOWER($7))) GROUP BY coalesce(b, $8) ORDER BY c * $9 DESC") =
      true := by decide +kernel
  obtain ⟨s, hs, hsql⟩ := exists_ok_of_any htest
  obtain ⟨hnumbered, hparams⟩ := (placeholders_numbered mixed hf).1 s hs
  exact ⟨s, hs, hnumbered, hparams, of_decide_eq_true hsql⟩

end Query

end ResourceQuery.Sql
