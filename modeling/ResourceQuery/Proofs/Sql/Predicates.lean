import ResourceQuery.Proofs.Sql.Formula
import ResourceQuery.Proofs.Sql.JsonTokens

/-!
# Sql — the predicates of conditions

What a condition without parts writes is one predicate: of its parts, brackets put together, the
first is not `NOT` and none is `AND` or `OR` (`Template.IsPredicate`).  It begins with a column, an
expression over a JSON attribute or a call (`Begins`) and is completed by what is said of these
(`Completes`).

* `predicate_compare`, …, `predicate_like`: the conditions on columns.
* `JsonAttribute.Tests.predicate`: the tests that filters make on JSON attributes.
-/

namespace ResourceQuery.Sql

theorem Reading.Between.settled {r : Reading} (h : r.Between) : r.Settled :=
  .inl h

open Reading (Between Outside Settled between)

/-! ### Tokens without blanks -/

/-- The token is a line break or another blank that the lexer takes for a mark. -/
def Token.isBlank : Token → Bool
  | .mark c => c.isWhitespace
  | _       => false

/-- The tokens that are no blanks. -/
def Token.visible (ts : List Token) : List Token :=
  ts.filter fun t => !t.isBlank

theorem Token.visible_append (ts us : List Token) : visible (ts ++ us) = visible ts ++ visible us :=
  List.filter_append ..

namespace Part

/-- No part is `AND` or `OR`. -/
def isFree (ps : List Part) : Bool :=
  ps.all fun p => !(p.isWord "AND" || p.isWord "OR")

/-- A predicate may begin with the part. -/
def isFirst (p : Part) : Bool :=
  !(p.isWord "NOT" || p.isQuery)

variable {p q : Part} {ps qs : List Part}

theorem isFree_append : isFree (ps ++ qs) = (isFree ps && isFree qs) :=
  List.all_append

theorem formula?_of_isFree (h : isFree ps = true) : formula? ps = operand? ps := by
  have hparts : ∀ p ∈ ps, p.isWord "AND" = false ∧ p.isWord "OR" = false := by
    simpa [isFree] using h
  rw [formula?_of_forall fun p hp => (hparts p hp).2,
    conjunction?_of_forall fun p hp => (hparts p hp).1]

/-- Several parts are a predicate if one may begin with the first. -/
theorem operand?_of_several (hp : p.isFirst = true) :
    operand? (p :: ps ++ q :: qs) = some (.predicate (spelling (p :: ps ++ q :: qs))) := by
  obtain ⟨hnot, hquery⟩ : p.isWord "NOT" = false ∧ p.isQuery = false := by simpa [isFirst] using hp
  rw [List.cons_append, operand?, hnot, hquery, if_neg Bool.false_ne_true, if_neg Bool.false_ne_true]
  cases ps <;> cases p <;> rfl

end Part

/-! ### Templates read as parts -/

namespace Template

open ResourceQuery.Sql.Part (isFree isFirst)

variable {A B C : Reading → Prop} {t u : Template} {n : Nat} {ps qs : List Part} {s : String}
  {ts : List Token}

/-- From number `n` on, the tokens of the text in the template, without blanks. -/
def tokensFrom (n : Nat) (t : Template) : List Token :=
  Token.visible (between.tokens (t.charsFrom n))

/-- After a reading with `A`, the text is read as parts and leads to a reading with `B`. -/
def Phrase (A B : Reading → Prop) (n : Nat) (t : Template) (ps : List Part) : Prop :=
  ∃ ts, t.LexesTo A B n ts ∧ parts? (Token.visible ts) = some ps

/-- Phrases stand one behind the other. -/
theorem Phrase.append (ht : t.Phrase A B n ps) (hu : u.Phrase B C (n + t.params.length) qs) :
    (t ++ u).Phrase A C n (ps ++ qs) := by
  obtain ⟨ts, hts, hps⟩ := ht
  obtain ⟨us, hus, hqs⟩ := hu
  exact ⟨ts ++ us, hts.append hus, by rw [Token.visible_append, parts?_append hps hqs]⟩

theorem Phrase.weaken {A' B' : Reading → Prop} (h : t.Phrase A B n ps) (hA : ∀ r, A' r → A r)
    (hB : ∀ r, B r → B' r) : t.Phrase A' B' n ps := by
  obtain ⟨ts, hts, hps⟩ := h
  exact ⟨ts, hts.weaken hA hB, hps⟩

/-- The parts are those of the tokens that the text has on its own. -/
theorem Phrase.parts?_tokensFrom (h : t.Phrase Between B n ps) : parts? (t.tokensFrom n) = some ps := by
  obtain ⟨ts, hts, hps⟩ := h
  rw [tokensFrom, (hts between rfl).2]
  exact hps

theorem phrase_nil (h : ∀ r, A r → B r) : Phrase A B n [] [] :=
  ⟨[], fun r hr => ⟨h r hr, (List.append_nil _).symm⟩, rfl⟩

/-- The tokens are parts of their own, and none is `AND` or `OR`. -/
def isPhrase (ts : List Token) : Bool :=
  ts.all fun t => t.isPart && !t.isBlank && !(t.isWord "AND" || t.isWord "OR")

theorem LexesTo.phrase (h : t.LexesTo A B n ts) (hts : isPhrase ts = true) :
    t.Phrase A B n (ts.map .token) := by
  simp only [isPhrase, List.all_eq_true, Bool.and_eq_true] at hts
  have hvisible : Token.visible ts = ts := List.filter_eq_self.mpr fun t ht => (hts t ht).1.2
  exact ⟨ts, h, by rw [hvisible, parts?_tokens fun t ht => (hts t ht).1.1]⟩

theorem isFree_of_isPhrase (hts : isPhrase ts = true) : isFree (ts.map .token) = true := by
  simp only [isPhrase, List.all_eq_true, Bool.and_eq_true] at hts
  simp only [isFree, List.all_map, List.all_eq_true]
  exact fun t ht => (hts t ht).2

/-- What stands in parentheses is one part. -/
theorem Phrase.enclosed (h : t.Phrase Between Outside n ps) :
    (text "(" ++ t ++ text ")").Phrase Outside Between n
      [.group (.mark '(' :: Part.spelling ps ++ [.mark ')'])
        (Bracket.round.formula? (.mark '(' :: Part.spelling ps ++ [.mark ')']) ps)] := by
  obtain ⟨ts, hts, hps⟩ := h
  have hopens : between.after "(".toList = between := by decide +kernel
  have hcloses : between.after ")".toList = between := by decide +kernel
  have hopen : (text "(").LexesTo Outside Between n [.mark '('] :=
    (lexesTo_text hopens).apart (by decide +kernel)
  have hclose (m : Nat) : (text ")").LexesTo Outside Between m [.mark ')'] :=
    (lexesTo_text hcloses).apart (by decide +kernel)
  refine ⟨[.mark '('] ++ ts ++ [.mark ')'], ?_, ?_⟩
  · exact (hopen.append (by simpa using hts)).append (hclose _)
  · rw [Token.visible_append, Token.visible_append, spelling_parts hps]
    exact parts?_parens hps

/-! ### Predicates -/

/-- The text, with the number `n` in its first place, is a predicate. -/
def IsPredicate (n : Nat) (t : Template) : Prop :=
  ∃ ps, t.Phrase Between Outside n ps ∧ isFree ps = true ∧
    Part.operand? ps = some (.predicate (t.tokensFrom n))

/-- A predicate may begin with the text. -/
def Begins (n : Nat) (t : Template) : Prop :=
  ∃ p ps, t.Phrase Between Outside n (p :: ps) ∧ isFree (p :: ps) = true ∧ p.isFirst = true

/-- The text completes a predicate that has begun before it. -/
def Completes (n : Nat) (t : Template) : Prop :=
  ∃ qs, t.Phrase Outside Outside n qs ∧ isFree qs = true ∧ qs ≠ []

/-- What begins a predicate and what completes it are one. -/
theorem Begins.completed (ht : t.Begins n) (hu : u.Completes (n + t.params.length)) :
    (t ++ u).IsPredicate n := by
  obtain ⟨p, ps, hps, hfree, hfirst⟩ := ht
  obtain ⟨rest, hqs, hfreeRest, hne⟩ := hu
  obtain ⟨q, qs, rfl⟩ := List.exists_cons_of_ne_nil hne
  have hphrase := hps.append hqs
  refine ⟨p :: ps ++ q :: qs, hphrase, by rw [Part.isFree_append, hfree, hfreeRest]; rfl, ?_⟩
  rw [Part.operand?_of_several hfirst, spelling_parts hphrase.parts?_tokensFrom]

/-! ### Fixed text -/

/-- The texts between the operands of a predicate. -/
def links : List String :=
  [", ", " #>> ", " = ", " != ", " > ", " < ", " >= ", " <= ", " IN ", " NOT IN "]

/-- The texts that complete a predicate, on their own or with a call. -/
def closings : List String :=
  [" IS NULL", " IS NOT NULL", " LIKE LOWER"]

/-- The casts of an operand. -/
def casts : List String :=
  ["::text", "::numeric", "::date", "::timestamp"]

/-- The words between a column and a value are free of connectives. -/
theorem phrase_link (h : s ∈ links) (n : Nat) :
    (text s).Phrase Outside Between n ((lex s).map .token) ∧ isFree ((lex s).map .token) = true := by
  have hall : links.all (fun s => isPhrase (lex s) && (beginsApart s && endsApart s)) = true := by
    decide +kernel
  obtain ⟨hphrase, hbegins, hends⟩ : isPhrase (lex s) = true ∧ beginsApart s = true ∧
      endsApart s = true := by simpa using List.all_eq_true.mp hall s h
  have hend : between.after s.toList = between := of_decide_eq_true hends
  exact ⟨((lexesTo_text hend).apart hbegins).phrase hphrase, isFree_of_isPhrase hphrase⟩

theorem phrase_closing (h : s ∈ closings) (n : Nat) :
    (text s).Phrase Outside Outside n ((lex s).map .token) ∧ isFree ((lex s).map .token) = true ∧
      (lex s).map Part.token ≠ [] := by
  have hall : closings.all (fun s => isPhrase (lex s) && (beginsApart s && (endsOutside s &&
      !(lex s).isEmpty))) = true := by decide +kernel
  obtain ⟨hphrase, hbegins, hends, hne⟩ : isPhrase (lex s) = true ∧ beginsApart s = true ∧
      endsOutside s = true ∧ lex s ≠ [] := by simpa using List.all_eq_true.mp hall s h
  exact ⟨((lexesTo_text hends).apart hbegins).phrase hphrase, isFree_of_isPhrase hphrase,
    fun hnil => hne (List.map_eq_nil_iff.mp hnil)⟩

theorem phrase_cast (h : s ∈ casts) (n : Nat) :
    (text s).Phrase Settled Outside n ((lex s).map .token) ∧ isFree ((lex s).map .token) = true := by
  have hall : casts.all (fun s => isPhrase (lex s) && (s.toList.head? = some ':' &&
      endsOutside s)) = true := by decide +kernel
  obtain ⟨hphrase, hcolon, hends⟩ : isPhrase (lex s) = true ∧ s.toList.head? = some ':' ∧
      endsOutside s = true := by simpa using List.all_eq_true.mp hall s h
  obtain ⟨cs, hcs⟩ := List.head?_eq_some_iff.mp hcolon
  -- the colon belongs neither to a closed quote nor to what follows a bracket
  refine ⟨((lexesTo_text hends).after_token hcs ?_).phrase hphrase, isFree_of_isPhrase hphrase⟩
  rintro r (rfl | ⟨name, rfl⟩) <;> rfl

theorem phrase_bind (n : Nat) (v : Value) :
    Phrase Between Outside n [.bind v] [.token (.run .placeholder (toString n).toList)] :=
  (lexesTo_bind n v).phrase rfl

/-- A list of places, with commas between them. -/
theorem phrase_list (n : Nat) (vs : List Value) :
    ∃ ps, (join ", " (vs.map fun v => [.bind v])).Phrase Between Outside n ps := by
  induction vs generalizing n with
  | nil => exact ⟨[], phrase_nil fun _ => Between.outside⟩
  | cons v vs ih =>
      cases vs with
      | nil => exact ⟨_, phrase_bind n v⟩
      | cons w ws =>
          obtain ⟨ps, hps⟩ := ih (n + 1)
          have hcomma := (phrase_link (s := ", ") (by simp [links]) (n + 1)).1
          exact ⟨_, ((phrase_bind n v).append hcomma).append (by simpa [params] using hps)⟩

/-! ### What predicates begin with -/

theorem phrase_column (n : Nat) (c : Column) :
    (text c.sql).Phrase Between Settled n (c.tokens.map .token) ∧
      isFree (c.tokens.map .token) = true := by
  have hphrase : isPhrase c.tokens = true := by
    rw [Column.tokens]
    split <;> cases c.table <;> rfl
  exact ⟨(lexesTo_column n c).phrase hphrase, isFree_of_isPhrase hphrase⟩

/-- A column begins a predicate. -/
theorem begins_column (n : Nat) (c : Column) : (text c.sql).Begins n := by
  obtain ⟨hcolumn, hfree⟩ := phrase_column n c
  have hphrase := hcolumn.weaken (fun _ => id) fun _ => Settled.outside
  rw [Column.tokens] at hphrase hfree
  cases htable : c.table with
  | none =>
      rw [htable] at hphrase hfree
      refine ⟨_, _, hphrase, hfree, ?_⟩
      split <;> rfl
  | some table =>
      rw [htable] at hphrase hfree
      exact ⟨_, _, hphrase, hfree, rfl⟩

/-- A function call begins a predicate. -/
theorem begins_call (h : t.Phrase Between Outside n ps) :
    (text "LOWER" ++ (text "(" ++ t ++ text ")")).Begins n := by
  have hends : endsOutside "LOWER" = true := by decide +kernel
  have hphrase : isPhrase (lex "LOWER") = true := by decide +kernel
  have hname : (text "LOWER").Phrase Between Outside n ((lex "LOWER").map .token) :=
    (lexesTo_text hends).phrase hphrase
  have hcall := hname.append (by simpa using h.enclosed)
  exact ⟨_, _, hcall.weaken (fun _ => id) fun _ => Between.outside, rfl, rfl⟩

/-! ### What completes predicates -/

theorem completes_closing (h : s ∈ closings) (n : Nat) : (text s).Completes n :=
  ⟨_, phrase_closing h n⟩

theorem completes_bind (h : s ∈ links) (n : Nat) (v : Value) :
    Completes n (text s ++ [.bind v]) := by
  obtain ⟨hlink, hfree⟩ := phrase_link h n
  refine ⟨_, hlink.append (phrase_bind _ v), by rw [Part.isFree_append, hfree]; rfl, ?_⟩
  exact List.append_ne_nil_of_right_ne_nil _ (List.cons_ne_nil _ _)

theorem completes_parens (h : s ∈ links) (ht : t.Phrase Between Outside n ps) :
    (text s ++ (text "(" ++ t ++ text ")")).Completes n := by
  obtain ⟨hlink, hfree⟩ := phrase_link h n
  have hphrase := hlink.append (u := text "(" ++ t ++ text ")")
    (by simpa using ht.enclosed.weaken (fun _ => Between.outside) fun _ => Between.outside)
  refine ⟨_, hphrase, by rw [Part.isFree_append, hfree]; rfl, ?_⟩
  exact List.append_ne_nil_of_right_ne_nil _ (List.cons_ne_nil _ _)

theorem completes_call (ht : t.Phrase Between Outside n ps) :
    (text " LIKE LOWER" ++ (text "(" ++ t ++ text ")")).Completes n := by
  obtain ⟨hlike, hfree, hne⟩ := phrase_closing (s := " LIKE LOWER") (by simp [closings]) n
  have hphrase := hlike.append (u := text "(" ++ t ++ text ")")
    (by simpa using ht.enclosed.weaken (fun _ => id) fun _ => Between.outside)
  exact ⟨_, hphrase, by rw [Part.isFree_append, hfree]; rfl, List.append_ne_nil_of_left_ne_nil hne _⟩

end Template

/-! ### Conditions on columns -/

open Template

namespace Condition

/-- A comparison is a predicate. -/
theorem predicate_compare (n : Nat) (c : Column) (op : Comparison) (v : Value) :
    IsPredicate n (text (c.sql ++ " " ++ op.sql ++ " ") ++ [.bind v]) := by
  have hop : " " ++ op.sql ++ " " ∈ links := by cases op <;> simp [links, Comparison.sql]
  have h := (begins_column n c).completed (completes_bind hop _ v)
  rwa [← List.append_assoc, ← text_append, ← String.append_assoc, ← String.append_assoc] at h

theorem predicate_membership {s : String} (hs : s ∈ links) (n : Nat) (c : Column) (vs : List Value) :
    (text (c.sql ++ s) ++ valueList vs).IsPredicate n := by
  rw [text_append, List.append_assoc]
  obtain ⟨ps, hps⟩ := phrase_list (n + (text c.sql).params.length) vs
  exact (begins_column n c).completed (completes_parens hs hps)

theorem predicate_closing {s : String} (hs : s ∈ closings) (n : Nat) (c : Column) :
    (text (c.sql ++ s)).IsPredicate n := by
  rw [text_append]
  exact (begins_column n c).completed (completes_closing hs _)

/-- A match that ignores case, of an operand that is cast to text. -/
theorem predicate_like {t : Template} {n : Nat} {ps : List Part}
    (h : (t ++ text "::text").Phrase Between Outside n ps) (v : Value) :
    IsPredicate n (text "LOWER(" ++ t ++ text "::text) LIKE LOWER(" ++ [.bind v] ++ text ")") := by
  have hpredicate := (begins_call h).completed (completes_call (phrase_bind _ v))
  have hopen : text "LOWER(" = text "LOWER" ++ text "(" := by rw [← text_append]; rfl
  have hmiddle : text "::text) LIKE LOWER(" =
      text "::text" ++ text ")" ++ text " LIKE LOWER" ++ text "(" := by
    rw [← text_append, ← text_append, ← text_append]
    rfl
  rw [hopen, hmiddle]
  simpa only [List.append_assoc] using hpredicate

theorem predicate_like_column (n : Nat) (c : Column) (pattern : String) :
    IsPredicate n (text ("LOWER(" ++ c.sql ++ "::text) LIKE LOWER(") ++ [.bind (.text pattern)] ++
      text ")") := by
  rw [text_append, text_append]
  exact predicate_like ((phrase_column n c).1.append (phrase_cast (by simp [casts]) _).1) _

end Condition

/-! ### Tests of JSON attributes -/

theorem Fragment.Fills.template_eq {f : Fragment} {t : Template} (h : Fills f.sql f.params t) :
    f.template = .ok t := by
  simp only [template, mismatch?, h.count, if_true, h.filled]

namespace JsonAttribute

variable (a : JsonAttribute)

/-- What stands in the parentheses of the expression. -/
def extraction : Template :=
  text a.column.sql ++ text " #>> " ++ [.bind (.texts a.path)]

theorem phrase_extraction (n : Nat) : ∃ ps, a.extraction.Phrase Between Outside n ps := by
  have hcolumn := (phrase_column n a.column).1.weaken (fun _ => id) fun _ => Settled.outside
  have harrow := (phrase_link (s := " #>> ") (by simp [links]) (n + (text a.column.sql).params.length)).1
  exact ⟨_, (hcolumn.append harrow).append (phrase_bind _ _)⟩

/-- The expression of a JSON attribute begins a predicate. -/
theorem begins_expression (n : Nat) : a.expressionTemplate.Begins n := by
  obtain ⟨ps, hps⟩ := a.phrase_extraction n
  have hparens := hps.enclosed.weaken (fun _ => Between.outside) fun _ => id
  cases hcast : a.cast with
  | none =>
      have htemplate : a.expressionTemplate = text "(" ++ a.extraction ++ text ")" := by
        simp only [expressionTemplate, extraction, closing, hcast, List.append_assoc]
      rw [htemplate]
      exact ⟨_, _, hparens.weaken (fun _ => id) fun _ => Between.outside, rfl, rfl⟩
  | some cast =>
      have hmem : "::" ++ cast.sql ∈ casts := by cases cast <;> simp [casts, JsonCast.sql]
      have hclosing : text (")::" ++ cast.sql) = text ")" ++ text ("::" ++ cast.sql) := by
        rw [← text_append, ← String.append_assoc]
        rfl
      have htemplate : a.expressionTemplate =
          text "(" ++ a.extraction ++ text ")" ++ text ("::" ++ cast.sql) := by
        simp only [expressionTemplate, extraction, closing, hcast, List.append_assoc, hclosing]
      obtain ⟨hphrase, hfree⟩ :=
        phrase_cast hmem (n + (text "(" ++ a.extraction ++ text ")").params.length)
      rw [htemplate]
      exact ⟨_, _, hparens.append (hphrase.weaken (fun _ => Between.settled) fun _ => id), hfree, rfl⟩

theorem predicate_listed {s : String} (hs : s ∈ links) (n : Nat) (values : List String) :
    (a.expressionTemplate ++ text (s ++ "(") ++
      Template.join ", " (values.map fun v => [.bind (.text v)]) ++ text ")").IsPredicate n := by
  obtain ⟨ps, hps⟩ := phrase_list (n + a.expressionTemplate.params.length) (values.map .text)
  simp only [List.map_map, Function.comp_def] at hps
  rw [text_append]
  simpa only [List.append_assoc] using (a.begins_expression n).completed (completes_parens hs hps)

theorem predicate_containing (n : Nat) (v : Value) :
    IsPredicate n (text "LOWER((" ++ a.expressionTemplate ++ text ")::text) LIKE LOWER(" ++
      [.bind v] ++ text ")") := by
  obtain ⟨p, ps, hps, -, -⟩ := a.begins_expression n
  have hparens := hps.enclosed.weaken (fun _ => Between.outside) fun _ => Between.settled
  have hcast := (phrase_cast (s := "::text") (by simp [casts])
    (n + (text "(" ++ a.expressionTemplate ++ text ")").params.length)).1
  have hopen : text "LOWER((" = text "LOWER(" ++ text "(" := by rw [← text_append]; rfl
  have hmiddle : text ")::text) LIKE LOWER(" = text ")" ++ text "::text) LIKE LOWER(" := by
    rw [← text_append]
    rfl
  rw [hopen, hmiddle]
  simpa only [List.append_assoc] using Condition.predicate_like (hparens.append hcast) v

variable {a}

/-- A test that a filter makes on the attribute is a predicate. -/
theorem Tests.predicate {c : Condition} (h : a.Tests c) :
    ∃ f t, c = .raw f ∧ f.template = .ok t ∧ ∀ n, t.IsPredicate n := by
  cases h with
  | isNull =>
      refine ⟨_, _, rfl, (ended_fills (by simp [ends])).template_eq, fun n => ?_⟩
      exact (a.begins_expression n).completed (completes_closing (by simp [closings]) _)
  | isNotNull =>
      refine ⟨_, _, rfl, (ended_fills (by simp [ends])).template_eq, fun n => ?_⟩
      exact (a.begins_expression n).completed (completes_closing (by simp [closings]) _)
  | @isIn values nonempty =>
      refine ⟨_, _, rfl, (listed_fills (by simp [joints]) values).template_eq, fun n => ?_⟩
      exact a.predicate_listed (s := " IN ") (by simp [links]) n values
  | @notIn values nonempty =>
      refine ⟨_, _, rfl, (listed_fills (by simp [joints]) values).template_eq, fun n => ?_⟩
      exact a.predicate_listed (s := " NOT IN ") (by simp [links]) n values
  | containing value =>
      exact ⟨_, _, rfl, (contained_fills _).template_eq, fun n => a.predicate_containing n _⟩
  | compared op value =>
      have hsplit : " " ++ op.sql ++ " ?" = " " ++ op.sql ++ " " ++ "?" := by
        cases op <;> decide +kernel
      have hjoint : " " ++ op.sql ++ " " ∈ joints := by
        cases op <;> simp [joints, Comparison.sql]
      have hlink : " " ++ op.sql ++ " " ∈ links := by cases op <;> simp [links, Comparison.sql]
      rw [hsplit]
      refine ⟨_, _, rfl, (compared_fills hjoint _).template_eq, fun n => ?_⟩
      rw [List.append_assoc]
      exact (a.begins_expression n).completed (completes_bind hlink _ _)

end JsonAttribute

end ResourceQuery.Sql
