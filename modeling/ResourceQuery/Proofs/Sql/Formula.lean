import ResourceQuery.Proofs.Sql.Lexer
import ResourceQuery.Proofs.Sql.Truth

/-!
# Sql — reading Boolean expressions

The tokens of a Boolean expression are read in two steps.  First, what stands in brackets is put
together as one part (`parts?`); brackets are also the words `CASE` and `END`, and `BETWEEN` and the
`AND` that belongs to it.  Then the parts are split at `OR`, what lies between at `AND`, and what
lies between these is an operand: `NOT` of an operand, an expression in parentheses, a truth value or
a predicate (`formula?`).  So predicates bind closer than `NOT`, `NOT` closer than `AND`, and `AND`
closer than `OR`.  Comments are not part of what is read.

* `spelling_parts`: no token is lost or moved.
* `parts?_append`, `parts?_parens`: expressions are put together from parts as they are from tokens,
  since an expression is read in parentheses as it is on its own (`run_within`).
* `conjunction?_and`, `formula?_or`: the truth of a chain is that of what stands between its words, as
  long as these have no connective that binds less.
-/

namespace ResourceQuery.Sql

/-! ### Formulas -/

/-- A Boolean expression over predicates. -/
inductive Formula where
  | predicate (tokens : List Token)
  | always
  | never
  | not (f : Formula)
  | and (f g : Formula)
  | or (f g : Formula)
  deriving DecidableEq

/-- The truth of each predicate. -/
abbrev Valuation := List Token → Truth

namespace Formula

/-- The truth of a Boolean expression. -/
def truth (v : Valuation) : Formula → Truth
  | predicate tokens => v tokens
  | always           => .yes
  | never            => .no
  | not f            => (f.truth v).not
  | and f g          => (f.truth v).and (g.truth v)
  | or f g           => (f.truth v).or (g.truth v)

/-- The conjunction of a list. -/
def all : List Formula → Formula
  | []      => always
  | [f]     => f
  | f :: fs => and f (all fs)

/-- The disjunction of a list. -/
def any : List Formula → Formula
  | []      => never
  | [f]     => f
  | f :: fs => or f (any fs)

variable {v : Valuation}

/-- A conjunction of formulas is true as all of them are. -/
theorem truth_all (fs : List Formula) : (all fs).truth v = .all (fs.map (truth v)) := by
  induction fs with
  | nil => rfl
  | cons f fs ih =>
      cases fs with
      | nil => exact (Truth.and_yes _).symm
      | cons g gs => exact congrArg (Truth.and _) ih

/-- A choice of formulas is true as any of them is. -/
theorem truth_any (fs : List Formula) : (any fs).truth v = .any (fs.map (truth v)) := by
  induction fs with
  | nil => rfl
  | cons f fs ih =>
      cases fs with
      | nil => exact (Truth.or_no _).symm
      | cons g gs => exact congrArg (Truth.or _) ih

end Formula

/-! ### Parts and their precedence -/

/-- The token is a word, in either case. -/
def Token.isWord (word : String) : Token → Bool
  | .run .word text => text.map Char.toUpper = word.toList
  | _               => false

/-- A token, or the tokens from a bracket to its counterpart. -/
inductive Part where
  | token (t : Token)
  /-- The formula is what the tokens stand for on their own, if they are one. -/
  | group (tokens : List Token) (formula : Option Formula)
  deriving DecidableEq

namespace Part

def tokens : Part → List Token
  | token t   => [t]
  | group ts _ => ts

/-- The part is a word outside brackets. -/
def isWord (word : String) : Part → Bool
  | token t => t.isWord word
  | group .. => false

/-- The tokens of parts in order. -/
def spelling (ps : List Part) : List Token :=
  ps.flatMap tokens

/-- The part begins a query. -/
def isQuery (p : Part) : Bool :=
  p.isWord "SELECT" || p.isWord "WITH" || p.isWord "VALUES"

/-- What parts without a connective stand for. -/
def primary : List Part → Option Formula
  | [group _ f] => f
  | [token t]   =>
    some (if t.isWord "TRUE" then .always else if t.isWord "FALSE" then .never else .predicate [t])
  | ps          => some (.predicate (spelling ps))

/-- What an operand of `AND` stands for. -/
def operand? : List Part → Option Formula
  | []      => none
  | p :: ps =>
    if p.isWord "NOT" then (operand? ps).map .not
    else if p.isQuery then none
    else primary (p :: ps)

/-- The operands of a chain of `AND`. -/
def conjuncts? (ps : List Part) : Option (List Formula) :=
  (ps.splitOnP (isWord "AND")).mapM operand?

/-- What an operand of `OR` stands for. -/
def conjunction? (ps : List Part) : Option Formula :=
  (conjuncts? ps).map .all

/-- The operands of a chain of `OR`. -/
def disjuncts? (ps : List Part) : Option (List Formula) :=
  (ps.splitOnP (isWord "OR")).mapM conjunction?

/-- The Boolean expression that parts stand for. -/
def formula? (ps : List Part) : Option Formula :=
  (disjuncts? ps).map .any

end Part

namespace Part

variable {p : Part} {ps qs : List Part} {f g : Formula}

section

variable {sep : Part → Bool} {read : List Part → Option Formula} {fs gs : List Formula}

theorem mapM_splitOnP_of_forall (h : ∀ p ∈ ps, sep p = false) :
    (ps.splitOnP sep).mapM read = (read ps).map fun f => [f] := by
  rw [List.splitOnP_eq_singleton h, List.mapM_cons, List.mapM_nil]
  cases read ps <;> rfl

/-- What is read on both sides of a separator is read in turn. -/
theorem mapM_splitOnP_append (hp : sep p = true) (hps : (ps.splitOnP sep).mapM read = some fs)
    (hqs : (qs.splitOnP sep).mapM read = some gs) :
    ((ps ++ p :: qs).splitOnP sep).mapM read = some (fs ++ gs) := by
  rw [List.splitOnP_append_cons ps qs hp, List.mapM_append, hps, hqs]
  rfl

end

theorem conjunction?_of_forall (h : ∀ p ∈ ps, p.isWord "AND" = false) :
    conjunction? ps = operand? ps := by
  rw [conjunction?, conjuncts?, mapM_splitOnP_of_forall h, Option.map_map]
  exact Option.map_id'

theorem formula?_of_forall (h : ∀ p ∈ ps, p.isWord "OR" = false) :
    formula? ps = conjunction? ps := by
  rw [formula?, disjuncts?, mapM_splitOnP_of_forall h, Option.map_map]
  exact Option.map_id'

/-- A conjunction of two conjunctions is true as both of them are. -/
theorem conjunction?_and (hp : p.isWord "AND" = true) (hps : conjunction? ps = some f)
    (hqs : conjunction? qs = some g) :
    ∃ h, conjunction? (ps ++ p :: qs) = some h ∧
      ∀ v, h.truth v = (f.truth v).and (g.truth v) := by
  obtain ⟨fs, hfs, rfl⟩ := Option.map_eq_some_iff.mp hps
  obtain ⟨gs, hgs, rfl⟩ := Option.map_eq_some_iff.mp hqs
  have happend : conjuncts? (ps ++ p :: qs) = some (fs ++ gs) := mapM_splitOnP_append hp hfs hgs
  refine ⟨.all (fs ++ gs), by rw [conjunction?, happend]; rfl, fun v => ?_⟩
  rw [Formula.truth_all, Formula.truth_all, Formula.truth_all, List.map_append, Truth.all_append]

/-- A choice of two formulas is true as either of them is. -/
theorem formula?_or (hp : p.isWord "OR" = true) (hps : formula? ps = some f)
    (hqs : formula? qs = some g) :
    ∃ h, formula? (ps ++ p :: qs) = some h ∧ ∀ v, h.truth v = (f.truth v).or (g.truth v) := by
  obtain ⟨fs, hfs, rfl⟩ := Option.map_eq_some_iff.mp hps
  obtain ⟨gs, hgs, rfl⟩ := Option.map_eq_some_iff.mp hqs
  have happend : disjuncts? (ps ++ p :: qs) = some (fs ++ gs) := mapM_splitOnP_append hp hfs hgs
  refine ⟨.any (fs ++ gs), by rw [formula?, happend]; rfl, fun v => ?_⟩
  rw [Formula.truth_any, Formula.truth_any, Formula.truth_any, List.map_append, Truth.any_append]

end Part

/-! ### Brackets -/

/-- What encloses other tokens. -/
inductive Bracket where
  | round
  | square
  /-- `CASE` and `END`. -/
  | case
  /-- `BETWEEN` and the `AND` after the lower bound. -/
  | between
  deriving DecidableEq

/-- The bracket that a token opens. -/
def Token.opens? : Token → Option Bracket
  | .mark '('       => some .round
  | .mark '['       => some .square
  | .run .word text =>
    if (Token.run .word text).isWord "CASE" then some .case
    else if (Token.run .word text).isWord "BETWEEN" then some .between
    else none
  | _               => none

/-- The token closes a bracket wherever it stands, or is not read at all. -/
def Token.isStray : Token → Bool
  | .mark c       => c = ')' || c = ']'
  | .unterminated => true
  | t             => t.isWord "END"

namespace Bracket

/-- The token closes the bracket. -/
def isClosedBy : Bracket → Token → Bool
  | round,   t => t = .mark ')'
  | square,  t => t = .mark ']'
  | case,    t => t.isWord "END"
  | between, t => t.isWord "AND"

/-- What the tokens of a bracket, read inside it as `inner`, stand for on their own. -/
def formula? (b : Bracket) (tokens : List Token) (inner : List Part) : Option Formula :=
  match b with
  | round            =>
    match Part.formula? inner with
    | some f => some f
    -- a subquery is a predicate
    | none   => if inner.head?.any Part.isQuery then some (.predicate tokens) else none
  | case             => some (.predicate tokens)
  | square | between => none

end Bracket

/-- A bracket that is open. -/
structure Opening where
  bracket : Bracket
  token   : Token
  /-- The parts before it. -/
  before  : List Part

/-- The parts after the bracket has been closed by `t` around `inner`. -/
def Opening.close (o : Opening) (inner : List Part) (t : Token) : List Part :=
  let tokens := o.token :: Part.spelling inner ++ [t]
  o.before ++ [.group tokens (o.bracket.formula? tokens inner)]

/-- What has been read: the parts since the last open bracket, and the open brackets, the last one
first. -/
structure Layout where
  parts : List Part := []
  outer : List Opening := []

namespace Layout

/-- Reads a token that closes no bracket. -/
def read (s : Layout) (t : Token) : Option Layout :=
  match t.opens? with
  | some b => some ⟨[], ⟨b, t, s.parts⟩ :: s.outer⟩
  | none   => if t.isStray then none else some ⟨s.parts ++ [.token t], s.outer⟩

/-- Reads a token. -/
def step (s : Layout) (t : Token) : Option Layout :=
  match s.outer with
  | []         => s.read t
  | o :: outer => if o.bracket.isClosedBy t then some ⟨o.close s.parts t, outer⟩ else s.read t

/-- Reads tokens in order. -/
def run (s : Layout) : List Token → Option Layout
  | []      => some s
  | t :: ts => (s.step t).bind fun s' => s'.run ts

end Layout

namespace Layout

variable {s s' c : Layout} {t : Token} {ts us : List Token} {ps qs : List Part}

/-- Tokens are laid out one part after the other. -/
theorem run_append : s.run (ts ++ us) = (s.run ts).bind fun s' => s'.run us := by
  induction ts generalizing s with
  | nil => rfl
  | cons t ts ih =>
      rw [List.cons_append, run, run, Option.bind_assoc]
      exact congrArg _ (funext fun s' => ih)

/-- Every token opens or closes a bracket or is a part. -/
inductive Reads (s : Layout) (t : Token) : Layout → Prop where
  | closes {o : Opening} {outer : List Opening} (houter : s.outer = o :: outer)
      (h : o.bracket.isClosedBy t = true) : Reads s t ⟨o.close s.parts t, outer⟩
  | opens {b : Bracket} (hopen : ∀ o ∈ s.outer.head?, o.bracket.isClosedBy t = false)
      (h : t.opens? = some b) : Reads s t ⟨[], ⟨b, t, s.parts⟩ :: s.outer⟩
  | part (hopen : ∀ o ∈ s.outer.head?, o.bracket.isClosedBy t = false) (h : t.opens? = none)
      (hstray : t.isStray = false) : Reads s t ⟨s.parts ++ [.token t], s.outer⟩

/-- A token that closes nothing is laid out as it is read. -/
theorem read_eq_some (hopen : ∀ o ∈ s.outer.head?, o.bracket.isClosedBy t = false) :
    s.read t = some s' → Reads s t s' := by
  intro h
  rw [read] at h
  split at h
  case h_1 b hb =>
    cases h
    exact .opens hopen hb
  case h_2 hnone =>
    split at h <;> cases h
    next hstray => exact .part hopen hnone (Bool.eq_false_iff.mpr hstray)

/-- A step lays a token out as it is read, in one of the ways there are. -/
theorem step_eq_some : s.step t = some s' ↔ Reads s t s' := by
  constructor
  · intro h
    rw [step] at h
    split at h
    case h_1 hnil => exact read_eq_some (by rw [hnil]; nofun) h
    case h_2 o outer houter =>
      split at h
      case isTrue hclosed =>
        cases h
        exact .closes houter hclosed
      case isFalse hclosed =>
        refine read_eq_some (fun o' ho' => ?_) h
        rw [houter] at ho'
        cases ho'
        exact Bool.eq_false_iff.mpr hclosed
  · intro h
    obtain ⟨parts, outer⟩ := s
    cases h with
    | closes houter h =>
        cases houter
        exact if_pos h
    | @opens b hopen h =>
        -- what opens a bracket is read so inside any other one that it does not close
        have hread : read ⟨parts, outer⟩ t = some ⟨[], ⟨b, t, parts⟩ :: outer⟩ := by rw [read, h]
        cases outer with
        | nil => exact hread
        | cons o outer => exact (if_neg (Bool.eq_false_iff.mp (hopen o rfl))).trans hread
    | part hopen h hstray =>
        have hread : read ⟨parts, outer⟩ t = some ⟨parts ++ [.token t], outer⟩ := by
          simp only [read, h, hstray, Bool.false_eq_true, if_false]
        cases outer with
        | nil => exact hread
        | cons o outer => exact (if_neg (Bool.eq_false_iff.mp (hopen o rfl))).trans hread

/-! ### Nothing is lost -/

/-- The tokens that have been read. -/
def spelling (s : Layout) : List Token :=
  (s.outer.reverse.flatMap fun o => Part.spelling o.before ++ [o.token]) ++ Part.spelling s.parts

/-- A step adds its token to the spelling. -/
theorem spelling_step (h : Reads s t s') : s'.spelling = s.spelling ++ [t] := by
  cases h with
  | closes houter h =>
      rw [spelling, spelling, houter]
      simp [Part.spelling, Part.tokens, Opening.close]
  | opens hopen h => simp [spelling, Part.spelling]
  | part hopen h hstray => simp [spelling, Part.spelling, Part.tokens]

/-- Laying tokens out loses none of them. -/
theorem spelling_run (h : s.run ts = some s') : s'.spelling = s.spelling ++ ts := by
  induction ts generalizing s with
  | nil =>
      cases h
      exact (List.append_nil _).symm
  | cons t ts ih =>
      obtain ⟨next, hnext, hrest⟩ := Option.bind_eq_some_iff.mp h
      rw [ih hrest, spelling_step (step_eq_some.mp hnext), List.append_assoc, List.singleton_append]

/-! ### Expressions inside others -/

/-- The open brackets of an expression that stands behind other parts and inside other brackets. -/
def outerWithin (c : Layout) : List Opening → List Opening
  | []      => c.outer
  | [o]     => { o with before := c.parts ++ o.before } :: c.outer
  | o :: os => o :: outerWithin c os

/-- What has been read when an expression stands behind other parts and inside other brackets. -/
def within (c : Layout) : Layout → Layout
  | ⟨ps, []⟩      => ⟨c.parts ++ ps, c.outer⟩
  | ⟨ps, o :: os⟩ => ⟨ps, outerWithin c (o :: os)⟩

/-- The last open bracket is a parenthesis, if there is one. -/
def IsRound (c : Layout) : Prop :=
  ∀ o ∈ c.outer.head?, o.bracket = .round

theorem IsRound.isClosedBy (hc : c.IsRound) (ht : t ≠ .mark ')') :
    ∀ o ∈ c.outer.head?, o.bracket.isClosedBy t = false := by
  intro o ho
  rw [hc o ho]
  exact decide_eq_false ht

/-- What closes no inner bracket closes none within an outer context. -/
theorem isClosedBy_within {parts : List Part} {o : Opening} {os : List Opening}
    (h : o.bracket.isClosedBy t = false) :
    ∀ p ∈ (c.within ⟨parts, o :: os⟩).outer.head?, p.bracket.isClosedBy t = false := by
  intro p hp
  cases os <;> cases hp <;> exact h

/-- A token is read within round brackets as it is read outside. -/
theorem reads_within (hc : c.IsRound) (h : Reads s t s') : Reads (c.within s) t (c.within s') := by
  obtain ⟨parts, outer⟩ := s
  cases h with
  | @closes o os houter h =>
      cases houter
      cases os with
      | nil =>
          -- its last bracket gives the expression back to what it stands behind
          have hclose : c.parts ++ o.close parts t =
              Opening.close { o with before := c.parts ++ o.before } parts t :=
            (List.append_assoc ..).symm
          rw [within, hclose]
          exact .closes rfl h
      | cons p os => exact .closes rfl h
  | opens hopen h =>
      cases outer with
      | nil =>
          -- nothing but `)` closes the parenthesis around the expression
          refine .opens (hc.isClosedBy ?_) h
          rintro rfl
          cases h
      | cons o os =>
          exact Reads.opens (s := c.within ⟨parts, o :: os⟩) (isClosedBy_within (hopen o rfl)) h
  | part hopen h hstray =>
      cases outer with
      | nil =>
          have hparts : c.within ⟨parts ++ [.token t], []⟩ =
              ⟨(c.parts ++ parts) ++ [.token t], c.outer⟩ := by rw [within, List.append_assoc]
          rw [hparts]
          refine .part (hc.isClosedBy ?_) h hstray
          rintro rfl
          cases hstray
      | cons o os =>
          exact Reads.part (s := c.within ⟨parts, o :: os⟩) (isClosedBy_within (hopen o rfl)) h hstray

/-- Behind other parts and inside parentheses, tokens are read as they are on their own. -/
theorem run_within (hc : c.IsRound) (h : s.run ts = some s') :
    (c.within s).run ts = some (c.within s') := by
  induction ts generalizing s with
  | nil =>
      cases h
      rfl
  | cons t ts ih =>
      obtain ⟨next, hnext, hrest⟩ := Option.bind_eq_some_iff.mp h
      rw [run, step_eq_some.mpr (reads_within hc (step_eq_some.mp hnext))]
      exact ih hrest

end Layout

/-! ### Expressions -/

/-- The parts of tokens with all brackets closed. -/
def parts? (ts : List Token) : Option (List Part) :=
  match Layout.run {} ts with
  | some ⟨ps, []⟩ => some ps
  | _             => none

/-- The Boolean expression that tokens stand for. -/
def formula? (ts : List Token) : Option Formula :=
  (parts? ts).bind Part.formula?

example :
    let word (c : Char) : Formula := .predicate [.run .word [c]]
    formula? (lex "NOT a AND (b OR c) OR TRUE") =
      some (.or (.and (.not (word 'a')) (.or (word 'b') (word 'c'))) .always) := by
  decide +kernel

section

variable {ts us : List Token} {ps qs : List Part}

/-- Tokens have parts exactly if all brackets are closed at the end. -/
theorem parts?_eq_some : parts? ts = some ps ↔ Layout.run {} ts = some ⟨ps, []⟩ := by
  rw [parts?]
  split
  case h_1 qs hrun => simp [hrun]
  case h_2 hne =>
    constructor
    · nofun
    · exact fun h => absurd h (hne ps)

theorem spelling_parts (h : parts? ts = some ps) : Part.spelling ps = ts :=
  Layout.spelling_run (parts?_eq_some.mp h)

/-- Tokens with parts have them one after the other. -/
theorem parts?_append (ht : parts? ts = some ps) (hu : parts? us = some qs) :
    parts? (ts ++ us) = some (ps ++ qs) := by
  have hrun := Layout.run_within (c := ⟨ps, []⟩) nofun (parts?_eq_some.mp hu)
  have hstart : Layout.within ⟨ps, []⟩ {} = ⟨ps, []⟩ :=
    congrArg (Layout.mk · []) (List.append_nil ps)
  rw [hstart] at hrun
  rw [parts?_eq_some, Layout.run_append, parts?_eq_some.mp ht]
  exact hrun

/-- What stands in parentheses is one part. -/
theorem parts?_parens (h : parts? ts = some ps) :
    parts? (.mark '(' :: ts ++ [.mark ')']) =
      some [.group (.mark '(' :: ts ++ [.mark ')'])
        (Bracket.round.formula? (.mark '(' :: ts ++ [.mark ')']) ps)] := by
  have hround : Layout.IsRound ⟨[], [⟨.round, .mark '(', []⟩]⟩ := by
    intro o ho
    cases ho
    rfl
  have hinner : Layout.run ⟨[], [⟨.round, .mark '(', []⟩]⟩ ts =
      some ⟨ps, [⟨.round, .mark '(', []⟩]⟩ := Layout.run_within hround (parts?_eq_some.mp h)
  rw [parts?_eq_some, List.cons_append, Layout.run]
  change Layout.run ⟨[], [⟨.round, .mark '(', []⟩]⟩ (ts ++ [.mark ')']) = _
  rw [Layout.run_append, hinner, ← spelling_parts h]
  rfl

theorem Bracket.isClosedBy_unterminated (b : Bracket) : b.isClosedBy .unterminated = false := by
  cases b <;> rfl

/-- A text that has been laid out does not end within quotes. -/
theorem Layout.unterminated_not_mem {s s' : Layout} (h : s.run ts = some s') :
    .unterminated ∉ ts := by
  induction ts generalizing s with
  | nil => exact List.not_mem_nil
  | cons t ts ih =>
      obtain ⟨next, hnext, hrest⟩ := Option.bind_eq_some_iff.mp h
      rw [List.mem_cons, not_or]
      refine ⟨?_, ih hrest⟩
      rintro rfl
      cases step_eq_some.mp hnext with
      | closes houter hclosed =>
          rw [Bracket.isClosedBy_unterminated] at hclosed
          cases hclosed
      | opens hopen hopens => cases hopens
      | part hopen hopens hstray => cases hstray

/-- No quote is left open. -/
theorem unterminated_not_mem (h : parts? ts = some ps) : .unterminated ∉ ts :=
  Layout.unterminated_not_mem (parts?_eq_some.mp h)

/-- The token is a part of its own. -/
def Token.isPart (t : Token) : Bool :=
  t.opens?.isNone && !t.isStray

/-- Tokens that are parts of their own are laid out as such. -/
theorem parts?_tokens (h : ∀ t ∈ ts, t.isPart = true) : parts? ts = some (ts.map .token) := by
  induction ts with
  | nil => rfl
  | cons t ts ih =>
      obtain ⟨ht, hts⟩ := List.forall_mem_cons.mp h
      obtain ⟨hopens, hstray⟩ : t.opens? = none ∧ t.isStray = false := by
        simpa [Token.isPart] using ht
      have hfirst : parts? [t] = some [.token t] := by
        rw [parts?_eq_some, Layout.run,
          Layout.step_eq_some.mpr (.part (by rintro o ⟨⟩) hopens hstray)]
        rfl
      exact parts?_append hfirst (ih hts)

end

end ResourceQuery.Sql
