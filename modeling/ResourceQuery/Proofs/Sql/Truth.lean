import ResourceQuery.Sql.Condition

/-!
# Sql — what conditions say about a row

A condition is true, false or unknown of a row.  A test of a column whose value is null is unknown, as
is a comparison with the null; `IS NULL` and `IS NOT NULL` alone look at the null itself.  Membership
is the disjunction of the comparisons with the members, so `NOT IN` is true only of a value that is
known to differ from all of them.

What a database holds, how it compares and how it matches is left open (`Row`).  A `WHERE` clause keeps
the rows of which its conditions are true, all of them (`truthOfAll_eq_yes`).
-/

namespace ResourceQuery.Sql

/-- A truth value of SQL. -/
inductive Truth where
  | yes
  | no
  | unknown
  deriving DecidableEq

namespace Truth

/-- The outcome of a test. -/
def ofBool : Bool → Truth
  | true  => .yes
  | false => .no

/-- The negation; what is unknown stays so. -/
def not : Truth → Truth
  | .yes     => .no
  | .no      => .yes
  | .unknown => .unknown

/-- The conjunction; a false part decides it. -/
def and : Truth → Truth → Truth
  | .no,  _   => .no
  | _,    .no => .no
  | .yes, t   => t
  | t,    _   => t

/-- The disjunction; a true part decides it. -/
def or : Truth → Truth → Truth
  | .yes, _    => .yes
  | _,    .yes => .yes
  | .no,  t    => t
  | t,    _    => t

variable {a b : Truth}

@[simp] theorem ofBool_eq_yes {t : Bool} : ofBool t = .yes ↔ t = true := by
  cases t <;> simp [ofBool]

@[simp] theorem ofBool_eq_no {t : Bool} : ofBool t = .no ↔ t = false := by
  cases t <;> simp [ofBool]

@[simp] theorem not_eq_yes : a.not = .yes ↔ a = .no := by
  cases a <;> simp [not]

@[simp] theorem and_eq_yes : a.and b = .yes ↔ a = .yes ∧ b = .yes := by
  cases a <;> cases b <;> simp [and]

@[simp] theorem or_eq_yes : a.or b = .yes ↔ a = .yes ∨ b = .yes := by
  cases a <;> cases b <;> simp [or]

@[simp] theorem or_eq_no : a.or b = .no ↔ a = .no ∧ b = .no := by
  cases a <;> cases b <;> simp [or]

/-- The disjunction of a list. -/
def any : List Truth → Truth
  | []      => .no
  | t :: ts => t.or (any ts)

theorem any_eq_yes {ts : List Truth} : any ts = .yes ↔ .yes ∈ ts := by
  induction ts with
  | nil => simp [any]
  | cons t ts ih => rw [any, or_eq_yes, ih, List.mem_cons, eq_comm]

theorem any_eq_no {ts : List Truth} : any ts = .no ↔ ∀ t ∈ ts, t = .no := by
  induction ts with
  | nil => simp [any]
  | cons t ts ih => simp [any, ih]

/-- The conjunction of a list. -/
def all : List Truth → Truth
  | []      => .yes
  | t :: ts => t.and (all ts)

theorem all_eq_yes {ts : List Truth} : all ts = .yes ↔ ∀ t ∈ ts, t = .yes := by
  induction ts with
  | nil => simp [all]
  | cons t ts ih => simp [all, ih]

theorem and_yes (a : Truth) : a.and .yes = a := by
  cases a <;> rfl

theorem or_no (a : Truth) : a.or .no = a := by
  cases a <;> rfl

theorem and_assoc (a b c : Truth) : (a.and b).and c = a.and (b.and c) := by
  cases a <;> cases b <;> cases c <;> rfl

theorem or_assoc (a b c : Truth) : (a.or b).or c = a.or (b.or c) := by
  cases a <;> cases b <;> cases c <;> rfl

theorem all_append (ts us : List Truth) : all (ts ++ us) = (all ts).and (all us) := by
  induction ts with
  | nil => cases h : all us <;> simp [all, h, and]
  | cons t ts ih => rw [List.cons_append, all, all, ih, and_assoc]

theorem any_append (ts us : List Truth) : any (ts ++ us) = (any ts).or (any us) := by
  induction ts with
  | nil => cases h : any us <;> simp [any, h, or]
  | cons t ts ih => rw [List.cons_append, any, any, ih, or_assoc]

end Truth

/-- A row as conditions see it, with values of type `α`. -/
structure Row (α : Type) where
  /-- The value of a column, unless that is null. -/
  value   : Column → Option α
  /-- The outcome of a comparison with a bound value. -/
  compare : Comparison → α → Value → Bool
  /-- The outcome of a match with a pattern. -/
  like    : α → String → Bool
  /-- The truth of a raw fragment. -/
  raw     : Fragment → Truth

namespace Row

variable {α : Type}

/-- The outcome of a test of a column, unknown if the column is null. -/
def test (r : Row α) (c : Column) (holds : α → Bool) : Truth :=
  match r.value c with
  | some x => .ofBool (holds x)
  | none   => .unknown

/-- The truth of a comparison of a column with a bound value. -/
def compared (r : Row α) (c : Column) (op : Comparison) : Value → Truth
  | .null => .unknown
  | v     => r.test c fun x => r.compare op x v

/-- The truth of the membership of a column in a list of bound values. -/
def membership (r : Row α) (c : Column) (values : List Value) : Truth :=
  .any (values.map (r.compared c .eq))

end Row

namespace Condition

variable {α : Type}

mutual

/-- The truth of a condition. -/
def truth (r : Row α) : Condition → Truth
  | .compare c op v   => r.compared c op v
  | .isIn c values    => r.membership c values
  | .notIn c values   => (r.membership c values).not
  | .isNull c         => .ofBool (r.value c).isNone
  | .isNotNull c      => .ofBool (r.value c).isSome
  | .like c pattern   => r.test c fun x => r.like x pattern
  | .raw fragment     => r.raw fragment
  | .or parts         => truthOfAny r parts
  | .and parts        => truthOfAll r parts
  | .not part         => (truth r part).not
  | .always           => .yes
  | .never            => .no

/-- The truth of a disjunction. -/
def truthOfAny (r : Row α) : List Condition → Truth
  | []      => .no
  | c :: cs => (truth r c).or (truthOfAny r cs)

/-- The truth of a conjunction. -/
def truthOfAll (r : Row α) : List Condition → Truth
  | []      => .yes
  | c :: cs => (truth r c).and (truthOfAll r cs)

end

variable {r : Row α} {c : Column}

/-- A choice of conditions holds if one of them does. -/
theorem truthOfAny_eq_yes {cs : List Condition} :
    truthOfAny r cs = .yes ↔ ∃ c ∈ cs, c.truth r = .yes := by
  induction cs with
  | nil => simp [truthOfAny]
  | cons c cs ih => simp [truthOfAny, ih]

/-- Conditions hold together if each of them does. -/
theorem truthOfAll_eq_yes {cs : List Condition} :
    truthOfAll r cs = .yes ↔ ∀ c ∈ cs, c.truth r = .yes := by
  induction cs with
  | nil => simp [truthOfAll]
  | cons c cs ih => simp [truthOfAll, ih]

/-- Alternatives hold if one of them does, also if there is only one. -/
theorem truth_anyOf {cs : List Condition} :
    (anyOf cs).truth r = .yes ↔ ∃ c ∈ cs, c.truth r = .yes := by
  cases cs with
  | nil => simp [anyOf, truth]
  | cons c cs =>
      cases cs with
      | nil => simp [anyOf]
      | cons d cs => exact truthOfAny_eq_yes

end Condition

end ResourceQuery.Sql
