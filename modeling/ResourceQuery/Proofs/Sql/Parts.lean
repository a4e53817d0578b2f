import ResourceQuery.Proofs.Sql.Template

/-!
# Sql — the predicates, the fragments and the values in a query

The predicates of a query are what its conditions combine (`Query.predicates`); their number is the one
that is limited (`conditionCount_eq`).  The raw fragments of a query stand in its `SELECT` list, its
conditions, groups and orders (`fragments`).  The values that it binds come from these and from joins; they
are listed in the order in which the parts of a statement stand (`Query.values`, `Query.countValues`).
-/

namespace ResourceQuery.Sql

/-! ### Conditions -/

namespace Condition

mutual

/-- The predicates that a condition combines. -/
def predicates : Condition → List Condition
  | .or parts  => predicatesOf parts
  | .and parts => predicatesOf parts
  | .not part  => predicates part
  | c          => [c]

/-- The predicates in a list of conditions. -/
def predicatesOf : List Condition → List Condition
  | []      => []
  | c :: cs => predicates c ++ predicatesOf cs

end

mutual

/-- What is counted in a condition are its predicates. -/
theorem leafCount_eq : ∀ c : Condition, c.leafCount = c.predicates.length
  | .or parts => leafCounts_eq parts
  | .and parts => leafCounts_eq parts
  | .not part => leafCount_eq part
  | .compare .. | .isIn .. | .notIn .. | .isNull .. | .isNotNull .. | .like .. | .raw .. | .always
  | .never => rfl

theorem leafCounts_eq : ∀ cs : List Condition, leafCounts cs = (predicatesOf cs).length
  | [] => rfl
  | c :: cs => by rw [leafCounts, predicatesOf, List.length_append, leafCount_eq c, leafCounts_eq cs]

end

mutual

/-- The raw fragments in a condition. -/
def fragments : Condition → List Fragment
  | .raw fragment => [fragment]
  | .or parts     => fragmentsOf parts
  | .and parts    => fragmentsOf parts
  | .not part     => fragments part
  | _             => []

/-- The raw fragments in a list of conditions. -/
def fragmentsOf : List Condition → List Fragment
  | []      => []
  | c :: cs => fragments c ++ fragmentsOf cs

end

mutual

/-- The values in a condition. -/
def values : Condition → List Value
  | .compare _ _ value => [value]
  | .isIn _ values     => values
  | .notIn _ values    => values
  | .like _ pattern    => [.text pattern]
  | .raw fragment      => fragment.params
  | .or parts          => valuesOf parts
  | .and parts         => valuesOf parts
  | .not part          => values part
  | _                  => []

/-- The values in a list of conditions. -/
def valuesOf : List Condition → List Value
  | []      => []
  | c :: cs => values c ++ valuesOf cs

end

end Condition

/-! ### Entries of the other lists -/

namespace Projection

def fragments : Projection → List Fragment
  | .expression fragment => [fragment]
  | _                    => []

def values (p : Projection) : List Value :=
  p.fragments.flatMap Fragment.params

end Projection

namespace GroupTerm

def fragments : GroupTerm → List Fragment
  | .expression fragment => [fragment]
  | .column _            => []

def values (t : GroupTerm) : List Value :=
  t.fragments.flatMap Fragment.params

end GroupTerm

namespace OrderTerm

def fragments : OrderTerm → List Fragment
  | .expression fragment _ => [fragment]
  | .column _ _            => []

def values (t : OrderTerm) : List Value :=
  t.fragments.flatMap Fragment.params

end OrderTerm

def JoinCondition.values : JoinCondition → List Value
  | .columns _ _ => []
  | .value _ v   => [v]

def Join.values (j : Join) : List Value :=
  j.on.flatMap JoinCondition.values

/-! ### Queries -/

namespace Query

/-- The predicates in the conditions of a query. -/
def predicates (q : Query) : List Condition :=
  Condition.predicatesOf q.conditions

theorem conditionCount_eq (q : Query) : q.conditionCount = q.predicates.length :=
  Condition.leafCounts_eq q.conditions

/-- The raw fragments in a query. -/
def fragments (q : Query) : List Fragment :=
  q.projections.flatMap Projection.fragments ++ Condition.fragmentsOf q.conditions ++
    q.groupTerms.flatMap GroupTerm.fragments ++ q.orderTerms.flatMap OrderTerm.fragments

/-- The values of the joins and of the conditions. -/
def rowValues (q : Query) : List Value :=
  q.joins.flatMap Join.values ++ Condition.valuesOf q.conditions

/-- The values of a query without its orders. -/
def selectValues (q : Query) : List Value :=
  q.projections.flatMap Projection.values ++ q.rowValues ++ q.groupTerms.flatMap GroupTerm.values

/-- The values of a query: of the `SELECT` list, the joins, the conditions, the groups and the
orders. -/
def values (q : Query) : List Value :=
  q.selectValues ++ q.orderTerms.flatMap OrderTerm.values

/-- The values of the count of a query. -/
def countValues (q : Query) : List Value :=
  if q.distinct || !q.groupTerms.isEmpty then q.selectValues else q.rowValues

end Query

end ResourceQuery.Sql
