import ResourceQuery.Document.Decode
import ResourceQuery.Document.Printer

/-!
# Request — filters

A filter is a list of clauses in the order of the request.  An equality clause restricts one key; a
typed clause applies an operator to several keys.  Equalities on the same key are merged into one
clause that admits the values of all of them, and typed entries under the same operator are gathered in
one clause, the last value for a key being the one that counts.

Values are kept as text; the database converts them when it compares.
-/

namespace ResourceQuery

/-- The operators of typed clauses. -/
inductive FilterOperator where
  | like
  | not
  | lt
  | gt
  | lte
  | gte
  deriving DecidableEq

namespace FilterOperator

/-- The name of an operator in requests. -/
def name : FilterOperator → String
  | .like => "like"
  | .not  => "not"
  | .lt   => "lt"
  | .gt   => "gt"
  | .lte  => "lte"
  | .gte  => "gte"

/-- The operator of a name. -/
def ofName? : String → Option FilterOperator
  | "like" => some .like
  | "not"  => some .not
  | "lt"   => some .lt
  | "gt"   => some .gt
  | "lte"  => some .lte
  | "gte"  => some .gte
  | _      => none

theorem ofName?_name (op : FilterOperator) : ofName? op.name = some op := by
  cases op <;> rfl

/-- An operator is read from its own name only. -/
theorem eq_name_of_ofName? {s : String} {op : FilterOperator} (h : ofName? s = some op) :
    s = op.name := by
  unfold ofName? at h
  split at h <;> cases h <;> rfl

end FilterOperator

/-- A value to filter by: SQL's null, one text, or a list of texts and nulls. -/
inductive FilterValue where
  | null
  | single (value : String)
  | many (values : List (Option String))
  deriving DecidableEq, Inhabited

namespace FilterValue

/-- The value is the null. -/
def isNull : FilterValue → Bool
  | .null => true
  | _     => false

/-- The values to choose from; a single text is cut at its commas. -/
def values : FilterValue → List (Option String)
  | .null        => [none]
  | .single s    => (Text.split ',' s).map some
  | .many values => values

/-- The value to compare with: the first one that is not null; a single text is not cut. -/
def scalar? : FilterValue → Option String
  | .null        => none
  | .single s    => some s
  | .many values => values.findSome? id

end FilterValue

/-- A clause of a filter. -/
inductive FilterClause where
  | equality (key : String) (value : FilterValue)
  | typed (operator : FilterOperator) (entries : Entries FilterValue)
  deriving DecidableEq

/-- The keys that a clause refers to. -/
def FilterClause.keys : FilterClause → List String
  | .equality key _  => [key]
  | .typed _ entries => Entries.keys entries

/-- The clauses of a request, in order. -/
structure Filter where
  clauses : List FilterClause := []
  deriving DecidableEq, Inhabited

namespace Filter

/-- Widens the equality clause of a key by the values of another, or appends one. -/
def addEquality (key : String) (value : FilterValue) : List FilterClause → List FilterClause
  | []                    => [.equality key value]
  | .equality k old :: cs =>
    if k = key then .equality k (.many (old.values ++ value.values)) :: cs
    else .equality k old :: addEquality key value cs
  | c :: cs               => c :: addEquality key value cs

/-- Writes an entry in the clause of an operator, or appends one. -/
def addTyped (op : FilterOperator) (key : String) (value : FilterValue) :
    List FilterClause → List FilterClause
  | []                     => [.typed op [(key, value)]]
  | .typed o entries :: cs =>
    if o = op then .typed o (Entries.insert key value entries) :: cs
    else .typed o entries :: addTyped op key value cs
  | c :: cs                => c :: addTyped op key value cs

/-- The filter with one more equality. -/
def pushEquality (f : Filter) (key : String) (value : FilterValue) : Filter :=
  ⟨addEquality key value f.clauses⟩

/-- The filter with one more typed entry. -/
def pushTyped (f : Filter) (op : FilterOperator) (key : String) (value : FilterValue) : Filter :=
  ⟨addTyped op key value f.clauses⟩

/-- There are no clauses. -/
def isEmpty (f : Filter) : Bool :=
  f.clauses.isEmpty

/-- The value of the equality clause of a key. -/
def equality? (f : Filter) (key : String) : Option FilterValue :=
  f.clauses.findSome? fun
    | .equality k value => if k = key then some value else none
    | .typed ..         => none

/-- The value of a key under an operator. -/
def typed? (f : Filter) (op : FilterOperator) (key : String) : Option FilterValue :=
  f.clauses.findSome? fun
    | .equality ..      => none
    | .typed o entries  => if o = op then Entries.find? key entries else none

/-- The keys of all clauses, in order. -/
def keys (f : Filter) : List String :=
  f.clauses.flatMap FilterClause.keys

end Filter

/-! ### Decoding -/

namespace FilterValue

/-- A scalar as text, the null as nothing; lists and maps are returned as they are. -/
def scalarOf : Document → Except Document (Option String)
  | .null    => .ok none
  | .text s  => .ok (some s)
  | .bool b  => .ok (some (if b then "true" else "false"))
  | .int n   => .ok (some (toString n))
  | .float x => .ok (some (Decimal.Layout.json.write x))
  | d        => .error d

/-- Reads a filter value; the error is the part that is no scalar. -/
def ofDocument : Document → Except Document FilterValue
  | .list items => (items.mapM scalarOf).map .many
  | d           =>
    (scalarOf d).map fun
      | some s => .single s
      | none   => .null

/-- The text of the error for a part that is no scalar. -/
def refusal (d : Document) : String :=
  "unsupported filter value: " ++ d.render

/-- `ofDocument` without the cause. -/
def ofDocument? (d : Document) : Option FilterValue :=
  (ofDocument d).toOption

end FilterValue

/-- An entry of a filter in a request: a value, or values under an operator. -/
inductive FilterEntry where
  | value (value : FilterValue)
  | nested (entries : Entries FilterValue)

/-- Reads an entry of a filter. -/
def FilterEntry.ofDocument? (d : Document) : Option FilterEntry :=
  if d.readable then
    ((FilterValue.ofDocument? d).map FilterEntry.value).or
      ((d.mapOf? FilterValue.ofDocument?).map FilterEntry.nested)
  else none

namespace Filter

/-- Adds a read entry: values under an operator's name are typed, a single value is an equality, and
values under any other name are dropped. -/
def pushEntry (f : Filter) (key : String) : FilterEntry → Filter
  | .value value    => f.pushEquality key value
  | .nested entries =>
    match FilterOperator.ofName? key with
    | some op => entries.foldl (fun f (k, v) => f.pushTyped op k v) f
    | none    => f

/-- Reads a filter from a map of entries. -/
def ofDocument? (d : Document) : Option Filter :=
  (d.mapOf? FilterEntry.ofDocument?).map fun entries =>
    entries.foldl (fun f (key, entry) => f.pushEntry key entry) {}

end Filter

end ResourceQuery
