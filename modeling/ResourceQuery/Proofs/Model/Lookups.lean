import Mathlib.Data.Finset.Card
import Mathlib.Data.Finset.Dedup
import ResourceQuery.Model.ColumnCache
import ResourceQuery.Proofs.Blog

/-!
# Model — look-ups of column names

Many look-ups share one cache: of one column name or of several, for types that follow each other in any
order.  Two invariants carry a run: the cache tells the column names of every type still to come
(`Tells`), and its keys are those seen so far, each once (`Holds`).

* `Tells.answer`, `Holds.answer`: one look-up keeps the invariants.
* `answers_eq`: answers do not depend on what was remembered.
* `size_answers`: a cache has as many entries as there were keys.
* `answers_transparent`: a run of look-ups that starts with nothing remembered.
-/

namespace ResourceQuery.ColumnCache

/-- A look-up of one column name or of several. -/
inductive Lookup where
  | one (t : ResourceType) (name : String)
  | several (t : ResourceType) (names : List String)

/-- One column name or several. -/
inductive Answer where
  | one (column : String)
  | several (columns : List String)
  deriving DecidableEq

namespace Lookup

/-- The type that a look-up is for. -/
def type : Lookup → ResourceType
  | .one t _ | .several t _ => t

/-- The pairs of type name and attribute name that a look-up asks for, in order. -/
def keys : Lookup → List (String × String)
  | .one t name      => [(t.name, name)]
  | .several t names => names.map (t.name, ·)

/-- The column names by the naming of the type alone. -/
def direct : Lookup → Answer
  | .one t name      => .one (t.column name)
  | .several t names => .several (names.map t.column)

end Lookup

/-- The answer to a look-up and what is remembered then. -/
def answer (c : ColumnCache) : Lookup → Answer × ColumnCache
  | .one t name      => ((c.column t name).map .one id)
  | .several t names => ((c.columns t names).map .several id)

/-- The answers to look-ups that follow each other, and what is remembered at the end. -/
def answers (c : ColumnCache) : List Lookup → List Answer × ColumnCache
  | []           => ([], c)
  | look :: later =>
    let (first, c) := c.answer look
    let (rest, c) := c.answers later
    (first :: rest, c)

variable {c : ColumnCache} {t u : ResourceType} {look : Lookup}

/-! ### What is told -/

/-- Looking up the columns of a type keeps a cache true to another one, if types of one name have one
naming. -/
theorem Tells.columns (h : c.Tells t) (hsame : u.name = t.name → u.naming = t.naming)
    (names : List String) : (c.columns u names).2.Tells t := by
  induction names generalizing c with
  | nil => exact h
  | cons name names ih => exact ih (h.column hsame name)

/-- An answer keeps a cache true to a type. -/
theorem Tells.answer (h : c.Tells t) (hsame : look.type.name = t.name → look.type.naming = t.naming) :
    (c.answer look).2.Tells t := by
  cases look with
  | one u name => exact h.column hsame name
  | several u names => exact h.columns hsame names

/-- A true cache answers as the type does. -/
theorem answer_eq (h : c.Tells look.type) : (c.answer look).1 = look.direct := by
  cases look with
  | one t name => exact congrArg Answer.one (column_eq h name)
  | several t names => exact congrArg Answer.several (columns_eq h names)

/-- Types with the same name have the same naming. -/
def Consistent (looks : List Lookup) : Prop :=
  ∀ look ∈ looks, ∀ other ∈ looks,
    look.type.name = other.type.name → look.type.naming = other.type.naming

/-- The types of a registry are told apart by their names. -/
theorem consistent_of_registered {r : Registry} {looks : List Lookup}
    (h : ∀ look ∈ looks, r.type? look.type.name = some look.type) : Consistent looks := by
  intro look hlook other hother hname
  have hlookup := h look hlook
  rw [hname, h other hother, Option.some.injEq] at hlookup
  rw [hlookup]

/-- Answers do not depend on what was remembered, if it is right. -/
theorem answers_eq {looks : List Lookup} (h : ∀ look ∈ looks, c.Tells look.type)
    (hsame : Consistent looks) : (c.answers looks).1 = looks.map Lookup.direct := by
  induction looks generalizing c with
  | nil => rfl
  | cons look later ih =>
      have hlater : ∀ other ∈ later, (c.answer look).2.Tells other.type := fun other hother =>
        (h other (List.mem_cons_of_mem _ hother)).answer
          (hsame look List.mem_cons_self other (List.mem_cons_of_mem _ hother))
      have hrest := ih hlater fun first hfirst other hother =>
        hsame first (List.mem_cons_of_mem _ hfirst) other (List.mem_cons_of_mem _ hother)
      rw [answers, List.map_cons, ← answer_eq (h look List.mem_cons_self), ← hrest]

/-! ### What is held -/

/-- The cache has one entry for each of the keys and no other. -/
structure Holds (c : ColumnCache) (keys : List (String × String)) : Prop where
  nodup : (c.entries.map Prod.fst).Nodup
  mem_iff : ∀ key, key ∈ c.entries.map Prod.fst ↔ key ∈ keys

variable {seen : List (String × String)}

theorem holds_empty : Holds {} [] :=
  ⟨List.nodup_nil, fun _ => Iff.rfl⟩

/-- A cache has one entry for each name that has been seen. -/
theorem Holds.size (h : c.Holds seen) : c.size = seen.toFinset.card := by
  have hsame : (c.entries.map Prod.fst).toFinset = seen.toFinset := by
    ext key
    rw [List.mem_toFinset, List.mem_toFinset, h.mem_iff]
  rw [← hsame, List.toFinset_card_of_nodup h.nodup, List.length_map, ColumnCache.size]

theorem find?_eq_none_iff {key : String × String} :
    c.find? key = none ↔ key ∉ c.entries.map Prod.fst := by
  rw [find?, Option.map_eq_none_iff, List.find?_eq_none, List.mem_map]
  simp only [decide_eq_true_eq, not_exists, not_and]

/-- A look-up of one name: its key is there, or goes to the end. -/
theorem Holds.column (h : c.Holds seen) (name : String) :
    (c.column t name).2.Holds (seen ++ [(t.name, name)]) := by
  rw [ColumnCache.column]
  split
  case h_1 found =>
    have hold : (t.name, name) ∈ c.entries.map Prod.fst := by
      by_contra hnew
      exact Option.some_ne_none _ (found.symm.trans (find?_eq_none_iff.mpr hnew))
    refine ⟨h.nodup, fun key => ?_⟩
    rw [h.mem_iff, List.mem_append, List.mem_singleton]
    exact ⟨.inl, fun hkey => hkey.elim id fun hkey => hkey ▸ (h.mem_iff _).mp hold⟩
  case h_2 missing =>
    have hnew := find?_eq_none_iff.mp missing
    constructor
    · rw [List.map_append, List.map_singleton, ← List.concat_eq_append]
      exact h.nodup.concat hnew
    · intro key
      rw [List.map_append, List.map_singleton, List.mem_append, List.mem_append, h.mem_iff]

/-- Looking up columns adds their names to those that have been seen. -/
theorem Holds.columns (h : c.Holds seen) (names : List String) :
    (c.columns t names).2.Holds (seen ++ names.map (t.name, ·)) := by
  induction names generalizing c seen with
  | nil => rwa [List.map_nil, List.append_nil]
  | cons name names ih =>
      rw [List.map_cons, List.append_cons]
      exact ih (h.column name)

/-- An answer adds the keys of its look-up to those that have been seen. -/
theorem Holds.answer (h : c.Holds seen) : (c.answer look).2.Holds (seen ++ look.keys) := by
  cases look with
  | one t name => exact h.column name
  | several t names => exact h.columns names

/-- Answers add the keys of all look-ups to those that have been seen. -/
theorem Holds.answers (h : c.Holds seen) (looks : List Lookup) :
    (c.answers looks).2.Holds (seen ++ looks.flatMap Lookup.keys) := by
  induction looks generalizing c seen with
  | nil => rwa [List.flatMap_nil, List.append_nil]
  | cons look later ih =>
      rw [List.flatMap_cons, ← List.append_assoc]
      exact ih h.answer

/-- **What was remembered is not seen in the answers.**  If types with the same name have the same
naming, each look-up answers what the naming of its type gives, and there is one entry for each pair of
type name and attribute name that was looked up. -/
theorem answers_transparent {looks : List Lookup} (hsame : Consistent looks) :
    (answers {} looks).1 = looks.map Lookup.direct ∧
      (answers {} looks).2.size = (looks.flatMap Lookup.keys).toFinset.card :=
  ⟨answers_eq (fun look _ => tells_empty look.type) hsame, (holds_empty.answers looks).size⟩

/-- Three names of people, one of them again, and the same name of articles make four entries. -/
theorem answers_transparent_people :
    ∃ looks : List Lookup,
      looks = [.several Blog.people ["firstName", "id", "createdAt"], .one Blog.people "firstName",
        .one Blog.articles "firstName"] ∧
      Consistent looks ∧
      (answers {} looks).1 =
        [.several ["first_name", "id", "created_at"], .one "first_name", .one "firstName"] ∧
      (answers {} looks).2.size = 4 := by
  refine ⟨_, rfl, ?_⟩
  have hsame : Consistent [.several Blog.people ["firstName", "id", "createdAt"],
      .one Blog.people "firstName", .one Blog.articles "firstName"] := by
    refine consistent_of_registered (r := Blog.registry) ?_
    simp only [List.forall_mem_cons, List.not_mem_nil, false_imp_iff, implies_true, and_true]
    exact ⟨rfl, rfl, rfl⟩
  obtain ⟨hanswers, hsize⟩ := answers_transparent hsame
  exact ⟨hsame, hanswers.trans (by decide +kernel), hsize.trans (by decide +kernel)⟩

end ResourceQuery.ColumnCache
