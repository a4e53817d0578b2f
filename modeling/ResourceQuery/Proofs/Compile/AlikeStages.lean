import ResourceQuery.Compile.Request
import ResourceQuery.Proofs.Compile.Stage
import ResourceQuery.Proofs.Sql.Masked

/-!
# Compile — stages that do not look at values

Stages are alike when from alike queries they lead to alike queries, and fail alike
(`Stage.Alike`), and so do sequences of them (`Stage.Related.all`).  Apart from the filter, no stage
looks at the conditions of a query, so each of them is alike to itself (`joinStage_alike`,
`groupStage_alike`, `sortStage_alike`, `includeStage_alike`, `fieldsStage_alike`).
-/

namespace ResourceQuery

open Sql (Query)

/-! ### Alike queries -/

namespace Sql.Query.Alike

variable {q u : Query}

theorem select (p : Projection) (h : q.Alike u) : (q.select p).Alike (u.select p) := by
  obtain ⟨cs, h, rfl⟩ := h
  exact ⟨cs, h, rfl⟩

theorem makeDistinct (h : q.Alike u) : q.makeDistinct.Alike u.makeDistinct := by
  obtain ⟨cs, h, rfl⟩ := h
  exact ⟨cs, h, rfl⟩

theorem groupBy (t : GroupTerm) (h : q.Alike u) : (q.groupBy t).Alike (u.groupBy t) := by
  obtain ⟨cs, h, rfl⟩ := h
  exact ⟨cs, h, rfl⟩

theorem orderBy (t : OrderTerm) (h : q.Alike u) : (q.orderBy t).Alike (u.orderBy t) := by
  obtain ⟨cs, h, rfl⟩ := h
  exact ⟨cs, h, rfl⟩

theorem load (e : EagerLoad) (h : q.Alike u) : (q.load e).Alike (u.load e) := by
  obtain ⟨cs, h, rfl⟩ := h
  exact ⟨cs, h, rfl⟩

theorem hasJoin (h : q.Alike u) (name : String) : q.hasJoin name = u.hasJoin name := by
  obtain ⟨cs, -, rfl⟩ := h
  rfl

theorem selectsColumn (h : q.Alike u) (c : Column) : q.selectsColumn c = u.selectsColumn c := by
  obtain ⟨cs, -, rfl⟩ := h
  rfl

theorem join (j : Join) (h : q.Alike u) : (q.join j).Alike (u.join j) := by
  rw [Query.join, Query.join, h.hasJoin]
  split
  · exact h
  · obtain ⟨cs, h, rfl⟩ := h
    exact ⟨cs, h, rfl⟩

/-- Queries stay alike in changes one by one, by induction on them. -/
theorem foldl {α : Type} {put : Query → α → Query}
    (hput : ∀ q u x, q.Alike u → (put q x).Alike (put u x)) (xs : List α) (h : q.Alike u) :
    (xs.foldl put q).Alike (xs.foldl put u) :=
  List.foldl_rel h fun x _ _ _ h => hput _ _ x h

end Sql.Query.Alike

/-! ### Alike stages -/

/-- From alike queries the stages lead to alike queries, and fail alike. -/
def Stage.Alike (s t : Stage) : Prop :=
  ∀ q u, q.Alike u → (s q).failure = (t u).failure ∧ (s q).query.Alike (t u).query

namespace Context

variable (ctx : Context)

/-- Joins do not look at values. -/
theorem joinStage_alike (t : DependencyTree) : (ctx.joinStage t).Alike (ctx.joinStage t) := by
  refine Stage.Related.all_self fun s hs => ?_
  obtain ⟨part, -, rfl⟩ := List.mem_map.mp hs
  cases part with
  | ok joins => exact Stage.Related.change fun q u h => h.foldl (fun _ _ j h => h.join j) joins
  | error e =>
      exact Stage.Related.add (S := Eq) (.refl (fun _ => rfl) _) fun q u _ _ h _ => h

theorem groupStage_alike (group : List String) :
    (ctx.groupStage group).Alike (ctx.groupStage group) :=
  Stage.Related.addEach (fun _ _ term h => h.foldl (fun _ _ t h => h.groupBy t) term.toList) group

theorem sortStage_alike (sort : List String) : (ctx.sortStage sort).Alike (ctx.sortStage sort) :=
  Stage.Related.addEach (fun _ _ term h => h.foldl (fun _ _ t h => h.orderBy t) term.toList) sort

theorem includeStage_alike (includes : List String) (fields : Entries (List String)) :
    (ctx.includeStage includes fields).Alike (ctx.includeStage includes fields) :=
  Stage.Related.addEach (fun _ _ load h => h.foldl (fun _ _ e h => h.load e) load.toList) includes

/-! ### Fieldsets -/

theorem project_alike {q u : Query} (c : Sql.Column) {change : Query → Query}
    (hchange : ∀ q u, q.Alike u → (change q).Alike (change u)) (h : q.Alike u) :
    Agree Query.Alike (ctx.project q c change) (ctx.project u c change) := by
  have hsame : ctx.isProjectable q c = ctx.isProjectable u c := by
    simp only [isProjectable, h.hasJoin]
  rw [project, project, hsame]
  refine Agree.bind_pure (R := Eq) (.refl (fun _ => rfl) _) ?_
  rintro found _ rfl
  split
  · exact hchange q u h
  · exact h

theorem addBaseField_alike {q u : Query} (field : String) (h : q.Alike u) :
    Agree Query.Alike (ctx.addBaseField field q) (ctx.addBaseField field u) := by
  rw [addBaseField, addBaseField]
  split
  · refine Agree.bind (R := Eq) (.refl (fun _ => rfl) _) ?_
    rintro found _ rfl
    cases found with
    | none => exact .ok h
    | some c => exact ctx.project_alike c (fun _ _ h => h.select _) h
  · refine Agree.bind (R := Eq) (.refl (fun _ => rfl) _) ?_
    rintro found _ rfl
    cases found with
    | none => exact .ok h
    | some target =>
        cases target with
        | column c => exact ctx.project_alike c (fun _ _ h => h.select _) h
        | json a => exact ctx.project_alike a.column (fun _ _ h => h.select _) h

theorem addRelationKey_alike {q u : Query} (path : String) (h : q.Alike u) :
    (ctx.addRelationKey q path).Alike (ctx.addRelationKey u path) := by
  simp only [addRelationKey, h.selectsColumn]
  split
  · split
    · exact h
    · exact h.select _
  · exact h

theorem baseFieldsStage_alike (names includes : List String) :
    (ctx.baseFieldsStage names includes).Alike (ctx.baseFieldsStage names includes) := by
  refine Stage.Related.all_self (List.forall_mem_cons.mpr ⟨?_, List.forall_mem_append.mpr ⟨?_, ?_⟩⟩)
  · exact Stage.Related.change fun _ _ h => h.makeDistinct
  · intro s hs
    obtain ⟨field, -, rfl⟩ := List.mem_map.mp hs
    exact Stage.Related.step fun _ _ h => ctx.addBaseField_alike field h
  · refine List.forall_mem_singleton.mpr ?_
    exact Stage.Related.change fun _ _ h =>
      h.foldl (fun _ _ path h => ctx.addRelationKey_alike path h) includes

/-- A fieldset looks at the joins of a query only, which are alike. -/
theorem fieldsetStage_alike (includes : List String) (key : String) (names : List String) :
    (ctx.fieldsetStage includes key names).Alike (ctx.fieldsetStage includes key names) := by
  intro q u h
  simp only [fieldsetStage, h.hasJoin]
  split
  · exact ctx.baseFieldsStage_alike names includes q u h
  · split
    · exact ⟨rfl, h⟩
    · split
      · have hjoined : (ctx.joinedFieldsStage key names).Alike (ctx.joinedFieldsStage key names) :=
          Stage.Related.addEach
            (fun _ _ c h => h.foldl (fun _ _ c h => h.select (.column c)) c.toList) names
        exact hjoined q u h
      · exact ⟨rfl, h⟩

/-- All fieldsets are added alike. -/
theorem fieldsStage_alike (fields : Entries (List String)) (includes : List String) :
    (ctx.fieldsStage fields includes).Alike (ctx.fieldsStage fields includes) := by
  refine Stage.Related.all_self fun s hs => ?_
  obtain ⟨⟨key, names⟩, -, rfl⟩ := List.mem_map.mp hs
  exact ctx.fieldsetStage_alike includes key names

end Context

/-- What is joined does not depend on values. -/
theorem Compiler.dependencyStage_alike (ctx : Context) (fields : Entries (List String))
    (t : DependencyTree) :
    (dependencyStage ctx fields t).Alike (dependencyStage ctx fields t) := by
  rw [dependencyStage]
  split
  · exact Stage.Related.skip
  · refine Stage.Related.andThen (ctx.joinStage_alike t) ?_
    split
    · exact Stage.Related.skip
    · exact Stage.Related.change fun _ _ h => h.select _

end ResourceQuery
