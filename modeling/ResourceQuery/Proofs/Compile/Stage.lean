import Mathlib.Data.List.Forall2
import ResourceQuery.Compile.Stage
import ResourceQuery.Proofs.Except

/-!
# Compile — what stages keep, and what a stage that ends has done

A stage *keeps* a property of queries when the query it leaves has the property whenever the query
it started from has it, whether or not the stage fails (`Keeps`).  Sequences keep what each of their
stages keeps, so an invariant of a compilation is checked step by step.

A stage *runs* from one query to another when it leaves the second one without failure (`Runs`).  A
sequence runs exactly when its stages run one after the other (`runs_cons`), and leaves what one of
its stages makes if the other stages keep it (`Runs.of_mem`).  If it is known of each stage when it
makes something, it is known of the sequence (`Runs.made_iff`).

A stage *succeeds* when it fails on no query, and so do sequences of such stages (`Succeeds`).

Two stages are *related* when from related queries they lead to related queries, and fail alike
(`Related`).  Two sequences are when their stages are one by one (`Related.all`).

What a stage adds to queries does not depend on them (`Stage.add`).  So a sequence of such stages
leaves two queries alike that were alike (`Runs.alike`), and a stage that adds nothing can be left
out of any sequence (`all_without`).
-/

namespace ResourceQuery

/-- What is made from one list in two ways is compared item by item. -/
theorem forall₂_map_map {α β γ : Type} {S : β → γ → Prop} {f : α → β} {g : α → γ} (xs : List α)
    (h : ∀ x, S (f x) (g x)) : List.Forall₂ S (xs.map f) (xs.map g) :=
  List.forall₂_map_left_iff.mpr (List.forall₂_map_right_iff.mpr (List.forall₂_same.mpr fun x _ => h x))

theorem Progress.result_eq_ok {p : Progress} {q : Sql.Query} :
    p.result = .ok q ↔ p = ⟨q, none⟩ := by
  obtain ⟨query, failure⟩ := p
  cases failure with
  | none => simp [Progress.result]
  | some e => simp [Progress.result]

namespace Stage

variable {P : Sql.Query → Prop} {s a b : Stage} {ss : List Stage} {q q' : Sql.Query}

/-! ### Invariants -/

/-- The stage leaves a query with `P` when it starts from one. -/
def Keeps (P : Sql.Query → Prop) (s : Stage) : Prop :=
  ∀ q, P q → P (s q).query

theorem Keeps.skip : Keeps P Stage.skip :=
  fun _ h => h

theorem Keeps.change {f : Sql.Query → Sql.Query} (h : ∀ q, P q → P (f q)) :
    Keeps P (Stage.change f) :=
  h

theorem Keeps.step {f : Sql.Query → Except QueryError Sql.Query}
    (h : ∀ q q', f q = .ok q' → P q → P q') : Keeps P (Stage.step f) := by
  intro q hq
  rw [Stage.step]
  split
  · exact h q _ ‹_› hq
  · exact hq

theorem Keeps.add {α : Type} {item : Except QueryError α} {put : Sql.Query → α → Sql.Query}
    (h : ∀ x, item = .ok x → ∀ q, P q → P (put q x)) : Keeps P (Stage.add item put) := by
  refine Keeps.step fun q q' hq hP => ?_
  cases item with
  | error e => cases hq
  | ok x =>
      obtain rfl : put q x = q' := Except.ok.inj hq
      exact h x rfl q hP

/-- Two stages keep what each of them keeps. -/
theorem Keeps.andThen (ha : Keeps P a) (hb : Keeps P b) : Keeps P (Stage.andThen a b) := by
  intro q hq
  rw [Stage.andThen]
  split
  · exact hb _ (ha q hq)
  · exact ha q hq

/-- Stages keep what each of them keeps. -/
theorem Keeps.all (h : ∀ s ∈ ss, Keeps P s) : Keeps P (Stage.all ss) := by
  induction ss with
  | nil => exact Keeps.skip
  | cons s ss ih =>
      rw [Stage.all_cons]
      exact (h s List.mem_cons_self).andThen (ih fun t ht => h t (List.mem_cons_of_mem s ht))

/-! ### Runs without failure -/

/-- The stage leaves `q'` when it starts from `q`, and does not fail. -/
def Runs (s : Stage) (q q' : Sql.Query) : Prop :=
  s q = ⟨q', none⟩

theorem Runs.keeps (h : Runs s q q') (hs : Keeps P s) (hq : P q) : P q' := by
  have hs := hs q hq
  rwa [h] at hs

theorem Runs.unique {u : Sql.Query} (h : Runs s q q') (hu : Runs s q u) : q' = u :=
  congrArg Progress.query (h.symm.trans hu)

theorem runs_of_failure (h : (s q).failure = none) : Runs s q (s q).query := by
  rw [Runs]
  rw [← h]

theorem runs_skip : Runs Stage.skip q q' ↔ q' = q := by
  simp [Runs, Stage.skip, eq_comm]

theorem runs_change {f : Sql.Query → Sql.Query} : Runs (Stage.change f) q q' ↔ q' = f q := by
  simp [Runs, Stage.change, eq_comm]

theorem runs_step {f : Sql.Query → Except QueryError Sql.Query} :
    Runs (Stage.step f) q q' ↔ f q = .ok q' := by
  rw [Runs, Stage.step]
  split <;> simp [*]

/-- An addition runs if there is something to add. -/
theorem runs_add {α : Type} {item : Except QueryError α} {put : Sql.Query → α → Sql.Query} :
    Runs (Stage.add item put) q q' ↔ ∃ x, item = .ok x ∧ q' = put q x := by
  rw [Stage.add, runs_step]
  cases item with
  | error e => simp [Except.map]
  | ok x => simp [Except.map, eq_comm]

/-- The result of two stages is that of the second on the result of the first. -/
theorem result_andThen (a b : Stage) (q : Sql.Query) :
    (a.andThen b q).result = (a q).result >>= fun q => (b q).result := by
  rw [Stage.andThen]
  cases hfirst : a q with
  | mk query failure =>
      cases failure with
      | none => rfl
      | some e => rfl

/-- Two stages run if the first does, and the second on what it leaves. -/
theorem runs_andThen :
    Runs (Stage.andThen a b) q q' ↔ ∃ q₁, Runs a q q₁ ∧ Runs b q₁ q' := by
  simp only [Runs, Stage.andThen]
  obtain ⟨query, failure⟩ := a q
  cases failure with
  | none => simp
  | some e => simp

theorem runs_nil : Runs (Stage.all []) q q' ↔ q' = q :=
  runs_skip

theorem runs_cons :
    Runs (Stage.all (s :: ss)) q q' ↔ ∃ q₁, Runs s q q₁ ∧ Runs (Stage.all ss) q₁ q' := by
  rw [Stage.all_cons, runs_andThen]

/-- Stages run in two parts. -/
theorem runs_append {ts : List Stage} :
    Runs (Stage.all (ss ++ ts)) q q' ↔
      ∃ q₁, Runs (Stage.all ss) q q₁ ∧ Runs (Stage.all ts) q₁ q' := by
  induction ss generalizing q with
  | nil => simp [runs_nil]
  | cons s ss ih =>
      simp only [List.cons_append, runs_cons, ih]
      constructor
      · rintro ⟨q₁, hs, q₂, hss, hts⟩
        exact ⟨q₂, ⟨q₁, hs, hss⟩, hts⟩
      · rintro ⟨q₂, ⟨q₁, hs, hss⟩, hts⟩
        exact ⟨q₁, hs, q₂, hss, hts⟩

/-- A sequence that runs leaves a query with `P` when one of its stages makes `P`, from queries with
`I`, and all of them keep `P` and `I`. -/
theorem Runs.of_mem {I : Sql.Query → Prop} (h : Runs (Stage.all ss) q q') (hs : s ∈ ss)
    (hI : ∀ t ∈ ss, Keeps I t) (hP : ∀ t ∈ ss, Keeps P t) (hq : I q)
    (hmake : ∀ q₁ q₂, I q₁ → Runs s q₁ q₂ → P q₂) : P q' := by
  induction ss generalizing q with
  | nil => cases hs
  | cons t ss ih =>
      obtain ⟨q₁, hrun, hrest⟩ := runs_cons.mp h
      obtain ⟨hIt, hIss⟩ := List.forall_mem_cons.mp hI
      obtain ⟨-, hPss⟩ := List.forall_mem_cons.mp hP
      rcases List.mem_cons.mp hs with rfl | hs
      · exact hrest.keeps (Keeps.all hPss) (hmake q q₁ hq hrun)
      · exact ih hrest hs hIss hPss (hrun.keeps hIt hq)

/-- When each stage of a sequence, from queries with `I`, leaves `P` as it was or makes it under a
condition of its own, the sequence makes `P` exactly under one of these conditions. -/
theorem Runs.made_iff {α : Type} {I : Sql.Query → Prop} {run : α → Stage} {made : α → Prop}
    {xs : List α} (h : Runs (Stage.all (xs.map run)) q q') (hq : I q)
    (hmade : ∀ x ∈ xs, ∀ q q', I q → Runs (run x) q q' → I q' ∧ (P q' ↔ P q ∨ made x)) :
    I q' ∧ (P q' ↔ P q ∨ ∃ x ∈ xs, made x) := by
  induction xs generalizing q with
  | nil =>
      obtain rfl := runs_nil.mp h
      simpa using hq
  | cons x xs ih =>
      obtain ⟨q₁, hrun, hrest⟩ := runs_cons.mp h
      obtain ⟨hx, hxs⟩ := List.forall_mem_cons.mp hmade
      obtain ⟨hq₁, hP₁⟩ := hx q q₁ hq hrun
      obtain ⟨hq', hP'⟩ := ih hrest hq₁ hxs
      exact ⟨hq', by simp only [hP', hP₁, List.mem_cons, exists_eq_or_imp, or_assoc]⟩

/-! ### Stages that never fail -/

/-- The stage leaves a query from wherever it starts. -/
def Succeeds (s : Stage) : Prop :=
  ∀ q, ∃ q', Runs s q q'

theorem Succeeds.skip : Succeeds Stage.skip :=
  fun q => ⟨q, rfl⟩

theorem Succeeds.change (f : Sql.Query → Sql.Query) : Succeeds (Stage.change f) :=
  fun q => ⟨f q, rfl⟩

theorem Succeeds.step {f : Sql.Query → Except QueryError Sql.Query} (h : ∀ q, ∃ q', f q = .ok q') :
    Succeeds (Stage.step f) := by
  intro q
  obtain ⟨q', hq'⟩ := h q
  exact ⟨q', runs_step.mpr hq'⟩

theorem Succeeds.add {α : Type} {item : Except QueryError α} {put : Sql.Query → α → Sql.Query}
    (h : ∃ x, item = .ok x) : Succeeds (Stage.add item put) := by
  obtain ⟨x, hx⟩ := h
  exact fun q => ⟨put q x, runs_add.mpr ⟨x, hx, rfl⟩⟩

/-- Two stages succeed if each of them does. -/
theorem Succeeds.andThen (ha : Succeeds a) (hb : Succeeds b) : Succeeds (Stage.andThen a b) := by
  intro q
  obtain ⟨q₁, h₁⟩ := ha q
  obtain ⟨q₂, h₂⟩ := hb q₁
  exact ⟨q₂, runs_andThen.mpr ⟨q₁, h₁, h₂⟩⟩

/-- Stages succeed if each of them does. -/
theorem Succeeds.all (h : ∀ s ∈ ss, Succeeds s) : Succeeds (Stage.all ss) := by
  induction ss with
  | nil => exact Succeeds.skip
  | cons s ss ih =>
      rw [Stage.all_cons]
      exact (h s List.mem_cons_self).andThen (ih fun t ht => h t (List.mem_cons_of_mem s ht))

/-! ### Stages that add what does not depend on the query -/

section

variable {α β : Type} {item : α → Except QueryError β} {put : Sql.Query → β → Sql.Query}

theorem Succeeds.addEach (h : ∀ x, ∃ y, item x = .ok y) (xs : List α) :
    Succeeds (Stage.all (xs.map fun x => .add (item x) put)) := by
  refine Succeeds.all fun s hs => ?_
  obtain ⟨x, -, rfl⟩ := List.mem_map.mp hs
  exact Succeeds.add (h x)

/-- Additions of the same items lead from related queries to related ones, by induction on the items. -/
theorem Runs.alike {R : Sql.Query → Sql.Query → Prop} {xs : List α} {u u' : Sql.Query}
    (hput : ∀ q u y, R q u → R (put q y) (put u y))
    (hq : Runs (Stage.all (xs.map fun x => .add (item x) put)) q q')
    (hu : Runs (Stage.all (xs.map fun x => .add (item x) put)) u u') (h : R q u) : R q' u' := by
  induction xs generalizing q u with
  | nil =>
      obtain rfl := runs_nil.mp hq
      obtain rfl := runs_nil.mp hu
      exact h
  | cons x xs ih =>
      obtain ⟨q₁, hqx, hq⟩ := runs_cons.mp hq
      obtain ⟨u₁, hux, hu⟩ := runs_cons.mp hu
      obtain ⟨y, hy, rfl⟩ := runs_add.mp hqx
      obtain ⟨z, hz, rfl⟩ := runs_add.mp hux
      obtain rfl : y = z := Except.ok.inj (hy.symm.trans hz)
      exact ih hq hu (hput q u y h)

/-- An addition of what changes nothing is none. -/
theorem add_eq_skip {x : Except QueryError β} {y : β} (hx : x = .ok y) (hput : ∀ q, put q y = q) :
    Stage.add x put = Stage.skip := by
  funext q
  rw [hx, Stage.add, Stage.step, Except.map, hput, Stage.skip]

/-- A stage that does nothing can be left out. -/
theorem all_without {run : α → Stage} {before after : List α} {x : α} (h : run x = Stage.skip) :
    Stage.all ((before ++ x :: after).map run) = Stage.all ((before ++ after).map run) := by
  induction before with
  | nil => simp only [List.nil_append, List.map_cons, Stage.all_cons, h]; rfl
  | cons y before ih => simp only [List.cons_append, List.map_cons, Stage.all_cons, ih]

end

/-! ### Two stages -/

/-- From related queries the stages lead to related queries, and fail alike. -/
def Related (R : Sql.Query → Sql.Query → Prop) (s t : Stage) : Prop :=
  ∀ q u, R q u → (s q).failure = (t u).failure ∧ R (s q).query (t u).query

namespace Related

variable {R : Sql.Query → Sql.Query → Prop} {s t s' t' : Stage} {ss ts : List Stage}

theorem skip : Related R Stage.skip Stage.skip :=
  fun _ _ h => ⟨rfl, h⟩

theorem change {f g : Sql.Query → Sql.Query} (h : ∀ q u, R q u → R (f q) (g u)) :
    Related R (Stage.change f) (Stage.change g) :=
  fun q u hqu => ⟨rfl, h q u hqu⟩

theorem step {f g : Sql.Query → Except QueryError Sql.Query}
    (h : ∀ q u, R q u → Agree R (f q) (g u)) : Related R (Stage.step f) (Stage.step g) := by
  intro q u hqu
  have hsame := h q u hqu
  simp only [Stage.step]
  generalize f q = x at hsame
  generalize g u = y at hsame
  cases hsame with
  | ok h => exact ⟨rfl, h⟩
  | error e => exact ⟨rfl, hqu⟩

/-- Additions of related things lead from related queries to related ones. -/
theorem add {α β : Type} {S : α → β → Prop} {x : Except QueryError α} {y : Except QueryError β}
    {put : Sql.Query → α → Sql.Query} {put' : Sql.Query → β → Sql.Query} (h : Agree S x y)
    (hput : ∀ q u a b, R q u → S a b → R (put q a) (put' u b)) :
    Related R (Stage.add x put) (Stage.add y put') :=
  step fun q u hqu => h.map fun a b hab => hput q u a b hqu hab

/-- Related stages are related one after the other. -/
theorem andThen (h : Related R s t) (h' : Related R s' t') :
    Related R (s.andThen s') (t.andThen t') := by
  intro q u hqu
  obtain ⟨hfailure, hquery⟩ := h q u hqu
  simp only [Stage.andThen, hfailure]
  split
  · exact h' _ _ hquery
  · exact ⟨hfailure, hquery⟩

theorem all (h : List.Forall₂ (Related R) ss ts) : Related R (Stage.all ss) (Stage.all ts) := by
  induction h with
  | nil => exact skip
  | cons h _ ih => exact h.andThen ih

/-- Stages for related items are related if those for each of them are. -/
theorem all_map {α β : Type} {f : α → Stage} {g : β → Stage} {xs : List α} {ys : List β}
    (h : List.Forall₂ (fun x y => Related R (f x) (g y)) xs ys) :
    Related R (Stage.all (xs.map f)) (Stage.all (ys.map g)) :=
  all (List.forall₂_map_left_iff.mpr (List.forall₂_map_right_iff.mpr h))

/-- A sequence of stages that are related to themselves is related to itself. -/
theorem all_self (h : ∀ s ∈ ss, Related R s s) : Related R (Stage.all ss) (Stage.all ss) :=
  all (List.forall₂_same.mpr h)

/-- So is one that adds items that do not depend on the query. -/
theorem addEach {α β : Type} {item : α → Except QueryError β} {put : Sql.Query → β → Sql.Query}
    (hput : ∀ q u b, R q u → R (put q b) (put u b)) (xs : List α) :
    Related R (Stage.all (xs.map fun x => .add (item x) put))
      (Stage.all (xs.map fun x => .add (item x) put)) := by
  refine all_self fun s hs => ?_
  obtain ⟨x, -, rfl⟩ := List.mem_map.mp hs
  refine add (S := Eq) (.refl (fun _ => rfl) (item x)) ?_
  rintro q u b _ hqu rfl
  exact hput q u b hqu

/-- Related stages have related results, or fail alike. -/
theorem result {q u : Sql.Query} (h : Related R s t) (hqu : R q u) :
    Agree R (s q).result (t u).result := by
  obtain ⟨hfailure, hquery⟩ := h q u hqu
  simp only [Progress.result, hfailure]
  split
  · exact .ok hquery
  · exact .error _

end Related

end Stage

end ResourceQuery
