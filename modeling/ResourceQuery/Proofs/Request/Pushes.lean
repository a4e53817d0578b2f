import Mathlib.Data.List.Induction
import ResourceQuery.Proofs.Request.FilterTerms

/-!
# Request — what pushes leave in a filter

The clauses of a filter are those of the labels that were pushed, in the order in which the labels
first came.  Each is the clause of the pushes with its label alone, whatever came between them
(`pushed_clauses`).  This is what a push keeps when there is one clause for each label
(`Files.eq_map`).

* `keys_ofList`: the keys of typed entries also keep the order in which they first came.
* `values_union`: an equality admits the values of all that was pushed under its key.
* `pushes_merged`: what is found in the filter under each key.
-/

namespace ResourceQuery

namespace Filter

/-- The filter made by pushes, one after the other. -/
def pushed (ps : List Push) : Filter :=
  ps.foldl push {}

/-- The values pushed as equalities on a key. -/
def equalities (key : String) (ps : List Push) : List FilterValue :=
  ps.filterMap fun
    | .equality k value => if k = key then some value else none
    | .typed ..         => none

/-- The keys and values pushed under an operator. -/
def typedPairs (op : FilterOperator) (ps : List Push) : List (String × FilterValue) :=
  ps.filterMap fun
    | .equality ..       => none
    | .typed o key value => if o = op then some (key, value) else none

/-- The values pushed under an operator for a key. -/
def typedValues (op : FilterOperator) (key : String) (ps : List Push) : List FilterValue :=
  ps.filterMap fun
    | .equality ..     => none
    | .typed o k value => if o = op ∧ k = key then some value else none

end Filter

/-- One value as it is, and several as the list of all their values. -/
def FilterValue.union : List FilterValue → FilterValue
  | [v] => v
  | vs  => .many (vs.flatMap values)

/-- The clause of the pushes with a label. -/
def Filter.grouped (ps : List Push) : String ⊕ FilterOperator → FilterClause
  | .inl key => .equality key (.union (equalities key ps))
  | .inr op  => .typed op (Entries.ofList (typedPairs op ps))

/-! ### First occurrences -/

section

variable {α β : Type} [BEq α] [LawfulBEq α] {x : α} {xs : List α}

instance lawfulBEqSum [BEq β] [LawfulBEq β] : LawfulBEq (α ⊕ β) where
  rfl {s} := by
    cases s with
    | inl a => exact beq_self_eq_true a
    | inr b => exact beq_self_eq_true b
  eq_of_beq {s t} h := by
    cases s <;> cases t
    case inl.inl => exact congrArg _ (eq_of_beq h)
    case inr.inr => exact congrArg _ (eq_of_beq h)
    all_goals cases h

/-- A further item without duplicates is dropped if it is there before. -/
theorem eraseDups_concat :
    (xs ++ [x]).eraseDups = if x ∈ xs then xs.eraseDups else xs.eraseDups ++ [x] := by
  rw [List.eraseDups_append]
  by_cases h : x ∈ xs <;> simp [List.removeAll, List.eraseDups_cons, h]

/-- If only one item leads to something, that is what is found. -/
theorem findSome?_of_forall_ne {g : α → Option β} (h : ∀ y, y ≠ x → g y = none) :
    xs.findSome? g = if x ∈ xs then g x else none := by
  induction xs with
  | nil => rfl
  | cons y ys ih =>
      by_cases hy : y = x
      · subst hy
        rw [List.findSome?_cons, ih, if_pos List.mem_cons_self]
        cases g y with
        | some b => rfl
        | none => exact ite_self none
      · simp [h y hy, ih, Ne.symm hy]

end

/-! ### Entries and values -/

namespace Entries

variable {α : Type}

/-- A further pair is inserted into the entries of those before. -/
theorem ofList_concat (pairs : List (String × α)) (key : String) (value : α) :
    ofList (pairs ++ [(key, value)]) = insert key value (ofList pairs) := by
  rw [ofList, List.foldl_append]
  rfl

/-- The keys of entries are those of the pairs, each at its first place. -/
theorem keys_ofList (pairs : List (String × α)) :
    keys (ofList pairs) = (pairs.map Prod.fst).eraseDups := by
  induction pairs using List.reverseRecOn with
  | nil => rfl
  | append_singleton pairs e ih =>
      have hmem : e.1 ∈ keys (ofList pairs) ↔ e.1 ∈ pairs.map Prod.fst := by
        rw [ih, List.mem_eraseDups]
      rw [ofList_concat, List.map_append, List.map_singleton, eraseDups_concat, ← ih]
      split
      case isTrue h => exact keys_insert_of_mem e.2 (hmem.mpr h)
      case isFalse h => exact keys_insert_of_not_mem e.2 (mt hmem.mp h)

/-- Pairs leave entries if there are any. -/
theorem ofList_ne_nil {pairs : List (String × α)} (h : pairs ≠ []) : ofList pairs ≠ [] := by
  obtain ⟨e, he⟩ := List.exists_mem_of_ne_nil pairs h
  have hkey : e.1 ∈ keys (ofList pairs) := by
    rw [keys_ofList, List.mem_eraseDups]
    exact List.mem_map_of_mem he
  intro hnil
  rw [hnil] at hkey
  cases hkey

end Entries

namespace FilterValue

/-- The union of values has their values, one after the other. -/
theorem values_union (vs : List FilterValue) : (union vs).values = vs.flatMap values := by
  rw [union.eq_def]
  split
  case h_1 v => simp
  case h_2 => rfl

/-- A further value adds its values to a union. -/
theorem union_concat {vs : List FilterValue} (h : vs ≠ []) (v : FilterValue) :
    union (vs ++ [v]) = .many ((union vs).values ++ v.values) := by
  rw [values_union]
  cases vs with
  | nil => exact absurd rfl h
  | cons w ws => cases ws <;> simp [union]

end FilterValue

/-! ### Filing -/

section

variable {p : Push} {c : FilterClause} {cs cs' : List FilterClause}

theorem map_label {g : String ⊕ FilterOperator → FilterClause} (h : ∀ l, (g l).label = l)
    (ls : List (String ⊕ FilterOperator)) : (ls.map g).map FilterClause.label = ls := by
  rw [List.map_map]
  exact (List.map_congr_left fun l _ => h l).trans (List.map_id ls)

/-- A push onto one clause for each label changes the clause of its own label, or appends one. -/
theorem Files.eq_map {ls : List (String ⊕ FilterOperator)}
    {g g' : String ⊕ FilterOperator → FilterClause} (h : Files p (ls.map g) cs') (hls : ls.Nodup)
    (hlabel : ∀ l, (g l).label = l) (hother : ∀ l, l ≠ p.label → g' l = g l)
    (hagain : p.label ∈ ls → g' p.label = p.merge (g p.label))
    (hfirst : p.label ∉ ls → g' p.label = p.clause) :
    cs' = (if p.label ∈ ls then ls else ls ++ [p.label]).map g' := by
  have hsame {part : List (String ⊕ FilterOperator)} (hpart : p.label ∉ part) :
      part.map g = part.map g' :=
    List.map_congr_left fun l hl => (hother l fun e => hpart (e ▸ hl)).symm
  generalize hcs : ls.map g = cs at h
  cases h with
  | first cs new =>
      rw [← hcs, map_label hlabel] at new
      rw [if_neg new, List.map_append, List.map_singleton, hfirst new, ← hsame new, hcs]
  | again before c after same =>
      obtain ⟨earlier, rest, rfl, rfl, hrest⟩ := List.map_eq_append_iff.mp hcs
      obtain ⟨l, later, rfl, rfl, rfl⟩ := List.map_eq_cons_iff.mp hrest
      obtain rfl : l = p.label := (hlabel l).symm.trans same
      have hmem : p.label ∈ earlier ++ p.label :: later :=
        List.mem_append_right _ List.mem_cons_self
      obtain ⟨hnew, -⟩ := List.nodup_cons.mp (List.nodup_middle.mp hls)
      rw [List.mem_append, not_or] at hnew
      rw [if_pos hmem, List.map_append, List.map_cons, hagain hmem, hsame hnew.1, hsame hnew.2]

end

namespace Filter

variable {p : Push} {ps : List Push} {key : String} {op : FilterOperator}

/-! ### The pushes with a label -/

theorem label_grouped (ps : List Push) (l : String ⊕ FilterOperator) :
    (grouped ps l).label = l := by
  cases l <;> rfl

/-- There is a clause of equalities for a key that has been pushed with one. -/
theorem inl_mem_labels : .inl key ∈ ps.map Push.label ↔ equalities key ps ≠ [] := by
  rw [List.mem_map, equalities, ne_eq, List.filterMap_eq_nil_iff]
  push Not
  refine exists_congr fun p => and_congr_right fun _ => ?_
  cases p <;> simp [Push.label]

/-- There is a clause of an operator that has been pushed. -/
theorem inr_mem_labels : .inr op ∈ ps.map Push.label ↔ typedPairs op ps ≠ [] := by
  rw [List.mem_map, typedPairs, ne_eq, List.filterMap_eq_nil_iff]
  push Not
  refine exists_congr fun p => and_congr_right fun _ => ?_
  cases p <;> simp [Push.label]

/-- A push does not touch the clauses of other labels. -/
theorem grouped_concat_of_ne {l : String ⊕ FilterOperator} (h : l ≠ p.label) :
    grouped (ps ++ [p]) l = grouped ps l := by
  cases l with
  | inl key =>
      cases p with
      | equality k value =>
          have hk : k ≠ key := fun e => h (congrArg Sum.inl e.symm)
          simp [grouped, equalities, hk]
      | typed o k value => simp [grouped, equalities]
  | inr op =>
      cases p with
      | equality k value => simp [grouped, typedPairs]
      | typed o k value =>
          have ho : o ≠ op := fun e => h (congrArg Sum.inr e.symm)
          simp [grouped, typedPairs, ho]

/-- A push is merged into the clause of its label. -/
theorem grouped_concat_of_mem (h : p.label ∈ ps.map Push.label) :
    grouped (ps ++ [p]) p.label = p.merge (grouped ps p.label) := by
  cases p with
  | equality key value =>
      have hconcat : equalities key (ps ++ [.equality key value]) = equalities key ps ++ [value] := by
        simp [equalities]
      rw [Push.label, grouped, hconcat, FilterValue.union_concat (inl_mem_labels.mp h)]
      rfl
  | typed op key value =>
      have hconcat : typedPairs op (ps ++ [.typed op key value]) =
          typedPairs op ps ++ [(key, value)] := by
        simp [typedPairs]
      rw [Push.label, grouped, hconcat, Entries.ofList_concat]
      rfl

/-- The first push of a label makes its clause. -/
theorem grouped_concat_of_not_mem (h : p.label ∉ ps.map Push.label) :
    grouped (ps ++ [p]) p.label = p.clause := by
  cases p with
  | equality key value =>
      have hnone : equalities key ps = [] := not_not.mp (mt inl_mem_labels.mpr h)
      rw [equalities] at hnone
      simp [Push.label, Push.clause, grouped, equalities, hnone, FilterValue.union]
  | typed op key value =>
      have hnone : typedPairs op ps = [] := not_not.mp (mt inr_mem_labels.mpr h)
      rw [typedPairs] at hnone
      simp [Push.label, Push.clause, grouped, typedPairs, hnone, Entries.ofList, Entries.insert,
        Entries.update]

/-! ### The clauses -/

theorem pushed_concat (ps : List Push) (p : Push) : pushed (ps ++ [p]) = (pushed ps).push p := by
  rw [pushed, List.foldl_append]
  rfl

/-- Filters that have been pushed together are built. -/
theorem built_pushed (ps : List Push) : (pushed ps).Built := by
  induction ps using List.reverseRecOn with
  | nil => exact .empty
  | append_singleton ps p ih =>
      rw [pushed_concat]
      cases p with
      | equality key value => exact .equality key value ih
      | typed op key value => exact .typed op key value ih

/-- The clauses are those of the pushed labels, in the order in which the labels first came. -/
theorem pushed_clauses (ps : List Push) :
    (pushed ps).clauses = (ps.map Push.label).eraseDups.map (grouped ps) := by
  induction ps using List.reverseRecOn with
  | nil => rfl
  | append_singleton ps p ih =>
      -- `Files.eq_map` needs one clause for each label, and a filter made by pushes has that
      have hnodup : (ps.map Push.label).eraseDups.Nodup := by
        have hlabels := (built_pushed ps).distinct.labels
        rwa [ih, map_label (label_grouped ps)] at hlabels
      have hfiles : Files p ((ps.map Push.label).eraseDups.map (grouped ps))
          (pushed (ps ++ [p])).clauses := by
        rw [pushed_concat, ← ih]
        exact files_push (pushed ps) p
      rw [hfiles.eq_map hnodup (label_grouped ps) (fun l => grouped_concat_of_ne)
        (fun h => grouped_concat_of_mem (List.mem_eraseDups.mp h))
        (fun h => grouped_concat_of_not_mem (mt List.mem_eraseDups.mpr h))]
      rw [List.map_append, List.map_singleton, eraseDups_concat]
      simp only [List.mem_eraseDups]

/-- The clause of an operator holds what was pushed under the operator. -/
theorem typed_mem_pushed {entries : Entries FilterValue} :
    .typed op entries ∈ (pushed ps).clauses ↔
      typedPairs op ps ≠ [] ∧ entries = Entries.ofList (typedPairs op ps) := by
  rw [pushed_clauses, List.mem_map]
  constructor
  · rintro ⟨l, hl, hclause⟩
    cases l with
    | inl key => cases hclause
    | inr o =>
        cases hclause
        exact ⟨inr_mem_labels.mp (List.mem_eraseDups.mp hl), rfl⟩
  · rintro ⟨hpairs, rfl⟩
    exact ⟨.inr op, List.mem_eraseDups.mpr (inr_mem_labels.mpr hpairs), rfl⟩

/-! ### What is found -/

/-- What is asked to be equal under a key is the union of what has been pushed for it. -/
theorem equality?_pushed (ps : List Push) (key : String) :
    (pushed ps).equality? key =
      if equalities key ps = [] then none else some (.union (equalities key ps)) := by
  have hmem : .inl key ∈ (ps.map Push.label).eraseDups ↔ equalities key ps ≠ [] :=
    List.mem_eraseDups.trans inl_mem_labels
  rw [equality?, pushed_clauses, List.findSome?_map, findSome?_of_forall_ne (x := .inl key)]
  · by_cases h : equalities key ps = [] <;> simp [hmem, h, grouped]
  · rintro (k | o) hne
    · simpa [grouped] using hne
    · rfl

/-- The entries of an operator have the last value that has been pushed for a key. -/
theorem find?_typedPairs (ps : List Push) (op : FilterOperator) (key : String) :
    Entries.find? key (Entries.ofList (typedPairs op ps)) = (typedValues op key ps).getLast? := by
  induction ps using List.reverseRecOn with
  | nil => rfl
  | append_singleton ps p ih =>
      rw [typedPairs, typedValues, List.filterMap_append, List.filterMap_append, ← typedPairs,
        ← typedValues]
      cases p with
      | equality k value => simpa using ih
      | typed o k value =>
          by_cases ho : o = op
          · by_cases hk : k = key <;>
              simp [ho, hk, Entries.ofList_concat, Entries.find?_insert, ih]
          · simpa [ho] using ih

/-- What an operator says of a key is what has been pushed last for it. -/
theorem typed?_pushed (ps : List Push) (op : FilterOperator) (key : String) :
    (pushed ps).typed? op key = (typedValues op key ps).getLast? := by
  have hmem : .inr op ∈ (ps.map Push.label).eraseDups ↔ typedPairs op ps ≠ [] :=
    List.mem_eraseDups.trans inr_mem_labels
  rw [typed?, pushed_clauses, List.findSome?_map, findSome?_of_forall_ne (x := .inr op),
    ← find?_typedPairs]
  · by_cases h : typedPairs op ps = [] <;> simp [hmem, h, grouped, Entries.ofList]
  · rintro (k | o) hne
    · rfl
    · simp [grouped, mt (congrArg Sum.inr) hne]

/-- **What a sequence of pushes leaves.**  The labels of the clauses are those of the pushes, each
once and in the order in which they first came, and so are the keys of a typed clause, which is never
empty.  Under a key there is an equality if one was pushed: the pushed value itself if it is the only
one, else one that admits the values of all of them in order.  Under an operator and a key there is the
value that was pushed last. -/
theorem pushes_merged (ps : List Push) :
    ((pushed ps).clauses.map FilterClause.label).Nodup ∧
    (pushed ps).clauses.map FilterClause.label = (ps.map Push.label).eraseDups ∧
    (∀ op entries, .typed op entries ∈ (pushed ps).clauses →
      entries ≠ [] ∧ (Entries.keys entries).Nodup ∧
      Entries.keys entries = ((typedPairs op ps).map Prod.fst).eraseDups) ∧
    (∀ key, ((pushed ps).equality? key = none ↔ equalities key ps = []) ∧
      (∀ value, (pushed ps).equality? key = some value →
        value.values = (equalities key ps).flatMap FilterValue.values) ∧
      ∀ value, equalities key ps = [value] → (pushed ps).equality? key = some value) ∧
    ∀ op key, (pushed ps).typed? op key = (typedValues op key ps).getLast? := by
  refine ⟨(built_pushed ps).distinct.labels, ?labels, fun op entries hmem => ?entries,
    fun key => ⟨?absent, fun value hvalue => ?values, fun value hone => ?one⟩, typed?_pushed ps⟩
  case labels => rw [pushed_clauses, map_label (label_grouped ps)]
  case entries =>
    obtain ⟨hpairs, rfl⟩ := typed_mem_pushed.mp hmem
    exact ⟨Entries.ofList_ne_nil hpairs, (built_pushed ps).distinct.keys _ hmem,
      Entries.keys_ofList _⟩
  case absent =>
    rw [equality?_pushed]
    split
    case isTrue hnone => exact iff_of_true rfl hnone
    case isFalse hsome => exact iff_of_false (Option.some_ne_none _) hsome
  case values =>
    rw [equality?_pushed] at hvalue
    split at hvalue
    case isTrue => cases hvalue
    case isFalse =>
      cases hvalue
      exact FilterValue.values_union _
  case one =>
    rw [equality?_pushed, hone, if_neg (List.cons_ne_nil value [])]
    rfl

example : (pushed [.equality "title" (.single "a"), .typed .like "title" (.single "rust"),
    .equality "title" (.single "b,c")]).equality? "title" =
      some (.many [some "a", some "b", some "c"]) := by
  decide

end Filter

end ResourceQuery
