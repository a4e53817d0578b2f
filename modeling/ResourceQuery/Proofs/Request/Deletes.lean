import ResourceQuery.Proofs.Compile.Clauses
import ResourceQuery.Request.Params

/-!
# Request — a request without one of its entries

Deleting an entry under a key, be it an equality, a typed entry, a group or an order, takes away one
occurrence of the key among the keys of the request (`Params.Deletes.requestKeys`).  Of a filter it
takes away one term, and what the filter holds under other keys stays (`Filter.Deletes.terms`,
`Filter.Deletes.equality?`, `Filter.Deletes.typed?`).
-/

namespace ResourceQuery

namespace Filter

/-- The clauses without one entry under the key; a typed clause may go with its last entry. -/
inductive Deletes (key : String) : List FilterClause → List FilterClause → Prop where
  | equality (value : FilterValue) (cs : List FilterClause) :
      Deletes key (.equality key value :: cs) cs
  | entry (op : FilterOperator) (before after : Entries FilterValue) (value : FilterValue)
      (cs : List FilterClause) :
      Deletes key (.typed op (before ++ (key, value) :: after) :: cs)
        (.typed op (before ++ after) :: cs)
  | clause (op : FilterOperator) (value : FilterValue) (cs : List FilterClause) :
      Deletes key (.typed op [(key, value)] :: cs) cs
  | later (c : FilterClause) {cs cs' : List FilterClause} :
      Deletes key cs cs' → Deletes key (c :: cs) (c :: cs')

variable {key other : String} {cs cs' : List FilterClause}

/-- The keys of a filter are those of its terms, clause by clause. -/
theorem keys_eq_map_terms (f : Filter) : f.keys = f.terms.map FilterTerm.key := by
  rw [keys, terms, List.map_flatMap]
  congr 1
  funext c
  cases c with
  | equality key value => rfl
  | typed op entries =>
      rw [FilterClause.keys, FilterClause.terms, List.map_map, Entries.keys]
      rfl

/-- The terms are those of before without one under the key. -/
theorem Deletes.terms (h : Deletes key cs cs') : ∃ before term after, term.key = key ∧
    (Filter.mk cs).terms = before ++ term :: after ∧ (Filter.mk cs').terms = before ++ after := by
  induction h with
  | equality value cs => exact ⟨[], _, _, rfl, rfl, rfl⟩
  | entry op before after value cs =>
      refine ⟨(FilterClause.typed op before).terms, .typed op key value,
        (FilterClause.typed op after).terms ++ (Filter.mk cs).terms, rfl, ?_, ?_⟩
      · simp [Filter.terms, FilterClause.terms]
      · simp [Filter.terms, FilterClause.terms]
  | clause op value cs => exact ⟨[], _, _, rfl, rfl, rfl⟩
  | later c _ ih =>
      obtain ⟨before, term, after, hkey, hterms, hterms'⟩ := ih
      refine ⟨c.terms ++ before, term, after, hkey, ?_, ?_⟩
      · rw [List.append_assoc, ← hterms]
        rfl
      · rw [List.append_assoc, ← hterms']
        rfl

/-- The equality under another key is not deleted. -/
theorem Deletes.equality? (h : Deletes key cs cs') (hother : key ≠ other) :
    (Filter.mk cs).equality? other = (Filter.mk cs').equality? other := by
  induction h with
  | equality value cs => simp [Filter.equality?, hother]
  | entry op before after value cs => rfl
  | clause op value cs => rfl
  | later c _ ih =>
      simp only [Filter.equality?, List.findSome?_cons] at ih ⊢
      rw [ih]

/-- What an operator says of another key is not deleted. -/
theorem Deletes.typed? (h : Deletes key cs cs') (hother : key ≠ other) (op : FilterOperator) :
    (Filter.mk cs).typed? op other = (Filter.mk cs').typed? op other := by
  induction h with
  | equality value cs => rfl
  | entry o before after value cs =>
      simp only [Filter.typed?, List.findSome?_cons,
        Entries.find?_append_cons_of_ne hother value before after]
  | clause o value cs => simp [Filter.typed?, Entries.find?, hother]
  | later c _ ih =>
      simp only [Filter.typed?, List.findSome?_cons] at ih ⊢
      rw [ih]

end Filter

/-- The parameters without one entry of the filter, the groups or the orders under the key. -/
inductive Params.Deletes (key : String) (p : Params) : Params → Prop where
  | filter {clauses : List FilterClause} (h : Filter.Deletes key p.filter.clauses clauses) :
      Deletes key p { p with filter := ⟨clauses⟩ }
  | group (before after : List String) (h : p.group = before ++ key :: after) :
      Deletes key p { p with group := before ++ after }
  | sort (before after : List String) (entry : String) (hkey : (sortEntry entry).1 = key)
      (h : p.sort = before ++ entry :: after) :
      Deletes key p { p with sort := before ++ after }

theorem Params.Deletes.fields_eq {key : String} {p p' : Params} (h : p.Deletes key p') :
    p'.fields = p.fields := by
  cases h <;> rfl

theorem Params.Deletes.page_eq {key : String} {p p' : Params} (h : p.Deletes key p') :
    p'.page = p.page := by
  cases h <;> rfl

/-- A deletion takes one key out of those that a request depends on. -/
theorem Params.Deletes.requestKeys {key : String} {p p' : Params} (h : p.Deletes key p') :
    ∃ before after, requestKeys p.filter p.group p.sort = before ++ key :: after ∧
      ResourceQuery.requestKeys p'.filter p'.group p'.sort = before ++ after := by
  cases h with
  | filter h =>
      obtain ⟨before, term, after, hkey, hterms, hterms'⟩ := h.terms
      refine ⟨before.map FilterTerm.key,
        after.map FilterTerm.key ++ p.group ++ p.sort.map fun entry => (sortEntry entry).1, ?_, ?_⟩
      · have hterms : p.filter.terms = before ++ term :: after := hterms
        simp [ResourceQuery.requestKeys, Filter.keys_eq_map_terms, hterms, hkey]
      · simp [ResourceQuery.requestKeys, Filter.keys_eq_map_terms, hterms']
  | group before after h =>
      refine ⟨p.filter.keys ++ before, after ++ p.sort.map fun entry => (sortEntry entry).1, ?_, ?_⟩
      · simp [ResourceQuery.requestKeys, h]
      · simp [ResourceQuery.requestKeys]
  | sort before after entry hkey h =>
      refine ⟨p.filter.keys ++ p.group ++ before.map fun entry => (sortEntry entry).1,
        after.map fun entry => (sortEntry entry).1, ?_, ?_⟩
      · simp [ResourceQuery.requestKeys, h, hkey]
      · simp [ResourceQuery.requestKeys]

end ResourceQuery
