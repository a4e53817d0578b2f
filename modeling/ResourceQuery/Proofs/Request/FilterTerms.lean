import Mathlib.Data.List.Nodup
import ResourceQuery.Proofs.Compile.Clauses

/-!
# Request — each question of a filter is asked once

A filter is made by pushing equalities and typed entries (`Filter.Built`).  A push has a label, the key
of an equality or the operator of a typed entry.  It makes a clause of its own if no clause has its
label, or else it changes one that has it (`files_push`).  So no two clauses have the same label, no
clause has two entries of one key, and no two terms ask the same of the same key (`Built.nodup_tags`).

An equality is applied by its own term, or by the `like` on the same key into which it is folded;
either way by exactly one term (`Built.countP_applies`).
-/

namespace ResourceQuery

/-- What a clause is filed under: the key of an equality, or the operator of typed entries. -/
def FilterClause.label : FilterClause → String ⊕ FilterOperator
  | .equality key _ => .inl key
  | .typed op _     => .inr op

/-- What a term asks: the operator, if it is not an equality, and the key. -/
def FilterTerm.tag : FilterTerm → Option FilterOperator × String
  | .equality key _ => (none, key)
  | .typed op key _ => (some op, key)

/-- A push onto a filter. -/
inductive Push where
  | equality (key : String) (value : FilterValue)
  | typed (op : FilterOperator) (key : String) (value : FilterValue)

namespace Push

/-- What the push is filed under. -/
def label : Push → String ⊕ FilterOperator
  | .equality key _ => .inl key
  | .typed op _ _   => .inr op

/-- The clause that the push makes. -/
def clause : Push → FilterClause
  | .equality key value => .equality key value
  | .typed op key value => .typed op [(key, value)]

/-- What the push makes of a clause with its label. -/
def merge : Push → FilterClause → FilterClause
  | .equality _ value, .equality k old => .equality k (.many (old.values ++ value.values))
  | .typed _ key value, .typed o es    => .typed o (Entries.insert key value es)
  | _, c                               => c

end Push

/-- The push is filed in clauses: as a clause of its own, or in one that has its label. -/
inductive Files (p : Push) : List FilterClause → List FilterClause → Prop where
  | first (cs : List FilterClause) (new : p.label ∉ cs.map FilterClause.label) :
      Files p cs (cs ++ [p.clause])
  | again (before : List FilterClause) (c : FilterClause) (after : List FilterClause)
      (same : c.label = p.label) :
      Files p (before ++ c :: after) (before ++ p.merge c :: after)

namespace Filter

/-- The filter is made by pushes. -/
inductive Built : Filter → Prop where
  | empty : Built {}
  | equality {f : Filter} (key : String) (value : FilterValue) :
      Built f → Built (f.pushEquality key value)
  | typed {f : Filter} (op : FilterOperator) (key : String) (value : FilterValue) :
      Built f → Built (f.pushTyped op key value)

/-- No two clauses have the same label, and no clause has two entries of one key. -/
structure Distinct (clauses : List FilterClause) : Prop where
  labels : (clauses.map FilterClause.label).Nodup
  keys   : ∀ c ∈ clauses, c.keys.Nodup

/-- The filter after a push. -/
def push (f : Filter) : Push → Filter
  | .equality key value => f.pushEquality key value
  | .typed op key value => f.pushTyped op key value

end Filter

/-! ### What a push does -/

section

variable {p : Push} {c : FilterClause} {cs cs' : List FilterClause}

/-- A clause with another label stays in front. -/
theorem Files.cons (h : Files p cs cs') (hc : c.label ≠ p.label) : Files p (c :: cs) (c :: cs') := by
  cases h with
  | first cs new =>
      refine .first (c :: cs) ?_
      rw [List.map_cons, List.mem_cons, not_or]
      exact ⟨hc.symm, new⟩
  | again before d after same => exact .again (c :: before) d after same

/-- An equality is filed under its key. -/
theorem files_addEquality (key : String) (value : FilterValue) (cs : List FilterClause) :
    Files (.equality key value) cs (Filter.addEquality key value cs) := by
  induction cs with
  | nil => exact .first [] List.not_mem_nil
  | cons c cs ih =>
      cases c with
      | equality k old =>
          rw [Filter.addEquality]
          split
          case isTrue hk => exact .again [] (.equality k old) cs (congrArg _ hk)
          case isFalse hk => exact ih.cons fun h => hk (Sum.inl.inj h)
      | typed o es => exact ih.cons Sum.inr_ne_inl

/-- A clause of an operator is filed with those of the operator. -/
theorem files_addTyped (op : FilterOperator) (key : String) (value : FilterValue)
    (cs : List FilterClause) : Files (.typed op key value) cs (Filter.addTyped op key value cs) := by
  induction cs with
  | nil => exact .first [] List.not_mem_nil
  | cons c cs ih =>
      cases c with
      | equality k old => exact ih.cons Sum.inl_ne_inr
      | typed o es =>
          rw [Filter.addTyped]
          split
          case isTrue ho => exact .again [] (.typed o es) cs (congrArg _ ho)
          case isFalse ho => exact ih.cons fun h => ho (Sum.inr.inj h)

/-- A push files into one clause. -/
theorem files_push (f : Filter) (p : Push) : Files p f.clauses (f.push p).clauses := by
  cases p with
  | equality key value => exact files_addEquality key value f.clauses
  | typed op key value => exact files_addTyped op key value f.clauses

end

/-! ### Distinct clauses -/

namespace Push

variable {c : FilterClause}

theorem label_clause (p : Push) : p.clause.label = p.label := by
  cases p <;> rfl

theorem nodup_keys_clause (p : Push) : p.clause.keys.Nodup := by
  cases p <;> exact List.nodup_singleton _

theorem label_merge (p : Push) (c : FilterClause) : (p.merge c).label = c.label := by
  cases p <;> cases c <;> rfl

/-- A merge keeps the keys of a clause distinct. -/
theorem nodup_keys_merge (p : Push) (h : c.keys.Nodup) : (p.merge c).keys.Nodup := by
  cases p with
  | equality key value => cases c <;> exact h
  | typed op key value =>
      cases c with
      | equality k old => exact h
      | typed o es => exact Entries.nodup_keys_update _ h

end Push

namespace Filter

variable {key : String} {value : FilterValue} {op : FilterOperator}

/-- Filing a push keeps the clauses distinct. -/
theorem Distinct.files {p : Push} {cs cs' : List FilterClause} (h : Distinct cs)
    (hfiles : Files p cs cs') : Distinct cs' := by
  obtain ⟨hlabels, hkeys⟩ := h
  cases hfiles with
  | first cs new =>
      refine ⟨?_, List.forall_mem_append.mpr
        ⟨hkeys, List.forall_mem_singleton.mpr p.nodup_keys_clause⟩⟩
      rw [List.map_append, List.map_singleton, p.label_clause]
      simpa using hlabels.concat new
  | again before c after same =>
      rw [List.forall_mem_append, List.forall_mem_cons] at hkeys
      obtain ⟨hbefore, hc, hafter⟩ := hkeys
      refine ⟨?_, List.forall_mem_append.mpr
        ⟨hbefore, List.forall_mem_cons.mpr ⟨p.nodup_keys_merge hc, hafter⟩⟩⟩
      rwa [List.map_append, List.map_cons, p.label_merge, ← List.map_cons, ← List.map_append]

/-- The clauses of a built filter are distinct, by induction on how it has been built. -/
theorem Built.distinct {f : Filter} (h : f.Built) : Distinct f.clauses := by
  induction h with
  | empty => exact ⟨List.nodup_nil, nofun⟩
  | equality key value _ ih => exact ih.files (files_addEquality key value _)
  | typed op key value _ ih => exact ih.files (files_addTyped op key value _)

/-! ### Terms -/

/-- The label of a clause can be told from the tag of each of its terms. -/
theorem tag_of_mem_terms {c : FilterClause} {t : FilterTerm} (h : t ∈ c.terms) :
    c.label = (t.tag.1.map Sum.inr).getD (.inl t.tag.2) := by
  cases c with
  | equality key value =>
      obtain rfl := List.mem_singleton.mp h
      rfl
  | typed op es =>
      obtain ⟨entry, -, rfl⟩ := List.mem_map.mp h
      rfl

/-- The terms of a clause have distinct tags if its keys are distinct. -/
theorem nodup_tags_terms {c : FilterClause} (h : c.keys.Nodup) :
    (c.terms.map FilterTerm.tag).Nodup := by
  cases c with
  | equality key value => exact List.nodup_singleton _
  | typed op es =>
      have htags : (FilterClause.typed op es).terms.map FilterTerm.tag =
          (Entries.keys es).map (some op, ·) := by
        simp [FilterClause.terms, FilterTerm.tag, Entries.keys, Function.comp_def]
      rw [htags]
      exact h.map fun _ _ h => (Prod.mk.inj h).2

/-- No two terms of the filter ask the same of one key. -/
theorem Built.nodup_tags {f : Filter} (h : f.Built) : (f.terms.map FilterTerm.tag).Nodup := by
  obtain ⟨hlabels, hkeys⟩ := h.distinct
  rw [terms, List.map_flatMap, List.nodup_flatMap]
  refine ⟨fun c hc => nodup_tags_terms (hkeys c hc), ?_⟩
  refine (List.pairwise_map.mp hlabels).imp fun {c d} hne tag hc hd => hne ?_
  -- a tag tells the label of its clause
  obtain ⟨t, ht, rfl⟩ := List.mem_map.mp hc
  obtain ⟨u, hu, hsame⟩ := List.mem_map.mp hd
  rw [tag_of_mem_terms ht, tag_of_mem_terms hu, hsame]

/-! ### Which terms apply an equality -/

/-- The term applies the equality on a key: as the equality itself, unless there is a `like` on the
key, or as a `like` into which it is folded. -/
def applies (f : Filter) (key : String) : FilterTerm → Bool
  | .equality k _ => k = key && (f.typed? .like k).isNone
  | .typed op k _ => op = .like && k = key && (f.equality? k).isSome

theorem mem_tags {f : Filter} {tag : Option FilterOperator × String} :
    tag ∈ f.terms.map FilterTerm.tag ↔ ∃ c ∈ f.clauses, tag ∈ c.terms.map FilterTerm.tag := by
  rw [terms, List.map_flatMap, List.mem_flatMap]

/-- An operator says something of a key exactly if there is a term with both. -/
theorem typed?_isSome_iff {f : Filter} :
    (f.typed? op key).isSome ↔ (some op, key) ∈ f.terms.map FilterTerm.tag := by
  rw [typed?, List.findSome?_isSome_iff, mem_tags]
  refine exists_congr fun c => and_congr_right fun _ => ?_
  cases c with
  | equality k value => simp [FilterClause.terms, FilterTerm.tag]
  | typed o es =>
      by_cases ho : o = op
      · simp [FilterClause.terms, FilterTerm.tag, ho, Entries.find?_isSome_iff, Entries.keys]
      · simp [FilterClause.terms, FilterTerm.tag, ho]

/-- The value found under a key is that of its one equality. -/
theorem Built.equality?_eq {f : Filter} (h : f.Built) (hmem : .equality key value ∈ f.clauses) :
    f.equality? key = some value := by
  have hlabels := h.distinct.labels
  rw [equality?]
  generalize f.clauses = clauses at hmem hlabels ⊢
  induction clauses with
  | nil => cases hmem
  | cons c cs ih =>
      obtain ⟨hfirst, hrest⟩ := List.nodup_cons.mp hlabels
      rcases List.mem_cons.mp hmem with rfl | hin
      · simp
      · have hother : c.label ≠ .inl key :=
          fun e => hfirst (e ▸ List.mem_map.mpr ⟨_, hin, rfl⟩)
        cases c with
        | equality k v =>
            have hk : k ≠ key := fun e => hother (e ▸ rfl)
            simpa [hk] using ih hin hrest
        | typed op es => simpa using ih hin hrest

/-- An equality of a filter is applied by exactly one term. -/
theorem Built.countP_applies {f : Filter} (h : f.Built) (hmem : .equality key value ∈ f.clauses) :
    f.terms.countP (f.applies key) = 1 := by
  have htag : (none, key) ∈ f.terms.map FilterTerm.tag :=
    mem_tags.mpr ⟨_, hmem, List.mem_singleton.mpr rfl⟩
  have hequality : (f.equality? key).isSome := by rw [h.equality?_eq hmem]; rfl
  -- the one term is told by its tag
  have hcount {tag : Option FilterOperator × String} (hmem : tag ∈ f.terms.map FilterTerm.tag)
      (happly : ∀ t ∈ f.terms, f.applies key t = true ↔ t.tag = tag) :
      f.terms.countP (f.applies key) = 1 := by
    rw [← List.count_eq_one_of_mem h.nodup_tags hmem, List.count, List.countP_map]
    exact List.countP_congr fun t ht => by simpa using happly t ht
  by_cases hlike : (f.typed? .like key).isSome
  · refine hcount (typed?_isSome_iff.mp hlike) fun t ht => ?_
    cases t with
    | equality k v =>
        have hfolded : k = key → ¬ (f.typed? .like k).isNone := by
          rintro rfl
          simpa [Option.isSome_iff_ne_none] using hlike
        simpa [applies, FilterTerm.tag] using hfolded
    | typed op k v =>
        have hsome : k = key → (f.equality? k).isSome := by
          rintro rfl
          exact hequality
        simpa [applies, FilterTerm.tag] using fun _ => hsome
  · refine hcount htag fun t ht => ?_
    cases t with
    | equality k v =>
        have hnone : k = key → (f.typed? .like k).isNone := by
          rintro rfl
          simpa using hlike
        simpa [applies, FilterTerm.tag] using hnone
    | typed op k v =>
        have hother : op = .like → k ≠ key := by
          rintro rfl rfl
          exact hlike (typed?_isSome_iff.mpr (List.mem_map.mpr ⟨_, ht, rfl⟩))
        simpa [applies, FilterTerm.tag] using fun hop hk => absurd hk (hother hop)

end Filter

end ResourceQuery
