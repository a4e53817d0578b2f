import Mathlib.Data.List.Induction
import ResourceQuery.Proofs.Request.Plain

/-!
# Request — the two decoders agree

The parameters of a query string are applied one after the other, whereas a tree is read field by
field.  Along the entries of a plain request, what has been gathered at any point is what the entries
up to there ask for (`step_spelled`).  So the query string of a plain request is read, and it is read
as the tree is (`Params.decoders_agree`).
-/

namespace ResourceQuery

namespace QueryString

/-! ### Single keys -/

variable {key : String}

/-- The parameters that are lists are read as the items of their texts. -/
theorem ofPair_items (value : String) :
    Parameter.ofPair (keyOf "include" []) value = .ok (some (.includes (Text.commaList value))) ∧
    Parameter.ofPair (keyOf "sort" []) value = .ok (some (.sort (Text.commaList value))) ∧
    Parameter.ofPair (keyOf "group" []) value = .ok (some (.group (Text.commaList value))) :=
  ⟨rfl, rfl, rfl⟩

/-- A fieldset is read under its key. -/
theorem ofPair_fields (h : ']' ∉ key.toList) (value : String) :
    Parameter.ofPair (keyOf "fields" [key]) value =
      .ok (some (.fields key (Text.commaList value))) := by
  rw [Parameter.ofPair, splitKey_keyOf (by decide) (List.forall_mem_singleton.mpr h)]
  simp

/-- A key of its own in brackets is an equality. -/
theorem ofPair_equality (h : ']' ∉ key.toList) (value : String) :
    Parameter.ofPair (keyOf "filter" [key]) value =
      .ok (some (.equality key (filterValue value))) := by
  rw [Parameter.ofPair, splitKey_keyOf (by decide) (List.forall_mem_singleton.mpr h)]
  simp

/-- A key behind an operator in brackets is a clause of that operator, if there is one of that name. -/
theorem ofPair_typed {operator : String} (hop : ']' ∉ operator.toList) (h : ']' ∉ key.toList)
    (value : String) :
    Parameter.ofPair (keyOf "filter" [operator, key]) value =
      .ok ((FilterOperator.ofName? operator).map fun op => .typed op key (filterValue value)) := by
  rw [Parameter.ofPair, splitKey_keyOf (by decide)
    (List.forall_mem_cons.mpr ⟨hop, List.forall_mem_singleton.mpr h⟩)]
  simp

/-- A part of the page with a number is that part, if there is one of that name. -/
theorem ofPair_page (h : ']' ∉ key.toList) {value : String} {n : UInt64}
    (hn : Text.word? (Text.trimChars value.toList) = some n) :
    Parameter.ofPair (keyOf "page" [key]) value =
      .ok ((PagePart.ofName? key).map fun part => .page part n) := by
  rw [Parameter.ofPair, splitKey_keyOf (by decide) (List.forall_mem_singleton.mpr h)]
  simp [hn]

/-! ### Parameters -/

variable {entries : Entries Document}

/-- The parameters of an entry of a filter. -/
def filterParameters (e : String × Document) : List Parameter :=
  match e.2.filterEntry with
  | .value value    => [.equality e.1 value]
  | .nested entries =>
    match FilterOperator.ofName? e.1 with
    | some op => entries.map fun (key, value) => .typed op key value
    | none    => []

/-- The parameters of an entry of a page. -/
def pageParameters (e : String × Document) : List Parameter :=
  ((PagePart.ofName? e.1).bind fun part => e.2.word?.map fun n => .page part n).toList

/-- The parameters of fieldsets, one for each. -/
theorem parameters_fields (keys : PlainKeys entries) (texts : ∀ e ∈ entries, ∃ s, e.2 = .text s) :
    parameters ((Document.map entries).pairsUnder "fields" []) =
      .ok (entries.flatMap fun e => [.fields e.1 e.2.items]) :=
  parameters_entryPairs fun e he => by
    obtain ⟨s, hs⟩ := texts e he
    rw [hs]
    exact parameters_singleton (ofPair_fields (keys.brackets e he) s)

/-- The parameters of an entry of the filter, which is a value or a map behind an operator. -/
theorem parameters_filterEntry {key : String} (hkey : ']' ∉ key.toList) {d : Document}
    (h : IsFilterEntry d) :
    parameters (d.pairsUnder "filter" [key]) = .ok (filterParameters (key, d)) := by
  cases h with
  | scalar h =>
      rw [Document.pairsUnder_leaf h.ne_map, filterParameters, h.filterEntry_eq]
      exact parameters_singleton (ofPair_equality hkey d.leafText)
  | @nested entries keys scalars =>
      have hentries : ∀ e ∈ entries, parameters (e.2.pairsUnder "filter" ([key] ++ [e.1])) =
          .ok ((FilterOperator.ofName? key).map fun op =>
            Parameter.typed op e.1 e.2.filterValue).toList := fun e he => by
        rw [Document.pairsUnder_leaf (scalars e he).ne_map]
        exact parameters_singleton (ofPair_typed hkey (keys.brackets e he) e.2.leafText)
      refine (parameters_entryPairs hentries).trans (congrArg Except.ok ?_)
      rw [filterParameters, Document.filterEntry]
      cases FilterOperator.ofName? key with
      | none => simp
      | some op => simp [← List.map_eq_flatMap, Function.comp_def]

/-- The parameters of a filter are those of its entries. -/
theorem parameters_filter (keys : PlainKeys entries) (values : ∀ e ∈ entries, IsFilterEntry e.2) :
    parameters ((Document.map entries).pairsUnder "filter" []) =
      .ok (entries.flatMap filterParameters) :=
  parameters_entryPairs fun e he => parameters_filterEntry (keys.brackets e he) (values e he)

/-- The parameters of a page are those of its parts. -/
theorem parameters_page
    (kind : IsPage "size" "number" entries ∨ IsPage "limit" "offset" entries) :
    parameters ((Document.map entries).pairsUnder "page" []) =
      .ok (entries.flatMap pageParameters) :=
  parameters_entryPairs fun e he => by
    obtain ⟨n, hn⟩ : ∃ n, e.2.word? = some n := kind.elim (·.words e he) (·.words e he)
    have hkey : ']' ∉ e.1.toList := by
      rcases kind with h | h <;> rcases h.known e he with hname | hname <;> rw [hname] <;> decide
    have hleaf : ∀ parts, e.2 ≠ .map parts := fun parts hmap => by
      rw [hmap] at hn
      cases hn
    rw [Document.pairsUnder_leaf hleaf, pageParameters, hn]
    refine (parameters_singleton (ofPair_page hkey (Document.word?_leafText hn))).trans ?_
    cases PagePart.ofName? e.1 <;> rfl

/-! ### What is gathered -/

/-- Parameters that change one part of what is gathered, and that part alone. -/
theorem foldl_apply {σ α : Type} (embed : σ → Params × PageParts) {read : α → List Parameter}
    {g : σ → α → σ} (h : ∀ s a, (read a).foldl Parameter.apply (embed s) = embed (g s a))
    (as : List α) (s : σ) :
    (as.flatMap read).foldl Parameter.apply (embed s) = embed (as.foldl g s) := by
  rw [List.foldl_flatMap]
  exact List.foldl_hom embed h

/-- Fieldsets are taken over one by one. -/
theorem foldl_fields (sets : Entries Document) (p : Params) (parts : PageParts) :
    (sets.flatMap fun e => [Parameter.fields e.1 e.2.items]).foldl Parameter.apply (p, parts) =
      let add fields (e : String × Document) :=
        Entries.update e.1 (fun old => old.getD [] ++ e.2.items) fields
      ({ p with fields := sets.foldl add p.fields }, parts) :=
  foldl_apply (fun fields => ({ p with fields := fields }, parts)) (fun _ _ => rfl) sets p.fields

/-- The parameters of an entry of the filter are pushed as the entry is. -/
theorem foldl_filterParameters (e : String × Document) (p : Params) (parts : PageParts) :
    (filterParameters e).foldl Parameter.apply (p, parts) =
      ({ p with filter := p.filter.pushEntry e.1 e.2.filterEntry }, parts) := by
  rw [filterParameters]
  cases e.2.filterEntry with
  | value value => rfl
  | nested entries =>
      cases hop : FilterOperator.ofName? e.1 with
      | none => simp [Filter.pushEntry, hop]
      | some op =>
          simp only [Filter.pushEntry, hop, List.foldl_map]
          exact List.foldl_hom (fun filter => (({ p with filter := filter } : Params), parts))
            fun _ _ => rfl

/-- The parameters of a filter are pushed as its entries are. -/
theorem foldl_filter (filters : Entries Document) (p : Params) (parts : PageParts) :
    (filters.flatMap filterParameters).foldl Parameter.apply (p, parts) =
      let push (f : Filter) (e : String × Document) := f.pushEntry e.1 e.2.filterEntry
      ({ p with filter := filters.foldl push p.filter }, parts) :=
  foldl_apply (fun filter => ({ p with filter := filter }, parts))
    (fun filter e => foldl_filterParameters e { p with filter := filter } parts) filters p.filter

/-- A further part of a page takes its place among those before. -/
theorem pageParts_concat {done : Entries Document} {name : String} {d : Document} {n : UInt64}
    (hname : name ∉ Entries.keys done) (hn : d.word? = some n) :
    pageParts (done ++ [(name, d)]) =
      (PagePart.ofName? name).elim (pageParts done) fun part => (pageParts done).set part n := by
  unfold PagePart.ofName?
  split
  case h_5 hsize hnumber hlimit hoffset =>
    simp [pageParts, Entries.find?_concat _ hname, if_neg hsize, if_neg hnumber, if_neg hlimit,
      if_neg hoffset]
  all_goals simp [pageParts, Entries.find?_concat _ hname, PageParts.set, hn]

/-- The numbers of a page are gathered as they are found under their names. -/
theorem foldl_page {parts : Entries Document} (p : Params) (hkeys : (Entries.keys parts).Nodup)
    (hwords : ∀ e ∈ parts, ∃ n, e.2.word? = some n) :
    (parts.flatMap pageParameters).foldl Parameter.apply (p, {}) = (p, pageParts parts) := by
  induction parts using List.reverseRecOn with
  | nil => rfl
  | append_singleton done e ih =>
      obtain ⟨name, d⟩ := e
      obtain ⟨hdone, hname⟩ := Entries.nodup_concat_iff.mp hkeys
      obtain ⟨n, hn⟩ : ∃ n, d.word? = some n := hwords _ (List.mem_append_right _ List.mem_cons_self)
      rw [List.flatMap_append, List.foldl_append,
        ih hdone fun e he => hwords e (List.mem_append_left _ he), List.flatMap_singleton,
        pageParameters, hn, pageParts_concat hname hn]
      cases PagePart.ofName? name <;> rfl

/-! ### The request as a whole -/

/-- One more parameter adds to what is gathered what its entry asks for. -/
theorem step_spelled {done : Entries Document} {name : String} {d : Document}
    (hname : name ∉ Entries.keys done) (h : IsParam name d) :
    ∃ params, parameters (d.pairsUnder name []) = .ok params ∧
      params.foldl Parameter.apply (spelled done) = spelled (done ++ [(name, d)]) := by
  have hnew : Entries.find? name done = none := Entries.find?_eq_none_iff.mpr hname
  -- The part of the name is still empty, so adding to it and reading it at once come to the same.
  cases h with
  | includes s =>
      refine ⟨[.includes (Text.commaList s)], parameters_singleton (ofPair_items s).1, ?_⟩
      simp [spelled, Entries.find?_concat _ hname, hnew, Parameter.apply, Params.addInclude,
        Document.items]
  | sort s =>
      refine ⟨[.sort (Text.commaList s)], parameters_singleton (ofPair_items s).2.1, ?_⟩
      simp [spelled, Entries.find?_concat _ hname, hnew, Parameter.apply, Params.addSort,
        Document.items]
  | group s =>
      refine ⟨[.group (Text.commaList s)], parameters_singleton (ofPair_items s).2.2, ?_⟩
      simp [spelled, Entries.find?_concat _ hname, hnew, Parameter.apply, Params.addGroup,
        Document.items]
  | @fields sets keys texts =>
      have hsets := Entries.foldl_update_of_nodup
        (fun (d : Document) (old : Option (List String)) => old.getD [] ++ d.items) keys.nodup
      refine ⟨_, parameters_fields keys texts, ?_⟩
      rw [spelled, foldl_fields]
      simp [spelled, Entries.find?_concat _ hname, hnew, Document.fieldsets, hsets]
  | @filter filters keys values =>
      refine ⟨_, parameters_filter keys values, ?_⟩
      rw [spelled, foldl_filter]
      simp [spelled, Entries.find?_concat _ hname, hnew, Document.filter]
  | @page parts kind =>
      refine ⟨_, parameters_page kind, ?_⟩
      rw [spelled, hnew, Option.elim_none,
        foldl_page _ (kind.elim (·.nodup) (·.nodup)) (kind.elim (·.words) (·.words))]
      simp [spelled, Entries.find?_concat _ hname]
  | unknown d h =>
      refine ⟨[], parameters_of_stem h [] d, ?_⟩
      have hother := not_mem_of_stem h
      simp only [parameterNames, List.mem_cons, List.not_mem_nil, or_false, not_or] at hother
      simp [spelled, Entries.find?_concat _ hname, hother]

/-- Reading the pairs of a plain request gathers what it asks for. -/
theorem parameters_queryPairs {entries : Entries Document} (h : IsPlain entries) :
    ∃ params, parameters (Document.map entries).queryPairs = .ok params ∧
      params.foldl Parameter.apply ({}, {}) = spelled entries := by
  -- From the end: the last entry meets what all the entries before it have gathered.
  induction entries using List.reverseRecOn with
  | nil => exact ⟨[], rfl, rfl⟩
  | append_singleton done e ih =>
      obtain ⟨name, d⟩ := e
      obtain ⟨hdone, hname⟩ := Entries.nodup_concat_iff.mp h.nodup
      have hplain : IsPlain done := ⟨hdone, fun e he => h.params e (List.mem_append_left _ he)⟩
      have hparam : IsParam name d := h.params _ (List.mem_append_right _ List.mem_cons_self)
      obtain ⟨before, hbefore, hgathered⟩ := ih hplain
      obtain ⟨params, hparams, hstep⟩ := step_spelled hname hparam
      refine ⟨before ++ params, ?_, ?_⟩
      · rw [Document.queryPairs, List.flatMap_append, List.flatMap_singleton]
        exact parameters_append hbefore hparams
      · rw [List.foldl_append, hgathered, hstep]

end QueryString

namespace Params

/-- The query string of a plain request is read, and it is read as the tree is; so is every other
query string with the same pairs. -/
theorem decoders_agree {entries : Entries Document} (h : IsPlain entries) :
    ∃ p, ofDocument? .json (.map entries) = some p ∧
      ofQueryString (QueryString.encode (Document.map entries).queryPairs) = .ok p ∧
      ∀ query, QueryString.pairs query = (Document.map entries).queryPairs →
        ofQueryString query = .ok p := by
  obtain ⟨page, hpage, htree⟩ := h.ofDocument?_eq
  obtain ⟨params, hparams, hgathered⟩ := QueryString.parameters_queryPairs h
  have hquery (query : String) (hpairs : QueryString.pairs query = (Document.map entries).queryPairs) :
      ofQueryString query = .ok { (spelled entries).1 with page := page } := by
    rw [ofQueryString, hpairs]
    refine bind_eq_ok.mpr ⟨params, hparams, ?_⟩
    rw [hgathered]
    exact bind_pure_eq_ok.mpr ⟨page, hpage, rfl⟩
  exact ⟨_, htree, hquery _ (QueryString.pairs_encode _), hquery⟩

/-- A request with a bracket within a key, a null, an operator and a number in a text. -/
def search : Entries Document :=
  [("include", .text "author"), ("fields", .map [("a[b", .text "title")]),
   ("filter", .map [("note", .null), ("like", .map [("title", .text "a b")])]),
   ("page", .map [("size", .text " 9 ")])]

/-- The search is a plain document. -/
theorem search_isPlain : IsPlain search where
  nodup  := by decide
  params := by
    have hlike : IsFilterEntry (.map [("title", .text "a b")]) :=
      .nested ⟨by decide, by decide⟩ (List.forall_mem_singleton.mpr (.text (by decide)))
    simp only [search, List.forall_mem_cons]
    refine ⟨.includes _, .fields ⟨by decide, by decide⟩ ?_, .filter ⟨by decide, by decide⟩ ?_,
      .page (.inl ⟨by decide, by decide, by decide, ?_⟩), nofun⟩
    · exact List.forall_mem_singleton.mpr ⟨_, rfl⟩
    · exact List.forall_mem_cons.mpr ⟨.scalar .null, List.forall_mem_singleton.mpr hlike⟩
    · exact List.forall_mem_singleton.mpr ⟨9, by decide⟩

/-- A search is read alike as a document and as a query string. -/
theorem search_decoded :
    IsPlain search ∧ ∃ p, ofDocument? .json (.map search) = some p ∧
      ofQueryString ("?include=author&fields[a%5Bb]=title&filter[note]=null" ++
        "&filter[like][title]=a+b&page[size]=+9+") = .ok p := by
  refine ⟨search_isPlain, ?_⟩
  obtain ⟨p, htree, -, hquery⟩ := decoders_agree search_isPlain
  exact ⟨p, htree, hquery _ (by decide +kernel)⟩

end Params

end ResourceQuery
