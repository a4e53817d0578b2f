import Mathlib.Data.List.Nodup
import ResourceQuery.Proofs.Request.Spelling

/-!
# Request — parameters that a query string can carry

A request is plain when every parameter has a shape that a query string can carry (`IsParam`): comma
lists in one text, fieldsets and filters under keys that can stand in brackets, a page of one kind.
What a plain request asks for is said field by field (`spelled`).

* `IsFilterEntry.ofDocument?_eq`, `page_of_isPage`: parts of a plain request are read.
* `IsPlain.ofDocument?_eq`: reading the tree of a plain request gives what it asks for.
-/

namespace ResourceQuery

/-! ### Shapes -/

/-- The keys are distinct, and each can stand in brackets. -/
structure PlainKeys (entries : Entries Document) : Prop where
  nodup    : (Entries.keys entries).Nodup
  brackets : ∀ e ∈ entries, ']' ∉ e.1.toList

/-- A scalar of a filter; not the text `null`, which is the null in a query string. -/
inductive IsScalar : Document → Prop where
  | null : IsScalar .null
  | bool (b : Bool) : IsScalar (.bool b)
  | int (n : Int) : IsScalar (.int n)
  | text {s : String} (h : s ≠ "null") : IsScalar (.text s)

/-- A scalar, or scalars one level down. -/
inductive IsFilterEntry : Document → Prop where
  | scalar {d : Document} (h : IsScalar d) : IsFilterEntry d
  | nested {entries : Entries Document} (keys : PlainKeys entries)
      (scalars : ∀ e ∈ entries, IsScalar e.2) : IsFilterEntry (.map entries)

/-- Two numbers, of which the second may be missing, in any order. -/
structure IsPage (required optional : String) (entries : Entries Document) : Prop where
  nodup   : (Entries.keys entries).Nodup
  present : required ∈ Entries.keys entries
  known   : ∀ e ∈ entries, e.1 = required ∨ e.1 = optional
  words   : ∀ e ∈ entries, ∃ n, e.2.word? = some n

/-- An entry of a request; entries that are no parameters may hold anything. -/
inductive IsParam : String → Document → Prop where
  | includes (s : String) : IsParam "include" (.text s)
  | sort (s : String) : IsParam "sort" (.text s)
  | group (s : String) : IsParam "group" (.text s)
  | fields {entries : Entries Document} (keys : PlainKeys entries)
      (texts : ∀ e ∈ entries, ∃ s, e.2 = .text s) : IsParam "fields" (.map entries)
  | filter {entries : Entries Document} (keys : PlainKeys entries)
      (values : ∀ e ∈ entries, IsFilterEntry e.2) : IsParam "filter" (.map entries)
  | page {entries : Entries Document}
      (kind : IsPage "size" "number" entries ∨ IsPage "limit" "offset" entries) :
      IsParam "page" (.map entries)
  | unknown {name : String} (d : Document)
      (h : String.ofList (QueryString.stem name.toList) ∉ QueryString.parameterNames) :
      IsParam name d

/-- The entries of a request whose parameters a query string can carry. -/
structure IsPlain (entries : Entries Document) : Prop where
  nodup  : (Entries.keys entries).Nodup
  params : ∀ e ∈ entries, IsParam e.1 e.2

/-! ### What is asked for -/

namespace Document

/-- The items of a comma list. -/
def items : Document → List String
  | .text s => Text.commaList s
  | _       => []

/-- The comma lists of a map. -/
def fieldsets : Document → Entries (List String)
  | .map entries => entries.map fun e => (e.1, e.2.items)
  | _            => []

/-- The filter value of a scalar. -/
def filterValue (d : Document) : FilterValue :=
  QueryString.filterValue d.leafText

/-- The entry of a filter. -/
def filterEntry : Document → FilterEntry
  | .map entries => .nested (entries.map fun e => (e.1, e.2.filterValue))
  | d            => .value d.filterValue

/-- The entries of a map as a filter. -/
def filter : Document → Filter
  | .map entries => entries.foldl (fun f e => f.pushEntry e.1 e.2.filterEntry) {}
  | _            => {}

end Document

/-- The numbers of a page. -/
def pageParts (entries : Entries Document) : QueryString.PageParts where
  size   := (Entries.find? "size" entries).bind Document.word?
  number := (Entries.find? "number" entries).bind Document.word?
  limit  := (Entries.find? "limit" entries).bind Document.word?
  offset := (Entries.find? "offset" entries).bind Document.word?

/-- The parameters and the numbers of the page that the entries of a request ask for. -/
def spelled (entries : Entries Document) : Params × QueryString.PageParts :=
  ({ includes := (Entries.find? "include" entries).elim [] Document.items
     fields   := (Entries.find? "fields" entries).elim [] Document.fieldsets
     sort     := (Entries.find? "sort" entries).elim [] Document.items
     filter   := (Entries.find? "filter" entries).elim {} Document.filter
     group    := (Entries.find? "group" entries).elim [] Document.items },
   (Entries.find? "page" entries).elim {} fun
     | .map parts => pageParts parts
     | _          => {})

/-! ### Reading the tree -/

namespace Document

variable {α : Type} {entries : Entries Document}

/-- The fields of a map with distinct keys are what is found under their names. -/
theorem fields?_json (h : (Entries.keys entries).Nodup) (names : List String) (least : Nat) :
    (Document.map entries).fields? .json names least =
      some (names.map fun name => Entries.find? name entries) := by
  have honce : names.all (fun name => (Entries.keys entries).count name ≤ 1) = true :=
    List.all_eq_true.mpr fun name _ => decide_eq_true (List.nodup_iff_count_le_one.mp h name)
  rw [fields?, honce]
  rfl

theorem required?_eq_bind (value? : Document → Option α) (o : Option Document) :
    required? value? o = o.bind value? := by
  cases o <;> rfl

/-- A map with distinct keys is read entry by entry. -/
theorem mapOf?_of_forall {item? : Document → Option α} {value : Document → α}
    (hkeys : (Entries.keys entries).Nodup) (h : ∀ e ∈ entries, item? e.2 = some (value e.2)) :
    (Document.map entries).mapOf? item? = some (entries.map fun e => (e.1, value e.2)) := by
  have hitems : entries.mapM (fun e => (item? e.2).map fun v => (e.1, v)) =
      some (entries.map fun e => (e.1, value e.2)) := by
    clear hkeys
    induction entries with
    | nil => rfl
    | cons e entries ih =>
        obtain ⟨he, hentries⟩ := List.forall_mem_cons.mp h
        simp [List.mapM_cons, he, ih hentries]
  have hsame : Entries.keys (entries.map fun e => (e.1, value e.2)) = Entries.keys entries := by
    simp [Entries.keys, Function.comp_def]
  rw [mapOf?, hitems, Option.map_some, Entries.ofList_of_nodup (by rwa [hsame])]

/-- A property of the leaves of all entries holds of the entries. -/
theorem allEntries_of_forall {p : Document → Bool} (h : ∀ e ∈ entries, e.2.allLeaves p = true) :
    allEntries p entries = true := by
  induction entries with
  | nil => rfl
  | cons e entries ih =>
      obtain ⟨he, hentries⟩ := List.forall_mem_cons.mp h
      rw [allEntries, he, ih hentries]
      rfl

end Document

/-- No number is written as `null`. -/
theorem toString_ne_null (n : Int) : toString n ≠ "null" := by
  intro h
  have hchars := congrArg String.toList h
  cases n with
  | ofNat m =>
      have hdigit := Text.isDigit_of_mem_repr (n := m) (c := 'n') (by
        rw [show m.repr.toList = _ from hchars]
        decide)
      exact absurd hdigit (by decide)
  | negSucc m =>
      rw [show toString (Int.negSucc m) = "-" ++ m.succ.repr from rfl, String.toList_append] at hchars
      exact absurd (List.cons.inj hchars).1 (by decide)

namespace IsScalar

variable {d : Document}

/-- A scalar is read as its value. -/
theorem ofDocument?_eq (h : IsScalar d) : FilterValue.ofDocument? d = some d.filterValue := by
  cases h with
  | null => rfl
  | bool b => cases b <;> rfl
  | int n => exact congrArg some (if_neg (toString_ne_null n)).symm
  | text h => exact congrArg some (if_neg h).symm

theorem readable (h : IsScalar d) : d.readable = true := by
  cases h <;> rfl

theorem ne_map (h : IsScalar d) (entries : Entries Document) : d ≠ .map entries := by
  cases h <;> nofun

theorem filterEntry_eq (h : IsScalar d) : d.filterEntry = .value d.filterValue := by
  cases h <;> rfl

end IsScalar

/-- An entry of a filter is read as such. -/
theorem IsFilterEntry.ofDocument?_eq {d : Document} (h : IsFilterEntry d) :
    FilterEntry.ofDocument? d = some d.filterEntry := by
  cases h with
  | scalar h =>
      rw [FilterEntry.ofDocument?, if_pos h.readable, h.ofDocument?_eq, h.filterEntry_eq]
      rfl
  | @nested entries keys scalars =>
      have hreadable : (Document.map entries).readable = true :=
        Document.allEntries_of_forall fun e he => (scalars e he).readable
      rw [FilterEntry.ofDocument?, if_pos hreadable,
        Document.mapOf?_of_forall keys.nodup fun e he => (scalars e he).ofDocument?_eq]
      rfl

/-- A document that is a word is compact. -/
theorem compact_of_word? {d : Document} {n : UInt64} (h : d.word? = some n) :
    d.compact = true := by
  rcases Document.word?_cases h with ⟨s, rfl, -⟩ | ⟨m, rfl, hm, -⟩
  · rfl
  · have hlow : -Int.ofNat (Nat.pow 2 63) ≤ Int.ofNat m :=
      Int.le_trans (Int.neg_nonpos_of_nonneg (Int.natCast_nonneg _)) (Int.natCast_nonneg m)
    have hhigh : Int.ofNat m < Int.ofNat UInt64.size := Int.ofNat_lt.mpr hm
    simp only [Document.compact, Document.allLeaves, Bool.and_eq_true, decide_eq_true_eq]
    exact ⟨hlow, hhigh⟩

namespace IsPage

variable {required optional : String} {entries : Entries Document}

/-- A page has a number under the name that it requires. -/
theorem exists_required (h : IsPage required optional entries) :
    ∃ n, (Entries.find? required entries).bind Document.word? = some n := by
  obtain ⟨d, hd⟩ := Option.isSome_iff_exists.mp (Entries.find?_isSome_iff.mpr h.present)
  rw [hd]
  exact h.words _ (Entries.mem_of_find? hd)

/-- A page has nothing under other names. -/
theorem find?_eq_none (h : IsPage required optional entries) (name : String)
    (hrequired : name ≠ required) (hoptional : name ≠ optional) :
    Entries.find? name entries = none := by
  rw [Option.eq_none_iff_forall_ne_some]
  intro d hd
  rcases h.known _ (Entries.mem_of_find? hd) with e | e
  · exact hrequired e
  · exact hoptional e

/-- An optional part of a page is its number or the default. -/
theorem orElse?_optional (h : IsPage required optional entries) (default : UInt64) :
    Document.orElse? default Document.word? (Entries.find? optional entries) =
      some (((Entries.find? optional entries).bind Document.word?).getD default) := by
  cases hd : Entries.find? optional entries with
  | none => rfl
  | some d =>
      obtain ⟨n, hn⟩ := h.words _ (Entries.mem_of_find? hd)
      exact hn.trans (by rw [Option.bind_some, hn, Option.getD_some])

/-- A page is compact, since its parts are. -/
theorem compact (h : IsPage required optional entries) :
    (Document.map entries).compact = true :=
  Document.allEntries_of_forall fun e he => by
    obtain ⟨n, hn⟩ := h.words e he
    exact compact_of_word? hn

end IsPage

/-- The numbers of a page of one kind describe the page that is read. -/
theorem page_of_isPage {entries : Entries Document}
    (h : IsPage "size" "number" entries ∨ IsPage "limit" "offset" entries) :
    ∃ page, PageRequest.ofDocument? .json (.map entries) = some page ∧
      (pageParts entries).toRequest? = .ok (some page) := by
  rcases h with h | h
  case inl =>
    obtain ⟨size, hsize⟩ := h.exists_required
    have hlimit := h.find?_eq_none "limit" (by decide) (by decide)
    have hoffset := h.find?_eq_none "offset" (by decide) (by decide)
    have hread : PageRequest.numbered? .json (.map entries) =
        some (.numbered size (((Entries.find? "number" entries).bind Document.word?).getD 1)) := by
      rw [PageRequest.numbered?, Document.fields?_json h.nodup]
      simp [Document.required?_eq_bind, hsize, h.orElse?_optional]
    refine ⟨.numbered size (((Entries.find? "number" entries).bind Document.word?).getD 1), ?_, ?_⟩
    · rw [PageRequest.ofDocument?, if_pos h.compact, hread]
      rfl
    · simp [QueryString.PageParts.toRequest?, pageParts, hsize, hlimit, hoffset]
  case inr =>
    obtain ⟨limit, hlimit⟩ := h.exists_required
    have hsize := h.find?_eq_none "size" (by decide) (by decide)
    have hnumber := h.find?_eq_none "number" (by decide) (by decide)
    -- without a size it is no numbered page, and is tried as a window
    have hnumbered : PageRequest.numbered? .json (.map entries) = none := by
      rw [PageRequest.numbered?, Document.fields?_json h.nodup]
      simp [Document.required?_eq_bind, hsize]
    have hread : PageRequest.window? .json (.map entries) =
        some (.window limit (((Entries.find? "offset" entries).bind Document.word?).getD 0)) := by
      rw [PageRequest.window?, Document.fields?_json h.nodup]
      simp [Document.required?_eq_bind, hlimit, h.orElse?_optional]
    refine ⟨.window limit (((Entries.find? "offset" entries).bind Document.word?).getD 0), ?_, ?_⟩
    · rw [PageRequest.ofDocument?, if_pos h.compact, hnumbered, Option.none_or, hread]
    · simp [QueryString.PageParts.toRequest?, pageParts, hsize, hlimit, hnumber]

/-! ### Parameters -/

namespace IsParam

variable {name : String} {d : Document}

/-- The lists of a request are texts. -/
theorem exists_text (h : IsParam name d) (hname : name ∈ ["include", "sort", "group"]) :
    ∃ s, d = .text s := by
  cases h with
  | includes s | sort s | group s => exact ⟨s, rfl⟩
  | fields | filter | page => exact absurd hname (by decide)
  | unknown d h =>
      have hknown : name ∈ QueryString.parameterNames := List.mem_append_left _ hname
      exact absurd hknown (QueryString.not_mem_of_stem h)

/-- Fieldsets are a map of texts. -/
theorem exists_fields (h : IsParam name d) (hname : name = "fields") :
    ∃ entries, d = .map entries ∧ PlainKeys entries ∧ ∀ e ∈ entries, ∃ s, e.2 = .text s := by
  cases h with
  | fields keys texts => exact ⟨_, rfl, keys, texts⟩
  | includes | sort | group | filter | page => exact absurd hname (by decide)
  | unknown d h => exact absurd (hname ▸ by decide) (QueryString.not_mem_of_stem h)

/-- A filter is a map of entries under plain keys. -/
theorem exists_filter (h : IsParam name d) (hname : name = "filter") :
    ∃ entries, d = .map entries ∧ PlainKeys entries ∧ ∀ e ∈ entries, IsFilterEntry e.2 := by
  cases h with
  | filter keys values => exact ⟨_, rfl, keys, values⟩
  | includes | sort | group | fields | page => exact absurd hname (by decide)
  | unknown d h => exact absurd (hname ▸ by decide) (QueryString.not_mem_of_stem h)

/-- A page is a map with a size or a limit. -/
theorem exists_page (h : IsParam name d) (hname : name = "page") :
    ∃ entries, d = .map entries ∧
      (IsPage "size" "number" entries ∨ IsPage "limit" "offset" entries) := by
  cases h with
  | page kind => exact ⟨_, rfl, kind⟩
  | includes | sort | group | fields | filter => exact absurd hname (by decide)
  | unknown d h => exact absurd (hname ▸ by decide) (QueryString.not_mem_of_stem h)

end IsParam

/-! ### The request as a whole -/

namespace IsPlain

variable {entries : Entries Document}

theorem param_of_find? (h : IsPlain entries) {name : String} {d : Document}
    (hd : Entries.find? name entries = some d) : IsParam name d :=
  h.params _ (Entries.mem_of_find? hd)

/-- A list of a request is read as its items. -/
theorem items_read (h : IsPlain entries) (name : String)
    (hname : name ∈ ["include", "sort", "group"]) :
    ∃ list, Document.optional? Document.texts? (Entries.find? name entries) = some list ∧
      list.getD [] = (Entries.find? name entries).elim [] Document.items := by
  cases hd : Entries.find? name entries with
  | none => exact ⟨none, rfl, rfl⟩
  | some d =>
      obtain ⟨s, rfl⟩ := (h.param_of_find? hd).exists_text hname
      exact ⟨some (Text.commaList s), rfl, rfl⟩

/-- The fieldsets of a request are read one by one. -/
theorem fieldsets_read (h : IsPlain entries) :
    ∃ sets, Document.optional? (Document.mapOf? Document.texts?) (Entries.find? "fields" entries) =
        some sets ∧
      sets.getD [] = (Entries.find? "fields" entries).elim [] Document.fieldsets := by
  cases hd : Entries.find? "fields" entries with
  | none => exact ⟨none, rfl, rfl⟩
  | some d =>
      obtain ⟨sets, rfl, keys, texts⟩ := (h.param_of_find? hd).exists_fields rfl
      have hset : ∀ e ∈ sets, e.2.texts? = some e.2.items := fun e he => by
        obtain ⟨s, hs⟩ := texts e he
        rw [hs]
        rfl
      refine ⟨some (Document.map sets).fieldsets, ?_, rfl⟩
      exact congrArg (Option.map some) (Document.mapOf?_of_forall keys.nodup hset)

/-- The filter of a request is read entry by entry. -/
theorem filter_read (h : IsPlain entries) :
    Document.orElse? {} Filter.ofDocument? (Entries.find? "filter" entries) =
      some ((Entries.find? "filter" entries).elim {} Document.filter) := by
  cases hd : Entries.find? "filter" entries with
  | none => rfl
  | some d =>
      obtain ⟨filters, rfl, keys, values⟩ := (h.param_of_find? hd).exists_filter rfl
      have hread := Document.mapOf?_of_forall keys.nodup fun e he => (values e he).ofDocument?_eq
      rw [Document.orElse?, Filter.ofDocument?, hread, Option.map_some, List.foldl_map]
      rfl

/-- The page of a request is read as its parts say. -/
theorem page_read (h : IsPlain entries) :
    ∃ page, Document.optional? (PageRequest.ofDocument? .json) (Entries.find? "page" entries) =
        some page ∧
      (spelled entries).2.toRequest? = .ok page := by
  rw [spelled]
  cases hd : Entries.find? "page" entries with
  | none => exact ⟨none, rfl, rfl⟩
  | some d =>
      obtain ⟨parts, rfl, kind⟩ := (h.param_of_find? hd).exists_page rfl
      obtain ⟨page, hread, hparts⟩ := page_of_isPage kind
      exact ⟨some page, congrArg (Option.map some) hread, hparts⟩

/-- Reading the tree gives what it asks for. -/
theorem ofDocument?_eq (h : IsPlain entries) :
    ∃ page, (spelled entries).2.toRequest? = .ok page ∧
      Params.ofDocument? .json (.map entries) =
        some { (spelled entries).1 with page := page } := by
  obtain ⟨paths, hpaths, hincludes⟩ := h.items_read "include" (by decide)
  obtain ⟨sets, hsets, hfields⟩ := h.fieldsets_read
  obtain ⟨order, horder, hsort⟩ := h.items_read "sort" (by decide)
  obtain ⟨keys, hkeys, hgroup⟩ := h.items_read "group" (by decide)
  obtain ⟨page, hpage, hparts⟩ := h.page_read
  refine ⟨page, hparts, ?_⟩
  rw [Params.ofDocument?, Document.fields?_json h.nodup]
  simp [hpaths, hsets, horder, hkeys, hpage, h.filter_read, spelled, hincludes, hfields, hsort,
    hgroup]

end IsPlain

end ResourceQuery
