import ResourceQuery.Proofs.Except
import ResourceQuery.Proofs.Request.Keys
import ResourceQuery.Proofs.Text.Form

/-!
# Request — trees written as query strings

A tree is written as one pair per leaf, in the order of the tree: the name of the topmost entry with
the keys on the way down in brackets, and the leaf as text (`Document.queryPairs`).

* `ofPair_of_stem`: a key whose name is not a parameter's is ignored, whatever its brackets.
* `pairs_encode`: the pairs of a query string are read back.
* `word?_leafText`: a number, or a text that denotes one, is read back.
* `parameters_entryPairs`: the pairs of a map are read entry by entry.
* `parameters_of_stem`: what is written under the name of no parameter is ignored as a whole.
-/

namespace ResourceQuery

namespace QueryString

/-! ### Names of parameters -/

/-- The names of the parameters. -/
def parameterNames : List String :=
  ["include", "sort", "group", "fields", "filter", "page"]

variable {name : String}

theorem stem_parameterName : ∀ n ∈ parameterNames, stem n.toList = n.toList := by
  decide

theorem not_mem_of_stem (h : String.ofList (stem name.toList) ∉ parameterNames) :
    name ∉ parameterNames := fun hname =>
  h (by rwa [stem_parameterName name hname, String.ofList_toList])

/-- A key whose stem is no name of a parameter is split into another name than those. -/
theorem splitKey_name {key : List Char} (h : String.ofList (stem key) ∉ parameterNames) :
    String.ofList (splitKey key).1 ∉ parameterNames := by
  rw [splitKey]
  split
  · exact h
  · exact not_mem_of_stem (by rwa [String.toList_ofList])

/-- A key whose stem is no name of a parameter is ignored. -/
theorem ofPair_of_stem {key : String} (h : String.ofList (stem key.toList) ∉ parameterNames)
    (value : String) : Parameter.ofPair key value = .ok none := by
  have hname := splitKey_name h
  simp only [parameterNames, List.mem_cons, List.not_mem_nil, or_false, not_or] at hname
  rw [Parameter.ofPair]
  simp only
  split <;> simp_all

/-! ### Pairs -/

/-- The query string of a list of pairs. -/
def encode (ps : List (String × String)) : String :=
  String.ofList (Text.Form.encode (ps.map fun p => (p.1.toList, p.2.toList)))

/-- The pairs of an encoded query string are found again. -/
theorem pairs_encode (ps : List (String × String)) : pairs (encode ps) = ps := by
  have hmark (cs : List Char) (h : '?' ∉ cs) : cs.dropWhile (· = '?') = cs := by
    cases cs with
    | nil => rfl
    | cons c cs =>
        have hc : c ≠ '?' := fun e => h (e ▸ List.mem_cons_self)
        simp [hc]
  rw [pairs, encode, String.toList_ofList, hmark _ (Text.Form.question_not_mem_encode _),
    Text.Form.pairs_encode, List.map_map]
  simp [Function.comp_def]

end QueryString

/-! ### Trees -/

namespace Document

/-- A leaf as text; the null, and what no parameter is read from, are the text `null`. -/
def leafText : Document → String
  | .bool true  => "true"
  | .bool false => "false"
  | .int n      => toString n
  | .text s     => s
  | _           => "null"

mutual

/-- The pairs of a tree under a name and the keys on the way down. -/
def pairsUnder (name : String) (segments : List String) : Document → List (String × String)
  | .map entries => entryPairs name segments entries
  | d            => [(QueryString.keyOf name segments, d.leafText)]

/-- `pairsUnder` of each value, its key being the next one on the way down. -/
def entryPairs (name : String) (segments : List String) :
    List (String × Document) → List (String × String)
  | []                     => []
  | (key, item) :: entries =>
    item.pairsUnder name (segments ++ [key]) ++ entryPairs name segments entries

end

/-- The pairs of the parameters of a request, in order. -/
def queryPairs : Document → List (String × String)
  | .map entries => entries.flatMap fun (name, d) => d.pairsUnder name []
  | _            => []

/-- A document that is no map is one pair. -/
theorem pairsUnder_leaf {d : Document} (h : ∀ entries, d ≠ .map entries) (name : String)
    (segments : List String) :
    d.pairsUnder name segments = [(QueryString.keyOf name segments, d.leafText)] := by
  cases d with
  | map entries => exact absurd rfl (h entries)
  | null | bool _ | int _ | float _ | text _ | list _ | unreadable => rfl

/-- A 64-bit word is a text that denotes it or a number. -/
theorem word?_cases {d : Document} {n : UInt64} (h : d.word? = some n) :
    (∃ s, d = .text s ∧ Text.word? (Text.trimChars s.toList) = some n) ∨
      ∃ m, d = .int (.ofNat m) ∧ m < UInt64.size ∧ n = UInt64.ofNat m := by
  cases d with
  | text s => exact .inl ⟨s, rfl, h⟩
  | int i =>
      obtain ⟨m, hm, hn⟩ := Option.map_eq_some_iff.mp h
      cases i with
      | ofNat k =>
          rw [natural?] at hm
          split at hm
          case isTrue hk =>
            cases hm
            exact .inr ⟨m, rfl, hk, hn.symm⟩
          case isFalse => cases hm
      | negSucc k => cases hm
  | null | bool _ | float _ | list _ | map _ | unreadable => cases h

/-- The text of a document that is a word is read as that word. -/
theorem word?_leafText {d : Document} {n : UInt64} (h : d.word? = some n) :
    Text.word? (Text.trimChars d.leafText.toList) = some n := by
  rcases word?_cases h with ⟨s, rfl, hs⟩ | ⟨m, rfl, hm, rfl⟩
  · exact hs
  · exact (congrArg Text.word? (Text.trimChars_repr m)).trans (Text.word?_repr hm)

end Document

namespace QueryString

variable {name : String} {segments : List String} {entries : Entries Document}

/-- The parameters of two lists of pairs are those of the one and the other. -/
theorem parameters_append {ps qs : List (String × String)} {before after : List Parameter}
    (hps : parameters ps = .ok before) (hqs : parameters qs = .ok after) :
    parameters (ps ++ qs) = .ok (before ++ after) := by
  induction ps generalizing before with
  | nil =>
      cases hps
      exact hqs
  | cons p ps ih =>
      obtain ⟨parameter, hp, hrest⟩ := bind_eq_ok.mp hps
      obtain ⟨later, hlater, rfl⟩ := bind_pure_eq_ok.mp hrest
      refine bind_eq_ok.mpr ⟨parameter, hp, bind_pure_eq_ok.mpr ⟨later ++ after, ih hlater, ?_⟩⟩
      rw [List.append_assoc]

section

variable {key value : String} {parameter : Option Parameter}

theorem parameters_cons_of_ok (h : Parameter.ofPair key value = .ok parameter)
    (ps : List (String × String)) :
    parameters ((key, value) :: ps) = (parameters ps).map (parameter.toList ++ ·) := by
  rw [parameters, h]
  cases parameters ps <;> rfl

theorem parameters_singleton (h : Parameter.ofPair key value = .ok parameter) :
    parameters [(key, value)] = .ok parameter.toList := by
  rw [parameters_cons_of_ok h, parameters]
  exact congrArg Except.ok (List.append_nil _)

end

/-- The pairs of a map are read entry by entry. -/
theorem parameters_entryPairs {read : String × Document → List Parameter}
    (h : ∀ e ∈ entries,
      parameters (e.2.pairsUnder name (segments ++ [e.1])) = .ok (read e)) :
    parameters (Document.entryPairs name segments entries) = .ok (entries.flatMap read) := by
  induction entries with
  | nil => rfl
  | cons e entries ih =>
      obtain ⟨he, hentries⟩ := List.forall_mem_cons.mp h
      exact parameters_append he (ih hentries)

mutual

/-- A document under an unknown name has no parameters, by induction on its entries. -/
theorem parameters_of_stem (h : String.ofList (stem name.toList) ∉ parameterNames)
    (segments : List String) : ∀ d : Document, parameters (d.pairsUnder name segments) = .ok []
  | .map entries => parameters_entries_of_stem h segments entries
  | .null | .bool _ | .int _ | .float _ | .text _ | .list _ | .unreadable =>
      parameters_singleton (ofPair_of_stem (by rwa [stem_keyOf]) _)

/-- Entries under an unknown name have no parameters. -/
theorem parameters_entries_of_stem (h : String.ofList (stem name.toList) ∉ parameterNames)
    (segments : List String) : ∀ entries : List (String × Document),
    parameters (Document.entryPairs name segments entries) = .ok []
  | []                     => rfl
  | (key, item) :: entries =>
      parameters_append (parameters_of_stem h (segments ++ [key]) item)
        (parameters_entries_of_stem h segments entries)

end

end QueryString

end ResourceQuery
