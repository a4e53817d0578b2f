import ResourceQuery.Proofs.Request.Decoders
import ResourceQuery.Proofs.Request.Keys
import ResourceQuery.Proofs.Request.Reordered

/-!
# Request — pairs of a query string that are no parameters

A pair is a parameter if its key is one of a few (`IsParameterKey`), and any other pair is meant to be
ignored.  But the number of a page is read before its part is looked at, so a pair with the key of no
part can still be wrong (`IsMisnumbered`), and a query string is refused for the first pair that is
(`parameters_eq_error`).

* `isParameterKey_of_ofPair`, `IsParameterKey.exists_ofPair`: these are the keys that parameters come
  from.
* `parameters_filter_keys`: other pairs do not matter, unless the first wrong pair is one of them.
* `pairs_parametersOnly`: a query string without its other pairs has the pairs that are left.
* `unknown_ignored_iff`: when it is read alike.
-/

namespace ResourceQuery

namespace QueryString

/-- The name of a part of a page. -/
def PagePart.name : PagePart → String
  | .size   => "size"
  | .number => "number"
  | .limit  => "limit"
  | .offset => "offset"

theorem PagePart.ofName?_name (part : PagePart) : ofName? part.name = some part := by
  cases part <;> rfl

theorem PagePart.eq_name_of_ofName? {s : String} {part : PagePart} (h : ofName? s = some part) :
    s = part.name := by
  unfold ofName? at h
  split at h <;> cases h <;> rfl

/-! ### Single pairs -/

/-- The keys of parameters. -/
inductive IsParameterKey : String → Prop where
  | includes : IsParameterKey "include"
  | sort : IsParameterKey "sort"
  | group : IsParameterKey "group"
  | fields {key : String} (h : ']' ∉ key.toList) : IsParameterKey (keyOf "fields" [key])
  | equality {key : String} (h : ']' ∉ key.toList) : IsParameterKey (keyOf "filter" [key])
  | typed (op : FilterOperator) {key : String} (h : ']' ∉ key.toList) :
      IsParameterKey (keyOf "filter" [op.name, key])
  | page (part : PagePart) : IsParameterKey (keyOf "page" [part.name])

/-- The key is one of a page, of whatever part, and the value is no number. -/
def IsMisnumbered (p : String × String) : Prop :=
  (∃ part : String, ']' ∉ part.toList ∧ p.1 = keyOf "page" [part]) ∧
    Text.word? (Text.trimChars p.2.toList) = none

variable {key value : String} {e : QueryStringError}

/-- A key that is read as a parameter is the key of one. -/
theorem isParameterKey_of_ofPair {p : Parameter} (h : Parameter.ofPair key value = .ok (some p)) :
    IsParameterKey key := by
  rw [Parameter.ofPair] at h
  simp only at h
  -- the key is put together again before the cases, which then name its parts
  generalize hname : String.ofList (splitKey key.toList).1 = name at h
  generalize hsegments : (splitKey key.toList).2.map String.ofList = segments at h
  obtain ⟨rfl, hclosed⟩ := splitKey_spells hname hsegments
  clear hname hsegments
  split at h
  case h_1 => exact .includes
  case h_2 => exact .sort
  case h_3 => exact .group
  case h_4 resource => exact .fields (hclosed resource List.mem_cons_self)
  case h_5 column => exact .equality (hclosed column List.mem_cons_self)
  case h_6 operator column =>
    obtain ⟨op, hop, -⟩ := Option.map_eq_some_iff.mp (Except.ok.inj h)
    rw [FilterOperator.eq_name_of_ofName? hop]
    exact .typed op (hclosed column (List.mem_cons_of_mem operator List.mem_cons_self))
  case h_7 part =>
    split at h
    case h_1 =>
      obtain ⟨known, hpart, -⟩ := Option.map_eq_some_iff.mp (Except.ok.inj h)
      rw [PagePart.eq_name_of_ofName? hpart]
      exact .page known
    case h_2 => cases h
  case h_8 => cases h

/-- The key of a parameter is read as one if its value is a number. -/
theorem IsParameterKey.exists_ofPair (h : IsParameterKey key) {n : UInt64}
    (hvalue : Text.word? (Text.trimChars value.toList) = some n) :
    ∃ p, Parameter.ofPair key value = .ok (some p) := by
  cases h with
  | includes => exact ⟨_, (ofPair_items value).1⟩
  | sort => exact ⟨_, (ofPair_items value).2.1⟩
  | group => exact ⟨_, (ofPair_items value).2.2⟩
  | fields h => exact ⟨_, ofPair_fields h value⟩
  | equality h => exact ⟨_, ofPair_equality h value⟩
  | typed op h =>
      have hop : ']' ∉ op.name.toList := by cases op <;> decide
      rw [ofPair_typed hop h value, FilterOperator.ofName?_name]
      exact ⟨_, rfl⟩
  | page part =>
      have hpart : ']' ∉ part.name.toList := by cases part <;> decide
      rw [ofPair_page hpart hvalue, PagePart.ofName?_name]
      exact ⟨_, rfl⟩

/-- A pair fails exactly if its page part is no number, whatever part that is. -/
theorem ofPair_eq_error :
    Parameter.ofPair key value = .error e ↔
      IsMisnumbered (key, value) ∧ e = .invalidNumber key value := by
  constructor
  · intro h
    rw [Parameter.ofPair] at h
    simp only at h
    split at h
    case h_7 part hname hsegments =>
      obtain ⟨hkey, hclosed⟩ := splitKey_spells hname hsegments
      split at h
      case h_1 => cases h
      case h_2 hnumber =>
        cases h
        exact ⟨⟨⟨part, hclosed part List.mem_cons_self, hkey⟩, hnumber⟩, rfl⟩
    all_goals cases h
  · rintro ⟨⟨⟨part, hpart, hkey⟩, hnumber⟩, rfl⟩
    dsimp only at hkey hnumber
    rw [hkey, Parameter.ofPair, splitKey_keyOf (by decide) (List.forall_mem_singleton.mpr hpart)]
    simp [hnumber]

/-- A number does for any parameter, so the keys of parameters are those that one is read from with a
number. -/
instance : DecidablePred IsParameterKey := fun key =>
  decidable_of_iff (((Parameter.ofPair key "0").toOption.any Option.isSome) = true) <| by
    constructor
    · intro h
      obtain ⟨read, hread, hsome⟩ := exists_ok_of_any h
      obtain ⟨p, rfl⟩ := Option.isSome_iff_exists.mp hsome
      exact isParameterKey_of_ofPair hread
    · intro h
      have hzero : Text.word? (Text.trimChars "0".toList) = some 0 := rfl
      obtain ⟨p, hp⟩ := h.exists_ofPair hzero
      rw [hp]
      rfl

instance : DecidablePred IsMisnumbered := fun p =>
  decidable_of_iff ((Parameter.ofPair p.1 p.2).toOption.isNone = true) <| by
    cases h : Parameter.ofPair p.1 p.2 with
    | error e => simpa [Except.toOption] using (ofPair_eq_error.mp h).1
    | ok read =>
        refine ⟨nofun, fun hp => ?_⟩
        rw [ofPair_eq_error.mpr ⟨hp, rfl⟩] at h
        cases h

/-! ### The pairs of a query string -/

variable {ps : List (String × String)} {p : String × String}

theorem parameters_cons_of_misnumbered (h : IsMisnumbered p) (ps : List (String × String)) :
    parameters (p :: ps) = .error (.invalidNumber p.1 p.2) :=
  bind_eq_error.mpr (.inl (ofPair_eq_error.mpr ⟨h, rfl⟩))

/-- A pair that is not misnumbered is read. -/
theorem exists_ofPair_of_not_misnumbered (h : ¬ IsMisnumbered p) :
    ∃ read, Parameter.ofPair p.1 p.2 = .ok read := by
  cases hread : Parameter.ofPair p.1 p.2 with
  | error e => exact absurd (ofPair_eq_error.mp hread).1 h
  | ok read => exact ⟨read, rfl⟩

/-- A pair with an unknown key adds nothing. -/
theorem parameters_cons_of_unknown (hp : ¬ IsMisnumbered p) (hkey : ¬ IsParameterKey p.1)
    (ps : List (String × String)) : parameters (p :: ps) = parameters ps := by
  obtain ⟨read, hread⟩ := exists_ofPair_of_not_misnumbered hp
  cases read with
  | some parameter => exact absurd (isParameterKey_of_ofPair hread) hkey
  | none =>
      rw [parameters_cons_of_ok hread]
      cases parameters ps <;> rfl

/-- A query string is refused for the first pair whose number cannot be read. -/
theorem parameters_eq_error :
    parameters ps = .error e ↔
      ∃ p, ps.find? (fun p => IsMisnumbered p) = some p ∧ e = .invalidNumber p.1 p.2 := by
  induction ps with
  | nil => simp [parameters]
  | cons p ps ih =>
      by_cases hp : IsMisnumbered p
      case pos => simp [parameters_cons_of_misnumbered hp, hp, eq_comm]
      case neg =>
        obtain ⟨read, hread⟩ := exists_ofPair_of_not_misnumbered hp
        rw [parameters_cons_of_ok hread]
        simp only [List.find?_cons, hp, decide_false, ← ih]
        cases parameters ps <;> simp [Except.map]

/-- Pairs with other keys than a parameter's do not matter, unless the first wrong pair is one of
them. -/
theorem parameters_filter_keys
    (h : ∀ p, ps.find? (fun p => IsMisnumbered p) = some p → IsParameterKey p.1) :
    parameters (ps.filter fun p => IsParameterKey p.1) = parameters ps := by
  induction ps with
  | nil => rfl
  | cons p ps ih =>
      by_cases hp : IsMisnumbered p
      case pos =>
        have hkey : IsParameterKey p.1 := h p (by simp [hp])
        simp only [List.filter_cons, hkey, decide_true, if_true, parameters_cons_of_misnumbered hp]
      case neg =>
        simp only [List.find?_cons, hp, decide_false] at h
        by_cases hkey : IsParameterKey p.1
        case pos =>
          obtain ⟨read, hread⟩ := exists_ofPair_of_not_misnumbered hp
          simp only [List.filter_cons, hkey, decide_true, if_true, parameters_cons_of_ok hread, ih h]
        case neg =>
          rw [parameters_cons_of_unknown hp hkey, ← ih h]
          simp only [List.filter_cons, hkey, decide_false, Bool.false_eq_true, if_false]

/-! ### Texts -/

/-- The query string without the pairs whose keys are no parameter's: the segments that are left, as they
are written. -/
def parametersOnly (query : String) : String :=
  Text.joinWith "&" ((segmentsOf query).filter fun s => IsParameterKey (segmentPair s).1)

theorem IsParameterKey.head?_ne (h : IsParameterKey key) : key.toList.head? ≠ some '?' := by
  cases h <;> simp [keyOf]

/-- A segment that starts with a question mark has a key that does. -/
theorem head?_segmentPair {segment : String} (h : segment.toList.head? = some '?') :
    (segmentPair segment).1.toList.head? = some '?' := by
  obtain ⟨cs, hcs⟩ := List.head?_eq_some_iff.mp h
  rw [segmentPair, hcs, Text.Form.pair, Text.splitFirst, if_neg (by decide)]
  cases Text.splitFirst '=' cs with
  | none => simp [Text.Form.decode_question]
  | some parts => simp [Text.Form.decode_question]

/-- A parameter's segment loses nothing when it comes to the front, where question marks are dropped. -/
theorem isSegment_of_parameterKey {query segment : String} (h : segment ∈ segmentsOf query)
    (hkey : IsParameterKey (segmentPair segment).1) : IsSegment segment := by
  obtain ⟨piece, hpiece, rfl⟩ := List.mem_map.mp h
  refine ⟨?_, fun hhead => hkey.head?_ne (head?_segmentPair hhead)⟩
  rw [String.toList_ofList]
  exact Text.not_mem_of_mem_splitOn hpiece

/-- A query string without its other pairs has the pairs that are left. -/
theorem pairs_parametersOnly (query : String) :
    pairs (parametersOnly query) = (pairs query).filter fun p => IsParameterKey p.1 := by
  have hsegments : ∀ s ∈ (segmentsOf query).filter (fun s => IsParameterKey (segmentPair s).1),
      IsSegment s := fun s hs => by
    obtain ⟨hmem, hkey⟩ := List.mem_filter.mp hs
    exact isSegment_of_parameterKey hmem (of_decide_eq_true hkey)
  rw [parametersOnly, pairs_joinWith hsegments, pairs_eq_segmentsOf, List.filter_map,
    List.filter_filter, List.filter_filter]
  simp only [Function.comp_def, Bool.and_comm]

/-- Fieldsets without a key and operators that do not exist are deleted. -/
example : parametersOnly "?fields=a&page[size]=2&filter[eq][b]=c" = "page[size]=2" := by
  decide +kernel

/-- The kind of a page can be wrong, but no number is by then. -/
theorem PageParts.toRequest?_ne {key value : String} (parts : PageParts) :
    parts.toRequest? ≠ .error (.invalidNumber key value) := by
  intro h
  rw [toRequest?] at h
  split at h
  case isTrue => cases h
  case isFalse =>
    split at h
    case h_1 => cases h
    case h_2 => cases h
    case h_3 => split at h <;> cases h

end QueryString

namespace Params

open QueryString

/-- A number is only refused for a pair of the query string. -/
theorem mem_pairs_of_ofQueryString {query key value : String}
    (h : ofQueryString query = .error (.invalidNumber key value)) : (key, value) ∈ pairs query := by
  rcases bind_eq_error.mp h with h | ⟨params, -, h⟩
  · obtain ⟨p, hp, he⟩ := parameters_eq_error.mp h
    cases he
    exact List.mem_of_find?_eq_some hp
  · rcases bind_eq_error.mp h with h | ⟨page, -, h⟩
    · exact absurd h (PageParts.toRequest?_ne _)
    · cases h

/-- **Other pairs of a query string are ignored, unless one of them has a wrong number first.**  If
all pairs whose keys are no parameter's are deleted, the same request is read, or the same error,
exactly if the first pair that has a number which cannot be read, should there be one, has the key of a
parameter. -/
theorem unknown_ignored_iff (query : String) :
    ofQueryString (parametersOnly query) = ofQueryString query ↔
      ∀ p, (pairs query).find? (fun p => IsMisnumbered p) = some p → IsParameterKey p.1 := by
  constructor
  · intro h p hp
    have hfail : ofQueryString query = .error (.invalidNumber p.1 p.2) :=
      bind_eq_error.mpr (.inl (parameters_eq_error.mpr ⟨p, hp, rfl⟩))
    have hmem := mem_pairs_of_ofQueryString (h.trans hfail)
    rw [pairs_parametersOnly] at hmem
    exact of_decide_eq_true (List.mem_filter.mp hmem).2
  · intro h
    rw [ofQueryString, ofQueryString, pairs_parametersOnly, parameters_filter_keys h]

/-- The number of a page part that does not exist. -/
theorem not_unknown_ignored :
    ¬ IsParameterKey "page[foo]" ∧ ofQueryString (parametersOnly "page[foo]=abc") = .ok {} ∧
      ofQueryString "page[foo]=abc" = .error (.invalidNumber "page[foo]" "abc") := by
  have hempty : parametersOnly "page[foo]=abc" = "" := by decide +kernel
  refine ⟨by decide +kernel, ?_, rfl⟩
  rw [hempty]
  rfl

end Params

end ResourceQuery
