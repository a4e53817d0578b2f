import Mathlib.Data.List.TakeWhile
import ResourceQuery.Request.QueryString

/-!
# Request — names and segments of keys

A key is a name followed by segments in brackets (`keyOf`).  It is split by one pass over its characters,
which keeps the characters of an open segment.  All that the pass has taken apart at any point can be put
together again (`exists_brackets`), so a key is always its name followed by its segments in brackets, and
what has no segments is a name as a whole.

* `splitKey_keyOf`: a name and its segments are read back, if no segment holds a closing bracket.
* `IsBracketed`: a key with segments, which its name and they make up.
* `splitKey_cases`: a key is split into the name and the segments that make it up, or not at all.
* `splitKey_spells`: a key is its name followed by its segments in brackets.
* `splitKey_exact`: splitting undoes bracketing, and leaves every other key whole.
-/

namespace ResourceQuery

namespace QueryString

/-! ### Brackets -/

/-- Segments in brackets. -/
def brackets : List String → List Char
  | []                  => []
  | segment :: segments => '[' :: (segment.toList ++ ']' :: brackets segments)

/-- A name followed by segments in brackets. -/
def keyOf (name : String) (segments : List String) : String :=
  String.ofList (name.toList ++ brackets segments)

/-- The part of a name before its first bracket. -/
def stem (cs : List Char) : List Char :=
  cs.takeWhile (· ≠ '[')

variable {name : String} {segments : List String}

/-- The text up to a closing bracket is a segment. -/
theorem segments?_open {segment : List Char} (h : ']' ∉ segment) (acc rest : List Char) :
    segments? (some acc) (segment ++ ']' :: rest) =
      (segments? none rest).map ((acc.reverse ++ segment) :: ·) := by
  induction segment generalizing acc with
  | nil => rw [List.nil_append, List.append_nil, segments?, if_pos rfl]
  | cons c segment ih =>
      obtain ⟨hc, hsegment⟩ := not_or.mp (mt List.mem_cons.mpr h)
      rw [List.cons_append, segments?, if_neg (Ne.symm hc), ih hsegment]
      simp

/-- The segments that stand in brackets are found, by induction on them. -/
theorem segments?_brackets (h : ∀ s ∈ segments, ']' ∉ s.toList) :
    segments? none (brackets segments) = some (segments.map String.toList) := by
  induction segments with
  | nil => rfl
  | cons s segments ih =>
      obtain ⟨hs, hsegments⟩ := List.forall_mem_cons.mp h
      rw [brackets, segments?, if_pos rfl, segments?_open hs, ih hsegments]
      rfl

/-- The stem of a key does not depend on its segments. -/
theorem stem_keyOf (name : String) (segments : List String) :
    stem (keyOf name segments).toList = stem name.toList := by
  have hbrackets : (brackets segments).takeWhile (· ≠ '[') = [] := by
    cases segments <;> rfl
  rw [keyOf, String.toList_ofList, stem, stem, List.takeWhile_append, hbrackets, List.append_nil]
  split
  case isTrue hfull => exact ((List.takeWhile_prefix _).eq_of_length hfull).symm
  case isFalse => rfl

/-- A key that is built from a name and segments is split into them. -/
theorem splitKey_keyOf (hname : '[' ∉ name.toList) (h : ∀ s ∈ segments, ']' ∉ s.toList) :
    splitKey (keyOf name segments).toList = (name.toList, segments.map String.toList) := by
  have hplain : ∀ c ∈ name.toList, decide (c ≠ '[') = true := fun c hc =>
    decide_eq_true fun e => hname (e ▸ hc)
  have hbefore : (keyOf name segments).toList.takeWhile (· ≠ '[') = name.toList :=
    (stem_keyOf name segments).trans (List.takeWhile_eq_self_iff.mpr hplain)
  have hafter : (keyOf name segments).toList.dropWhile (· ≠ '[') = brackets segments := by
    rw [keyOf, String.toList_ofList, List.dropWhile_append_of_pos hplain]
    cases segments <;> rfl
  rw [splitKey, hafter, segments?_brackets h, hbefore]

/-! ### What is split is put together -/

/-- The key is the name with one segment or more in brackets; no bracket opens in the name, and none
closes in a segment. -/
structure IsBracketed (key name : String) (segments : List String) : Prop where
  key_eq   : key = keyOf name segments
  nonempty : segments ≠ []
  name     : '[' ∉ name.toList
  closed   : ∀ s ∈ segments, ']' ∉ s.toList

/-- The text of an open segment so far, with its bracket. -/
def opened : Option (List Char) → List Char
  | none         => []
  | some segment => '[' :: segment.reverse

/-- What has been split is in brackets, the open segment being the beginning of the first one. -/
theorem exists_brackets {segment? : Option (List Char)} {cs : List Char} {pieces : List (List Char)}
    (h : segments? segment? cs = some pieces) (hopen : ']' ∉ opened segment?) :
    ∃ segments : List String, pieces = segments.map String.toList ∧
      opened segment? ++ cs = brackets segments ∧ ∀ s ∈ segments, ']' ∉ s.toList := by
  fun_induction segments? segment? cs generalizing pieces with
  | case1 =>
      -- nothing is left
      cases h
      exact ⟨[], rfl, rfl, nofun⟩
  | case2 cs ih =>
      -- a bracket opens
      exact ih h (by decide)
  | case3 c cs hc => cases h
  | case4 segment => cases h
  | case5 segment cs ih =>
      -- the bracket closes
      obtain ⟨later, hlater, rfl⟩ := Option.map_eq_some_iff.mp h
      obtain ⟨segments, rfl, hcs, hclosed⟩ := ih hlater List.not_mem_nil
      have hsegment : ']' ∉ segment.reverse := mt (List.mem_cons_of_mem '[') hopen
      refine ⟨String.ofList segment.reverse :: segments, by simp, ?_,
        List.forall_mem_cons.mpr ⟨by simpa using hsegment, hclosed⟩⟩
      rw [brackets, ← hcs, String.toList_ofList]
      rfl
  | case6 segment c cs hc ih =>
      -- one more character of the segment
      have hgrown : opened (some (c :: segment)) = opened (some segment) ++ [c] := by
        simp [opened]
      rw [hgrown, List.append_assoc] at ih
      refine ih h fun hmem => ?_
      rcases List.mem_append.mp hmem with hmem | hmem
      · exact hopen hmem
      · exact hc (List.mem_singleton.mp hmem).symm

variable {key : String}

/-- A key is split into the name and the segments that make it up, or not at all. -/
theorem splitKey_cases (key : String) :
    (∃ name segments, IsBracketed key name segments ∧
      splitKey key.toList = (name.toList, segments.map String.toList)) ∨
    splitKey key.toList = (key.toList, []) := by
  rw [splitKey]
  split
  case h_2 => exact .inr rfl
  case h_1 pieces h =>
    obtain ⟨segments, rfl, hbrackets, hclosed⟩ := exists_brackets h List.not_mem_nil
    have hparts : key.toList.takeWhile (· ≠ '[') ++ brackets segments = key.toList := by
      rw [← hbrackets]
      exact List.takeWhile_append_dropWhile
    by_cases hnone : segments = []
    · refine .inr ?_
      rw [hnone, brackets, List.append_nil] at hparts
      rw [hparts, hnone]
      rfl
    · refine .inl ⟨String.ofList (key.toList.takeWhile (· ≠ '[')), segments,
        ⟨?_, hnone, ?_, hclosed⟩, ?_⟩
      · rw [keyOf, String.toList_ofList, hparts, String.ofList_toList]
      · rw [String.toList_ofList]
        exact fun hmem => by simpa using List.mem_takeWhile_imp hmem
      · rw [String.toList_ofList]

/-- A bracketed key is split into its name and its segments. -/
theorem IsBracketed.splitKey_eq (h : IsBracketed key name segments) :
    splitKey key.toList = (name.toList, segments.map String.toList) := by
  rw [h.key_eq]
  exact splitKey_keyOf h.name h.closed

/-- A key is its name followed by its segments in brackets, and no bracket closes in a segment. -/
theorem splitKey_spells (hname : String.ofList (splitKey key.toList).1 = name)
    (hsegments : (splitKey key.toList).2.map String.ofList = segments) :
    key = keyOf name segments ∧ ∀ s ∈ segments, ']' ∉ s.toList := by
  subst hname hsegments
  rcases splitKey_cases key with ⟨name, segments, h, hsplit⟩ | hsplit
  · rw [hsplit]
    simpa using And.intro h.key_eq h.closed
  · rw [hsplit]
    simp [keyOf, brackets]

/-- **Splitting a key undoes bracketing.**  A key that is made up of a name and one segment or more in
brackets is split into them, and no other name and segments make it up; any other key is a name as a
whole. -/
theorem splitKey_exact (key : String) :
    (∀ name segments, IsBracketed key name segments →
      splitKey key.toList = (name.toList, segments.map String.toList) ∧
        ∀ name' segments', IsBracketed key name' segments' → name' = name ∧ segments' = segments) ∧
    ((∀ name segments, ¬ IsBracketed key name segments) → splitKey key.toList = (key.toList, [])) := by
  refine ⟨fun name segments h => ⟨h.splitKey_eq, fun name' segments' h' => ?_⟩, fun hnone => ?_⟩
  · obtain ⟨hname, hsegments⟩ := Prod.mk.inj (h'.splitKey_eq.symm.trans h.splitKey_eq)
    exact ⟨String.toList_inj.mp hname,
      (List.map_inj_right fun _ _ => String.toList_inj.mp).mp hsegments⟩
  · rcases splitKey_cases key with ⟨name, segments, h, -⟩ | hsplit
    · exact absurd h (hnone name segments)
    · exact hsplit

/-- Brackets that open in a segment or close in the name belong to them; what follows the last segment
leaves the key whole. -/
theorem splitKey_nested :
    (IsBracketed "a]b[c[d][]" "a]b" ["c[d", ""] ∧
      splitKey "a]b[c[d][]".toList = ("a]b".toList, ["c[d".toList, "".toList])) ∧
    (∀ name segments, ¬ IsBracketed "filter[a]b" name segments) ∧
    splitKey "filter[a]b".toList = ("filter[a]b".toList, []) := by
  have hbracketed : IsBracketed "a]b[c[d][]" "a]b" ["c[d", ""] :=
    ⟨by decide, by decide, by decide, by decide⟩
  have hwhole : splitKey "filter[a]b".toList = ("filter[a]b".toList, []) := by decide
  have hnone : ∀ name segments, ¬ IsBracketed "filter[a]b" name segments := by
    intro name segments h
    have hsplit := ((splitKey_exact "filter[a]b").1 name segments h).1
    rw [hwhole] at hsplit
    exact h.nonempty (List.map_eq_nil_iff.mp (Prod.mk.inj hsplit).2.symm)
  exact ⟨⟨hbracketed, ((splitKey_exact _).1 _ _ hbracketed).1⟩, hnone, (splitKey_exact _).2 hnone⟩

end QueryString

end ResourceQuery
