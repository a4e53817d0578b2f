import ResourceQuery.Proofs.Request.Unknown

/-!
# Request — brackets without a partner

Read from left to right, an opening bracket waits for its partner, and a closing bracket is the partner
of the one that was opened last (`depth?`).  A key in which some bracket has no partner is meant to be a
name as a whole.  But a segment ends at the first closing bracket, whatever was opened in it, and a name
ends at the first opening one.  So the brackets of a key that is split have partners only if there are
none in its name and its segments (`isPaired_keyOf`).

* `unpaired_whole_iff`: when a key whose brackets have no partners is left whole, and when its pair is
  ignored.
* `not_unpaired_whole`: a filter on a key with an opening bracket.
-/

namespace ResourceQuery

namespace QueryString

/-! ### Partners -/

/-- The number of brackets that wait for a partner after a text, `depth` of them since before; nothing
if a bracket closes for which none is open. -/
def depth? : Nat → List Char → Option Nat
  | depth,     []        => some depth
  | depth,     '[' :: cs => depth? (depth + 1) cs
  | 0,         ']' :: _  => none
  | depth + 1, ']' :: cs => depth? depth cs
  | depth,     _ :: cs   => depth? depth cs

/-- Every bracket of the key has a partner. -/
def IsPaired (key : String) : Prop :=
  depth? 0 key.toList = some 0

instance : DecidablePred IsPaired := fun key =>
  inferInstanceAs (Decidable (depth? 0 key.toList = some 0))

variable {key name value : String} {segments : List String} {cs rest : List Char} {depth : Nat}

/-- A character that is no bracket does not change the depth. -/
theorem depth?_plain {c : Char} (hopen : c ≠ '[') (hclose : c ≠ ']') (depth : Nat)
    (cs : List Char) : depth? depth (c :: cs) = depth? depth cs := by
  cases depth <;> simp [depth?, hclose]

/-- Without closing brackets, all that open wait. -/
theorem depth?_append (h : ']' ∉ cs) (depth : Nat) (rest : List Char) :
    depth? depth (cs ++ rest) = depth? (depth + cs.count '[') rest := by
  induction cs generalizing depth with
  | nil => rfl
  | cons c cs ih =>
      obtain ⟨hclose, hcs⟩ := not_or.mp (mt List.mem_cons.mpr h)
      by_cases hopen : c = '['
      · subst hopen
        rw [List.cons_append, depth?, ih hcs, List.count_cons_self, Nat.add_right_comm,
          Nat.add_assoc]
      · rw [List.cons_append, depth?_plain hopen (Ne.symm hclose), ih hcs,
          List.count_cons_of_ne hopen]

/-- The first closing bracket without a partner ends the reading. -/
theorem depth?_closing (hopen : '[' ∉ cs) (hclose : ']' ∈ cs) (rest : List Char) :
    depth? 0 (cs ++ rest) = none := by
  induction cs with
  | nil => cases hclose
  | cons c cs ih =>
      obtain ⟨hc, hcs⟩ := not_or.mp (mt List.mem_cons.mpr hopen)
      by_cases he : c = ']'
      · subst he
        rfl
      · rw [List.cons_append, depth?_plain (Ne.symm hc) he]
        exact ih hcs ((List.mem_cons.mp hclose).resolve_left (Ne.symm he))

/-- Segments in brackets leave waiting what opens in them. -/
theorem depth?_brackets (h : ∀ s ∈ segments, ']' ∉ s.toList) (depth : Nat) :
    depth? depth (brackets segments) =
      some (depth + (segments.map fun s => s.toList.count '[').sum) := by
  induction segments generalizing depth with
  | nil => rfl
  | cons s segments ih =>
      obtain ⟨hs, hsegments⟩ := List.forall_mem_cons.mp h
      rw [brackets, depth?, depth?_append hs, Nat.add_right_comm, depth?, ih hsegments,
        List.map_cons, List.sum_cons, Nat.add_assoc]

/-- A name and its segments are paired if there are no brackets in them. -/
theorem isPaired_keyOf (hname : '[' ∉ name.toList) (h : ∀ s ∈ segments, ']' ∉ s.toList) :
    IsPaired (keyOf name segments) ↔ ']' ∉ name.toList ∧ ∀ s ∈ segments, '[' ∉ s.toList := by
  rw [IsPaired, keyOf, String.toList_ofList]
  by_cases hclose : ']' ∈ name.toList
  · simp [depth?_closing hname hclose, hclose]
  · rw [depth?_append hclose, depth?_brackets h, List.count_eq_zero_of_not_mem hname]
    simp [hclose, List.sum_eq_zero_iff_forall_eq_nat, List.count_eq_zero]

/-- A single segment behind a name without brackets is paired if nothing opens in it. -/
theorem isPaired_single {segment : String} (hname : '[' ∉ name.toList ∧ ']' ∉ name.toList)
    (closed : ']' ∉ segment.toList) : IsPaired (keyOf name [segment]) ↔ '[' ∉ segment.toList := by
  simp [isPaired_keyOf hname.1 (List.forall_mem_singleton.mpr closed), hname.2]

/-- The key of a typed clause is paired unless its last segment opens a bracket. -/
theorem isPaired_typed (op : FilterOperator) {segment : String} (closed : ']' ∉ segment.toList) :
    IsPaired (keyOf "filter" [op.name, segment]) ↔ '[' ∉ segment.toList := by
  have hop : '[' ∉ op.name.toList ∧ ']' ∉ op.name.toList := by cases op <;> decide
  have hclosed : ∀ s ∈ [op.name, segment], ']' ∉ s.toList :=
    List.forall_mem_cons.mpr ⟨hop.2, List.forall_mem_singleton.mpr closed⟩
  have hname : '[' ∉ "filter".toList := by decide
  rw [isPaired_keyOf hname hclosed]
  simp [hop.1]

/-! ### Keys that are split all the same -/

/-- The key of a fieldset, a filter or a page whose last segment holds an opening bracket. -/
inductive HoldsOpening : String → Prop where
  | fields {key : String} (closed : ']' ∉ key.toList) (opens : '[' ∈ key.toList) :
      HoldsOpening (keyOf "fields" [key])
  | equality {key : String} (closed : ']' ∉ key.toList) (opens : '[' ∈ key.toList) :
      HoldsOpening (keyOf "filter" [key])
  | typed (op : FilterOperator) {key : String} (closed : ']' ∉ key.toList)
      (opens : '[' ∈ key.toList) : HoldsOpening (keyOf "filter" [op.name, key])
  | page {part : String} (closed : ']' ∉ part.toList) (opens : '[' ∈ part.toList) :
      HoldsOpening (keyOf "page" [part])

/-- A key that holds an opening bracket in a segment is not paired. -/
theorem HoldsOpening.not_isPaired (h : HoldsOpening key) : ¬ IsPaired key := by
  cases h with
  | fields closed opens | equality closed opens | page closed opens =>
      rw [isPaired_single (by decide) closed]
      exact not_not_intro opens
  | typed op closed opens =>
      rw [isPaired_typed op closed]
      exact not_not_intro opens

/-- The pair of such a key is a parameter, or its number is missing. -/
theorem HoldsOpening.exists_ofPair (h : HoldsOpening key) :
    ∃ value, Parameter.ofPair key value ≠ .ok none := by
  refine ⟨"", ?_⟩
  cases h with
  | fields closed opens =>
      rw [ofPair_fields closed]
      simp
  | equality closed opens =>
      rw [ofPair_equality closed]
      simp
  | typed op closed opens =>
      have hop : ']' ∉ op.name.toList := by cases op <;> decide
      rw [ofPair_typed hop closed, FilterOperator.ofName?_name]
      simp
  | @page part closed opens =>
      have herror : Parameter.ofPair (keyOf "page" [part]) "" = .error (.invalidNumber _ "") :=
        ofPair_eq_error.mpr ⟨⟨⟨part, closed, rfl⟩, rfl⟩, rfl⟩
      rw [herror]
      simp

/-- An unpaired key is a parameter's only if its last segment holds an opening bracket. -/
theorem IsParameterKey.holdsOpening (h : IsParameterKey key) (hkey : ¬ IsPaired key) :
    HoldsOpening key := by
  cases h with
  | includes | sort | group => exact absurd (by decide) hkey
  | fields closed =>
      rw [isPaired_single (by decide) closed, not_not] at hkey
      exact .fields closed hkey
  | equality closed =>
      rw [isPaired_single (by decide) closed, not_not] at hkey
      exact .equality closed hkey
  | typed op closed =>
      rw [isPaired_typed op closed, not_not] at hkey
      exact .typed op closed hkey
  | page part => cases part <;> exact absurd (by decide) hkey

/-- A key with unpaired brackets is ignored, unless a segment of it holds an opening one. -/
theorem ofPair_unpaired (hkey : ¬ IsPaired key) (h : ¬ HoldsOpening key) (value : String) :
    Parameter.ofPair key value = .ok none := by
  cases hread : Parameter.ofPair key value with
  | error e =>
      obtain ⟨⟨⟨part, closed, rfl⟩, -⟩, -⟩ := ofPair_eq_error.mp hread
      rw [isPaired_single (by decide) closed, not_not] at hkey
      exact absurd (.page closed hkey) h
  | ok read =>
      cases read with
      | none => rfl
      | some p => exact absurd ((isParameterKey_of_ofPair hread).holdsOpening hkey) h

/-- **When a key whose brackets have no partners is left whole.**  It is, unless it is made up of a name
and segments in brackets and the brackets without partners are closing ones in the name or opening ones
in the segments.  Its pair is ignored, unless it is the key of a fieldset, a filter or a page and they
are opening ones in the last segment. -/
theorem unpaired_whole_iff (key : String) :
    ((¬ IsPaired key → splitKey key.toList = (key.toList, [])) ↔
      ∀ name segments, IsBracketed key name segments →
        ']' ∉ name.toList ∧ ∀ s ∈ segments, '[' ∉ s.toList) ∧
    ((¬ IsPaired key → ∀ value, Parameter.ofPair key value = .ok none) ↔ ¬ HoldsOpening key) := by
  refine ⟨⟨fun hwhole name segments h => ?_, fun hplain hkey => ?_⟩, fun hignored h => ?_,
    fun h hkey => ofPair_unpaired hkey h⟩
  · by_contra hstray
    have hkey : ¬ IsPaired key := by
      rwa [h.key_eq, isPaired_keyOf h.name h.closed]
    have hsplit := h.splitKey_eq.symm.trans (hwhole hkey)
    exact h.nonempty (List.map_eq_nil_iff.mp (Prod.mk.inj hsplit).2)
  · rcases splitKey_cases key with ⟨name, segments, h, -⟩ | hsplit
    · refine absurd ?_ hkey
      rw [h.key_eq, isPaired_keyOf h.name h.closed]
      exact hplain name segments h
    · exact hsplit
  · obtain ⟨value, hvalue⟩ := h.exists_ofPair
    exact hvalue (hignored h.not_isPaired value)

/-- The second bracket opens in the segment, and has no partner. -/
theorem not_unpaired_whole :
    ¬ IsPaired "filter[a[b]" ∧ splitKey "filter[a[b]".toList = ("filter".toList, ["a[b".toList]) ∧
      Params.ofQueryString "filter[a[b]=1" =
        .ok { filter := ⟨[.equality "a[b" (.single "1")]⟩ } := by
  refine ⟨by decide, by decide, rfl⟩

end QueryString

end ResourceQuery
