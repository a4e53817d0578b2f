import ResourceQuery.Proofs.Request.Spelling

/-!
# Request — the order of a query string

Reading a query string is one fold over its pairs that stops at the first error (`gather`).  Each pair
concerns one parameter, that of its name, so two pairs with different names can be read in either order:
each parameter has its own part of the request, and only pages can be wrong (`gather_comm`).  What is
read therefore depends on the order of the pairs with the same name alone (`Reordered.foldl_eq`).

* `Reordered`: a rearrangement that keeps the order of what has the same label.
* `name_of_ofPair`, `name_of_error`: the name of a key decides which parameter it can be, and which
  error.
* `pairs_eq_segmentsOf`, `pairs_joinWith`: a query string is decoded segment by segment.
* `ofQueryString_reordered`: rearranged segments are read alike.
-/

namespace ResourceQuery

/-! ### Rearrangements -/

section

variable {α β γ : Type} [DecidableEq γ] {label : α → γ} {l l' : List α}

/-- The items are the same, and those with one label stand in the same order. -/
structure Reordered (label : α → γ) (l l' : List α) : Prop where
  perm  : l.Perm l'
  order : ∀ a ∈ l, l.filter (fun b => label b = label a) = l'.filter (fun b => label b = label a)

namespace Reordered

instance [DecidableEq α] : Decidable (Reordered label l l') :=
  decidable_of_iff (l.Perm l' ∧ ∀ a ∈ l,
      l.filter (fun b => label b = label a) = l'.filter (fun b => label b = label a))
    ⟨fun h => ⟨h.1, h.2⟩, fun h => ⟨h.perm, h.order⟩⟩

/-- A part of a list is reordered with it. -/
theorem filter (h : Reordered label l l') (p : α → Bool) :
    Reordered label (l.filter p) (l'.filter p) where
  perm         := h.perm.filter p
  order a hmem := by
    rw [List.filter_filter, List.filter_filter]
    simp only [Bool.and_comm _ (p _)]
    rw [← List.filter_filter, ← List.filter_filter, h.order a (List.mem_filter.mp hmem).1]

/-- Items are reordered as what they are made from. -/
theorem map {f : β → α} {l l' : List β} (h : Reordered (fun b => label (f b)) l l') :
    Reordered label (l.map f) (l'.map f) where
  perm         := h.perm.map f
  order a hmem := by
    obtain ⟨b, hb, rfl⟩ := List.mem_map.mp hmem
    rw [List.filter_map, List.filter_map]
    exact congrArg (List.map f) (h.order b hb)

/-- The first item of one list can be taken out of the other: before it there is none with its
label. -/
theorem exists_of_cons {a : α} (h : Reordered label (a :: l) l') :
    ∃ before after, l' = before ++ a :: after ∧ (∀ b ∈ before, label b ≠ label a) ∧
      Reordered label l (before ++ after) := by
  have hsame : l'.filter (fun b => label b = label a) =
      a :: l.filter (fun b => label b = label a) := by
    rw [← h.order a List.mem_cons_self]
    exact List.filter_cons_of_pos (decide_eq_true rfl)
  obtain ⟨before, after, rfl, hbefore, -, hafter⟩ := List.filter_eq_cons_iff.mp hsame
  have hother : ∀ b ∈ before, label b ≠ label a := fun b hb =>
    of_decide_eq_false (Bool.eq_false_iff.mpr (hbefore b hb))
  refine ⟨before, after, rfl, hother, ⟨(h.perm.trans List.perm_middle).cons_inv, fun b hb => ?_⟩⟩
  by_cases hlabel : label a = label b
  · have hnone : before.filter (fun c => label c = label b) = [] :=
      List.filter_eq_nil_iff.mpr fun c hc => by simpa [← hlabel] using hother c hc
    rw [List.filter_append, hnone, List.nil_append, ← hlabel, hafter]
  · have horder := h.order b (List.mem_cons_of_mem a hb)
    rw [List.filter_append, List.filter_cons_of_neg (by simpa using hlabel),
      List.filter_cons_of_neg (by simpa using hlabel)] at horder
    rw [horder, List.filter_append]

omit [DecidableEq γ] in
/-- A step that can be exchanged with those of other labels can be taken first. -/
theorem foldl_cons_of_comm {step : β → α → β} {a : α}
    (hcomm : ∀ b s, label b ≠ label a → step (step s b) a = step (step s a) b)
    {before : List α} (hbefore : ∀ b ∈ before, label b ≠ label a) (s : β) :
    step (before.foldl step s) a = before.foldl step (step s a) := by
  induction before generalizing s with
  | nil => rfl
  | cons b before ih =>
      obtain ⟨hb, hrest⟩ := List.forall_mem_cons.mp hbefore
      rw [List.foldl_cons, List.foldl_cons, ih hrest, hcomm b s hb]

/-- If steps of different labels can be exchanged, a fold depends on the order within each label
only. -/
theorem foldl_eq {step : β → α → β}
    (hcomm : ∀ a b s, label a ≠ label b → step (step s a) b = step (step s b) a)
    (h : Reordered label l l') (s : β) : l.foldl step s = l'.foldl step s := by
  induction l generalizing l' s with
  | nil => rw [h.perm.nil_eq]
  | cons a l ih =>
      obtain ⟨before, after, rfl, hbefore, hrest⟩ := h.exists_of_cons
      calc (a :: l).foldl step s
        _ = (before ++ after).foldl step (step s a) := ih hrest (step s a)
        _ = after.foldl step (step (before.foldl step s) a) := by
            rw [List.foldl_append, foldl_cons_of_comm (fun b s hb => hcomm b a s hb) hbefore]
        _ = (before ++ a :: after).foldl step s := by rw [List.foldl_append, List.foldl_cons]

end Reordered

end

/-! ### The pairs of a query string -/

namespace QueryString

/-- The segments of a query string, empty ones included. -/
def segmentsOf (query : String) : List String :=
  Text.split '&' (String.ofList (query.toList.dropWhile (· = '?')))

/-- The key and the value of a segment. -/
def segmentPair (segment : String) : String × String :=
  let (key, value) := Text.Form.pair segment.toList
  (String.ofList key, String.ofList value)

/-- The part of a key before its first bracket. -/
def keyName (key : String) : String :=
  String.ofList (stem key.toList)

/-- The name of the key of a segment. -/
def segmentName (segment : String) : String :=
  keyName (segmentPair segment).1

/-- The conditions on the segments of a query string: none holds the separator or starts with a
question mark. -/
def IsSegment (segment : String) : Prop :=
  '&' ∉ segment.toList ∧ segment.toList.head? ≠ some '?'

instance (segment : String) : Decidable (IsSegment segment) :=
  inferInstanceAs (Decidable (_ ∧ _))

/-- There is no question mark to strip in front of segments. -/
theorem dropWhile_joinWith {segments : List String} (h : ∀ s ∈ segments, IsSegment s) :
    (Text.joinWith "&" segments).toList.dropWhile (· = '?') =
      (Text.joinWith "&" segments).toList := by
  have hhead : (Text.joinWith "&" segments).toList.head? ≠ some '?' := by
    cases segments with
    | nil => simp
    | cons s rest =>
        have hs := (h s List.mem_cons_self).2
        cases rest with
        | nil => exact hs
        | cons t rest =>
            rw [Text.joinWith_cons_cons, String.toList_append, String.toList_append,
              List.append_assoc]
            cases hchars : s.toList with
            | nil => simp
            | cons c cs => simpa [hchars] using hs
  cases hchars : (Text.joinWith "&" segments).toList with
  | nil => rfl
  | cons c cs => simpa [hchars] using hhead

/-- A query string is decoded segment by segment. -/
theorem pairs_eq_segmentsOf (query : String) :
    pairs query = ((segmentsOf query).filter fun s => !s.toList.isEmpty).map segmentPair := by
  rw [pairs, Text.Form.pairs, segmentsOf, Text.split, String.toList_ofList, List.filter_map,
    List.map_map, List.map_map]
  simp [Function.comp_def, segmentPair]

/-- Segments that are joined by ampersands are found again. -/
theorem segmentsOf_joinWith {segments : List String} (h : ∀ s ∈ segments, IsSegment s)
    (hne : segments ≠ []) : segmentsOf (Text.joinWith "&" segments) = segments := by
  rw [segmentsOf, dropWhile_joinWith h, String.ofList_toList]
  exact Text.split_joinWith (fun s hs => (h s hs).1) hne

/-- The pairs of segments that are joined are theirs, if they are not empty. -/
theorem pairs_joinWith {segments : List String} (h : ∀ s ∈ segments, IsSegment s) :
    pairs (Text.joinWith "&" segments) =
      (segments.filter fun s => !s.toList.isEmpty).map segmentPair := by
  cases segments with
  | nil => rfl
  | cons s rest => rw [pairs_eq_segmentsOf, segmentsOf_joinWith h (List.cons_ne_nil s rest)]

/-! ### Reading pair by pair -/

/-- What is gathered after one more pair. -/
def gather (gathered : Except QueryStringError (Params × PageParts)) (pair : String × String) :
    Except QueryStringError (Params × PageParts) := do
  let before ← gathered
  let parameter ← Parameter.ofPair pair.1 pair.2
  return parameter.elim before (Parameter.apply before)

section

variable {key value : String} {before : Params × PageParts}

theorem gather_ok {parameter : Option Parameter} (h : Parameter.ofPair key value = .ok parameter) :
    gather (.ok before) (key, value) = .ok (parameter.elim before (Parameter.apply before)) := by
  simp [gather, h, bind, Except.bind, pure, Except.pure]

theorem gather_error {e : QueryStringError} (h : Parameter.ofPair key value = .error e) :
    gather (.ok before) (key, value) = .error e := by
  simp [gather, h, bind, Except.bind]

end

/-- After an error nothing is gathered. -/
theorem foldl_gather_error (ps : List (String × String)) (e : QueryStringError) :
    ps.foldl gather (.error e) = .error e := by
  induction ps with
  | nil => rfl
  | cons p ps ih => exact ih

/-- Pairs are gathered as the parameters that they are read as, up to the first error. -/
theorem foldl_gather (ps : List (String × String)) (before : Params × PageParts) :
    ps.foldl gather (.ok before) =
      (parameters ps).map fun params => params.foldl Parameter.apply before := by
  induction ps generalizing before with
  | nil => rfl
  | cons p ps ih =>
      obtain ⟨key, value⟩ := p
      rw [List.foldl_cons]
      cases hread : Parameter.ofPair key value with
      | error e =>
          have hfail : parameters ((key, value) :: ps) = .error e :=
            bind_eq_error.mpr (.inl hread)
          rw [gather_error hread, foldl_gather_error, hfail]
          rfl
      | ok parameter =>
          rw [gather_ok hread, ih, parameters_cons_of_ok hread]
          cases parameters ps <;> cases parameter <;> rfl

/-! ### Each parameter has its own part of the request -/

/-- The name under which a parameter is written. -/
def Parameter.name : Parameter → String
  | .includes ..  => "include"
  | .sort ..      => "sort"
  | .group ..     => "group"
  | .fields ..    => "fields"
  | .equality ..  => "filter"
  | .typed ..     => "filter"
  | .page ..      => "page"

theorem Parameter.name_mem (p : Parameter) : p.name ∈ parameterNames := by
  cases p <;> simp [name, parameterNames]

/-- Parameters of different names can be applied in either order. -/
theorem Parameter.apply_comm {p q : Parameter} (h : p.name ≠ q.name)
    (before : Params × PageParts) : apply (apply before p) q = apply (apply before q) p := by
  cases p <;> cases q <;> first | rfl | exact absurd rfl h

/-- A key that is split into a parameter's name and segments has that name before its first bracket. -/
theorem keyName_of_splitKey {key name : String} (hname : name ∈ parameterNames)
    (h : String.ofList (splitKey key.toList).1 = name) : keyName key = name := by
  rw [splitKey] at h
  split at h
  case h_1 => exact h
  case h_2 =>
    rw [String.ofList_toList] at h
    rw [h, keyName, stem_parameterName name hname, String.ofList_toList]

/-- The name of a key decides which parameter it can be. -/
theorem name_of_ofPair {key value : String} {p : Parameter}
    (h : Parameter.ofPair key value = .ok (some p)) : keyName key = p.name := by
  rw [Parameter.ofPair] at h
  simp only at h
  split at h
  case h_6 hname _ =>
    obtain ⟨op, -, rfl⟩ := Option.map_eq_some_iff.mp (Except.ok.inj h)
    exact keyName_of_splitKey (Parameter.name_mem _) hname
  case h_7 hname _ =>
    split at h
    case h_1 =>
      obtain ⟨part, -, rfl⟩ := Option.map_eq_some_iff.mp (Except.ok.inj h)
      exact keyName_of_splitKey (Parameter.name_mem _) hname
    case h_2 => cases h
  case h_8 => cases h
  all_goals
    next hname _ =>
      cases h
      exact keyName_of_splitKey (Parameter.name_mem _) hname

/-- Only pages can be wrong. -/
theorem name_of_error {key value : String} {e : QueryStringError}
    (h : Parameter.ofPair key value = .error e) : keyName key = "page" := by
  rw [Parameter.ofPair] at h
  simp only at h
  split at h
  case h_7 hname _ => exact keyName_of_splitKey (by decide) hname
  all_goals cases h

/-- Pairs with different names can be read in either order. -/
theorem gather_comm {p q : String × String} (h : keyName p.1 ≠ keyName q.1)
    (gathered : Except QueryStringError (Params × PageParts)) :
    gather (gather gathered p) q = gather (gather gathered q) p := by
  obtain ⟨key, value⟩ := p
  obtain ⟨key', value'⟩ := q
  cases gathered with
  | error e => rfl
  | ok before =>
      cases hp : Parameter.ofPair key value with
      | error e =>
          cases hq : Parameter.ofPair key' value' with
          -- two pairs that both fail are page parts, which have the same name
          | error e' => exact absurd ((name_of_error hp).trans (name_of_error hq).symm) h
          | ok second =>
              rw [gather_ok hq, gather_error hp, gather_error hp]
              rfl
      | ok first =>
          cases hq : Parameter.ofPair key' value' with
          | error e =>
              rw [gather_ok hp, gather_error hq, gather_error hq]
              rfl
          | ok second =>
              rw [gather_ok hp, gather_ok hq, gather_ok hq, gather_ok hp]
              cases first with
              | none => rfl
              | some first =>
                  cases second with
                  | none => rfl
                  | some second =>
                      rw [name_of_ofPair hp, name_of_ofPair hq] at h
                      exact congrArg Except.ok (Parameter.apply_comm h before)

end QueryString

namespace Params

open QueryString

/-- A query string is gathered from its pairs, and then its page is put together. -/
theorem ofQueryString_eq (query : String) :
    ofQueryString query = ((pairs query).foldl gather (.ok ({}, {}))) >>= fun gathered => do
      return { gathered.1 with page := ← gathered.2.toRequest? } := by
  rw [foldl_gather, ofQueryString]
  cases parameters (pairs query) <;> rfl

/-- **The order of a query string matters within each name only.**  If its segments are rearranged
so that those whose keys have the same name before the first bracket keep their order, the same request
is read, with its lists, maps and clauses in the same order, or the same error. -/
theorem ofQueryString_reordered {segments segments' : List String}
    (hsegments : ∀ s ∈ segments, IsSegment s) (h : Reordered segmentName segments segments') :
    ofQueryString (Text.joinWith "&" segments) = ofQueryString (Text.joinWith "&" segments') := by
  have hsegments' : ∀ s ∈ segments', IsSegment s := fun s hs =>
    hsegments s (h.perm.mem_iff.mpr hs)
  have hpairs : Reordered (fun p => keyName p.1) (pairs (Text.joinWith "&" segments))
      (pairs (Text.joinWith "&" segments')) := by
    rw [pairs_joinWith hsegments, pairs_joinWith hsegments']
    exact .map (h.filter _)
  rw [ofQueryString_eq, ofQueryString_eq,
    hpairs.foldl_eq fun p q gathered hne => gather_comm hne gathered]

/-- Two filters and a page in two parts among others, an empty segment and a key that is no
parameter's. -/
theorem ofQueryString_interleaved :
    let segments := ["sort=title", "page[size]=2", "filter[title]=a", "",
      "filter%5Blike][title]=b", "page[number]=3", "x%5B=1"]
    let segments' := ["filter[title]=a", "x%5B=1", "page[size]=2", "filter%5Blike][title]=b",
      "page[number]=3", "sort=title", ""]
    (∀ s ∈ segments, IsSegment s) ∧ Reordered segmentName segments segments' ∧
      ofQueryString (Text.joinWith "&" segments) = ofQueryString (Text.joinWith "&" segments') :=
  ⟨by decide +kernel, by decide +kernel,
    ofQueryString_reordered (by decide +kernel) (by decide +kernel)⟩

/-- Under one name the order does matter. -/
example : (ofQueryString "sort=a&sort=b").map Params.sort = .ok ["a", "b"] ∧
    (ofQueryString "sort=b&sort=a").map Params.sort = .ok ["b", "a"] := by
  decide +kernel

end Params

end ResourceQuery
