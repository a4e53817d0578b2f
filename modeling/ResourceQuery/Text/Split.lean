/-!
# Text — splitting and joining

Texts are cut at a separator character and glued together with a separator text.  Cutting works
on `List Char` and recurses on the text, so that facts about the pieces are proved by induction.

* `splitOn_ne_nil`: a cut text has at least one piece.
* `splitOn_of_not_mem`: a text without separators is one piece.
* `exists_splitOn_of_mem`: a text with a separator has two pieces or more.
* `not_mem_of_mem_splitOn`: no piece has a separator.
* `flatten_splitOn`, `mem_of_mem_splitOn`: the pieces have the other characters, in order.
* `splitOn_append`, `splitFirst_append`: a piece without separators before a separator is the first.
* `exists_last_of_mem`, `exists_concat_of_split`: a text with a separator has a last one.
* `splitOn_concat`, `split_concat`: a piece without separators behind a separator is the last.
* `mem_splitOn_iff`: the pieces are what stands between separators that follow one another.
* `forall_mem_splitOn_eq_nil`, `getLast?_splitOn_eq_nil`: when all pieces are empty, and when the last is.
* `joinWith_cons_cons`: gluing puts the separator between two neighbours and nowhere else.
* `splitOn_joinWith`, `split_joinWith`: what is glued from pieces without separators is cut into them.
* `joinWith_split`: what a text is cut into is glued to the text.
* `dropLead_eq_some`, `dropTail_eq_some`: what is left of a text without its lead or its tail.
-/

namespace ResourceQuery.Text

/-- The pieces of a text between the occurrences of `sep`, empty ones included. -/
def splitOn (sep : Char) : List Char → List (List Char)
  | []      => [[]]
  | c :: cs =>
    if c = sep then [] :: splitOn sep cs
    else
      match splitOn sep cs with
      | []            => [[c]]
      | piece :: rest => (c :: piece) :: rest

/-- There is always a first piece. -/
theorem splitOn_ne_nil (sep : Char) (cs : List Char) : splitOn sep cs ≠ [] := by
  cases cs with
  | nil => simp [splitOn]
  | cons c cs =>
    unfold splitOn
    split
    · simp
    · split <;> simp

/-- A text without the separator is one piece. -/
theorem splitOn_of_not_mem {sep : Char} {cs : List Char} (h : sep ∉ cs) : splitOn sep cs = [cs] := by
  induction cs with
  | nil => rfl
  | cons c cs ih =>
    have hc : c ≠ sep := fun e => h (e ▸ List.mem_cons_self)
    rw [splitOn, if_neg hc, ih fun hcs => h (List.mem_cons_of_mem c hcs)]

/-- A text with the separator has at least two pieces. -/
theorem exists_splitOn_of_mem {sep : Char} {cs : List Char} (h : sep ∈ cs) :
    ∃ first second rest, splitOn sep cs = first :: second :: rest := by
  induction cs with
  | nil => cases h
  | cons c cs ih =>
    rw [splitOn]
    split
    case isTrue =>
      obtain ⟨second, rest, hrest⟩ := List.exists_cons_of_ne_nil (splitOn_ne_nil sep cs)
      exact ⟨[], second, rest, by rw [hrest]⟩
    case isFalse hc =>
      obtain ⟨first, second, rest, hrest⟩ := ih ((List.mem_cons.mp h).resolve_left (Ne.symm hc))
      exact ⟨c :: first, second, rest, by rw [hrest]⟩

/-- No piece has the separator in it. -/
theorem not_mem_of_mem_splitOn {sep : Char} {piece cs : List Char} (h : piece ∈ splitOn sep cs) :
    sep ∉ piece := by
  induction cs generalizing piece with
  | nil =>
    rw [List.mem_singleton.mp h]
    exact List.not_mem_nil
  | cons c cs ih =>
    rw [splitOn] at h
    split at h
    case isTrue =>
      rcases List.mem_cons.mp h with rfl | h
      · exact List.not_mem_nil
      · exact ih h
    case isFalse hc =>
      obtain ⟨first, rest, hsplit⟩ := List.exists_cons_of_ne_nil (splitOn_ne_nil sep cs)
      rw [hsplit] at h ih
      rcases List.mem_cons.mp h with rfl | h
      · exact List.not_mem_cons_of_ne_of_not_mem (Ne.symm hc) (ih List.mem_cons_self)
      · exact ih (List.mem_cons_of_mem first h)

/-- The pieces together are the text without its separators. -/
theorem flatten_splitOn (sep : Char) (cs : List Char) :
    (splitOn sep cs).flatten = cs.filter (· != sep) := by
  induction cs with
  | nil => rfl
  | cons c cs ih =>
    rw [splitOn]
    split
    case isTrue hc => simp [hc, ih]
    case isFalse hc =>
      obtain ⟨first, rest, hsplit⟩ := List.exists_cons_of_ne_nil (splitOn_ne_nil sep cs)
      rw [hsplit] at ih ⊢
      simpa [hc] using ih

/-- The characters of a piece are characters of the text. -/
theorem mem_of_mem_splitOn {sep c : Char} {piece cs : List Char} (h : piece ∈ splitOn sep cs)
    (hc : c ∈ piece) : c ∈ cs := by
  have hflat : c ∈ (splitOn sep cs).flatten := List.mem_flatten_of_mem h hc
  rw [flatten_splitOn] at hflat
  exact (List.mem_filter.mp hflat).1

/-- A text in front of a separator without one of its own is the first piece. -/
theorem splitOn_append {sep : Char} {piece : List Char} (h : sep ∉ piece) (cs : List Char) :
    splitOn sep (piece ++ sep :: cs) = piece :: splitOn sep cs := by
  induction piece with
  | nil => rw [List.nil_append, splitOn, if_pos rfl]
  | cons c piece ih =>
    obtain ⟨hc, hpiece⟩ := not_or.mp (mt List.mem_cons.mpr h)
    rw [List.cons_append, splitOn, if_neg (Ne.symm hc), ih hpiece]

/-- What stands behind the last separator of a text. -/
theorem exists_last_of_mem {sep : Char} {cs : List Char} (h : sep ∈ cs) :
    ∃ before after, cs = before ++ sep :: after ∧ sep ∉ after := by
  induction cs with
  | nil => cases h
  | cons c cs ih =>
    by_cases hcs : sep ∈ cs
    · obtain ⟨before, after, rfl, hafter⟩ := ih hcs
      exact ⟨c :: before, after, rfl, hafter⟩
    · obtain rfl := (List.mem_cons.mp h).resolve_right hcs
      exact ⟨[], cs, rfl, hcs⟩

/-- A text behind a separator without one of its own is the last piece. -/
theorem splitOn_concat {sep : Char} {piece : List Char} (h : sep ∉ piece) (cs : List Char) :
    splitOn sep (cs ++ sep :: piece) = splitOn sep cs ++ [piece] := by
  induction cs with
  | nil => simp [splitOn, splitOn_of_not_mem h]
  | cons c cs ih =>
    obtain ⟨first, rest, hsplit⟩ := List.exists_cons_of_ne_nil (splitOn_ne_nil sep cs)
    rw [List.cons_append, splitOn, splitOn, ih, hsplit]
    split <;> rfl

/-- All pieces are empty when there is nothing but separators. -/
theorem forall_mem_splitOn_eq_nil {sep : Char} {cs : List Char} :
    (∀ piece ∈ splitOn sep cs, piece = []) ↔ ∀ c ∈ cs, c = sep := by
  induction cs with
  | nil => simp [splitOn]
  | cons c cs ih =>
    rw [List.forall_mem_cons, ← ih, splitOn]
    split
    case isTrue hc => simp [hc]
    case isFalse hc =>
      obtain ⟨first, rest, hsplit⟩ := List.exists_cons_of_ne_nil (splitOn_ne_nil sep cs)
      rw [hsplit]
      exact iff_of_false (fun h => List.cons_ne_nil c first (h _ List.mem_cons_self))
        fun h => hc h.1

/-- The last piece is empty when the text is or ends in a separator. -/
theorem getLast?_splitOn_eq_nil {sep : Char} {cs : List Char} :
    (splitOn sep cs).getLast? = some [] ↔ cs = [] ∨ cs.getLast? = some sep := by
  by_cases h : sep ∈ cs
  · obtain ⟨before, after, rfl, hafter⟩ := exists_last_of_mem h
    rw [splitOn_concat hafter, List.getLast?_concat, Option.some.injEq, List.getLast?_append,
      or_iff_right (by simp)]
    cases after with
    | nil => simp
    | cons c after =>
      refine iff_of_false (List.cons_ne_nil c after) fun hlast => hafter ?_
      rw [List.getLast?_cons_cons, List.getLast?_cons, Option.some_or, ← List.getLast?_cons] at hlast
      exact List.mem_of_getLast? hlast
  · rw [splitOn_of_not_mem h, List.getLast?_singleton, Option.some.injEq]
    exact (or_iff_left fun hlast => h (List.mem_of_getLast? hlast)).symm

/-- A piece with a separator behind it is read from the first character on. -/
theorem piece_prefix_iff {sep c : Char} {piece cs : List Char} (h : sep ∉ piece) :
    piece ++ [sep] <+: c :: cs ↔
      (piece = [] ∧ c = sep) ∨ ∃ rest, piece = c :: rest ∧ rest ++ [sep] <+: cs := by
  cases piece with
  | nil => simp [List.cons_prefix_cons, eq_comm]
  | cons p piece => simp [List.cons_prefix_cons, eq_comm, and_assoc]

/-- A piece between two separators starts behind the first character or behind a later one. -/
theorem between_cons_iff {sep c : Char} {piece cs : List Char} :
    sep :: (piece ++ [sep]) <:+: c :: cs ↔
      (c = sep ∧ piece ++ [sep] <+: cs) ∨ sep :: (piece ++ [sep]) <:+: cs := by
  rw [List.infix_cons_iff, List.cons_prefix_cons, eq_comm (a := sep)]

/-- With a separator behind it, a text begins with the first of its pieces, and each of the others stands
between two separators. -/
theorem splitOn_between (sep : Char) (cs : List Char) :
    ∃ first rest, splitOn sep cs = first :: rest ∧ ∀ piece, sep ∉ piece →
      (piece ++ [sep] <+: cs ++ [sep] ↔ piece = first) ∧
        (sep :: (piece ++ [sep]) <:+: cs ++ [sep] ↔ piece ∈ rest) := by
  induction cs with
  | nil =>
    refine ⟨[], [], rfl, fun piece h => ⟨?_, ?_⟩⟩
    · simp [piece_prefix_iff h]
    · simp [between_cons_iff, List.infix_nil]
  | cons c cs ih =>
    obtain ⟨first, rest, hsplit, hpieces⟩ := ih
    rw [splitOn, hsplit]
    by_cases hc : c = sep
    · refine ⟨[], first :: rest, if_pos hc, fun piece h => ?_⟩
      obtain ⟨hfirst, hrest⟩ := hpieces piece h
      constructor
      · rw [List.cons_append, piece_prefix_iff h, and_iff_left hc]
        refine or_iff_left ?_
        rintro ⟨tail, rfl, -⟩
        exact h (hc ▸ List.mem_cons_self)
      · rw [List.cons_append, between_cons_iff, hfirst, hrest, and_iff_right hc, List.mem_cons]
    · refine ⟨c :: first, rest, if_neg hc, fun piece h => ?_⟩
      constructor
      · rw [List.cons_append, piece_prefix_iff h, or_iff_right fun hnil => hc hnil.2]
        constructor
        · rintro ⟨tail, rfl, htail⟩
          have htail := (hpieces tail (mt (List.mem_cons_of_mem c) h)).1.mp htail
          rw [htail]
        · rintro rfl
          exact ⟨first, rfl, (hpieces first (mt (List.mem_cons_of_mem c) h)).1.mpr rfl⟩
      · rw [List.cons_append, between_cons_iff, or_iff_right fun hsep => hc hsep.1,
          (hpieces piece h).2]

/-- The pieces of a text have no separator and stand between two of them, when one is put before and one
behind the text. -/
theorem mem_splitOn_iff {sep : Char} {piece cs : List Char} :
    piece ∈ splitOn sep cs ↔ sep ∉ piece ∧ sep :: (piece ++ [sep]) <:+: sep :: (cs ++ [sep]) := by
  obtain ⟨first, rest, hsplit, hpieces⟩ := splitOn_between sep cs
  have hbetween (h : sep ∉ piece) :
      piece ∈ splitOn sep cs ↔ sep :: (piece ++ [sep]) <:+: sep :: (cs ++ [sep]) := by
    obtain ⟨hfirst, hrest⟩ := hpieces piece h
    rw [between_cons_iff, and_iff_right rfl, hfirst, hrest, hsplit,
      List.mem_cons]
  constructor
  · intro h
    have hpiece := not_mem_of_mem_splitOn h
    exact ⟨hpiece, (hbetween hpiece).mp h⟩
  · rintro ⟨hpiece, h⟩
    exact (hbetween hpiece).mpr h

/-- `splitOn` on strings. -/
def split (sep : Char) (s : String) : List String :=
  (splitOn sep s.toList).map String.ofList

theorem split_ne_nil (sep : Char) (s : String) : split sep s ≠ [] :=
  mt List.map_eq_nil_iff.mp (splitOn_ne_nil sep s.toList)

/-- The pieces of a text are the texts without a separator that stand between two of its separators, its ends
counted as such. -/
theorem mem_split_iff {sep : Char} {piece s : String} :
    piece ∈ split sep s ↔ sep ∉ piece.toList ∧
      sep :: (piece.toList ++ [sep]) <:+: sep :: (s.toList ++ [sep]) := by
  rw [← mem_splitOn_iff, split, List.mem_map]
  constructor
  · rintro ⟨chars, hchars, rfl⟩
    rwa [String.toList_ofList]
  · intro h
    exact ⟨piece.toList, h, String.ofList_toList⟩

/-- A text behind a separator without one of its own is the last piece. -/
theorem split_concat {sep : Char} {piece : String} (h : sep ∉ piece.toList) (s : String) :
    split sep (s ++ String.singleton sep ++ piece) = split sep s ++ [piece] := by
  have hchars : (s ++ String.singleton sep ++ piece).toList = s.toList ++ sep :: piece.toList := by
    simp
  rw [split, hchars, splitOn_concat h, List.map_append, List.map_singleton, String.ofList_toList]
  rfl

/-- A text with several pieces has a last one. -/
theorem exists_concat_of_split {sep : Char} {s : String} (h : 1 < (split sep s).length) :
    ∃ before piece, s = before ++ String.singleton sep ++ piece ∧ sep ∉ piece.toList := by
  have hsep : sep ∈ s.toList := Decidable.byContradiction fun hsep => by
    simp [split, splitOn_of_not_mem hsep] at h
  obtain ⟨before, piece, hchars, hpiece⟩ := exists_last_of_mem hsep
  refine ⟨String.ofList before, String.ofList piece, ?_, by rwa [String.toList_ofList]⟩
  rw [← String.toList_inj, hchars]
  simp

/-- The text before and after the first occurrence of `sep`, if there is one. -/
def splitFirst (sep : Char) : List Char → Option (List Char × List Char)
  | []      => none
  | c :: cs =>
    if c = sep then some ([], cs)
    else (splitFirst sep cs).map fun (before, after) => (c :: before, after)

/-- The first separator is the one behind a text without any. -/
theorem splitFirst_append {sep : Char} {before : List Char} (h : sep ∉ before) (after : List Char) :
    splitFirst sep (before ++ sep :: after) = some (before, after) := by
  induction before with
  | nil => rw [List.nil_append, splitFirst, if_pos rfl]
  | cons c before ih =>
    obtain ⟨hc, hbefore⟩ := not_or.mp (mt List.mem_cons.mpr h)
    rw [List.cons_append, splitFirst, if_neg (Ne.symm hc), ih hbefore]
    rfl

/-- The text before and after the last occurrence of `sep`, if there is one. -/
def splitLast (sep : Char) : List Char → Option (List Char × List Char)
  | []      => none
  | c :: cs =>
    match splitLast sep cs with
    | some (before, after) => some (c :: before, after)
    | none                 => if c = sep then some ([], cs) else none

/-- The texts with `sep` between neighbours. -/
def joinWith (sep : String) : List String → String
  | []           => ""
  | [s]          => s
  | s :: t :: ss => s ++ sep ++ joinWith sep (t :: ss)

@[simp] theorem joinWith_nil (sep : String) : joinWith sep [] = "" := rfl

@[simp] theorem joinWith_singleton (sep s : String) : joinWith sep [s] = s := rfl

theorem joinWith_cons_cons (sep s t : String) (ss : List String) :
    joinWith sep (s :: t :: ss) = s ++ sep ++ joinWith sep (t :: ss) := rfl

/-- Texts without the separator that have been joined are split into themselves, by induction on them. -/
theorem splitOn_joinWith {sep : Char} {ss : List String} (h : ∀ s ∈ ss, sep ∉ s.toList)
    (hne : ss ≠ []) : splitOn sep (joinWith (String.singleton sep) ss).toList =
      ss.map String.toList := by
  induction ss with
  | nil => exact absurd rfl hne
  | cons s ss ih =>
    obtain ⟨hs, hss⟩ := List.forall_mem_cons.mp h
    cases ss with
    | nil => exact splitOn_of_not_mem hs
    | cons t ss =>
      rw [joinWith_cons_cons, String.toList_append, String.toList_append, List.append_assoc,
        String.toList_singleton, List.singleton_append, splitOn_append hs,
        ih hss (List.cons_ne_nil t ss)]
      rfl

/-- Texts without the separator that have been joined are split into themselves. -/
theorem split_joinWith {sep : Char} {ss : List String} (h : ∀ s ∈ ss, sep ∉ s.toList)
    (hne : ss ≠ []) : split sep (joinWith (String.singleton sep) ss) = ss := by
  rw [split, splitOn_joinWith h hne, List.map_map]
  simp

/-- The pieces of a text, with the first and the others apart. -/
theorem toList_joinWith_cons (sep s : String) (ss : List String) :
    (joinWith sep (s :: ss)).toList = s.toList ++ ss.flatMap fun t => sep.toList ++ t.toList := by
  induction ss generalizing s with
  | nil => simp
  | cons t ss ih =>
    rw [joinWith_cons_cons, String.toList_append, String.toList_append, ih, List.flatMap_cons,
      List.append_assoc, List.append_assoc]

/-- Texts that are not empty leave no trace only if there are none. -/
theorem joinWith_eq_empty {sep : String} {ss : List String} (h : "" ∉ ss) :
    joinWith sep ss = "" ↔ ss = [] := by
  cases ss with
  | nil => exact iff_of_true rfl rfl
  | cons s ss =>
    refine iff_of_false (fun hempty => h ?_) (List.cons_ne_nil s ss)
    have hchars := congrArg String.toList hempty
    rw [toList_joinWith_cons] at hchars
    have hs : s = "" := String.toList_inj.mp (List.append_eq_nil_iff.mp hchars).1
    exact hs ▸ List.mem_cons_self

/-- The pieces of a text, joined again, are the text. -/
theorem joinWith_split (sep : Char) (s : String) :
    joinWith (String.singleton sep) (split sep s) = s := by
  have hchars (cs : List Char) :
      (joinWith (String.singleton sep) ((splitOn sep cs).map String.ofList)).toList = cs := by
    induction cs with
    | nil => rfl
    | cons c cs ih =>
      obtain ⟨first, rest, hsplit⟩ := List.exists_cons_of_ne_nil (splitOn_ne_nil sep cs)
      rw [hsplit, List.map_cons, toList_joinWith_cons, String.toList_ofList] at ih
      rw [splitOn, hsplit]
      split
      case isTrue hc =>
        rw [List.map_cons, toList_joinWith_cons, List.map_cons, List.flatMap_cons, String.toList_ofList,
          String.toList_ofList, List.append_assoc, ih, String.toList_singleton, hc]
        rfl
      case isFalse =>
        rw [List.map_cons, toList_joinWith_cons, String.toList_ofList, List.cons_append, ih]
  rw [← String.toList_inj, split, hchars]

/-- The rest of `cs` after a leading `lead`, if `cs` starts with it. -/
def dropLead : List Char → List Char → Option (List Char)
  | [],      cs      => some cs
  | _ :: _,  []      => none
  | l :: ls, c :: cs => if l = c then dropLead ls cs else none

/-- The part of `cs` before a closing `tail`, if `cs` ends with it. -/
def dropTail (tail cs : List Char) : Option (List Char) :=
  (dropLead tail.reverse cs.reverse).map List.reverse

/-- A lead is taken off where it stands in front. -/
theorem dropLead_eq_some {lead cs rest : List Char} :
    dropLead lead cs = some rest ↔ cs = lead ++ rest := by
  induction lead generalizing cs with
  | nil => rw [dropLead, Option.some.injEq, List.nil_append]
  | cons l lead ih =>
      cases cs with
      | nil => simp [dropLead]
      | cons c cs =>
          rw [dropLead, List.cons_append, List.cons.injEq]
          split
          case isTrue hl => rw [ih, and_iff_right hl.symm]
          case isFalse hl => exact iff_of_false nofun fun h => hl h.1.symm

/-- A tail is taken off where it stands at the end. -/
theorem dropTail_eq_some {tail cs stem : List Char} :
    dropTail tail cs = some stem ↔ cs = stem ++ tail := by
  rw [dropTail, Option.map_eq_some_iff]
  constructor
  · rintro ⟨rest, hrest, rfl⟩
    rw [← List.reverse_inj, dropLead_eq_some.mp hrest]
    simp
  · rintro rfl
    exact ⟨stem.reverse, dropLead_eq_some.mpr List.reverse_append, List.reverse_reverse stem⟩

/-- Nothing is taken off a text with another end. -/
theorem dropTail_eq_none {tail cs : List Char} : dropTail tail cs = none ↔ ¬ tail <:+ cs := by
  rw [Option.eq_none_iff_forall_ne_some]
  constructor
  · rintro h ⟨stem, rfl⟩
    exact h stem (dropTail_eq_some.mpr rfl)
  · rintro h stem hstem
    exact h ⟨stem, (dropTail_eq_some.mp hstem).symm⟩

end ResourceQuery.Text
