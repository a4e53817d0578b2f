import ResourceQuery.Proofs.Naming.Columns

/-!
# Naming — where words end

In a run of letters and digits a word ends in front of a capital if the last letter before is in lower
case, and also if the last letter before is a capital and the next character is in lower case
(`IsBoundary`).  The cutter forgets the case whenever it has cut, but the next character is a letter then
with which no acronym ends, so that the case before does not matter (`cut_fresh`); it cuts as if it knew
the case of all letters before (`cut_capital`, `cut_acronym`, `cut_within`).  From these three steps, by
induction on the text that is left, words end exactly at the boundaries (`endsAt_cut`).

* `flatten_words`: a name is cut into words without loss of anything but its underscores.
* `areWords_runWords`: a run is cut at its boundaries (`AreWords`).
* `AreWords.unique`: there is no other way to cut it there.
-/

namespace ResourceQuery.Naming

variable {mode : Mode} {word cs before a x y rest run : List Char} {ws us : List (List Char)}
  {c d : Char}

/-! ### The case of letters -/

/-- The capitals are the letters from `A` to `Z`. -/
theorem isUpper_iff : c.isUpper = true ↔ 'A'.toNat ≤ c.toNat ∧ c.toNat ≤ 'Z'.toNat :=
  decide_eq_true_iff

/-- The small letters are those from `a` to `z`. -/
theorem isLower_iff : c.isLower = true ↔ 'a'.toNat ≤ c.toNat ∧ c.toNat ≤ 'z'.toNat :=
  Bool.and_eq_true_iff.trans (and_congr decide_eq_true_iff decide_eq_true_iff)

/-- No letter is both small and a capital. -/
theorem isUpper_of_isLower (h : c.isLower = true) : c.isUpper = false := by
  have hsmall : 97 ≤ c.toNat := (isLower_iff.mp h).1
  refine Bool.eq_false_iff.mpr fun hcapital => ?_
  have hle : c.toNat ≤ 90 := (isUpper_iff.mp hcapital).2
  omega

theorem toLower_of_isUpper_eq_false (h : c.isUpper = false) : c.toLower = c :=
  dif_neg (of_decide_eq_false h)

/-- A capital has a small letter, 32 characters behind it. -/
theorem isLower_toLower (h : c.isUpper = true) : c.toLower.isLower = true := by
  obtain ⟨hle, hge⟩ : 65 ≤ c.toNat ∧ c.toNat ≤ 90 := isUpper_iff.mp h
  have hlower : c.toLower.toNat = (c.val + 32).toNat :=
    congrArg Char.toNat (dif_pos (of_decide_eq_true h))
  have hsum : (c.val + 32).toNat = c.toNat + 32 := by
    rw [UInt32.toNat_add]
    exact Nat.mod_eq_of_lt (Nat.lt_of_le_of_lt (Nat.add_le_add_right hge 32) (by decide))
  refine isLower_iff.mpr ?_
  rw [hlower, hsum]
  exact ⟨Nat.add_le_add_right hle 32, Nat.add_le_add_right hge 32⟩

/-! ### The characters of words -/

/-- Cutting loses no character. -/
theorem flatten_cut : (cut mode word cs).flatten = word.reverse ++ cs := by
  induction mode, word, cs using cut.induct with
  | case1 mode word hempty => simp [cut, List.isEmpty_iff.mp hempty]
  | case2 mode word hempty => simp [cut, hempty]
  | case3 mode word c => simp [cut]
  | case4 mode word c d rest hlower ih => simp [cut, if_pos hlower, ih]
  | case5 mode word c d rest hlower hupper ih => simp [cut, if_neg hlower, if_pos hupper, ih]
  | case6 mode word c d rest hlower hupper ih => simp [cut, if_neg hlower, if_neg hupper, ih]

/-- The words of a run. -/
def runWords (run : List Char) : List (List Char) :=
  if run.isEmpty then [] else cut .fresh [] run

theorem words_eq (cs : List Char) : words cs = ((Text.splitOn '_' cs).map runWords).flatten :=
  rfl

/-- The words of a run are the run. -/
theorem flatten_runWords (run : List Char) : (runWords run).flatten = run := by
  rw [runWords]
  split
  case isTrue hempty => exact (List.isEmpty_iff.mp hempty).symm
  case isFalse => exact flatten_cut

/-- The words of a name are the name without its underscores. -/
theorem flatten_words (cs : List Char) : (words cs).flatten = cs.filter (· != '_') := by
  have hruns : ((Text.splitOn '_' cs).map runWords).map List.flatten = Text.splitOn '_' cs := by
    rw [List.map_map]
    exact (List.map_congr_left fun run _ => flatten_runWords run).trans (List.map_id' _)
  rw [words_eq, ← Text.flatten_splitOn, List.flatten_flatten, hruns]

/-! ### Boundaries -/

/-- The case of the last letter, if there is one. -/
def caseOf (cs : List Char) : Mode :=
  cs.foldl Mode.after .fresh

/-- Between the two texts a word ends. -/
inductive IsBoundary (before : List Char) : List Char → Prop where
  | capital {c : Char} {rest : List Char} (hcase : caseOf before = .lower)
      (hc : c.isUpper = true) : IsBoundary before (c :: rest)
  | acronym {c d : Char} {rest : List Char} (hcase : caseOf before = .upper)
      (hc : c.isUpper = true) (hd : d.isLower = true) : IsBoundary before (c :: d :: rest)

theorem caseOf_concat : caseOf (cs ++ [c]) = (caseOf cs).after c := by
  rw [caseOf, List.foldl_append]
  rfl

/-- In front of at least two characters a word ends at a capital, behind a small letter or at the end of
an acronym. -/
theorem isBoundary_cons_cons : IsBoundary before (c :: d :: rest) ↔
    c.isUpper = true ∧ (caseOf before = .lower ∨ caseOf before = .upper ∧ d.isLower = true) := by
  constructor
  · intro h
    cases h with
    | capital hcase hc => exact ⟨hc, .inl hcase⟩
    | acronym hcase hc hd => exact ⟨hc, .inr ⟨hcase, hd⟩⟩
  · rintro ⟨hc, hcase | ⟨hcase, hd⟩⟩
    · exact .capital hcase hc
    · exact .acronym hcase hc hd

/-- Behind a boundary there is a capital. -/
theorem IsBoundary.exists_capital (h : IsBoundary before a) : ∃ c ∈ a, c.isUpper = true := by
  cases h with
  | capital _ hc | acronym _ hc _ => exact ⟨_, List.mem_cons_self, hc⟩

/-- Behind a letter the case before is forgotten. -/
theorem Mode.after_of_letter (h : c.isLower = true ∨ c.isUpper = true) (mode mode' : Mode) :
    mode.after c = mode'.after c := by
  unfold Mode.after
  rcases h with h | h
  · rw [if_pos h, if_pos h]
  · simp [h]

/-- At a letter with which no acronym ends, the case before does not matter. -/
theorem cut_fresh (mode : Mode) (h : d.isLower = true ∨ d.isUpper = true ∧ mode ≠ .upper) :
    cut .fresh word (d :: rest) = cut mode word (d :: rest) := by
  have hafter : Mode.fresh.after d = mode.after d := Mode.after_of_letter (h.imp_right And.left) _ _
  cases rest with
  | nil => rw [cut, cut]
  | cons e rest =>
      have hfresh : ¬ (Mode.fresh = .upper ∧ d.isUpper = true ∧ e.isLower = true) := by simp
      have hmode : ¬ (mode = .upper ∧ d.isUpper = true ∧ e.isLower = true) := by
        rintro ⟨hmode, hupper, -⟩
        rcases h with hlower | ⟨-, hne⟩
        · exact Bool.false_ne_true ((isUpper_of_isLower hlower).symm.trans hupper)
        · exact hne hmode
      rw [cut, cut, hafter, if_neg hfresh, if_neg hmode]

section

variable (before)

/-- A word ends between a small letter and a capital. -/
theorem cut_capital (hcase : caseOf (before ++ [c]) = .lower) (hd : d.isUpper = true) :
    cut (caseOf before) word (c :: d :: rest) =
      (c :: word).reverse :: cut (caseOf (before ++ [c])) [] (d :: rest) := by
  have hne : caseOf (before ++ [c]) ≠ .upper := by simp [hcase]
  rw [cut, if_pos ⟨caseOf_concat.symm.trans hcase, hd⟩, cut_fresh _ (.inr ⟨hd, hne⟩)]

/-- A word ends in front of the last capital of an acronym. -/
theorem cut_acronym (hcase : caseOf before = .upper) (hc : c.isUpper = true) (hd : d.isLower = true) :
    cut (caseOf before) word (c :: d :: rest) =
      word.reverse :: cut (caseOf (before ++ [c])) [c] (d :: rest) := by
  have hcapital : ¬ ((caseOf before).after c = .lower ∧ d.isUpper = true) := fun h =>
    Bool.false_ne_true ((isUpper_of_isLower hd).symm.trans h.2)
  rw [cut, if_neg hcapital, if_pos ⟨hcase, hc, hd⟩, cut_fresh _ (.inl hd)]

/-- A word goes on where none of the two boundaries is. -/
theorem cut_within (hcapital : ¬ (caseOf (before ++ [c]) = .lower ∧ d.isUpper = true))
    (hacronym : ¬ (caseOf before = .upper ∧ c.isUpper = true ∧ d.isLower = true)) :
    cut (caseOf before) word (c :: d :: rest) =
      cut (caseOf (before ++ [c])) (c :: word) (d :: rest) := by
  rw [caseOf_concat] at hcapital ⊢
  rw [cut, if_neg hcapital, if_neg hacronym]

end

/-! ### Ends of words -/

/-- The first words spell the text. -/
def EndsAt (ws : List (List Char)) (a : List Char) : Prop :=
  ∃ front back, ws = front ++ back ∧ front.flatten = a

theorem endsAt_nil (ws : List (List Char)) : EndsAt ws [] :=
  ⟨[], ws, rfl, rfl⟩

/-- A text that the first words spell is empty or begins with the first one. -/
theorem endsAt_cons : EndsAt (word :: ws) a ↔ a = [] ∨ ∃ a', a = word ++ a' ∧ EndsAt ws a' := by
  constructor
  · rintro ⟨front, back, hsplit, rfl⟩
    cases front with
    | nil => exact .inl rfl
    | cons first front =>
        obtain ⟨rfl, rfl⟩ := List.cons.inj hsplit
        exact .inr ⟨front.flatten, rfl, front, back, rfl, rfl⟩
  · rintro (rfl | ⟨a', rfl, front, back, rfl, rfl⟩)
    · exact endsAt_nil _
    · exact ⟨word :: front, back, rfl, rfl⟩

theorem endsAt_first (word : List Char) (ws : List (List Char)) : EndsAt (word :: ws) word :=
  ⟨[word], ws, rfl, List.flatten_singleton⟩

theorem endsAt_cons_append (hword : word ≠ []) : EndsAt (word :: ws) (word ++ a) ↔ EndsAt ws a := by
  rw [endsAt_cons, or_iff_right (by simp [hword])]
  simp

theorem prefix_of_endsAt (h : EndsAt (word :: ws) a) (ha : a ≠ []) : word <+: a := by
  rcases endsAt_cons.mp h with h | ⟨rest, rfl, -⟩
  · exact absurd h ha
  · exact List.prefix_append word rest

/-- No word ends inside the one that has begun. -/
theorem prefix_of_endsAt_cut (h : EndsAt (cut mode word cs) a) (ha : a ≠ []) : word.reverse <+: a := by
  have hlonger (word : List Char) (c : Char) : word.reverse <+: (c :: word).reverse := by simp
  induction mode, word, cs using cut.induct with
  | case1 mode word hempty => simp [List.isEmpty_iff.mp hempty]
  | case2 mode word hempty =>
      rw [cut, if_neg hempty] at h
      exact prefix_of_endsAt h ha
  | case3 mode word c =>
      rw [cut] at h
      exact (hlonger word c).trans (prefix_of_endsAt h ha)
  | case4 mode word c d rest hlower ih =>
      rw [cut, if_pos hlower] at h
      exact (hlonger word c).trans (prefix_of_endsAt h ha)
  | case5 mode word c d rest hlower hupper ih =>
      rw [cut, if_neg hlower, if_pos hupper] at h
      exact prefix_of_endsAt h ha
  | case6 mode word c d rest hlower hupper ih =>
      rw [cut, if_neg hlower, if_neg hupper] at h
      exact (hlonger word c).trans (ih h)

/-- The word that has begun ends in front of the next character exactly at a boundary. -/
theorem endsAt_cut_begun (hword : word ≠ [])
    (hkept : caseOf before = .lower → c.isUpper = false) :
    EndsAt (cut (caseOf before) word (c :: cs)) word.reverse ↔ IsBoundary before (c :: cs) := by
  have hbegun : word.reverse ≠ [] := mt List.reverse_eq_nil_iff.mp hword
  have hlonger : ¬ (c :: word).reverse <+: word.reverse := fun h =>
    Nat.not_succ_le_self word.length (by simpa using h.length_le)
  have hcapital : ¬ (c.isUpper = true ∧ caseOf before = .lower) := fun h => by
    simp [hkept h.2] at h
  cases cs with
  | nil =>
      -- elsewhere the word goes on, and a cut behind it would come too early
      refine iff_of_false (fun h => hlonger ?_) fun h => ?_
      · rw [cut] at h
        exact prefix_of_endsAt h hbegun
      · cases h with
        | capital hcase hc => exact hcapital ⟨hc, hcase⟩
  | cons d rest =>
      rw [isBoundary_cons_cons]
      by_cases hacronym : caseOf before = .upper ∧ c.isUpper = true ∧ d.isLower = true
      · obtain ⟨hcase, hc, hd⟩ := hacronym
        rw [cut_acronym before hcase hc hd]
        exact iff_of_true (endsAt_first _ _) ⟨hc, .inr ⟨hcase, hd⟩⟩
      · refine iff_of_false (fun h => hlonger ?_) fun h => ?_
        · by_cases hlower : caseOf (before ++ [c]) = .lower ∧ d.isUpper = true
          · rw [cut_capital before hlower.1 hlower.2] at h
            exact prefix_of_endsAt h hbegun
          · rw [cut_within before hlower hacronym] at h
            exact prefix_of_endsAt_cut h hbegun
        · rcases h with ⟨hc, hcase | ⟨hcase, hd⟩⟩
          · exact hcapital ⟨hc, hcase⟩
          · exact hacronym ⟨hcase, hc, hd⟩

/-- Words end exactly at the boundaries.  A word that has begun was not to end already in front of the
text that is left, and in front of a new word there is no acronym. -/
theorem endsAt_cut (before word : List Char) (hbegun : word = [] → caseOf before ≠ .upper)
    (hkept : word ≠ [] → caseOf before = .lower → ∀ c ∈ cs.head?, c.isUpper = false) (hy : y ≠ [])
    (hcs : cs = x ++ y) (ha : word.reverse ++ x ≠ []) :
    EndsAt (cut (caseOf before) word cs) (word.reverse ++ x) ↔ IsBoundary (before ++ x) y := by
  induction cs generalizing before word x with
  | nil => exact absurd (List.append_eq_nil_iff.mp hcs.symm).2 hy
  | cons c cs ih =>
      cases x with
      | nil =>
          obtain rfl : c :: cs = y := hcs
          rw [List.append_nil] at ha ⊢
          have hword : word ≠ [] := by simpa using ha
          rw [List.append_nil]
          exact endsAt_cut_begun hword fun hcase => hkept hword hcase c rfl
      | cons e x =>
          obtain ⟨rfl, hrest⟩ := List.cons.inj hcs
          have hbefore : before ++ c :: x = (before ++ [c]) ++ x := by simp
          have hspelled : word.reverse ++ c :: x = (c :: word).reverse ++ x := by simp
          rw [hbefore]
          cases cs with
          | nil => exact absurd (List.append_eq_nil_iff.mp hrest.symm).2 hy
          | cons d rest =>
              -- the three steps of the cutter: only in the last one does the word go on
              by_cases hcapital : caseOf (before ++ [c]) = .lower ∧ d.isUpper = true
              · obtain ⟨hcase, hd⟩ := hcapital
                rw [cut_capital before hcase hd, hspelled, endsAt_cons_append (by simp)]
                cases x with
                | nil =>
                    obtain rfl : d :: rest = y := hrest
                    rw [List.append_nil]
                    exact iff_of_true (endsAt_nil _) (.capital hcase hd)
                | cons e x =>
                    have hnew : caseOf (before ++ [c]) ≠ .upper := by simp [hcase]
                    exact ih _ [] (fun _ => hnew) (absurd rfl) hrest (by simp)
              · by_cases hacronym : caseOf before = .upper ∧ c.isUpper = true ∧ d.isLower = true
                · obtain ⟨hcase, hc, hd⟩ := hacronym
                  have hword : word.reverse ≠ [] := fun hnil =>
                    hbegun (List.reverse_eq_nil_iff.mp hnil) hcase
                  have hlow : d.isUpper = false := isUpper_of_isLower hd
                  rw [cut_acronym before hcase hc hd, endsAt_cons_append hword]
                  refine ih _ [c] (absurd · (List.cons_ne_nil c [])) (fun _ _ => ?_) hrest (by simp)
                  simpa using hlow
                · rw [cut_within before hcapital hacronym, hspelled]
                  refine ih _ _ (absurd · (List.cons_ne_nil c word)) (fun _ hcase => ?_) hrest
                    (by simp)
                  simpa using fun hd => hcapital ⟨hcase, hd⟩

/-! ### The words of a run -/

/-- The words spell the run one after the other, none of them is empty, and inside the run they end
exactly at its boundaries. -/
structure AreWords (run : List Char) (ws : List (List Char)) : Prop where
  spelled  : ws.flatten = run
  nonempty : [] ∉ ws
  ends     : ∀ a b, run = a ++ b → a ≠ [] → b ≠ [] → (EndsAt ws a ↔ IsBoundary a b)

/-- The words of a run are cut at its boundaries and nowhere else. -/
theorem areWords_runWords (run : List Char) : AreWords run (runWords run) where
  spelled := flatten_runWords run
  nonempty := by
    rw [runWords]
    split
    · exact List.not_mem_nil
    · exact nil_not_mem_cut nofun
  ends a b hrun ha hb := by
    have hne : ¬ run.isEmpty = true := by simp [hrun, ha]
    rw [runWords, if_neg hne]
    exact endsAt_cut [] [] (fun _ => nofun) (absurd rfl) hb hrun ha

example : (words "HTTPStatus2__lastURL".toList).map String.ofList =
    ["HTTP", "Status2", "last", "URL"] := by decide +kernel

theorem eq_nil_of_flatten (hws : [] ∉ ws) (h : ws.flatten = []) : ws = [] :=
  List.eq_nil_iff_forall_not_mem.mpr fun _ hword =>
    hws (List.flatten_eq_nil_iff.mp h _ hword ▸ hword)

/-- If the first words of one cut spell the first word of another, that word begins with the first of them. -/
theorem first_prefix_first {w u : List Char} (hu : u ≠ [])
    (hspelled : (w :: ws).flatten = (u :: us).flatten)
    (hends : us.flatten ≠ [] → EndsAt (w :: ws) u) : w <+: u := by
  by_cases hus : us.flatten = []
  · rw [List.flatten_cons, List.flatten_cons, hus, List.append_nil] at hspelled
    exact ⟨ws.flatten, hspelled⟩
  · exact prefix_of_endsAt (hends hus) hu

/-- Words that spell the same text and end at the same places are the same. -/
theorem eq_of_endsAt (hws : [] ∉ ws) (hus : [] ∉ us) (hspelled : ws.flatten = us.flatten)
    (hends : ∀ a b, ws.flatten = a ++ b → a ≠ [] → b ≠ [] → (EndsAt ws a ↔ EndsAt us a)) :
    ws = us := by
  induction ws generalizing us with
  | nil => exact (eq_nil_of_flatten hus hspelled.symm).symm
  | cons w ws ih =>
      cases us with
      | nil => exact eq_nil_of_flatten hws hspelled
      | cons u us =>
          obtain ⟨hw, hwsRest⟩ := not_or.mp (mt List.mem_cons.mpr hws)
          obtain ⟨hu, husRest⟩ := not_or.mp (mt List.mem_cons.mpr hus)
          have hwu : w <+: u := first_prefix_first (Ne.symm hu) hspelled fun hrest =>
            (hends u us.flatten hspelled (Ne.symm hu) hrest).mpr (endsAt_first u us)
          have huw : u <+: w := first_prefix_first (Ne.symm hw) hspelled.symm fun hrest =>
            (hends w ws.flatten rfl (Ne.symm hw) hrest).mp (endsAt_first w ws)
          obtain rfl := hwu.eq_of_length_le huw.length_le
          have hrest : ws.flatten = us.flatten := List.append_cancel_left hspelled
          refine congrArg (w :: ·) (ih hwsRest husRest hrest fun a b ha hne hb => ?_)
          have hlonger : (w :: ws).flatten = (w ++ a) ++ b := by
            rw [List.flatten_cons, ha, List.append_assoc]
          have hsame := hends (w ++ a) b hlonger (by simp [hne]) hb
          rwa [endsAt_cons_append (Ne.symm hw), endsAt_cons_append (Ne.symm hw)] at hsame

/-- There is one way to cut a run at its boundaries. -/
theorem AreWords.unique (h : AreWords run ws) (h' : AreWords run us) : ws = us := by
  refine eq_of_endsAt h.nonempty h'.nonempty (h.spelled.trans h'.spelled.symm) fun a b hrun ha hb => ?_
  rw [h.spelled] at hrun
  rw [h.ends a b hrun ha hb, h'.ends a b hrun ha hb]

/-- A run without capitals is one word. -/
theorem AreWords.eq_singleton (h : AreWords run ws) (hcapital : ∀ c ∈ run, c.isUpper = false)
    (hrun : run ≠ []) : ws = [run] := by
  cases ws with
  | nil => exact absurd h.spelled.symm hrun
  | cons w ws =>
      obtain ⟨hw, hws⟩ := not_or.mp (mt List.mem_cons.mpr h.nonempty)
      have hspelled : run = w ++ ws.flatten := h.spelled.symm
      by_cases hrest : ws.flatten = []
      · rw [hspelled, hrest, eq_nil_of_flatten hws hrest, List.append_nil]
      · have hboundary := (h.ends w ws.flatten hspelled (Ne.symm hw) hrest).mp (endsAt_first w ws)
        obtain ⟨c, hc, hupper⟩ := hboundary.exists_capital
        have hlower := hcapital c (hspelled ▸ List.mem_append_right w hc)
        rw [hupper] at hlower
        cases hlower

end ResourceQuery.Naming
