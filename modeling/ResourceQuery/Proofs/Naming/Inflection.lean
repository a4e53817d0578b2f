import Mathlib.Data.List.Infix
import ResourceQuery.Model.ResourceType

/-!
# Naming — the singular of a plural

A word that ends in a hissing sound, or in `y` after a character that is no vowel, has its plural by a
rule for its end (`HasPluralRule`).  The singular is found by rules for the ends of plurals, which undo
these rules in all cases but one: behind a single `s`, of `-es` only the `s` is dropped (`buse` for
`buses`).

* `regularPlural_hissing`, `regularPlural_y`: the plurals by the two rules.
* `regularSingular_es`, `regularSingular_ies`, `regularSingular_ses`: the singulars of such plurals.
* `singularize_pluralize_single`: behind a single `s` the singular is another word.
* `singularize_pluralize_iff`: the words that are the singulars of their plurals.
-/

namespace ResourceQuery.Naming

open Text (dropTail_eq_some dropTail_eq_none)

variable {word stem : List Char} {w : String}

/-- A word ends in what it has as a suffix. -/
theorem endsWith_iff {tail : String} : endsWith tail word = true ↔ tail.toList <:+ word := by
  rw [endsWith, Option.isSome_iff_exists]
  simp only [dropTail_eq_some]
  exact exists_congr fun _ => eq_comm

/-! ### Plurals by the end of a word -/

/-- The ends of words that take `-es`. -/
def hissing : List String :=
  ["s", "x", "ch", "sh"]

/-- The word ends in a hissing sound, or in `y` after a character that is no vowel. -/
def HasPluralRule (word : List Char) : Prop :=
  (∃ tail ∈ hissing, tail.toList <:+ word) ∨ ∃ c, c ∉ "aeiou".toList ∧ [c, 'y'] <:+ word

/-- A word with a hissing end takes `es`. -/
theorem regularPlural_hissing (h : ∃ tail ∈ hissing, tail.toList <:+ word) :
    regularPlural word = word ++ "es".toList := by
  have htest : (endsWith "s" word || endsWith "x" word || endsWith "ch" word || endsWith "sh" word) =
      true := by
    simpa [hissing, endsWith_iff, or_assoc] using h
  rw [regularPlural, if_pos htest]

/-- A word that ends in `y` does not end in a hissing sound. -/
theorem regularPlural_y {c : Char} (hc : c ∉ "aeiou".toList) :
    regularPlural (stem ++ [c, 'y']) = stem ++ c :: "ies".toList := by
  have hother (tail : String) (hlast : tail.toList.getLast? ≠ some 'y') (hne : tail.toList ≠ []) :
      endsWith tail (stem ++ [c, 'y']) = false := by
    rw [← Bool.not_eq_true, endsWith_iff]
    rintro ⟨front, hfront⟩
    have hend := congrArg List.getLast? hfront
    rw [List.getLast?_append_of_ne_nil _ hne] at hend
    exact hlast (hend.trans (by simp))
  have hy : Text.dropTail ['y'] (stem ++ [c, 'y']) = some (stem ++ [c]) :=
    dropTail_eq_some.mpr (by simp)
  have hvowel : "aeiou".toList.contains c = false := by simpa using hc
  have hlast : (stem ++ [c]).getLast? = some c := List.getLast?_concat
  rw [regularPlural, hother "s" (by decide) (by decide), hother "x" (by decide) (by decide),
    hother "ch" (by decide) (by decide), hother "sh" (by decide) (by decide), hy]
  simp only [Bool.or_self, Bool.false_eq_true, if_false, hlast, hvowel]
  simp

/-- A word outside the list takes the regular plural. -/
theorem pluralize_of_regular (h : ∀ entry ∈ irregular, entry.1 ≠ w) (hw : w ≠ "") :
    (pluralize w).toList = regularPlural w.toList := by
  rw [pluralize]
  split
  case h_1 entry plural hfind =>
    exact absurd (by simpa using List.find?_some hfind) (h _ (List.mem_of_find?_eq_some hfind))
  case h_2 =>
    have hfull : w.isEmpty = false := by simpa using hw
    simp [hfull]

/-! ### Singulars by the end of a plural -/

/-- The ends of plurals from which `-es` is dropped. -/
def hissingPlurals : List String :=
  ["sses", "xes", "ches", "shes"]

/-- A word that ends in `ies` has an `y` there in the singular, unless nothing stands before. -/
theorem regularSingular_ies (hstem : stem ≠ []) :
    regularSingular (stem ++ "ies".toList) = stem ++ ['y'] := by
  have hies : Text.dropTail "ies".toList (stem ++ "ies".toList) = some stem :=
    dropTail_eq_some.mpr rfl
  have hfull : stem.isEmpty = false := by simpa using hstem
  simp only [regularSingular, hies, hfull, Bool.false_eq_true, if_false]

/-- A hissing plural loses its `es`. -/
theorem regularSingular_es (hies : ¬ "ies".toList <:+ word ++ "es".toList)
    (h : ∃ tail ∈ hissingPlurals, tail.toList <:+ word ++ "es".toList) :
    regularSingular (word ++ "es".toList) = word := by
  have htest : (endsWith "sses" (word ++ "es".toList) || endsWith "xes" (word ++ "es".toList) ||
      endsWith "ches" (word ++ "es".toList) || endsWith "shes" (word ++ "es".toList)) = true := by
    simpa only [hissingPlurals, List.mem_cons, List.not_mem_nil, or_false, exists_eq_or_imp,
      exists_eq_left, endsWith_iff, Bool.or_eq_true, or_assoc] using h
  simp only [regularSingular, dropTail_eq_none.mpr hies, htest, if_true]
  simp

/-- A plural with another end loses a single `s`. -/
theorem regularSingular_ses (hies : ¬ "ies".toList <:+ word ++ ['s'])
    (h : ∀ tail ∈ hissingPlurals, ¬ tail.toList <:+ word ++ ['s']) (hword : word ≠ [])
    (hs : ¬ ['s'] <:+ word) : regularSingular (word ++ ['s']) = word := by
  have htest : (endsWith "sses" (word ++ ['s']) || endsWith "xes" (word ++ ['s']) ||
      endsWith "ches" (word ++ ['s']) || endsWith "shes" (word ++ ['s'])) = false := by
    simpa only [hissingPlurals, List.forall_mem_cons, List.not_mem_nil, false_imp_iff, implies_true,
      and_true, ← endsWith_iff, Bool.not_eq_true, Bool.or_eq_false_iff, and_assoc] using h
  have hsingle : withoutFinalS (word ++ ['s']) = word := by
    have hdrop : Text.dropTail ['s'] (word ++ ['s']) = some word := dropTail_eq_some.mpr rfl
    have hfull : word.isEmpty = false := by simpa using hword
    have hlast : endsWith "s" word = false := by
      rw [← Bool.not_eq_true, endsWith_iff]
      exact hs
    simp only [withoutFinalS, hdrop, hfull, hlast, Bool.or_self, Bool.false_eq_true, if_false]
  simp only [regularSingular, dropTail_eq_none.mpr hies, htest, Bool.false_eq_true, if_false, hsingle]

/-- The singular of a plural is that of the table, or is found by its end. -/
theorem singularize_cases (w : String) :
    (∃ entry ∈ irregular, entry.2 = w ∧ singularize w = entry.1) ∨
      (singularize w).toList = regularSingular w.toList := by
  rw [singularize]
  split
  case h_1 singular plural hfind =>
    exact .inl ⟨_, List.mem_of_find?_eq_some hfind, by simpa using List.find?_some hfind, rfl⟩
  case h_2 => exact .inr String.toList_ofList

/-! ### Words and their plurals -/

/-- The word ends in a single `s`. -/
def EndsInSingleS (word : List Char) : Prop :=
  ['s'] <:+ word ∧ ¬ ['s', 's'] <:+ word

instance (word : List Char) : Decidable (EndsInSingleS word) :=
  inferInstanceAs (Decidable (_ ∧ _))

/-- The last letter of a suffix is the last letter of the word. -/
theorem getLast?_of_suffix {tail : List Char} {c : Char} (h : tail <:+ word)
    (hlast : tail.getLast? = some c) : word.getLast? = some c := by
  obtain ⟨front, rfl⟩ := h
  rw [List.getLast?_append, hlast]
  rfl

/-- No irregular plural has one of the ends that rules for plurals look for. -/
theorem irregular_end {entry : String × String} (hentry : entry ∈ irregular) {tail : String}
    (htail : tail ∈ "ies" :: hissingPlurals) : ¬ tail.toList <:+ entry.2.toList := by
  have hall : ∀ entry ∈ irregular, ∀ tail ∈ "ies" :: hissingPlurals,
      ¬ tail.toList <:+ entry.2.toList := by decide +kernel
  exact hall entry hentry tail htail

/-- Before the `-es` of an irregular plural, a stem that ends in `s` begins the singular. -/
theorem irregular_stem {entry : String × String} (hentry : entry ∈ irregular)
    (hword : ['s'] <:+ word) (h : entry.2.toList = word ++ "es".toList) :
    word <+: entry.1.toList := by
  have hall : ∀ entry ∈ irregular, "ses".toList <:+ entry.2.toList →
      entry.2.toList.take (entry.2.toList.length - 2) <+: entry.1.toList := by decide +kernel
  have hses : ['s'] ++ "es".toList <:+ entry.2.toList := h ▸ List.suffix_append_self_iff.mpr hword
  have hstem := hall entry hentry hses
  simpa [h] using hstem

/-- A word with the end of a regular plural is not in the list, whose words end otherwise. -/
theorem singularize_of_end {tail : String} (htail : tail ∈ "ies" :: hissingPlurals)
    (h : tail.toList <:+ w.toList) : (singularize w).toList = regularSingular w.toList := by
  rcases singularize_cases w with ⟨entry, hentry, rfl, -⟩ | hregular
  · exact absurd h (irregular_end hentry htail)
  · exact hregular

/-- Behind a hissing sound `-es` makes no `-ies`. -/
theorem ies_not_suffix (h : ∃ tail ∈ hissing, tail.toList <:+ word) :
    ¬ "ies".toList <:+ word ++ "es".toList := by
  intro hies
  have hi : ['i'] <:+ word := List.suffix_append_self_iff.mp hies
  have hlast : word.getLast? = some 'i' := getLast?_of_suffix hi rfl
  have hends : ∀ tail ∈ hissing, ∃ c, tail.toList.getLast? = some c ∧ c ≠ 'i' := by
    simp [hissing]
  obtain ⟨tail, htail, hsuffix⟩ := h
  obtain ⟨c, hc, hne⟩ := hends tail htail
  exact hne (Option.some.inj ((getLast?_of_suffix hsuffix hc).symm.trans hlast))

/-- The plural of a word with a hissing end has a hissing end, unless the word ends in a single `s`. -/
theorem hissingPlural_suffix (h : ∃ tail ∈ hissing, tail.toList <:+ word)
    (hsingle : ¬ EndsInSingleS word) :
    ∃ tail ∈ hissingPlurals, tail.toList <:+ word ++ "es".toList := by
  obtain ⟨tail, htail, hsuffix⟩ := h
  have hes (stem : String) (hstem : stem.toList <:+ word) :
      (stem ++ "es").toList <:+ word ++ "es".toList := by
    rw [String.toList_append]
    exact List.suffix_append_self_iff.mpr hstem
  simp only [hissing, List.mem_cons, List.not_mem_nil, or_false] at htail
  rcases htail with rfl | rfl | rfl | rfl
  · have hdouble : ['s', 's'] <:+ word := by
      by_contra hdouble
      exact hsingle ⟨hsuffix, hdouble⟩
    exact ⟨"sses", by simp [hissingPlurals], hes "ss" hdouble⟩
  · exact ⟨"xes", by simp [hissingPlurals], hes _ hsuffix⟩
  · exact ⟨"ches", by simp [hissingPlurals], hes _ hsuffix⟩
  · exact ⟨"shes", by simp [hissingPlurals], hes _ hsuffix⟩

/-- Behind a single `s`, `-es` makes none of the ends from which it is dropped. -/
theorem hissingPlural_not_suffix (hsingle : EndsInSingleS word) {tail : String}
    (htail : tail ∈ hissingPlurals) : ¬ tail.toList <:+ word ++ "es".toList := by
  have hlast : word.getLast? = some 's' := getLast?_of_suffix hsingle.1 rfl
  have hes (stem : List Char) (h : stem ++ "es".toList <:+ word ++ "es".toList) : stem <:+ word :=
    List.suffix_append_self_iff.mp h
  have hother (stem : List Char) {c : Char} (hc : stem.getLast? = some c) (hne : c ≠ 's') :
      ¬ stem ++ "es".toList <:+ word ++ "es".toList := fun h =>
    hne (Option.some.inj ((getLast?_of_suffix (hes _ h) hc).symm.trans hlast))
  simp only [hissingPlurals, List.mem_cons, List.not_mem_nil, or_false] at htail
  rcases htail with rfl | rfl | rfl | rfl
  · exact fun h => hsingle.2 (hes ['s', 's'] h)
  · exact hother ['x'] rfl (by decide)
  · exact hother ['c', 'h'] rfl (by decide)
  · exact hother ['s', 'h'] rfl (by decide)

variable (hsingular : ∀ entry ∈ irregular, entry.1 ≠ w)

include hsingular

/-- A word with a hissing end is not in the list, and takes `es`. -/
theorem pluralize_hissing (h : ∃ tail ∈ hissing, tail.toList <:+ w.toList) :
    (pluralize w).toList = w.toList ++ "es".toList := by
  have hw : w ≠ "" := by
    rintro rfl
    simp [hissing] at h
  rw [pluralize_of_regular hsingular hw, regularPlural_hissing h]

/-- A word that ends in `y` behind a consonant is the singular of its plural. -/
theorem singularize_pluralize_y {c : Char} (hc : c ∉ "aeiou".toList)
    (hword : w.toList = stem ++ [c, 'y']) : singularize (pluralize w) = w := by
  have hw : w ≠ "" := by
    rintro rfl
    simp at hword
  have hplural : (pluralize w).toList = (stem ++ [c]) ++ "ies".toList := by
    rw [pluralize_of_regular hsingular hw, hword, regularPlural_y hc]
    simp
  have hend : "ies".toList <:+ (pluralize w).toList := ⟨_, hplural.symm⟩
  rw [← String.toList_inj, singularize_of_end List.mem_cons_self hend, hplural,
    regularSingular_ies (by simp), hword]
  simp

/-- A word with a hissing end, but not a single `s`, is the singular of its plural. -/
theorem singularize_pluralize_hissing (h : ∃ tail ∈ hissing, tail.toList <:+ w.toList)
    (hsingle : ¬ EndsInSingleS w.toList) : singularize (pluralize w) = w := by
  have hplural := pluralize_hissing hsingular h
  have hend : ∃ tail ∈ hissingPlurals, tail.toList <:+ (pluralize w).toList := by
    obtain ⟨tail, htail, hend⟩ := hissingPlural_suffix h hsingle
    exact ⟨tail, htail, hplural ▸ hend⟩
  obtain ⟨tail, htail, hsuffix⟩ := hend
  rw [← String.toList_inj, singularize_of_end (List.mem_cons_of_mem _ htail) hsuffix, hplural,
    regularSingular_es (ies_not_suffix h) ⟨tail, htail, hplural ▸ hsuffix⟩]

/-- Behind a single `s`, only the `s` of `-es` is dropped, unless the plural is irregular. -/
theorem singularize_pluralize_single (hsingle : EndsInSingleS w.toList) :
    singularize (pluralize w) ≠ w ∧ w.toList <+: (singularize (pluralize w)).toList := by
  have hhissing : ∃ tail ∈ hissing, tail.toList <:+ w.toList :=
    ⟨"s", List.mem_cons_self, hsingle.1⟩
  have hplural := pluralize_hissing hsingular hhissing
  rcases singularize_cases (pluralize w) with ⟨entry, hentry, hword, hsingularize⟩ | hregular
  · rw [hsingularize]
    exact ⟨hsingular entry hentry, irregular_stem hentry hsingle.1 (hword ▸ hplural)⟩
  · have hies := ies_not_suffix hhissing
    have hends : ∀ tail ∈ hissingPlurals, ¬ tail.toList <:+ w.toList ++ "es".toList :=
      fun _ => hissingPlural_not_suffix hsingle
    have hlast : ¬ ['s'] <:+ w.toList ++ ['e'] := fun h =>
      absurd (getLast?_of_suffix h rfl) (by simp)
    have hes : w.toList ++ "es".toList = (w.toList ++ ['e']) ++ ['s'] := by simp
    rw [hes] at hplural hies hends
    have hdropped : (singularize (pluralize w)).toList = w.toList ++ ['e'] := by
      rw [hregular, hplural, regularSingular_ses hies hends (by simp) hlast]
    constructor
    · intro h
      simpa [h] using congrArg List.length hdropped
    · exact hdropped ▸ List.prefix_append _ _

/-- **A word that has its plural by a rule is the singular of its plural exactly when it does not end in
a single `s`.**  In both cases it begins the default foreign key of the tables named by its plural, as long
as the convention of the type leaves singulars alone, and only in the first the key is the word and the id
column. -/
theorem singularize_pluralize_iff (hrule : HasPluralRule w.toList) :
    (singularize (pluralize w) = w ↔ ¬ EndsInSingleS w.toList) ∧
      ∀ t : ResourceType, t.naming.singularize = singularize → t.table = pluralize w →
        w.toList <+: t.defaultForeignKey.toList ∧
          (t.defaultForeignKey = w ++ "_" ++ t.idColumn ↔ ¬ EndsInSingleS w.toList) := by
  have hundone (hsingle : ¬ EndsInSingleS w.toList) : singularize (pluralize w) = w := by
    rcases hrule with hhissing | ⟨c, hc, stem, hstem⟩
    · exact singularize_pluralize_hissing hsingular hhissing hsingle
    · exact singularize_pluralize_y hsingular hc hstem.symm
  have hiff : singularize (pluralize w) = w ↔ ¬ EndsInSingleS w.toList :=
    ⟨fun h hsingle => (singularize_pluralize_single hsingular hsingle).1 h, hundone⟩
  refine ⟨hiff, fun t hnaming ht => ⟨?_, ?_⟩⟩
  · have hstem : w.toList <+: (singularize (pluralize w)).toList := by
      by_cases hsingle : EndsInSingleS w.toList
      · exact (singularize_pluralize_single hsingular hsingle).2
      · rw [hundone hsingle]
    rw [ResourceType.defaultForeignKey, ResourceType.singularTable, hnaming, ht, String.toList_append,
      String.toList_append, List.append_assoc]
    exact hstem.trans (List.prefix_append _ _)
  · rw [ResourceType.defaultForeignKey, ResourceType.singularTable, hnaming, ht, ← hiff]
    simp [← String.toList_inj]

omit hsingular

/-- `class` is the singular of `classes`, to which other tables refer by `class_id`. -/
theorem singularize_pluralize_class :
    (∀ entry ∈ irregular, entry.1 ≠ "class") ∧ HasPluralRule "class".toList ∧
      ¬ EndsInSingleS "class".toList ∧ singularize (pluralize "class") = "class" ∧
      ({ name := "classes", table := "classes" } : ResourceType).defaultForeignKey = "class_id" := by
  have hsingular : ∀ entry ∈ irregular, entry.1 ≠ "class" := by decide +kernel
  have hrule : HasPluralRule "class".toList := .inl ⟨"s", by decide +kernel, by decide +kernel⟩
  have hsingle : ¬ EndsInSingleS "class".toList := by decide +kernel
  have h := singularize_pluralize_iff hsingular hrule
  have htable : "classes" = pluralize "class" := by decide +kernel
  exact ⟨hsingular, hrule, hsingle, h.1.mpr hsingle,
    (h.2 { name := "classes", table := "classes" } rfl htable).2.mpr hsingle⟩

/-- The singular of `buses` is `buse`, though `bus` is a word in lower case that is in no column of the
table of irregular words and takes `-es` by the rule. -/
theorem not_singularize_pluralize :
    ¬ ∀ w : String, (∀ c ∈ w.toList, c.isLower) → (∀ entry ∈ irregular, entry.1 ≠ w ∧ entry.2 ≠ w) →
      HasPluralRule w.toList → singularize (pluralize w) = w := by
  intro h
  have hbuse : singularize (pluralize "bus") ≠ "bus" := by decide +kernel
  have hlower : ∀ c ∈ "bus".toList, c.isLower = true :=
    List.all_eq_true.mp (by decide +kernel)
  exact hbuse (h "bus" hlower (by decide +kernel) (.inl ⟨"s", by decide +kernel, by decide +kernel⟩))

end ResourceQuery.Naming
