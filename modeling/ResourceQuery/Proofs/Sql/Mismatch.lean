import ResourceQuery.Proofs.Sql.Numbering
import ResourceQuery.Proofs.Sql.Renderings

/-!
# Sql — fragments that do not match their parameters

A query within its limits on size is written down exactly when each of its fragments has as many
placeholders as parameters.  Otherwise the error names the first fragment that has not, with the number
of its parameters.  The placeholders are counted up to the first one without a parameter, so that the
number in the error is theirs only if there is at most one too many.

* `slots_eq`: the placeholders of a fragment are the question marks among the tokens of its text.
* `Reports.fails_iff`: an error is that of the first fragment that does not match.
* `Query.renders_of_small`: what stops a query, one page of it and its count, and what is told of it.
-/

namespace ResourceQuery.Sql

/-! ### Placeholders and tokens -/

namespace Reading

variable {r : Reading} {c : Char}

theorem marks_finish (r : Reading) : r.finish.count (.mark '?') = 0 := by
  cases r with
  | between | run | quoted | closed => rfl

/-- A question mark is a token, and no other character starts one. -/
theorem marks_start (c : Char) : (start c).1.count (.mark '?') = if c = '?' then 1 else 0 := by
  by_cases hmark : c = '?'
  · subst hmark
    rfl
  rw [if_neg hmark]
  have hstarts := starts c
  generalize start c = s at hstarts
  cases hstarts with
  | blank | quote | placeholder | run => rfl
  | mark => exact List.count_eq_zero.mpr (by simpa using Ne.symm hmark)

/-- What is read goes on with no question mark outside quotes. -/
theorem not_slot_of_extend? {longer : Reading} (h : r.extend? c = some longer) :
    ¬ (r.quoting = .outside ∧ c = '?') := by
  rintro ⟨houtside, rfl⟩
  have hextends := extends_of_extend? h
  generalize hc : '?' = c at hextends
  cases hextends with
  | @run k text _ h => subst hc; cases k <;> cases h
  | @inside q => cases q <;> cases houtside
  | @close q => cases q <;> cases houtside
  | @reopen q => cases q <;> cases hc

/-- A question mark outside quotes is a token, and no other character makes one. -/
theorem marks_step :
    (r.step c).1.count (.mark '?') = if r.quoting = .outside ∧ c = '?' then 1 else 0 := by
  rw [step]
  cases hlonger : r.extend? c with
  | some longer => exact (if_neg (not_slot_of_extend? hlonger)).symm
  | none =>
      rw [List.count_append, marks_finish, marks_start, Nat.zero_add]
      simp only [quoting_of_parted hlonger, true_and]

/-- The question marks among the tokens are the placeholders of the text. -/
theorem marks_tokens (cs : List Char) :
    (r.tokens cs).count (.mark '?') = Fragment.placeholders r.quoting cs := by
  induction cs generalizing r with
  | nil => exact marks_finish r
  | cons c cs ih =>
      rw [tokens, List.count_append, marks_step, ih, quoting_step]
      by_cases hslot : r.quoting = .outside ∧ c = '?'
      · obtain ⟨houtside, rfl⟩ := hslot
        rw [houtside, Fragment.placeholders_slot, if_pos ⟨rfl, rfl⟩, Nat.add_comm]
        rfl
      · rw [Fragment.placeholders_char hslot, if_neg hslot, Nat.zero_add]

end Reading

namespace Fragment

/-- The question marks outside quotes. -/
def slots (f : Fragment) : Nat :=
  (lex f.sql).count (.mark '?')

theorem slots_eq (f : Fragment) : f.slots = placeholders .outside f.sql.toList :=
  Reading.marks_tokens f.sql.toList

/-- The error that tells how many placeholders and parameters the fragment has. -/
def trueMismatch (f : Fragment) : SqlError :=
  .placeholderMismatch f.sql f.slots f.params.length

/-- The error that counts no placeholder behind the first one without a parameter. -/
def toldMismatch (f : Fragment) : SqlError :=
  .placeholderMismatch f.sql (min f.slots (f.params.length + 1)) f.params.length

theorem fits_iff {f : Fragment} : f.Fits ↔ f.slots = f.params.length := by
  rw [slots_eq, Fits]

/-- A fragment fails exactly if its placeholders and parameters do not match, with the error that it
tells. -/
theorem mismatch?_eq_some {f : Fragment} {e : SqlError} :
    f.mismatch? = some e ↔ f.slots ≠ f.params.length ∧ f.toldMismatch = e := by
  rw [mismatch?, toldMismatch, slots_eq]
  split
  case isTrue hfits => exact iff_of_false (Option.some_ne_none e).symm fun h => h.1 hfits
  case isFalse hfits => rw [Option.some.injEq, and_iff_right hfits]

/-- The told error is the true one if at most one placeholder is without a parameter. -/
theorem toldMismatch_eq_iff {f : Fragment} :
    f.toldMismatch = f.trueMismatch ↔ f.slots ≤ f.params.length + 1 := by
  rw [toldMismatch, trueMismatch, SqlError.placeholderMismatch.injEq]
  simp only [true_and, and_true]
  omega

end Fragment

/-! ### What stops a query -/

namespace Reports

variable {α : Type} {x : Except SqlError α} {fs : List Fragment}

/-- A result succeeds exactly if all fragments that it reports have as many parameters as placeholders. -/
theorem succeeds_iff (h : Reports x fs) :
    (∃ a, x = .ok a) ↔ ∀ f ∈ fs, f.slots = f.params.length := by
  have hfits : (∃ a, x = .ok a) ↔ fs.findSome? Fragment.mismatch? = none := by
    rw [Reports] at h
    split at h
    case h_1 hfirst => simp [h, hfirst]
    case h_2 hfirst => exact iff_of_true h hfirst
  rw [hfits, List.findSome?_eq_none_iff]
  simp only [Fragment.mismatch?_eq_none, Fragment.fits_iff]

/-- An error is that of the first fragment that does not match. -/
theorem fails_iff (h : Reports x fs) (e : SqlError) :
    x = .error e ↔ ∃ before f after, fs = before ++ f :: after ∧
      (∀ g ∈ before, g.slots = g.params.length) ∧ f.slots ≠ f.params.length ∧ f.toldMismatch = e := by
  have hfirst : x = .error e ↔ fs.findSome? Fragment.mismatch? = some e := by
    rw [Reports] at h
    split at h
    case h_1 hfirst => rw [h, hfirst, Except.error.injEq, Option.some.injEq]
    case h_2 hfirst =>
      obtain ⟨a, rfl⟩ := h
      simp [hfirst]
  rw [hfirst, List.findSome?_eq_some_iff]
  simp only [Fragment.mismatch?_eq_some, Fragment.mismatch?_eq_none, Fragment.fits_iff]
  exact exists_congr fun before => exists_congr fun f => exists_congr fun after =>
    and_congr_right fun _ => and_comm

end Reports

/-- The computation succeeds exactly when each of the fragments has as many placeholders as parameters,
and fails exactly with what is told of the first that has not. -/
structure Renders (x : Except SqlError Statement) (fs : List Fragment) : Prop where
  succeeds_iff : (∃ s, x = .ok s) ↔ ∀ f ∈ fs, f.slots = f.params.length
  fails_iff (e : SqlError) : x = .error e ↔ ∃ before f after, fs = before ++ f :: after ∧
    (∀ g ∈ before, g.slots = g.params.length) ∧ f.slots ≠ f.params.length ∧ f.toldMismatch = e

theorem Reports.renders {x : Except SqlError Statement} {fs : List Fragment} (h : Reports x fs) :
    Renders x fs :=
  ⟨h.succeeds_iff, h.fails_iff⟩

namespace Query

/-- **Only fragments that do not match their parameters stop a query within its limits on size.**  The
query, one page of it and its count fail with what is told of the first such fragment.  Its text and the
number of its parameters are right, and the number of its placeholders is right unless two or more are
left without a parameter. -/
theorem renders_of_small (q : Query) (hsmall : ¬ q.TooComplex) :
    Renders q.build q.fragments ∧ (∀ page, Renders (q.buildPage page) q.fragments) ∧
      Renders q.buildCount q.countFragments ∧
      ∀ f : Fragment, f.toldMismatch = f.trueMismatch ↔ f.slots ≤ f.params.length + 1 := by
  have hvalid := validate_of_not_tooComplex hsmall
  exact ⟨(reports_build hvalid).renders, fun page => (reports_build (q := q.paginate _ _) hvalid).renders,
    (reports_buildCount hvalid).renders, fun _ => Fragment.toldMismatch_eq_iff⟩

/-- A query for the rows that meet a raw condition. -/
def ofFragment (f : Fragment) : Query :=
  (ofTable "t" "t").restrict (.raw f)

/-- One parameter for two placeholders, behind a question mark between quotes. -/
theorem renders_of_small_unmatched :
    ∃ f : Fragment, f = ⟨"\"x?\" = ? AND y = ?", [.int 1]⟩ ∧ ¬ (ofFragment f).TooComplex ∧
      f.trueMismatch = .placeholderMismatch "\"x?\" = ? AND y = ?" 2 1 ∧
      (ofFragment f).build = .error f.trueMismatch := by
  refine ⟨_, rfl, ?_⟩
  have hsmall : ¬ (ofFragment ⟨"\"x?\" = ? AND y = ?", [.int 1]⟩).TooComplex := by decide +kernel
  obtain ⟨hbuild, -, -, htold⟩ := renders_of_small _ hsmall
  refine ⟨hsmall, by decide +kernel, (hbuild.fails_iff _).mpr ⟨[], _, [], rfl, nofun, ?_, ?_⟩⟩
  · decide +kernel
  · exact (htold _).mpr (by decide +kernel)

/-- Three placeholders with one parameter are told to be two. -/
theorem not_build_trueMismatch :
    ¬ ∀ f : Fragment, ∀ e, (ofFragment f).build = .error e → e = f.trueMismatch := by
  intro h
  have hbuild : (ofFragment ⟨"a = ? AND b = ? AND c = ?", [.int 1]⟩).build =
      .error (.placeholderMismatch "a = ? AND b = ? AND c = ?" 2 1) := rfl
  have htrue := h _ _ hbuild
  exact absurd htrue (by decide +kernel)

end Query

end ResourceQuery.Sql
