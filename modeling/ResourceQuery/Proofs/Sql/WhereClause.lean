import ResourceQuery.Proofs.Sql.Predicates
import ResourceQuery.Proofs.Sql.Renderings

/-!
# Sql — what a `WHERE` clause says

The text of a condition is read as a Boolean expression that is true, false or unknown as the
condition is (`Condition.template_means`).  Every combination stands in parentheses, so where a part of
a condition stands matters for raw fragments alone: among the parts of an `AND`, or among the
conditions of a query, a fragment must have no `OR` outside brackets, and under `NOT` no `AND` either
(`Place`, `Condition.placed`).

* `Query.where_means`: with the tests of JSON attributes as the only fragments, the clause is the
  conjunction of the conditions.
* `Query.where_composes`: with any fragments that fit where they stand, so it is.
* `Query.not_where_composes`: with a fragment that does not, the clause may be true without a
  condition being so.
-/

namespace ResourceQuery.Sql

open Reading (Between Outside between)
open Template (text)

/-! ### The truth of conditions by their predicates -/

/-- From number `n` on, the tokens of a condition without blanks, as its template has them. -/
def Condition.tokensFrom (n : Nat) (c : Condition) : List Token :=
  match c.template with
  | .ok t    => t.tokensFrom n
  | .error _ => []

namespace Condition

mutual

/-- The truth of a condition whose first value has number `n`, from the truth of the predicates that
its leaves write and the truth of its raw fragments. -/
def truthFrom (v : Valuation) (raw : Nat → Fragment → Truth) (n : Nat) : Condition → Truth
  | .compare c op x => v (tokensFrom n (.compare c op x))
  | .isIn c xs      => if xs.isEmpty then .no else v (tokensFrom n (.isIn c xs))
  | .notIn c xs     => if xs.isEmpty then .yes else v (tokensFrom n (.notIn c xs))
  | .isNull c       => v (tokensFrom n (.isNull c))
  | .isNotNull c    => v (tokensFrom n (.isNotNull c))
  | .like c x       => v (tokensFrom n (.like c x))
  | .raw f          => raw n f
  | .or parts       => .any (truthsFrom v raw n parts)
  | .and parts      => .all (truthsFrom v raw n parts)
  | .not part       => (truthFrom v raw n part).not
  | .always         => .yes
  | .never          => .no

/-- The truth of each of several conditions, numbered on from one to the next. -/
def truthsFrom (v : Valuation) (raw : Nat → Fragment → Truth) (n : Nat) : List Condition → List Truth
  | []      => []
  | c :: cs => truthFrom v raw n c :: truthsFrom v raw (n + c.values.length) cs

end

end Condition

/-! ### Places -/

/-- Where an expression stands. -/
inductive Place where
  /-- On its own, in parentheses, or among the parts of an `OR`. -/
  | free
  /-- Among the parts of an `AND`. -/
  | conjunct
  /-- Under `NOT`. -/
  | negated
  deriving DecidableEq

/-- The parts make one operand in this place. -/
def Place.allows : Place → List Part → Bool
  | .free,     _  => true
  | .conjunct, ps => ps.all fun p => !p.isWord "OR"
  | .negated,  ps => Part.isFree ps

/-- The place of each of several conditions that are combined by `AND`. -/
def Place.among (cs : List Condition) : Place :=
  if cs.length ≤ 1 then .free else .conjunct

namespace Condition

mutual

/-- The raw fragments in a condition that stands in a place, each with its own place. -/
def placed (p : Place) : Condition → List (Place × Fragment)
  | .raw f     => [(p, f)]
  | .or parts  => placedEach .free parts
  | .and parts => placedEach (.among parts) parts
  | .not part  => placed .negated part
  | _          => []

/-- The raw fragments in conditions that stand in a place, each with its own place. -/
def placedEach (p : Place) : List Condition → List (Place × Fragment)
  | []      => []
  | c :: cs => placed p c ++ placedEach p cs

end

theorem mem_placedEach {p : Place} {cs : List Condition} {e : Place × Fragment} :
    e ∈ placedEach p cs ↔ ∃ c ∈ cs, e ∈ c.placed p := by
  induction cs with
  | nil => simp [placedEach]
  | cons c cs ih => simp [placedEach, ih]

end Condition

/-! ### The meaning of templates -/

namespace Template

variable {p : Place} {n : Nat} {t u : Template} {truth truth' : Valuation → Truth}

/-- In this place, with the number `n` in its first place, the text is read as a Boolean expression
with this truth. -/
def Means (p : Place) (n : Nat) (t : Template) (truth : Valuation → Truth) : Prop :=
  ∃ ps f, t.Phrase Between Outside n ps ∧ p.allows ps = true ∧ Part.formula? ps = some f ∧
    ∀ v, f.truth v = truth v

/-- Parts without a connective fit everywhere. -/
theorem allows_of_isFree {ps : List Part} (h : Part.isFree ps = true) : p.allows ps = true := by
  cases p with
  | free => rfl
  | negated => exact h
  | conjunct =>
      have hparts : ∀ p ∈ ps, p.isWord "AND" = false ∧ p.isWord "OR" = false := by
        simpa [Part.isFree] using h
      simpa [Place.allows] using fun p hp => (hparts p hp).2

/-- A predicate means the truth of its own tokens. -/
theorem IsPredicate.means (h : t.IsPredicate n) : t.Means p n fun v => v (t.tokensFrom n) := by
  obtain ⟨ps, hps, hfree, hoperand⟩ := h
  exact ⟨ps, .predicate (t.tokensFrom n), hps, allows_of_isFree hfree,
    (Part.formula?_of_isFree hfree).trans hoperand, fun _ => rfl⟩

/-- A truth value is read as such. -/
theorem means_word {s : String} {f : Formula} (hends : endsOutside s = true)
    (hphrase : isPhrase (lex s) = true) (hread : Part.formula? ((lex s).map .token) = some f) :
    (text s).Means p n fun v => f.truth v :=
  ⟨_, f, (lexesTo_text hends).phrase hphrase, allows_of_isFree (isFree_of_isPhrase hphrase), hread,
    fun _ => rfl⟩

theorem means_true : (text "TRUE").Means p n fun _ => .yes :=
  means_word (f := .always) (by decide +kernel) (by decide +kernel) (by decide +kernel)

theorem means_false : (text "FALSE").Means p n fun _ => .no :=
  means_word (f := .never) (by decide +kernel) (by decide +kernel) (by decide +kernel)

/-- In parentheses, every expression fits everywhere. -/
theorem Means.enclosed (h : t.Means .free n truth) : (text "(" ++ t ++ text ")").Means p n truth := by
  obtain ⟨ps, f, hps, -, hf, htruth⟩ := h
  refine ⟨_, f, hps.enclosed.weaken (fun _ => Between.outside) fun _ => Between.outside,
    allows_of_isFree rfl, ?_, htruth⟩
  rw [Part.formula?_of_isFree rfl, Bracket.formula?, hf]
  rfl

/-- A negated condition means the negation, its parentheses keeping it together. -/
theorem Means.negated (h : t.Means .negated n truth) :
    (text "(NOT " ++ t ++ text ")").Means p n fun v => (truth v).not := by
  obtain ⟨ps, f, hps, hfree, hf, htruth⟩ := h
  have hends : between.after "NOT ".toList = between := by decide +kernel
  have hword : (text "NOT ").Phrase Between Between n [.token (.run .word "NOT".toList)] :=
    (lexesTo_text hends).phrase (by decide +kernel)
  have hopen : text "(NOT " = text "(" ++ text "NOT " := by rw [← text_append]; rfl
  have hnegation : (text "NOT " ++ t).Means .free n fun v => (truth v).not := by
    refine ⟨_, .not f, hword.append (by simpa using hps), rfl, ?_, fun v => ?_⟩
    · have hall : Part.isFree ([.token (.run .word "NOT".toList)] ++ ps) = true := by
        rw [Part.isFree_append, show Part.isFree ps = true from hfree]
        decide +kernel
      rw [Part.formula?_of_isFree hall, List.singleton_append, Part.operand?,
        if_pos (by decide +kernel), ← Part.formula?_of_isFree hfree, hf]
      rfl
    · rw [Formula.truth, htruth]
  rw [hopen, List.append_assoc (text "(")]
  exact hnegation.enclosed

/-- Texts with a connective between them, which stands between blanks. -/
theorem Phrase.connected {s : String} {word : Part} {ps qs : List Part}
    (hs : beginsApart s = true ∧ endsApart s = true)
    (hword : parts? (Token.visible (lex s)) = some [word]) (ht : t.Phrase Between Outside n ps)
    (hu : u.Phrase Between Outside (n + t.params.length) qs) :
    (t ++ text s ++ u).Phrase Between Outside n (ps ++ word :: qs) := by
  have hend : between.after s.toList = between := of_decide_eq_true hs.2
  have hconnective : (text s).Phrase Outside Between (n + t.params.length) [word] :=
    ⟨lex s, (lexesTo_text hend).apart hs.1, hword⟩
  have hphrase := (ht.append hconnective).append (by simpa using hu)
  rwa [List.append_assoc ps, List.singleton_append] at hphrase

/-- A conjunction means that both conjuncts hold. -/
theorem Means.conjoined (ht : t.Means .conjunct n truth)
    (hu : u.Means .conjunct (n + t.params.length) truth') :
    (t ++ text " AND " ++ u).Means .conjunct n fun v => (truth v).and (truth' v) := by
  obtain ⟨ps, f, hps, hplace, hf, htruth⟩ := ht
  obtain ⟨qs, g, hqs, hplace', hg, htruth'⟩ := hu
  let word : Part := .token (.run .word "AND".toList)
  have hphrase : (t ++ text " AND " ++ u).Phrase Between Outside n (ps ++ word :: qs) :=
    hps.connected (by decide +kernel) (by decide +kernel) hqs
  -- an `OR` outside brackets on either side would bind less than this `AND`
  have hor : ∀ p ∈ ps, p.isWord "OR" = false := by simpa [Place.allows] using hplace
  have hor' : ∀ p ∈ qs, p.isWord "OR" = false := by simpa [Place.allows] using hplace'
  have hall : ∀ p ∈ ps ++ word :: qs, p.isWord "OR" = false :=
    List.forall_mem_append.mpr ⟨hor, List.forall_mem_cons.mpr ⟨by decide +kernel, hor'⟩⟩
  obtain ⟨h, hh, htruths⟩ := Part.conjunction?_and (p := word) (by decide +kernel)
    ((Part.formula?_of_forall hor).symm.trans hf) ((Part.formula?_of_forall hor').symm.trans hg)
  refine ⟨_, h, hphrase, ?_, (Part.formula?_of_forall hall).trans hh, fun v => ?_⟩
  · exact List.all_eq_true.mpr fun p hp => by rw [hall p hp]; rfl
  · rw [htruths, htruth, htruth']

/-- A choice means that one of the alternatives holds. -/
theorem Means.disjoined (ht : t.Means .free n truth)
    (hu : u.Means .free (n + t.params.length) truth') :
    (t ++ text " OR " ++ u).Means .free n fun v => (truth v).or (truth' v) := by
  obtain ⟨ps, f, hps, -, hf, htruth⟩ := ht
  obtain ⟨qs, g, hqs, -, hg, htruth'⟩ := hu
  let word : Part := .token (.run .word "OR".toList)
  have hphrase : (t ++ text " OR " ++ u).Phrase Between Outside n (ps ++ word :: qs) :=
    hps.connected (by decide +kernel) (by decide +kernel) hqs
  obtain ⟨h, hh, htruths⟩ := Part.formula?_or (p := word) (by decide +kernel) hf hg
  exact ⟨_, h, hphrase, rfl, hh, fun v => by rw [htruths, htruth, htruth']⟩

/-- Each of the templates, numbered on from one to the next, is read with its truth. -/
inductive MeansEach (p : Place) : Nat → List Template → (Valuation → List Truth) → Prop where
  | nil (n : Nat) : MeansEach p n [] fun _ => []
  | cons {n : Nat} {t : Template} {ts : List Template} {truth : Valuation → Truth}
      {truths : Valuation → List Truth} (ht : t.Means p n truth)
      (hts : MeansEach p (n + t.params.length) ts truths) :
      MeansEach p n (t :: ts) fun v => truth v :: truths v

section

variable {ts : List Template} {truths : Valuation → List Truth}

/-- Several conjuncts mean that all of them hold. -/
theorem MeansEach.all (h : MeansEach .conjunct n ts truths) (hne : ts ≠ []) :
    (join " AND " ts).Means .conjunct n fun v => .all (truths v) := by
  induction h with
  | nil => exact absurd rfl hne
  | @cons n t ts truth truths ht hts ih =>
      cases hts with
      | nil => simpa only [join, Truth.all, Truth.and_yes] using ht
      | cons hu hus => exact ht.conjoined (ih (List.cons_ne_nil _ _))

/-- Several alternatives mean that one of them holds. -/
theorem MeansEach.any (h : MeansEach .free n ts truths) (hne : ts ≠ []) :
    (join " OR " ts).Means .free n fun v => .any (truths v) := by
  induction h with
  | nil => exact absurd rfl hne
  | @cons n t ts truth truths ht hts ih =>
      cases hts with
      | nil => simpa only [join, Truth.any, Truth.or_no] using ht
      | cons hu hus => exact ht.disjoined (ih (List.cons_ne_nil _ _))

end

end Template

/-! ### The meaning of conditions -/

/-- In its place, whatever the number of its first value, the fragment has a truth of its own. -/
def Fragment.MeansAt (raw : Valuation → Nat → Fragment → Truth) (p : Place) (f : Fragment) : Prop :=
  ∃ t, f.template = .ok t ∧ ∀ n, t.Means p n fun v => raw v n f

namespace Condition

open Template

variable {raw : Valuation → Nat → Fragment → Truth}

theorem tokensFrom_eq {c : Condition} {t : Template} (h : c.template = .ok t) (n : Nat) :
    c.tokensFrom n = t.tokensFrom n := by
  rw [tokensFrom, h]

theorem params_membership (c : Column) (s : String) (xs : List Value) :
    (text (c.sql ++ s) ++ valueList xs).params = xs := by
  simpa using (valueList_writes (Q := fun _ => True) xs).params

/-- A leaf that writes a predicate has the truth of that predicate. -/
theorem means_leaf {c : Condition} {t : Template} {p : Place} {n : Nat} (ht : c.template = .ok t)
    (hpredicate : t.IsPredicate n) : t.Means p n fun v => v (c.tokensFrom n) := by
  simp only [tokensFrom_eq ht]
  exact hpredicate.means

/-- The templates of conditions that are combined by `AND`, read on their own. -/
theorem means_all {cs : List Condition} {ts : List Template} {n : Nat}
    {truths : Valuation → List Truth} (h : MeansEach (.among cs) n ts truths)
    (hlength : ts.length = cs.length) (hne : cs ≠ []) :
    (join " AND " ts).Means .free n fun v => .all (truths v) := by
  have hts : ts ≠ [] := fun hnil => hne (List.length_eq_zero_iff.mp (by rw [← hlength, hnil]; rfl))
  -- a single condition has nothing beside it
  by_cases hone : cs.length ≤ 1
  · rw [Place.among, if_pos hone] at h
    cases h with
    | nil => exact absurd rfl hts
    | @cons n t ts truth truths ht hrest =>
        obtain rfl : ts = [] := List.length_eq_zero_iff.mp (by rw [List.length_cons] at hlength; omega)
        cases hrest
        simpa only [join, Truth.all, Truth.and_yes] using ht
  · rw [Place.among, if_neg hone] at h
    obtain ⟨ps, f, hps, -, hf, htruth⟩ := h.all hts
    exact ⟨ps, f, hps, rfl, hf, htruth⟩

mutual

/-- **A condition is read as what it says.**  When each raw fragment has a truth of its own where it
stands, the text of the condition has the truth of the condition. -/
theorem template_means (p : Place) :
    ∀ c : Condition, (∀ e ∈ c.placed p, e.2.MeansAt raw e.1) →
      ∃ t, c.template = .ok t ∧ t.params = c.values ∧
        ∀ n, t.Means p n fun v => c.truthFrom v (raw v) n
  | .compare c op x, _ => by
      refine ⟨_, rfl, by simp [params, values], fun n => ?_⟩
      exact means_leaf rfl (predicate_compare n c op x)
  | .isIn c xs, _ => by
      cases xs with
      | nil => exact ⟨_, rfl, params_text _, fun n => means_false⟩
      | cons x xs =>
          refine ⟨_, rfl, params_membership c _ (x :: xs), fun n => ?_⟩
          exact means_leaf rfl (predicate_membership (by simp [links]) n c (x :: xs))
  | .notIn c xs, _ => by
      cases xs with
      | nil => exact ⟨_, rfl, params_text _, fun n => means_true⟩
      | cons x xs =>
          refine ⟨_, rfl, params_membership c _ (x :: xs), fun n => ?_⟩
          exact means_leaf rfl (predicate_membership (by simp [links]) n c (x :: xs))
  | .isNull c, _ => by
      refine ⟨_, rfl, params_text _, fun n => ?_⟩
      exact means_leaf rfl (predicate_closing (by simp [closings]) n c)
  | .isNotNull c, _ => by
      refine ⟨_, rfl, params_text _, fun n => ?_⟩
      exact means_leaf rfl (predicate_closing (by simp [closings]) n c)
  | .like c x, _ => by
      refine ⟨_, rfl, by simp [params, values], fun n => ?_⟩
      exact means_leaf rfl (predicate_like_column n c x)
  | .raw f, h => by
      obtain ⟨t, ht, hmeans⟩ := h (p, f) (List.mem_singleton.mpr rfl)
      exact ⟨t, ht, Fragment.template_params ht, hmeans⟩
  -- within its own parentheses a choice may have parts of any kind
  | .or parts, h => by
      cases parts with
      | nil => exact ⟨_, rfl, params_text _, fun n => means_false⟩
      | cons c cs =>
          obtain ⟨ts, hts, hparams, hlength, hmeans⟩ := templates_mean .free (c :: cs) h
          refine ⟨_, bind_pure_eq_ok.mpr ⟨ts, hts, rfl⟩, by simpa [values] using hparams,
            fun n => ?_⟩
          have hne : ts ≠ [] := List.ne_nil_of_length_eq_add_one hlength
          exact ((hmeans n).any hne).enclosed
  | .and parts, h => by
      cases parts with
      | nil => exact ⟨_, rfl, params_text _, fun n => means_true⟩
      | cons c cs =>
          obtain ⟨ts, hts, hparams, hlength, hmeans⟩ := templates_mean _ (c :: cs) h
          refine ⟨_, bind_pure_eq_ok.mpr ⟨ts, hts, rfl⟩, by simpa [values] using hparams,
            fun n => ?_⟩
          exact (means_all (hmeans n) hlength (List.cons_ne_nil _ _)).enclosed
  -- behind `NOT` a part has to hold together by itself
  | .not part, h => by
      obtain ⟨t, ht, hparams, hmeans⟩ := template_means .negated part h
      exact ⟨_, bind_pure_eq_ok.mpr ⟨t, ht, rfl⟩, by simpa [values] using hparams,
        fun n => (hmeans n).negated⟩
  | .always, _ => ⟨_, rfl, params_text _, fun _ => means_true⟩
  | .never, _ => ⟨_, rfl, params_text _, fun _ => means_false⟩

/-- Conditions mean what each of them does, by induction on them. -/
theorem templates_mean (p : Place) :
    ∀ cs : List Condition, (∀ e ∈ placedEach p cs, e.2.MeansAt raw e.1) →
      ∃ ts, templates cs = .ok ts ∧ ts.flatMap params = valuesOf cs ∧ ts.length = cs.length ∧
        ∀ n, MeansEach p n ts fun v => truthsFrom v (raw v) n cs
  | [], _ => ⟨[], rfl, rfl, rfl, fun n => .nil n⟩
  | c :: cs, h => by
      obtain ⟨hc, hcs⟩ := List.forall_mem_append.mp h
      obtain ⟨t, ht, hparams, hmeans⟩ := template_means p c hc
      obtain ⟨ts, hts, hrest, hlength, heach⟩ := templates_mean p cs hcs
      refine ⟨t :: ts, bind_eq_ok.mpr ⟨t, ht, bind_pure_eq_ok.mpr ⟨ts, hts, rfl⟩⟩, ?_, ?_, fun n => ?_⟩
      · rw [List.flatMap_cons, hparams, hrest, valuesOf]
      · rw [List.length_cons, List.length_cons, hlength]
      · exact .cons (hmeans n) (hparams ▸ heach _)

end

end Condition

/-! ### Fragments -/

/-- Text in which no quote is left open ends outside quotes. -/
theorem Reading.outside_of_not_mem {r : Reading} {cs : List Char}
    (h : .unterminated ∉ r.tokens cs) : (r.after cs).Outside := by
  induction cs generalizing r with
  | nil =>
      cases r with
      | quoted q text => exact absurd (List.mem_singleton.mpr rfl) h
      | between | run | closed => rfl
  | cons c cs ih => exact ih fun hmem => h (List.mem_append_right _ hmem)

namespace Fragment

/-- In its place, the fragment is a Boolean expression with as many placeholders as parameters. -/
def IsExpression (p : Place) (f : Fragment) : Prop :=
  f.Fits ∧ ∀ n, ∃ ps g, parts? (Condition.tokensFrom n (.raw f)) = some ps ∧ p.allows ps = true ∧
    Part.formula? ps = some g

/-- The truth of the expression that the fragment is on its own. -/
def truthFrom (v : Valuation) (n : Nat) (f : Fragment) : Truth :=
  match formula? (Condition.tokensFrom n (.raw f)) with
  | some g => g.truth v
  | none   => .unknown

/-- An expression means its own truth, where its place allows its connectives. -/
theorem IsExpression.meansAt {p : Place} {f : Fragment} (h : f.IsExpression p) :
    f.MeansAt truthFrom p := by
  obtain ⟨hfits, hreads⟩ := h
  refine ⟨_, hfits.template, fun n => ?_⟩
  obtain ⟨ps, g, hps, hplace, hg⟩ := hreads n
  have htruth : ∀ v, g.truth v = f.truthFrom v n := by
    intro v
    rw [truthFrom, formula?, hps, Option.bind_some, hg]
  rw [Condition.tokensFrom_eq (c := .raw f) hfits.template] at hps
  refine ⟨ps, g, ⟨_, fun r hr => ?_, hps⟩, hplace, hg, htruth⟩
  -- no quote is left open, so the words after the fragment are read as such
  obtain rfl : r = between := hr
  refine ⟨Reading.outside_of_not_mem fun hmem => unterminated_not_mem hps ?_, rfl⟩
  exact List.mem_filter.mpr ⟨hmem, rfl⟩

/-- What everyone may see, and what belongs to a user. -/
def visibleTo (user : Int) : Fragment :=
  ⟨"\"public\" OR \"owner\" = ?", [.int user]⟩

/-- An `OR` of two predicates is an expression where nothing else is combined with it. -/
theorem visibleTo_isExpression (user : Int) : (visibleTo user).IsExpression .free := by
  have hfills : Fills "\"public\" OR \"owner\" = ?" [.int user]
      (text "\"public\" OR \"owner\" = " ++ [.bind (.int user)]) := by
    have hsplit : "\"public\" OR \"owner\" = ?" = "\"public\" OR \"owner\" = " ++ "?" := by
      decide +kernel
    rw [hsplit]
    exact (fills_plain (by decide +kernel)).append (fills_slot _)
  refine ⟨hfills.count, fun n => ?_⟩
  rw [Condition.tokensFrom_eq (c := .raw (visibleTo user)) hfills.template_eq]
  let number := n + (text "\"public\" OR \"owner\" = ").params.length
  let isPublic : List Part := [.token (.quoted .identifier "public".toList)]
  let isOwner : List Part :=
    [.token (.quoted .identifier "owner".toList), .token (.run .operator "=".toList)]
  let place : Part := .token (.run .placeholder (toString number).toList)
  have hend : between.after "\"public\" OR \"owner\" = ".toList = between := by decide +kernel
  have hphrase : (text "\"public\" OR \"owner\" = ").Phrase Between Between n
      (isPublic ++ .token (.run .word "OR".toList) :: isOwner) :=
    ⟨lex "\"public\" OR \"owner\" = ", Template.lexesTo_text hend, by decide +kernel⟩
  have hparts := (hphrase.append (Template.phrase_bind number (.int user))).parts?_tokensFrom
  rw [List.append_assoc, List.cons_append] at hparts
  have hpublic : Part.formula? isPublic = some (.predicate (Part.spelling isPublic)) := by
    rw [Part.formula?_of_isFree rfl]
    decide +kernel
  have howner : Part.formula? (isOwner ++ [place]) =
      some (.predicate (Part.spelling (isOwner ++ [place]))) :=
    Part.formula?_of_isFree rfl
  obtain ⟨g, hg, -⟩ :=
    Part.formula?_or (p := .token (.run .word "OR".toList)) (by decide +kernel) hpublic howner
  exact ⟨_, g, hparts, rfl, hg⟩

end Fragment

/-- In every place, the tests of JSON attributes are the predicates that they write. -/
theorem Condition.Reads.meansAt {P : Column → Prop} {c : Condition} (h : c.Reads P) (p : Place) :
    ∀ e ∈ c.placed p, e.2.MeansAt (fun v n f => v (tokensFrom n (.raw f))) e.1 := by
  induction h generalizing p with
  | json _ tests =>
      obtain ⟨f, t, rfl, ht, hpredicate⟩ := tests.predicate
      intro e he
      obtain rfl := List.mem_singleton.mp he
      exact ⟨t, ht, fun n => means_leaf (c := .raw f) ht (hpredicate n)⟩
  | or _ ih | and _ ih =>
      intro e he
      obtain ⟨c, hc, he⟩ := mem_placedEach.mp he
      exact ih c hc _ e he
  | not _ ih => exact ih _
  | compare | isIn | notIn | isNull | isNotNull | like | always | never => nofun

/-! ### Clauses -/

/-- The Boolean expression of a `WHERE` clause. -/
def clauseFormula? (cs : List Char) : Option Formula :=
  match Token.visible (between.tokens cs) with
  | t :: ts => if t.isWord "WHERE" then formula? ts else none
  | []      => none

namespace Query

open Condition (placedEach truthsFrom)

variable {raw : Valuation → Nat → Fragment → Truth}

/-- The raw fragments in the conditions of a query, each with its place. -/
def placedFragments (q : Query) : List (Place × Fragment) :=
  placedEach (.among q.conditions) q.conditions

/-- Whatever is bound before, the clause of a query is written, binds the values of its conditions, and is
read as their conjunction. -/
theorem clause_means (q : Query) (hne : q.conditions ≠ [])
    (h : ∀ e ∈ q.placedFragments, e.2.MeansAt raw e.1) (bound : List Value) :
    ∃ clause, q.writeWhere.run bound = .ok (clause, bound ++ Condition.valuesOf q.conditions) ∧
      ∃ f, clauseFormula? clause.toList = some f ∧
        ∀ v, f.truth v = .all (truthsFrom v (raw v) (bound.length + 1) q.conditions) := by
  obtain ⟨ts, hts, hparams, hlength, hmeans⟩ := Condition.templates_mean _ q.conditions h
  let clause := text " WHERE " ++ Template.join " AND " ts
  have hclause : q.whereTemplate = .ok clause := by
    rw [whereTemplate, if_neg (by simpa using hne)]
    exact bind_pure_eq_ok.mpr ⟨ts, hts, rfl⟩
  have hvalues : clause.params = Condition.valuesOf q.conditions := by
    rw [Template.params_append, Template.params_text, List.nil_append, Template.params_join, hparams]
  refine ⟨clause.sqlFrom (bound.length + 1), ?_, ?_⟩
  · rw [q.follows_writeWhere, hclause, Except.map, hvalues]
  · rw [Template.toList_sqlFrom]
    obtain ⟨ps, f, hps, -, hf, htruth⟩ :=
      Condition.means_all (hmeans (bound.length + 1)) hlength hne
    refine ⟨f, ?_, htruth⟩
    obtain ⟨us, hus, hparts⟩ := hps
    have hend : between.after " WHERE ".toList = between := by decide +kernel
    have hkeyword : Token.visible (lex " WHERE ") = [.run .word "WHERE".toList] := by decide +kernel
    have hlexes := (Template.lexesTo_text (n := bound.length + 1) hend).append (by simpa using hus)
    rw [clauseFormula?, (hlexes between rfl).2, Reading.finish, List.nil_append,
      Token.visible_append, hkeyword, List.singleton_append]
    have hword : (Token.run .word "WHERE".toList).isWord "WHERE" = true := by decide +kernel
    simp only [hword, if_true, formula?, hparts, Option.bind_some, hf]

/-- **A `WHERE` clause keeps the Boolean structure of its conditions.**  When the tests of JSON
attributes are the only raw fragments, the clause of a query with conditions is written whatever is bound
before it and, read with the precedence of SQL, has in every valuation of its predicates the truth of the
conjunction of the conditions. -/
theorem where_means (q : Query) (hne : q.conditions ≠ [])
    (h : ∀ c ∈ q.conditions, c.Reads fun _ => True) (bound : List Value) :
    ∃ clause, q.writeWhere.run bound = .ok (clause, bound ++ Condition.valuesOf q.conditions) ∧
      ∃ f, clauseFormula? clause.toList = some f ∧ ∀ v, f.truth v =
        .all (truthsFrom v (fun n f => v (Condition.tokensFrom n (.raw f))) (bound.length + 1)
          q.conditions) := by
  refine clause_means q hne (fun e he => ?_) bound
  obtain ⟨c, hc, he⟩ := Condition.mem_placedEach.mp he
  exact (h c hc).meansAt _ e he

/-- Nested conditions, with a test of a JSON attribute and empty combinations among them. -/
def nested : Query :=
  { ofTable "articles" "articles" with
    conditions := [
      .not (.or [.compare (.bare "level") .ge (.int 3), .isIn (.bare "state") []]),
      .or [.and [], .isNull (.bare "owner_id")],
      (JsonAttribute.mk (.bare "data") ["title"] none).isNotNull] }

/-- The clause and the values of a nested condition, and what the clause means. -/
theorem nested_means :
    ∃ clause, nested.writeWhere.run [] = .ok (clause, [.int 3, .texts ["title"]]) ∧
      ∃ f, clauseFormula? clause.toList = some f ∧ ∀ v, f.truth v = .all [
        (Truth.any [v (Condition.tokensFrom 1 (.compare (.bare "level") .ge (.int 3))), .no]).not,
        .any [.yes, v (Condition.tokensFrom 2 (.isNull (.bare "owner_id")))],
        v (Condition.tokensFrom 2 (JsonAttribute.mk (.bare "data") ["title"] none).isNotNull)] := by
  have hreads : ∀ c ∈ nested.conditions, c.Reads fun _ => True := by
    simp only [nested, List.forall_mem_cons]
    refine ⟨.not (.or ?_), .or ?_, .json trivial .isNotNull, nofun⟩
    · simpa using ⟨.compare .ge (.int 3) trivial, .isIn [] trivial⟩
    · simpa using ⟨.and nofun, .isNull trivial⟩
  exact where_means nested (List.cons_ne_nil _ _) hreads []

/-- **Fragments that fit where they stand compose.**  When each raw fragment is a Boolean expression
that fits its place, the clause of a query with conditions has the truth of their conjunction, so it
is true exactly when all of them are. -/
theorem where_composes (q : Query) (hne : q.conditions ≠ [])
    (h : ∀ e ∈ q.placedFragments, e.2.IsExpression e.1) (bound : List Value) :
    ∃ clause, q.writeWhere.run bound = .ok (clause, bound ++ Condition.valuesOf q.conditions) ∧
      ∃ f, clauseFormula? clause.toList = some f ∧
        ∀ v, f.truth v =
            .all (truthsFrom v (Fragment.truthFrom v) (bound.length + 1) q.conditions) ∧
          (f.truth v = .yes ↔
            ∀ x ∈ truthsFrom v (Fragment.truthFrom v) (bound.length + 1) q.conditions, x = .yes) := by
  obtain ⟨clause, hclause, f, hf, htruth⟩ :=
    clause_means q hne (fun e he => (h e he).meansAt) bound
  exact ⟨clause, hclause, f, hf, fun v => ⟨htruth v, by rw [htruth v, Truth.all_eq_yes]⟩⟩

/-- The documents of a tenant under one more condition. -/
def ofTenant (c : Condition) : Query :=
  { ofTable "documents" "documents" with
    conditions := [.compare (.bare "tenant") .eq (.int 1), c] }

/-- The clause and the values of a condition for a tenant with a fragment of its own, and what the clause
means. -/
theorem tenant_composes :
    ∃ clause, (ofTenant (.or [.raw (.visibleTo 2)])).writeWhere.run [] = .ok (clause, [.int 1, .int 2]) ∧
      ∃ f, clauseFormula? clause.toList = some f ∧ ∀ v, f.truth v = .yes ↔
        v (Condition.tokensFrom 1 (.compare (.bare "tenant") .eq (.int 1))) = .yes ∧
          Truth.any [Fragment.truthFrom v 2 (.visibleTo 2)] = .yes := by
  have hfits : ∀ e ∈ (ofTenant (.or [.raw (.visibleTo 2)])).placedFragments,
      e.2.IsExpression e.1 := by
    intro e he
    obtain rfl : e = (.free, .visibleTo 2) := by
      simpa [placedFragments, ofTenant, placedEach, Condition.placed] using he
    exact Fragment.visibleTo_isExpression 2
  obtain ⟨clause, hclause, f, hf, htruth⟩ :=
    where_composes (ofTenant (.or [.raw (.visibleTo 2)])) (List.cons_ne_nil _ _) hfits []
  refine ⟨clause, hclause, f, hf, fun v => (htruth v).2.trans ?_⟩
  simp [ofTenant, truthsFrom, Condition.truthFrom, Condition.values]

/-- Without parentheses of its own, a fragment with `OR` takes the conditions before it into its
first alternative: `"tenant" = 1 AND "public" OR "owner" = 2`. -/
theorem not_where_composes :
    ¬ ∀ q : Query, q.conditions ≠ [] →
      (∀ f ∈ Condition.fragmentsOf q.conditions, f.IsExpression .free) → ∀ bound,
        ∃ clause, q.writeWhere.run bound = .ok (clause, bound ++ Condition.valuesOf q.conditions) ∧
          ∃ f, clauseFormula? clause.toList = some f ∧ ∀ v, f.truth v = .yes →
            ∀ x ∈ truthsFrom v (Fragment.truthFrom v) (bound.length + 1) q.conditions, x = .yes := by
  intro hall
  let q := ofTenant (.raw (.visibleTo 2))
  obtain ⟨clause, hclause, f, hf, hyes⟩ := hall q (List.cons_ne_nil _ _) (by
    intro f hf
    obtain rfl : f = .visibleTo 2 := by
      simpa [q, ofTenant, Condition.fragmentsOf, Condition.fragments] using hf
    exact Fragment.visibleTo_isExpression 2) []
  -- a document that the user owns and that belongs to another tenant
  let owned : Valuation := fun ts => if (.quoted .identifier "owner".toList) ∈ ts then .yes else .no
  have htest : ((q.writeWhere.run []).toOption.any fun written =>
      (clauseFormula? written.1.toList).any fun f => f.truth owned = .yes) = true := by
    decide +kernel
  obtain ⟨written, hwritten, hany⟩ := exists_ok_of_any htest
  obtain rfl := Except.ok.inj (hwritten.symm.trans hclause)
  rw [hf] at hany
  have htenant : owned (Condition.tokensFrom 1 (.compare (.bare "tenant") .eq (.int 1))) = .no := by
    decide +kernel
  have h := hyes owned (of_decide_eq_true hany) _ (List.mem_cons_self ..)
  rw [Condition.truthFrom, List.length_nil, Nat.zero_add, htenant] at h
  cases h

end Query

end ResourceQuery.Sql
