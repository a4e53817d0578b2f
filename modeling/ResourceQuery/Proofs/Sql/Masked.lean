import ResourceQuery.Proofs.Except
import ResourceQuery.Proofs.Sql.Written

/-!
# Sql — values do not show in the text

Two queries are alike when they differ at most in the texts that their conditions bind
(`Query.Alike`).  Masking a condition replaces these texts by the empty one.  As it commutes with writing
the condition down (`Condition.template_masked`), the text of a template does not tell which texts it
binds, and the statements of alike queries have the same SQL and equally many values
(`build_alike`, `buildPage_alike`, `buildCount_alike`); if one of them cannot be written, the other
fails with the same error.
-/

namespace ResourceQuery.Sql

/-- The value with its text left out. -/
def Value.masked : Value → Value
  | .text _ => .text ""
  | v       => v

/-- The fragment with the texts of its parameters left out. -/
def Fragment.masked (f : Fragment) : Fragment :=
  { f with params := f.params.map Value.masked }

namespace Condition

mutual

/-- The condition with the texts that it binds left out. -/
def masked : Condition → Condition
  | .compare c op value => .compare c op value.masked
  | .isIn c values      => .isIn c (values.map Value.masked)
  | .notIn c values     => .notIn c (values.map Value.masked)
  | .isNull c           => .isNull c
  | .isNotNull c        => .isNotNull c
  | .like c _           => .like c ""
  | .raw fragment       => .raw fragment.masked
  | .or parts           => .or (maskedAll parts)
  | .and parts          => .and (maskedAll parts)
  | .not part           => .not (masked part)
  | .always             => .always
  | .never              => .never

/-- The conditions with the texts that they bind left out. -/
def maskedAll : List Condition → List Condition
  | []      => []
  | c :: cs => masked c :: maskedAll cs

end

theorem maskedAll_eq_map (cs : List Condition) : maskedAll cs = cs.map masked := by
  induction cs with
  | nil => rfl
  | cons c cs ih => rw [maskedAll, ih, List.map_cons]

theorem maskedAll_append (cs ds : List Condition) :
    maskedAll (cs ++ ds) = maskedAll cs ++ maskedAll ds := by
  simp [maskedAll_eq_map]

theorem masked_anyOf (cs : List Condition) : (anyOf cs).masked = anyOf (maskedAll cs) := by
  cases cs with
  | nil => rfl
  | cons c cs =>
      cases cs with
      | nil => rfl
      | cons d cs => rfl

theorem isEmpty_of_masked {cs ds : List Condition} (h : maskedAll cs = maskedAll ds) :
    cs.isEmpty = ds.isEmpty := by
  simp only [maskedAll_eq_map] at h
  rw [← List.isEmpty_map, h, List.isEmpty_map]

mutual

/-- A masked condition has as many leaves, by induction on the condition. -/
theorem leafCount_masked : ∀ c : Condition, c.masked.leafCount = c.leafCount
  | .compare .. | .isIn .. | .notIn .. | .isNull _ | .isNotNull _ | .like .. | .raw _ | .always
  | .never => rfl
  | .or parts => leafCounts_masked parts
  | .and parts => leafCounts_masked parts
  | .not part => leafCount_masked part

theorem leafCounts_masked : ∀ cs : List Condition, leafCounts (maskedAll cs) = leafCounts cs
  | [] => rfl
  | c :: cs => by
      rw [maskedAll, leafCounts, leafCounts, leafCount_masked c, leafCounts_masked cs]

end

end Condition

/-! ### Templates -/

/-- The piece with the text that it binds left out. -/
def Piece.masked : Piece → Piece
  | .char c     => .char c
  | .bind value => .bind value.masked

namespace Template

/-- The template with the texts that it binds left out. -/
def masked (t : Template) : Template :=
  t.map Piece.masked

@[simp] theorem masked_append (t u : Template) : masked (t ++ u) = masked t ++ masked u :=
  List.map_append

theorem masked_chars (cs : List Char) : masked (cs.map .char) = cs.map .char := by
  simp [masked, Piece.masked]

@[simp] theorem masked_text (s : String) : masked (text s) = text s :=
  masked_chars s.toList

@[simp] theorem masked_cons (p : Piece) (t : Template) : masked (p :: t) = p.masked :: masked t := rfl

@[simp] theorem masked_nil : masked [] = [] := rfl

theorem masked_join (sep : String) (ts : List Template) :
    masked (join sep ts) = join sep (ts.map masked) := by
  induction ts with
  | nil => rfl
  | cons t ts ih =>
      cases ts with
      | nil => rfl
      | cons u ts => simp [join, ih]

theorem params_masked (t : Template) : params (masked t) = (params t).map Value.masked := by
  induction t with
  | nil => rfl
  | cons p t ih =>
      cases p with
      | char c => exact ih
      | bind v => exact congrArg (v.masked :: ·) ih

/-- The text of a template does not depend on its values. -/
theorem charsFrom_masked (n : Nat) (t : Template) : charsFrom n (masked t) = charsFrom n t := by
  induction t generalizing n with
  | nil => rfl
  | cons p t ih =>
      cases p with
      | char c => exact congrArg (c :: ·) (ih n)
      | bind v => exact congrArg ('$' :: (toString n).toList ++ ·) (ih (n + 1))

/-- The templates differ at most in the texts that they bind. -/
def Alike (t u : Template) : Prop :=
  masked t = masked u

namespace Alike

variable {t t' u u' : Template}

theorem refl (t : Template) : Alike t t :=
  rfl

theorem append (h : Alike t u) (h' : Alike t' u') : Alike (t ++ t') (u ++ u') := by
  rw [Alike, masked_append, masked_append, h, h']

theorem join (sep : String) {ts us : List Template} (h : ts.map masked = us.map masked) :
    Alike (Template.join sep ts) (Template.join sep us) := by
  rw [Alike, masked_join, masked_join, h]

end Alike

end Template

/-- The statements have the same text and equally many values. -/
structure Statement.SameText (s u : Statement) : Prop where
  sql    : s.sql = u.sql
  params : s.params.length = u.params.length

/-- Templates that are alike have the same text and as many values, alike in shape. -/
theorem Template.Alike.statement {t u : Template} (h : Alike t u) :
    t.statement.SameText u.statement where
  sql := by
    simp only [Template.statement]
    rw [← charsFrom_masked 1 t, h, charsFrom_masked]
  params := by
    simp only [Template.statement]
    rw [← List.length_map Value.masked, ← params_masked, h, params_masked, List.length_map]

/-! ### Writing conditions down -/

namespace Fragment

/-- A text is filled with masked values as it is with values, which are masked then. -/
theorem fill_masked (q : Quoting) (cs : List Char) (vs : List Value) :
    fill q cs (vs.map Value.masked) = Template.masked (fill q cs vs) := by
  induction cs generalizing q vs with
  | nil => rfl
  | cons c cs ih =>
      by_cases hslot : q = .outside ∧ c = '?'
      · obtain ⟨rfl, rfl⟩ := hslot
        cases vs with
        | nil =>
            rw [List.map_nil, fill_nil, Template.masked_chars]
        | cons v vs =>
            rw [List.map_cons, fill_slot, fill_slot, ih]
            rfl
      · rw [fill_char hslot, fill_char hslot, ih]
        rfl

theorem template_masked (f : Fragment) : f.masked.template = f.template.map Template.masked := by
  have hmismatch : f.masked.mismatch? = f.mismatch? := by
    simp [mismatch?, masked]
  rw [template, template, hmismatch]
  cases f.mismatch? with
  | some e => rfl
  | none => exact congrArg Except.ok (fill_masked .outside f.sql.toList f.params)

end Fragment

namespace Condition

theorem valueList_masked (values : List Value) :
    valueList (values.map Value.masked) = Template.masked (valueList values) := by
  simp [valueList, Template.masked_join, Function.comp_def, Piece.masked]

mutual

/-- The template of a masked condition is its template, masked, by induction on the condition. -/
theorem template_masked : ∀ c : Condition, c.masked.template = c.template.map Template.masked
  | .compare .. | .like .. => by simp [masked, template, Except.map, Piece.masked, Value.masked]
  | .isIn c values | .notIn c values => by
      cases values with
      | nil => rfl
      | cons v vs =>
          have hlist := valueList_masked (v :: vs)
          rw [List.map_cons] at hlist
          simp [masked, template, Except.map, hlist]
  | .isNull _ | .isNotNull _ | .always | .never => by simp [masked, template, Except.map]
  | .raw fragment => fragment.template_masked
  | .or parts | .and parts => by
      cases parts with
      | nil => rfl
      | cons c cs =>
          have hparts := templates_masked (c :: cs)
          rw [masked, template, template, hparts]
          cases templates (c :: cs) with
          | error e => rfl
          | ok ts =>
              simp [maskedAll, bind, Except.bind, pure, Except.pure, Except.map,
                Template.masked_join]
  | .not part => by
      rw [masked, template, template, template_masked part]
      cases template part with
      | error e => rfl
      | ok t => simp [bind, Except.bind, pure, Except.pure, Except.map]

/-- The templates of masked conditions are theirs, masked. -/
theorem templates_masked : ∀ cs : List Condition,
    templates (maskedAll cs) = (templates cs).map (List.map Template.masked)
  | [] => rfl
  | c :: cs => by
      rw [maskedAll, templates, templates, template_masked c, templates_masked cs]
      cases template c with
      | error e => rfl
      | ok t =>
          cases templates cs with
          | error e => rfl
          | ok ts => rfl

end

end Condition

/-! ### Queries -/

namespace Query

/-- The queries differ at most in the texts that their conditions bind. -/
def Alike (q u : Query) : Prop :=
  ∃ cs, Condition.maskedAll q.conditions = Condition.maskedAll cs ∧ u = { q with conditions := cs }

variable {q u : Query}

theorem Alike.refl (q : Query) : q.Alike q :=
  ⟨q.conditions, rfl, rfl⟩

/-- Queries that are alike stay so when conditions are added that are masked alike. -/
theorem Alike.foldl_restrict {cs ds : List Condition} (h : q.Alike u)
    (hcs : Condition.maskedAll cs = Condition.maskedAll ds) :
    (cs.foldl restrict q).Alike (ds.foldl restrict u) := by
  obtain ⟨old, h, rfl⟩ := h
  rw [Query.foldl_restrict, Query.foldl_restrict]
  refine ⟨old ++ ds, ?_, rfl⟩
  rw [Condition.maskedAll_append, Condition.maskedAll_append, h, hcs]

theorem validate_alike (h : q.Alike u) : q.validate = u.validate := by
  obtain ⟨cs, h, rfl⟩ := h
  have hcount : Condition.leafCounts q.conditions = Condition.leafCounts cs := by
    rw [← Condition.leafCounts_masked, h, Condition.leafCounts_masked]
  simp only [validate, conditionCount, hcount]

theorem whereTemplate_alike (h : q.Alike u) :
    Agree Template.Alike q.whereTemplate u.whereTemplate := by
  obtain ⟨cs, h, rfl⟩ := h
  have htemplates : (Condition.templates q.conditions).map (List.map Template.masked) =
      (Condition.templates cs).map (List.map Template.masked) := by
    rw [← Condition.templates_masked, h, Condition.templates_masked]
  simp only [whereTemplate, Condition.isEmpty_of_masked h]
  split
  · exact .ok (.refl [])
  · exact (Agree.of_map_eq htemplates).bind_pure fun ts us h =>
      (Template.Alike.refl _).append (.join _ h)

theorem selectTemplate_alike (h : q.Alike u) :
    Agree Template.Alike q.selectTemplate u.selectTemplate := by
  have hwhere := whereTemplate_alike h
  obtain ⟨cs, -, rfl⟩ := h
  refine Agree.bind (R := Eq) (.refl (fun _ => rfl) q.selectList) ?_
  rintro list _ rfl
  refine hwhere.bind fun t t' ht => ?_
  refine Agree.bind_pure (R := Eq) (.refl (fun _ => rfl) q.groupTemplate) ?_
  rintro grouping _ rfl
  exact ((Template.Alike.refl _).append ht).append (.refl grouping)

/-- Queries that are alike are written alike. -/
theorem template_alike (h : q.Alike u) : Agree Template.Alike q.template u.template := by
  have hselect := selectTemplate_alike h
  obtain ⟨cs, -, rfl⟩ := h
  refine hselect.bind fun t t' ht => ?_
  refine Agree.bind_pure (R := Eq) (.refl (fun _ => rfl) q.orderTemplate) ?_
  rintro ordering _ rfl
  exact (ht.append (.refl ordering)).append (.refl _)

theorem countTemplate_alike (h : q.Alike u) :
    Agree Template.Alike q.countTemplate u.countTemplate := by
  have hwhere := whereTemplate_alike h
  have hselect := selectTemplate_alike h
  obtain ⟨cs, -, rfl⟩ := h
  simp only [countTemplate]
  split
  · exact hselect.bind_pure fun t t' ht => ((Template.Alike.refl _).append ht).append (.refl _)
  · exact hwhere.bind_pure fun t t' ht => (Template.Alike.refl _).append ht

/-- **Alike queries are written alike.** -/
theorem build_alike (h : q.Alike u) : Agree Statement.SameText q.build u.build := by
  rw [build_eq_template, build_eq_template, validate_alike h]
  refine Agree.bind (R := Eq) (.refl (fun _ => rfl) _) fun _ _ _ => ?_
  exact (template_alike h).bind_pure fun t t' ht => ht.statement

theorem buildPage_alike (h : q.Alike u) (page : PageRequest) :
    Agree Statement.SameText (q.buildPage page) (u.buildPage page) := by
  obtain ⟨cs, h, rfl⟩ := h
  exact build_alike ⟨cs, h, rfl⟩

theorem buildCount_alike (h : q.Alike u) :
    Agree Statement.SameText q.buildCount u.buildCount := by
  rw [buildCount_eq_template, buildCount_eq_template, validate_alike h]
  refine Agree.bind (R := Eq) (.refl (fun _ => rfl) _) fun _ _ _ => ?_
  exact (countTemplate_alike h).bind_pure fun t t' ht => ht.statement

end Query

end ResourceQuery.Sql
