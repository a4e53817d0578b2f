import ResourceQuery.Proofs.Sql.Template

/-!
# Sql — the templates of fragments

A fragment has a template when it has as many placeholders as parameters; then all parameters are in
the template, in order (`template_params`).  Fragments put together from parts that end outside
quotes have the templates of the parts one after the other (`Fills.append`).
-/

namespace ResourceQuery.Sql

namespace Quoting

section

variable {c : Char}

theorem next_identifier (h : c ≠ '"') : next .identifier c = .identifier := by
  simp [next, h]

theorem next_literal (h : c ≠ '\'') : next .literal c = .literal := by
  simp [next, h]

theorem next_outside (h : c ≠ '"') (h' : c ≠ '\'') : next .outside c = .outside := by
  simp [next, h, h']

end

/-- What the text after some characters is part of. -/
def past (q : Quoting) (cs : List Char) : Quoting :=
  cs.foldl next q

theorem past_append (q : Quoting) (cs ds : List Char) : q.past (cs ++ ds) = (q.past cs).past ds :=
  List.foldl_append

end Quoting

namespace Fragment

variable {q : Quoting} {c : Char} {cs ds : List Char} {v : Value} {vs ws : List Value}

/-! ### One character -/

theorem fill_slot (cs : List Char) (v : Value) (vs : List Value) :
    fill .outside ('?' :: cs) (v :: vs) = .bind v :: fill .outside cs vs := by
  simp [fill]

theorem fill_char (h : ¬ (q = .outside ∧ c = '?')) (cs : List Char)
    (vs : List Value) : fill q (c :: cs) vs = .char c :: fill (q.next c) cs vs := by
  simp [fill, h]

theorem placeholders_slot (cs : List Char) :
    placeholders .outside ('?' :: cs) = placeholders .outside cs + 1 := by
  simp [placeholders]

theorem placeholders_char (h : ¬ (q = .outside ∧ c = '?'))
    (cs : List Char) : placeholders q (c :: cs) = placeholders (q.next c) cs := by
  simp [placeholders, h]

/-! ### Parameters -/

/-- A text with as many placeholders as values takes all of them. -/
theorem params_fill (h : placeholders q cs = vs.length) : (fill q cs vs).params = vs := by
  induction cs generalizing q vs with
  | nil =>
      rw [List.eq_nil_of_length_eq_zero h.symm]
      rfl
  | cons c cs ih =>
      by_cases hslot : q = .outside ∧ c = '?'
      · obtain ⟨rfl, rfl⟩ := hslot
        rw [placeholders_slot] at h
        cases vs with
        | nil => cases h
        | cons v vs =>
            rw [fill_slot]
            exact congrArg (v :: ·) (ih (Nat.succ.inj h))
      · rw [placeholders_char hslot] at h
        rw [fill_char hslot]
        exact ih h

/-- The template of a fragment puts all parameters in the place of as many placeholders. -/
theorem template_eq_ok {f : Fragment} {t : Template} (h : f.template = .ok t) :
    placeholders .outside f.sql.toList = f.params.length ∧
      t = fill .outside f.sql.toList f.params := by
  simp only [template, mismatch?] at h
  by_cases hcount : placeholders .outside f.sql.toList = f.params.length
  · rw [if_pos hcount] at h
    exact ⟨hcount, (Except.ok.inj h).symm⟩
  · rw [if_neg hcount] at h
    cases h

theorem template_params {f : Fragment} {t : Template} (h : f.template = .ok t) :
    t.params = f.params := by
  obtain ⟨hcount, rfl⟩ := template_eq_ok h
  exact params_fill hcount

/-! ### Fragments put together -/

/-- The placeholders of a text are those of its first part, and those behind it with its quotes open or
closed. -/
theorem placeholders_append :
    placeholders q (cs ++ ds) = placeholders q cs + placeholders (q.past cs) ds := by
  induction cs generalizing q with
  | nil => simp [placeholders, Quoting.past]
  | cons c cs ih =>
      by_cases hslot : q = .outside ∧ c = '?'
      · obtain ⟨rfl, rfl⟩ := hslot
        have hpast : Quoting.past .outside ('?' :: cs) = Quoting.past .outside cs := rfl
        rw [List.cons_append, placeholders_slot, placeholders_slot, ih, hpast, Nat.add_right_comm]
      · rw [List.cons_append, placeholders_char hslot, placeholders_char hslot, ih]
        rfl

/-- A text is filled part by part, each with the values for its own placeholders. -/
theorem fill_append (h : placeholders q cs = vs.length) :
    fill q (cs ++ ds) (vs ++ ws) = fill q cs vs ++ fill (q.past cs) ds ws := by
  induction cs generalizing q vs with
  | nil =>
      rw [List.eq_nil_of_length_eq_zero h.symm]
      rfl
  | cons c cs ih =>
      by_cases hslot : q = .outside ∧ c = '?'
      · obtain ⟨rfl, rfl⟩ := hslot
        rw [placeholders_slot] at h
        cases vs with
        | nil => cases h
        | cons v vs =>
            rw [List.cons_append, List.cons_append, fill_slot, fill_slot, ih (Nat.succ.inj h)]
            rfl
      · rw [placeholders_char hslot] at h
        rw [List.cons_append, fill_char hslot, fill_char hslot, ih h]
        rfl

/-- Without values a text is left as it is. -/
theorem fill_nil : fill q cs [] = cs.map .char := by
  induction cs generalizing q with
  | nil => rfl
  | cons c cs ih =>
      by_cases hslot : q = .outside ∧ c = '?'
      · simp [fill, hslot, ih]
      · rw [fill_char hslot, ih, List.map_cons]

/-- The text ends outside quotes and has as many placeholders as values, which are in their places
in the template. -/
structure Fills (sql : String) (vs : List Value) (t : Template) : Prop where
  count  : placeholders .outside sql.toList = vs.length
  closed : Quoting.past .outside sql.toList = .outside
  filled : fill .outside sql.toList vs = t

variable {s u : String} {t w : Template}

/-- Texts that are filled stay so one behind the other. -/
theorem Fills.append (hs : Fills s vs t) (hu : Fills u ws w) :
    Fills (s ++ u) (vs ++ ws) (t ++ w) where
  count := by
    rw [String.toList_append, placeholders_append, hs.count, hs.closed, hu.count,
      List.length_append]
  closed := by rw [String.toList_append, Quoting.past_append, hs.closed, hu.closed]
  filled := by rw [String.toList_append, fill_append hs.count, hs.closed, hs.filled, hu.filled]

/-- The text has no placeholders and ends outside quotes. -/
def isPlain (s : String) : Bool :=
  placeholders .outside s.toList = 0 && Quoting.past .outside s.toList = .outside

theorem fills_plain (h : isPlain s = true) : Fills s [] (Template.text s) := by
  obtain ⟨hcount, hclosed⟩ := Bool.and_eq_true_iff.mp h
  exact ⟨of_decide_eq_true hcount, of_decide_eq_true hclosed, fill_nil⟩

/-- A placeholder is filled with a value. -/
theorem fills_slot (v : Value) : Fills "?" [v] [.bind v] where
  count := by
    have hcount : placeholders .outside "?".toList = 1 := by decide +kernel
    exact hcount
  closed := by decide +kernel
  filled := by
    have hchars : "?".toList = ['?'] := by decide +kernel
    rw [hchars, fill_slot, fill_nil]
    rfl

end Fragment

end ResourceQuery.Sql
