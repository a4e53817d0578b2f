import ResourceQuery.Proofs.Sql.Mismatch
import ResourceQuery.Proofs.Sql.Rename

/-!
# Sql — quoted identifiers

Reading text without quotes, the lexer finds no identifier, whatever comes before and after it
(`identifiers_plain`); a quoted name is one, if no quote follows (`identifiers_identifier`).  So the
identifiers of a template (`Template.Names`) are those of its parts, in order, as long as something
without quotes stands between two names.

* `identifiers_fill`: the values of a fragment change nothing about its identifiers, so that they are
  those of its text (`Fragment.template_names`).
-/

namespace ResourceQuery.Sql

/-- The name in a quoted identifier. -/
def Token.identifier? : Token → Option String
  | .quoted .identifier text => some (String.ofList text)
  | _                        => none

/-- The quoted identifiers of SQL text, in order. -/
def identifiers (s : String) : List String :=
  (lex s).filterMap Token.identifier?

/-! ### Texts read part by part -/

namespace Reading

/-- The quoted identifiers of a text, the one that has begun before it included. -/
def identifiers (r : Reading) (cs : List Char) : List String :=
  (r.tokens cs).filterMap Token.identifier?

/-- The text does not begin with a quote. -/
def BeginsPlain (cs : List Char) : Prop :=
  ∀ c ∈ cs.head?, isPlain c = true

variable {r : Reading} {c : Char} {cs ds : List Char}

/-- A text begins plainly if its first part does, or is empty and the second does. -/
theorem BeginsPlain.append (hcs : cs.all isPlain = true) (hds : BeginsPlain ds) :
    BeginsPlain (cs ++ ds) := by
  cases cs with
  | nil => exact hds
  | cons c cs =>
      intro d hd
      obtain rfl := Option.some.inj hd
      exact List.all_eq_true.mp hcs c List.mem_cons_self

/-- A plain text that is not empty begins plainly, whatever follows. -/
theorem BeginsPlain.of_ne_nil (hcs : cs.all isPlain = true) (hne : cs ≠ []) (ds : List Char) :
    BeginsPlain (cs ++ ds) := by
  obtain ⟨c, rest, rfl⟩ := List.exists_cons_of_ne_nil hne
  intro d hd
  obtain rfl := Option.some.inj hd
  exact List.all_eq_true.mp hcs c List.mem_cons_self

theorem identifiers_cons :
    r.identifiers (c :: cs) =
      (r.step c).1.filterMap Token.identifier? ++ (r.step c).2.identifiers cs :=
  List.filterMap_append

theorem identifiers_of_parted (h : r.extend? c = none) :
    r.identifiers (c :: cs) = r.identifiers [] ++ between.identifiers (c :: cs) := by
  rw [identifiers, tokens_of_parted h, List.filterMap_append]
  rfl

/-- A plain character starts no identifier. -/
theorem identifiers_start (h : isPlain c = true) :
    between.identifiers (c :: cs) = (start c).2.identifiers cs := by
  have hstart : (start c).1.filterMap Token.identifier? = [] := by
    have hstarts := starts c
    generalize start c = s at hstarts
    cases hstarts with
    | blank | quote | placeholder | run | mark => rfl
  have hstep : between.step c = start c := rfl
  rw [identifiers_cons, hstep, hstart, List.nil_append]

/-- What has been read outside quotes is no part of an identifier. -/
theorem identifiers_of_isUnquoted (h : r.IsUnquoted) :
    r.identifiers cs = between.identifiers cs := by
  induction cs generalizing r with
  | nil =>
      cases r with
      | between | run => rfl
      | quoted | closed => exact h.elim
  | cons c cs ih =>
      cases hlonger : r.extend? c with
      | none =>
          rw [identifiers_of_parted hlonger]
          cases r with
          | between | run => rfl
          | quoted | closed => exact h.elim
      | some longer =>
          have hstep : r.step c = ([], longer) := by rw [step, hlonger]
          cases extends_of_extend? hlonger with
          | @run k text _ hc =>
              -- the character goes on with a run, and between tokens it would begin one
              have hplain := isPlain_of_continues hc
              have hlonger : (Reading.run k (text ++ [c])).IsUnquoted := trivial
              rw [identifiers_cons, hstep, identifiers_start hplain, ih hlonger,
                ih (isUnquoted_start hplain)]
              rfl
          | inside | close | reopen => exact h.elim

/-- A text without quotes has no identifiers and ends none that comes after it. -/
theorem identifiers_plain (h : cs.all isPlain = true) (ds : List Char) :
    between.identifiers (cs ++ ds) = between.identifiers ds := by
  induction cs with
  | nil => rfl
  | cons c cs ih =>
      obtain ⟨hc, hcs⟩ := Bool.and_eq_true_iff.mp h
      rw [List.cons_append, identifiers_start hc, identifiers_of_isUnquoted (isUnquoted_start hc),
        ih hcs]

theorem isPlain_digits (n : Nat) : (toString n).toList.all isPlain = true :=
  List.all_eq_true.mpr fun _ hd =>
    isPlain_of_continues (k := .placeholder) (Text.isDigit_of_mem_repr hd)

/-- Outside quotes, what has been read ends where a text begins without a quote. -/
theorem identifiers_of_outside (hr : r.quoting = .outside) (hds : BeginsPlain ds) :
    r.identifiers ds = r.identifiers [] ++ between.identifiers ds := by
  cases r with
  | between => rfl
  | run k text =>
      have hrun : (Reading.run k text).IsUnquoted := trivial
      exact identifiers_of_isUnquoted hrun
  | quoted q text => cases q <;> cases hr
  | closed q text =>
      cases ds with
      | nil => exact (List.append_nil _).symm
      | cons d ds =>
          have hplain := hds d rfl
          refine identifiers_of_parted (if_neg ?_)
          rintro rfl
          cases q <;> cases hplain

theorem identifiers_append (h : (r.after cs).quoting = .outside) (hds : BeginsPlain ds) :
    r.identifiers (cs ++ ds) = r.identifiers cs ++ between.identifiers ds := by
  induction cs generalizing r with
  | nil => exact identifiers_of_outside h hds
  | cons c cs ih => rw [List.cons_append, identifiers_cons, identifiers_cons, ih h, List.append_assoc]

/-- A quoted identifier is one, if a plain text follows. -/
theorem identifiers_identifier (name : String) (h : BeginsPlain ds) :
    between.identifiers ((quoteIdentifier name).toList ++ ds) = name :: between.identifiers ds := by
  obtain ⟨hafter, htokens⟩ := Template.lex_quoteIdentifier name
  have hidentifier : between.identifiers (quoteIdentifier name).toList = [name] := by
    have hname : Token.identifier? (.quoted .identifier name.toList) = some name :=
      congrArg some String.ofList_toList
    rw [identifiers, show between.tokens _ = _ from htokens, List.filterMap_cons, hname]
    rfl
  rw [identifiers_append (by rw [hafter]; rfl) h, hidentifier]
  rfl

theorem quoting_after : (r.after cs).quoting = r.quoting.past cs := by
  induction cs generalizing r with
  | nil => rfl
  | cons c cs ih => exact ih.trans (congrArg (Quoting.past · cs) quoting_step)

/-- The values in the places of a fragment change nothing about its identifiers. -/
theorem identifiers_fill {q : Quoting} (hr : r.quoting = q) (n : Nat) (vs : List Value) :
    r.identifiers (Template.charsFrom n (Fragment.fill q cs vs) ++ ds) = r.identifiers (cs ++ ds) := by
  induction cs generalizing r q n vs with
  | nil => rfl
  | cons c cs ih =>
      by_cases hslot : q = .outside ∧ c = '?'
      · obtain ⟨rfl, rfl⟩ := hslot
        cases vs with
        | nil =>
            have hfill : Fragment.fill .outside ('?' :: cs) [] =
                .char '?' :: Fragment.fill .outside cs [] := by simp [Fragment.fill]
            have hnext : (r.step '?').2.quoting = .outside := by
              rw [quoting_step, hr]
              rfl
            rw [hfill, Template.charsFrom, List.cons_append, identifiers_cons, ih hnext]
            exact identifiers_cons.symm
        | cons v vs =>
            -- both the placeholder and the question mark end what has been read before
            have hplaceholder : (Reading.run .placeholder []).IsUnquoted := trivial
            have hbetween : between.quoting = .outside := rfl
            have hparted : r.extend? '?' = none :=
              Option.eq_none_iff_forall_ne_some.mpr fun longer hlonger =>
                not_slot_of_extend? hlonger ⟨hr, rfl⟩
            rw [Fragment.fill_slot, Template.charsFrom, List.cons_append, List.cons_append,
              List.append_assoc, identifiers_cons, step_dollar hr,
              identifiers_of_isUnquoted hplaceholder, identifiers_plain (isPlain_digits n), ih hbetween,
              List.cons_append, identifiers_of_parted hparted, identifiers_start rfl]
            rfl
      · have hnext : (r.step c).2.quoting = q.next c := by rw [quoting_step, hr]
        rw [Fragment.fill_char hslot, Template.charsFrom, List.cons_append, identifiers_cons,
          ih hnext]
        exact identifiers_cons.symm

end Reading

/-! ### Templates -/

namespace Template

open Reading (between BeginsPlain isPlain isPlainText)

/-- The names are the quoted identifiers of the template, whatever text follows it that does not begin
with a quote. -/
def Names (ns : List String) (t : Template) : Prop :=
  ∀ n ds, BeginsPlain ds →
    between.identifiers (t.charsFrom n ++ ds) = ns ++ between.identifiers ds

/-- The template is empty or begins without a quote, and has the names. -/
structure ClauseNames (ns : List String) (t : Template) : Prop where
  names  : t.Names ns
  begins : ∀ n ds, BeginsPlain ds → BeginsPlain (t.charsFrom n ++ ds)

/-- The templates have the names, one after the other. -/
inductive NamesEach : List String → List Template → Prop where
  | nil : NamesEach [] []
  | cons {ns ms : List String} {t : Template} {ts : List Template} :
      t.Names ns → NamesEach ms ts → NamesEach (ns ++ ms) (t :: ts)

/-- Text that has no quotes and may stand between two names. -/
def isJoint (s : String) : Bool :=
  isPlainText s && !s.toList.isEmpty

variable {t u : Template} {ts : List Template} {ns ms : List String} {s : String} {n : Nat}
  {ds : List Char}

/-- A template that names identifiers has them in its statement. -/
theorem Names.identifiers (h : t.Names ns) : Sql.identifiers t.statement.sql = ns := by
  have hend := h 1 [] nofun
  rw [List.append_nil] at hend
  rw [Sql.identifiers, lex, statement, String.toList_ofList]
  exact hend.trans (List.append_nil ns)

theorem identifiers_of_names_text (h : (text s).Names ns) : Sql.identifiers s = ns := by
  have hsql : (text s).statement.sql = s := by
    rw [statement, charsFrom_text, String.ofList_toList]
  rw [← h.identifiers, hsql]

theorem names_nil : Names [] [] :=
  fun _ _ _ => rfl

theorem names_plain (h : isPlainText s = true) : (text s).Names [] := by
  intro n ds _
  rw [charsFrom_text]
  exact Reading.identifiers_plain h ds

/-- The place of a value names nothing. -/
theorem names_bind (v : Value) : Names [] [.bind v] := by
  intro n ds _
  have hplain : (charsFrom n [.bind v]).all isPlain = true := by
    rw [charsFrom, charsFrom, List.append_nil]
    exact Reading.isPlain_digits n
  exact Reading.identifiers_plain hplain ds

theorem names_identifier (name : String) : (text (quoteIdentifier name)).Names [name] := by
  intro n ds hds
  rw [charsFrom_text]
  exact Reading.identifiers_identifier name hds

theorem beginsPlain_text (h : isPlainText s = true) (hds : BeginsPlain ds) :
    BeginsPlain ((text s).charsFrom n ++ ds) := by
  rw [charsFrom_text]
  exact hds.append h

theorem beginsPlain_joint (h : isJoint s = true) (ds : List Char) :
    BeginsPlain ((text s).charsFrom n ++ ds) := by
  obtain ⟨hplain, hne⟩ := Bool.and_eq_true_iff.mp h
  rw [charsFrom_text]
  exact .of_ne_nil hplain (by simpa using hne) ds

theorem beginsPlain_bind (v : Value) (ds : List Char) :
    BeginsPlain (charsFrom n [.bind v] ++ ds) := by
  rintro c hc
  obtain rfl := Option.some.inj hc
  rfl

/-- Parts of which the second one begins without a quote. -/
theorem Names.append (ht : t.Names ns) (hu : u.Names ms)
    (h : ∀ n ds, BeginsPlain ds → BeginsPlain (u.charsFrom n ++ ds)) : (t ++ u).Names (ns ++ ms) := by
  intro n ds hds
  rw [charsFrom_append, List.append_assoc, ht n _ (h _ ds hds), hu _ ds hds, List.append_assoc]

theorem Names.followed (ht : t.Names ns) (hu : u.ClauseNames ms) : (t ++ u).Names (ns ++ ms) :=
  ht.append hu.names hu.begins

theorem Names.started (hs : isPlainText s = true) (ht : t.Names ns) : (text s ++ t).Names ns := by
  intro n ds hds
  rw [charsFrom_append, List.append_assoc, charsFrom_text, Reading.identifiers_plain hs, ht _ ds hds]

theorem Names.ended (ht : t.Names ns) (hs : isPlainText s = true) : (t ++ text s).Names ns := by
  have happend := ht.append (names_plain hs) fun _ _ => beginsPlain_text hs
  rwa [List.append_nil] at happend

theorem Names.clause (ht : t.Names ns) (hs : isJoint s = true) : (text s ++ t).ClauseNames ns where
  names := ht.started (Bool.and_eq_true_iff.mp hs).1
  begins n ds _ := by
    rw [charsFrom_append, List.append_assoc]
    exact beginsPlain_joint hs _

theorem Names.joined (ht : t.Names ns) (hs : isJoint s = true) (hu : u.Names ms) :
    (t ++ text s ++ u).Names (ns ++ ms) := by
  rw [List.append_assoc]
  exact ht.followed (hu.clause hs)

theorem Names.bound (ht : t.Names ns) (v : Value) : Names ns (t ++ [.bind v]) := by
  have happend := ht.append (names_bind v) fun _ ds _ => beginsPlain_bind v ds
  rwa [List.append_nil] at happend

theorem clauseNames_nil : ClauseNames [] [] :=
  ⟨names_nil, fun _ _ => id⟩

/-- Clauses name their identifiers one after the other. -/
theorem ClauseNames.append (ht : t.ClauseNames ns) (hu : u.ClauseNames ms) :
    (t ++ u).ClauseNames (ns ++ ms) where
  names := ht.names.followed hu
  begins n ds hds := by
    rw [charsFrom_append, List.append_assoc]
    exact ht.begins _ _ (hu.begins _ _ hds)

/-- Clauses that are written one by one name what each of them does. -/
theorem clauseNames_flatMap {α : Type} {write : α → Template} {names : α → List String} {xs : List α}
    (h : ∀ x ∈ xs, (write x).ClauseNames (names x)) :
    ClauseNames (xs.flatMap names) (xs.flatMap write) := by
  induction xs with
  | nil => exact clauseNames_nil
  | cons x xs ih =>
      obtain ⟨hhead, htail⟩ := List.forall_mem_cons.mp h
      exact hhead.append (ih htail)

/-- Templates that are written one by one name what each of them does. -/
theorem namesEach_map {α : Type} {write : α → Template} {names : α → List String} {xs : List α}
    (h : ∀ x ∈ xs, (write x).Names (names x)) :
    NamesEach (xs.flatMap names) (xs.map write) := by
  induction xs with
  | nil => exact .nil
  | cons x xs ih =>
      obtain ⟨hhead, htail⟩ := List.forall_mem_cons.mp h
      exact .cons hhead (ih htail)

/-- Templates that are joined name what each of them does. -/
theorem NamesEach.join (h : NamesEach ns ts) (hs : isJoint s = true) :
    (Template.join s ts).Names ns := by
  induction h with
  | nil => exact names_nil
  | @cons ns ms t ts ht hts ih =>
      cases ts with
      | nil =>
          cases hts
          rwa [List.append_nil]
      | cons u us => exact ht.joined hs ih

/-- The templates in parentheses, with a joint between neighbours. -/
theorem NamesEach.combined (h : NamesEach ns ts) (hs : isJoint s = true) :
    (text "(" ++ Template.join s ts ++ text ")").Names ns :=
  ((h.join hs).started rfl).ended rfl

end Template

/-! ### Columns and fragments -/

/-- The name of a column, `*` apart, behind the table's. -/
def Column.names (c : Column) : List String :=
  c.table.toList ++ if c.name = "*" then [] else [c.name]

open Template in
/-- A column names its table and itself. -/
theorem names_column (c : Column) : (text c.sql).Names c.names := by
  have hname : (text (if c.name = "*" then "*" else quoteIdentifier c.name)).Names
      (if c.name = "*" then [] else [c.name]) := by
    split
    · exact names_plain rfl
    · exact names_identifier c.name
  cases htable : c.table with
  | none =>
      simp only [Column.sql, Column.names, htable]
      exact hname
  | some table =>
      simp only [Column.sql, Column.names, htable, text_append]
      exact (names_identifier table).joined rfl hname

namespace Fragment

/-- The quoted identifiers in the text of a fragment. -/
def names (f : Fragment) : List String :=
  identifiers f.sql

/-- No quote in the text is left open. -/
def IsClosed (f : Fragment) : Prop :=
  Quoting.past .outside f.sql.toList = .outside

/-- A fragment names what its text does, if no quotes are left open. -/
theorem template_names {f : Fragment} {t : Template} (hclosed : f.IsClosed)
    (h : f.template = .ok t) : t.Names f.names := by
  obtain ⟨-, rfl⟩ := template_eq_ok h
  intro n ds hds
  have hbetween : Reading.between.quoting = .outside := rfl
  have hend : (Reading.between.after f.sql.toList).quoting = .outside :=
    Reading.quoting_after.trans hclosed
  rw [Reading.identifiers_fill hbetween, Reading.identifiers_append hend hds]
  rfl

end Fragment

end ResourceQuery.Sql
