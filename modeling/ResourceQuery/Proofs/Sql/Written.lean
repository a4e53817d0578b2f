import ResourceQuery.Proofs.Except
import ResourceQuery.Proofs.Sql.Fragments

/-!
# Sql — what is written is the template

A writer *follows* a template when it writes its text, with the places numbered on from the values bound
before, and binds its values in the order of their places (`Writer.Follows`); where there is no template, it
fails with the same error.  A writer that runs others one after the other follows the template that is put
together from theirs, if its values are in the order in which the writers ran (`Writer.Resumes`).  Every part
of a query is written in this way, so that its statements are those of its templates.

* `Fragment.scan_run`: the scan of a fragment, placeholder by placeholder, in closed form.
* `Condition.follows_write`: a condition follows its template, by induction on its structure.
* `Query.build_eq_template`, `Query.buildCount_eq_template`: the statements of a query.
-/

namespace ResourceQuery.Sql

/-! ### The text of templates -/

namespace Template

/-- The text of a template whose first place has number `n`. -/
def sqlFrom (n : Nat) (t : Template) : String :=
  String.ofList (t.charsFrom n)

/-- The texts of templates whose places are numbered on from one to the next. -/
def sqlsFrom (n : Nat) : List Template → List String
  | []      => []
  | t :: ts => t.sqlFrom n :: sqlsFrom (n + t.params.length) ts

@[simp] theorem toList_sqlFrom (n : Nat) (t : Template) : (t.sqlFrom n).toList = t.charsFrom n :=
  String.toList_ofList

@[simp] theorem sqlFrom_text (n : Nat) (s : String) : (text s).sqlFrom n = s := by
  rw [sqlFrom, charsFrom_text, String.ofList_toList]

@[simp] theorem sqlFrom_nil (n : Nat) : sqlFrom n [] = "" := rfl

/-- The text of a later part is numbered on from an earlier one. -/
@[simp] theorem sqlFrom_append (n : Nat) (t u : Template) :
    (t ++ u).sqlFrom n = t.sqlFrom n ++ u.sqlFrom (n + t.params.length) := by
  rw [sqlFrom, charsFrom_append, String.ofList_append]
  rfl

@[simp] theorem sqlFrom_bind (n : Nat) (v : Value) (t : Template) :
    sqlFrom n (.bind v :: t) = "$" ++ toString n ++ sqlFrom (n + 1) t := by
  rw [← String.toList_inj]
  simp [charsFrom]

/-- Texts glued together are the text of the templates put together. -/
@[simp] theorem joinWith_sqlsFrom (sep : String) (n : Nat) (ts : List Template) :
    Text.joinWith sep (sqlsFrom n ts) = (join sep ts).sqlFrom n := by
  induction ts generalizing n with
  | nil => rfl
  | cons t ts ih =>
      cases ts with
      | nil => rfl
      | cons u us =>
          have hrest := ih (n + t.params.length)
          rw [sqlsFrom] at hrest
          rw [sqlsFrom, sqlsFrom, Text.joinWith_cons_cons, hrest, join]
          simp [String.append_assoc]

end Template

/-! ### Writers -/

namespace Writer

open Template (sqlsFrom)

variable {α β : Type} {w : Writer String} {ws : Writer (List String)} {x y : Except SqlError Template}
  {xs : Except SqlError (List Template)} {bound : List Value} {before t u : Template}

/-- The template is written with its places numbered on from the values bound before, and its values are
bound; or the writing fails with the error in place of a template. -/
def Follows (w : Writer String) (x : Except SqlError Template) : Prop :=
  ∀ bound, w.run bound = x.map fun t => (t.sqlFrom (bound.length + 1), bound ++ t.params)

/-- The same for templates that are written one after the other. -/
def FollowsEach (ws : Writer (List String)) (xs : Except SqlError (List Template)) : Prop :=
  ∀ bound, ws.run bound =
    xs.map fun ts => (sqlsFrom (bound.length + 1) ts, bound ++ ts.flatMap Template.params)

/-- The writer goes on behind what has been written of a template, and completes another one. -/
def Resumes (bound : List Value) (before : Template) (w : Writer String)
    (x : Except SqlError Template) : Prop :=
  w.run (bound ++ before.params) =
    x.map fun t => (t.sqlFrom (bound.length + 1), bound ++ t.params)

/-- What is made of the outcome of a writer. -/
theorem run_bind_pure {γ : Type} {v : Writer α} {z : Except SqlError γ} {g : γ → α × List Value}
    (h : v.run bound = z.map g) (f : α → β) :
    (v >>= fun a => pure (f a)).run bound = z.map fun c => (f (g c).1, (g c).2) := by
  rw [StateT.run_bind, h]
  cases z with
  | error e => rfl
  | ok c => rfl

theorem follows_iff : w.Follows x ↔ ∀ bound, Resumes bound [] w x := by
  simp only [Follows, Resumes, Template.params, List.append_nil]

/-- What has been written last is the whole template. -/
theorem resumes_pure {s : String} (hsql : s = t.sqlFrom (bound.length + 1))
    (hparams : before.params = t.params) : Resumes bound before (pure s) (.ok t) := by
  rw [Resumes, hparams, hsql]
  rfl

/-- What runs behind a writer starts with what it has written and bound. -/
theorem Follows.run_bind (hw : w.Follows x) (f : String → Writer β) (bound : List Value) :
    (w >>= f).run bound =
      x >>= fun t => (f (t.sqlFrom (bound.length + 1))).run (bound ++ t.params) := by
  rw [StateT.run_bind, hw]
  cases x with
  | error e => rfl
  | ok t => rfl

/-- What runs behind several writers starts with what they have written and bound. -/
theorem FollowsEach.run_bind (hws : FollowsEach ws xs) (f : List String → Writer β)
    (bound : List Value) :
    (ws >>= f).run bound = xs >>= fun ts =>
      (f (sqlsFrom (bound.length + 1) ts)).run (bound ++ ts.flatMap Template.params) := by
  rw [StateT.run_bind, hws]
  cases xs with
  | error e => rfl
  | ok ts => rfl

/-- A writer runs, and another one goes on with what it has written. -/
theorem Follows.resumes_bind {f : String → Writer String} {g : Template → Except SqlError Template}
    (hw : w.Follows x) (hf : ∀ t, Resumes bound (before ++ t)
      (f (t.sqlFrom ((bound ++ before.params).length + 1))) (g t)) :
    Resumes bound before (w >>= f) (x >>= g) := by
  rw [Resumes, hw.run_bind]
  cases x with
  | error e => rfl
  | ok t =>
      have hrest := hf t
      rw [Resumes, Template.params_append, ← List.append_assoc] at hrest
      exact hrest

/-- A writer that does not fail runs, and another one goes on with what it has written. -/
theorem Follows.resumes_ok {f : String → Writer String} (hw : w.Follows (.ok t))
    (hf : Resumes bound (before ++ t) (f (t.sqlFrom ((bound ++ before.params).length + 1))) y) :
    Resumes bound before (w >>= f) y := by
  rw [Resumes, Template.params_append, ← List.append_assoc] at hf
  rw [Resumes, hw.run_bind]
  exact hf

/-- Several writers run, and another one goes on with what they have written. -/
theorem FollowsEach.resumes_bind {f : List String → Writer String}
    {g : List Template → Except SqlError Template} (hws : FollowsEach ws xs)
    (hf : ∀ ts, Resumes bound (before ++ ts.flatten)
      (f (sqlsFrom ((bound ++ before.params).length + 1) ts)) (g ts)) :
    Resumes bound before (ws >>= f) (xs >>= g) := by
  rw [Resumes, hws.run_bind]
  cases xs with
  | error e => rfl
  | ok ts =>
      have hrest := hf ts
      rw [Resumes, Template.params_append, ← List.append_assoc, Template.params_flatten] at hrest
      exact hrest

/-- A text is its own template. -/
theorem follows_text (s : String) : Follows (pure s) (.ok (Template.text s)) :=
  follows_iff.mpr fun _ => resumes_pure (by simp) (by simp)

/-- A value is bound in its place. -/
theorem follows_place (v : Value) : Follows (place v) (.ok [.bind v]) := by
  intro bound
  rw [Except.map, Template.sqlFrom_bind, Template.sqlFrom_nil, String.append_empty]
  rfl

theorem followsEach_nil : FollowsEach (pure []) (.ok []) := by
  intro bound
  rw [Except.map, List.flatMap_nil, List.append_nil]
  rfl

/-- A writer and several others behind it. -/
theorem Follows.cons (hw : w.Follows x) (hws : FollowsEach ws xs) :
    FollowsEach (do let first ← w; let later ← ws; return first :: later)
      (do return (← x) :: (← xs)) := by
  intro bound
  rw [hw.run_bind]
  cases x with
  | error e => rfl
  | ok t =>
      change StateT.run (do let later ← ws; return _ :: later) _ = _
      rw [hws.run_bind]
      cases xs with
      | error e => rfl
      | ok ts =>
          change Except.ok (t.sqlFrom _ :: sqlsFrom _ ts, _) =
            Except.ok (sqlsFrom _ (t :: ts), bound ++ (t :: ts).flatMap Template.params)
          rw [sqlsFrom, List.flatMap_cons, List.length_append, List.append_assoc, Nat.add_right_comm]

/-- Items are written one after the other as each of them is. -/
theorem followsEach_mapM {write : α → Writer String} {template : α → Except SqlError Template}
    (h : ∀ a, (write a).Follows (template a)) (items : List α) :
    FollowsEach (items.mapM write) (templatesOf template items) := by
  induction items with
  | nil => exact followsEach_nil
  | cons a items ih =>
      rw [List.mapM_cons]
      exact (h a).cons ih

/-- Items that have templates have all of them. -/
theorem templatesOf_ok (template : α → Template) (items : List α) :
    templatesOf (fun a => .ok (template a)) items = .ok (items.map template) := by
  induction items with
  | nil => rfl
  | cons a items ih => rw [templatesOf, ih]; rfl

/-- Items that are written without fail, one after the other. -/
theorem followsEach_mapM_ok {write : α → Writer String} {template : α → Template}
    (h : ∀ a, (write a).Follows (.ok (template a))) (items : List α) :
    FollowsEach (items.mapM write) (.ok (items.map template)) :=
  templatesOf_ok template items ▸ followsEach_mapM h items

/-- Several writers that do not fail run, and another one goes on with what they have written. -/
theorem FollowsEach.resumes_ok {f : List String → Writer String} {ts : List Template}
    (hws : FollowsEach ws (.ok ts))
    (hf : Resumes bound (before ++ ts.flatten)
      (f (sqlsFrom ((bound ++ before.params).length + 1) ts)) y) :
    Resumes bound before (ws >>= f) y := by
  rw [Resumes, Template.params_append, ← List.append_assoc, Template.params_flatten] at hf
  rw [Resumes, hws.run_bind]
  exact hf

/-- The placeholders of several values, with commas between them. -/
theorem follows_places (values : List Value) :
    Follows (places values) (.ok (Template.join ", " (values.map fun v => [.bind v]))) :=
  follows_iff.mpr fun bound =>
    (followsEach_mapM_ok follows_place values).resumes_ok <| resumes_pure (by simp) (by simp)

/-- A writer that follows a template makes its statement. -/
theorem Follows.statement (hw : w.Follows x) : w.statement = x.map Template.statement := by
  rw [Writer.statement, hw]
  cases x with
  | error e => rfl
  | ok t => rfl

end Writer

/-! ### Fragments -/

namespace Fragment

variable {q : Quoting} {c : Char} {found : Nat} {rest bound : List Value}

/-- The scan of a character that is no placeholder. -/
theorem scan_char (f : Fragment) (cs : List Char) (hchar : ¬ (q = .outside ∧ c = '?')) :
    f.scan q found rest (c :: cs) = do
      let later ← f.scan (q.next c) found rest cs
      return c :: later := by
  rw [scan.eq_def]
  exact if_neg hchar

/-- The scan of a placeholder with a parameter for it. -/
theorem scan_slot (f : Fragment) (cs : List Char) (v : Value) :
    f.scan .outside found (v :: rest) ('?' :: cs) = do
      let place ← Writer.place v
      let later ← f.scan .outside (found + 1) rest cs
      return place.toList ++ later := by
  rw [scan.eq_def]
  exact if_pos ⟨rfl, rfl⟩

/-- The scan of a placeholder without a parameter. -/
theorem scan_missing (f : Fragment) (cs : List Char) :
    f.scan .outside found [] ('?' :: cs) = throw (f.mismatch (found + 1)) := by
  rw [scan.eq_def]
  exact if_pos ⟨rfl, rfl⟩

/-- What is to be made of the rest of a text: the parameters that are left take the places of its placeholders
if there are as many, and otherwise the error counts the placeholders up to the first one without a
parameter. -/
def scanned (f : Fragment) (q : Quoting) (found : Nat) (rest : List Value) (cs : List Char) :
    Except SqlError Template :=
  if placeholders q cs = rest.length then .ok (fill q cs rest)
  else .error (f.mismatch (found + min (placeholders q cs) (rest.length + 1)))

/-- At the end of the text the placeholders that have been found are all there are. -/
theorem scanned_nil (f : Fragment) (hleft : found + rest.length = f.params.length) :
    f.scanned q found rest [] =
      if found = f.params.length then .ok [] else .error (f.mismatch found) := by
  have hall : 0 = rest.length ↔ found = f.params.length := by omega
  rw [scanned, placeholders, Nat.zero_min, Nat.add_zero, if_congr hall rfl rfl]
  rfl

/-- A character that is no placeholder is kept. -/
theorem scanned_char (f : Fragment) (cs : List Char) (hchar : ¬ (q = .outside ∧ c = '?')) :
    f.scanned q found rest (c :: cs) = (f.scanned (q.next c) found rest cs).map (.char c :: ·) := by
  rw [scanned, scanned, placeholders_char hchar, fill_char hchar]
  split <;> rfl

/-- A placeholder takes the next parameter. -/
theorem scanned_slot (f : Fragment) (cs : List Char) (v : Value) :
    f.scanned .outside found (v :: rest) ('?' :: cs) =
      (f.scanned .outside (found + 1) rest cs).map (.bind v :: ·) := by
  rw [scanned, scanned, placeholders_slot, fill_slot, List.length_cons,
    if_congr Nat.add_right_cancel_iff rfl rfl, Nat.add_min_add_right, Nat.add_assoc found 1, Nat.add_comm 1]
  split <;> rfl

/-- A placeholder without a parameter is the last one that is counted. -/
theorem scanned_missing (f : Fragment) (cs : List Char) :
    f.scanned .outside found [] ('?' :: cs) = .error (f.mismatch (found + 1)) := by
  have hmore : ¬ placeholders .outside cs + 1 = ([] : List Value).length := Nat.succ_ne_zero _
  rw [scanned, placeholders_slot, if_neg hmore, List.length_nil, Nat.zero_add,
    Nat.min_eq_right (Nat.le_add_left 1 _)]

/-- The template of a fragment is what is to be made of its whole text. -/
theorem template_eq_scanned (f : Fragment) :
    f.template = f.scanned .outside 0 f.params f.sql.toList := by
  rw [template, mismatch?, scanned, Nat.zero_add]
  by_cases hcount : placeholders .outside f.sql.toList = f.params.length
  · rw [if_pos hcount, if_pos hcount]
  · rw [if_neg hcount, if_neg hcount, mismatch]

/-- The scan makes of a text what is to be made of it, by induction on the text: it binds the next parameter
at a placeholder, and fails at the first one without a parameter. -/
theorem scan_run (f : Fragment) (cs : List Char) (hleft : found + rest.length = f.params.length) :
    (f.scan q found rest cs).run bound =
      (f.scanned q found rest cs).map fun t => (t.charsFrom (bound.length + 1), bound ++ t.params) := by
  induction cs generalizing q found rest bound with
  | nil =>
      rw [scan, f.scanned_nil hleft]
      split
      case isTrue =>
        rw [Except.map, Template.params_nil, List.append_nil]
        rfl
      case isFalse => rfl
  | cons c cs ih =>
      by_cases hslot : q = .outside ∧ c = '?'
      · obtain ⟨rfl, rfl⟩ := hslot
        cases rest with
        | nil =>
            rw [scan_missing, scanned_missing]
            rfl
        | cons v rest =>
            have hfewer : found + 1 + rest.length = f.params.length := by
              rw [← hleft, List.length_cons]
              omega
            rw [scan_slot, scanned_slot, (Writer.follows_place v).run_bind]
            refine (Writer.run_bind_pure (ih hfewer) _).trans ?_
            cases f.scanned .outside (found + 1) rest cs with
            | error e => simp only [Except.map]
            | ok t =>
                -- the place has the next number, and the later ones are numbered on from it
                have hchars : Template.charsFrom (bound.length + 1) (.bind v :: t) =
                    (Template.sqlFrom (bound.length + 1) [.bind v]).toList ++
                      t.charsFrom ((bound ++ [v]).length + 1) := by
                  rw [Template.toList_sqlFrom, List.length_append, Nat.add_right_comm]
                  exact Template.charsFrom_append _ [.bind v] t
                have hparams : bound ++ [v] ++ t.params = bound ++ v :: t.params :=
                  (List.append_cons bound v t.params).symm
                exact congrArg Except.ok (Prod.ext hchars.symm hparams)
      · rw [scan_char f cs hslot, scanned_char f cs hslot]
        refine (Writer.run_bind_pure (ih hleft) _).trans ?_
        cases f.scanned (q.next c) found rest cs with
        | error e => rfl
        | ok t => rfl

/-- A fragment is written as its template, and fails with the error in place of one. -/
theorem follows_write (f : Fragment) : f.write.Follows f.template := by
  intro bound
  rw [template_eq_scanned, write]
  refine (Writer.run_bind_pure (f.scan_run _ (Nat.zero_add _)) _).trans ?_
  cases f.scanned .outside 0 f.params f.sql.toList with
  | error e => rfl
  | ok t => rfl

end Fragment

/-! ### Conditions -/

namespace Condition

open Writer

/-- A column, a word and the placeholders of values in parentheses. -/
theorem follows_membership (column : Column) (word : String) {opening : String}
    (hopening : opening = word ++ "(") (values : List Value) :
    Follows (do let places ← Writer.places values; return column.sql ++ opening ++ places ++ ")")
      (.ok (Template.text (column.sql ++ word) ++ valueList values)) :=
  follows_iff.mpr fun _ => (follows_places values).resumes_ok <|
    resumes_pure (by simp [hopening, valueList, String.append_assoc]) (by simp [valueList])

/-- Conditions in parentheses, with a word between neighbours. -/
theorem follows_combination {cs : List Condition} (word : String)
    (hcs : FollowsEach (writeEach cs) (templates cs)) :
    Follows (do let texts ← writeEach cs; return "(" ++ Text.joinWith word texts ++ ")")
      (do return Template.text "(" ++ Template.join word (← templates cs) ++ Template.text ")") :=
  follows_iff.mpr fun _ => hcs.resumes_bind fun ts =>
    resumes_pure (by simp [String.append_assoc]) (by simp)

mutual

/-- A condition is written as its template, by induction on its structure. -/
theorem follows_write : ∀ c : Condition, c.write.Follows c.template
  | .compare column op value => follows_iff.mpr fun _ => (follows_place value).resumes_ok <|
      resumes_pure (by simp [String.append_assoc]) (by simp)
  | .isIn column values => by
      rw [write, template]
      cases values with
      | nil => exact follows_text "FALSE"
      | cons v vs => exact follows_membership column " IN " rfl (v :: vs)
  | .notIn column values => by
      rw [write, template]
      cases values with
      | nil => exact follows_text "TRUE"
      | cons v vs => exact follows_membership column " NOT IN " rfl (v :: vs)
  | .isNull column => follows_text _
  | .isNotNull column => follows_text _
  | .like column pattern => follows_iff.mpr fun _ => (follows_place (.text pattern)).resumes_ok <|
      resumes_pure (by simp [String.append_assoc]) (by simp)
  | .raw fragment => fragment.follows_write
  | .or parts => by
      rw [write, template]
      split
      · exact follows_text "FALSE"
      · exact follows_combination " OR " (followsEach_writeEach parts)
  | .and parts => by
      rw [write, template]
      split
      · exact follows_text "TRUE"
      · exact follows_combination " AND " (followsEach_writeEach parts)
  | .not part => follows_iff.mpr fun _ => (follows_write part).resumes_bind fun _ =>
      resumes_pure (by simp [String.append_assoc]) (by simp)
  | .always => follows_text "TRUE"
  | .never => follows_text "FALSE"

/-- Conditions are written one after the other as their templates. -/
theorem followsEach_writeEach : ∀ cs : List Condition, FollowsEach (writeEach cs) (templates cs)
  | [] => followsEach_nil
  | c :: cs => (follows_write c).cons (followsEach_writeEach cs)

end

end Condition

/-! ### The entries of clauses -/

open Writer

/-- A projection follows its template. -/
theorem Projection.follows_write : ∀ p : Projection, p.write.Follows p.template
  | .column _ => follows_text _
  | .aggregate _ _ _ => follows_text _
  | .expression fragment => fragment.follows_write

theorem GroupTerm.follows_write : ∀ g : GroupTerm, g.write.Follows g.template
  | .column _ => follows_text _
  | .expression fragment => fragment.follows_write

/-- An order follows its template, its direction behind the expression. -/
theorem OrderTerm.follows_write : ∀ o : OrderTerm, o.write.Follows o.template
  | .column _ _ => follows_text _
  | .expression fragment _ => follows_iff.mpr fun _ => fragment.follows_write.resumes_bind fun _ =>
      resumes_pure (by simp [String.append_assoc]) (by simp)

/-- A join condition follows its template, and never fails. -/
theorem JoinCondition.follows_write : ∀ c : JoinCondition, c.write.Follows (.ok c.template)
  | .columns _ _ => follows_text _
  | .value _ v => follows_iff.mpr fun _ => (follows_place v).resumes_ok <|
      resumes_pure (by simp [JoinCondition.template]) (by simp [JoinCondition.template])

/-! ### Queries -/

namespace Query

variable (q : Query)

theorem follows_writeJoin (j : Join) : (q.writeJoin j).Follows (.ok (q.joinTemplate j)) :=
  follows_iff.mpr fun _ => (followsEach_mapM_ok JoinCondition.follows_write j.on).resumes_ok <|
    resumes_pure (by simp [joinTemplate, String.append_assoc]) (by simp [joinTemplate])

theorem follows_writeFrom : q.writeFrom.Follows (.ok q.fromTemplate) :=
  follows_iff.mpr fun _ => (followsEach_mapM_ok q.follows_writeJoin q.joins).resumes_ok <|
    resumes_pure (by simp [fromTemplate, Template.join_empty, List.flatMap])
      (by simp [fromTemplate, List.flatMap])

/-- A clause of entries that is left out when there are none. -/
theorem follows_clause {α : Type} {entries : List α} {ws : Writer (List String)}
    {xs : Except SqlError (List Template)} (word sep : String) (hws : FollowsEach ws xs) :
    Follows (if entries.isEmpty then return "" else do
        let texts ← ws
        return word ++ Text.joinWith sep texts)
      (if entries.isEmpty then .ok [] else do
        return Template.text word ++ Template.join sep (← xs)) := by
  split
  · exact follows_text ""
  · exact follows_iff.mpr fun _ => hws.resumes_bind fun ts =>
      resumes_pure (by simp) (by simp)

theorem follows_writeWhere : q.writeWhere.Follows q.whereTemplate :=
  follows_clause " WHERE " " AND " (Condition.followsEach_writeEach q.conditions)

theorem follows_writeGroups : q.writeGroups.Follows q.groupTemplate :=
  follows_clause " GROUP BY " ", " (followsEach_mapM GroupTerm.follows_write q.groupTerms)

theorem follows_writeOrders : q.writeOrders.Follows q.orderTemplate :=
  follows_clause " ORDER BY " ", " (followsEach_mapM OrderTerm.follows_write q.orderTerms)

/-- The projections follow their templates, or the star. -/
theorem follows_writeList : q.writeList.Follows q.selectList := by
  rw [writeList, selectList]
  split
  · exact follows_text "*"
  · exact follows_iff.mpr fun _ =>
      (followsEach_mapM Projection.follows_write q.projections).resumes_bind fun ts =>
        resumes_pure (by simp) (by simp)

/-- The list, the tables, the condition and the grouping are written in this order. -/
theorem follows_writeSelect : q.writeSelect.Follows q.selectTemplate :=
  follows_iff.mpr fun _ => q.follows_writeList.resumes_bind fun _ =>
    q.follows_writeFrom.resumes_ok <| q.follows_writeWhere.resumes_bind fun _ =>
      q.follows_writeGroups.resumes_bind fun _ =>
        resumes_pure (by simp [String.append_assoc, ← Nat.add_assoc, Nat.add_right_comm _ 1]) (by simp)

/-- The ordering is written behind the query, and the window behind the ordering. -/
theorem follows_write : q.write.Follows q.template :=
  follows_iff.mpr fun _ => q.follows_writeSelect.resumes_bind fun _ =>
    q.follows_writeOrders.resumes_bind fun _ =>
      resumes_pure (by simp [String.append_assoc, Nat.add_right_comm _ 1]) (by simp)

/-- The count follows its template. -/
theorem follows_writeCount : q.writeCount.Follows q.countTemplate := by
  rw [writeCount, countTemplate]
  split
  · exact follows_iff.mpr fun _ => q.follows_writeSelect.resumes_bind fun _ =>
      resumes_pure (by simp [String.append_assoc]) (by simp)
  · exact follows_iff.mpr fun _ => q.follows_writeFrom.resumes_ok <|
      q.follows_writeWhere.resumes_bind fun _ =>
        resumes_pure (by simp [String.append_assoc, Nat.add_right_comm _ 1]) (by simp)

/-- **The statement of a query** is that of its template, when the query is within its limits. -/
theorem build_eq_template :
    q.build = do
      q.validate
      return (← q.template).statement := by
  rw [build, q.follows_write.statement]
  rfl

/-- **The statement that counts the rows** is that of its template. -/
theorem buildCount_eq_template :
    q.buildCount = do
      q.validate
      return (← q.countTemplate).statement := by
  rw [buildCount, q.follows_writeCount.statement]
  rfl

variable {q} {s : Statement}

/-- A query that has a statement has templates, and the statement is theirs. -/
theorem templates_of_build (h : q.build = .ok s) :
    ∃ select ordering, q.validate = .ok () ∧ q.selectTemplate = .ok select ∧
      q.orderTemplate = .ok ordering ∧
      s = (select ++ ordering ++ Template.text q.windowSql).statement := by
  rw [build_eq_template] at h
  obtain ⟨_, hvalid, h⟩ := bind_eq_ok.mp h
  obtain ⟨t, ht, rfl⟩ := bind_pure_eq_ok.mp h
  obtain ⟨select, hselect, ht⟩ := bind_eq_ok.mp ht
  obtain ⟨ordering, hordering, rfl⟩ := bind_pure_eq_ok.mp ht
  exact ⟨select, ordering, hvalid, hselect, hordering, rfl⟩

/-- The count of a query is the statement of a template. -/
theorem template_of_buildCount (h : q.buildCount = .ok s) :
    ∃ t, q.countTemplate = .ok t ∧ s = t.statement := by
  rw [buildCount_eq_template] at h
  obtain ⟨_, -, h⟩ := bind_eq_ok.mp h
  obtain ⟨t, ht, rfl⟩ := bind_pure_eq_ok.mp h
  exact ⟨t, ht, rfl⟩

end Query

end ResourceQuery.Sql
