import ResourceQuery.Proofs.Except
import ResourceQuery.Proofs.Sql.Parts
import ResourceQuery.Proofs.Sql.TemplateTokens
import ResourceQuery.Proofs.Sql.Written

/-!
# Sql — the tokens and the values of statements

One lemma for each function that writes a part of a statement: the template of the part is a block,
or a clause that may follow one, and it binds the values of the part in order (`Writes`).  Raw
fragments are the one part that is not written here; what their templates are is a hypothesis, that
they are blocks (`Fragment.IsBlock`).

* `selectTemplate_writes`, `orderTemplate_writes`, `countTemplate_writes`: the three templates that
  the statements of a query are made of.
* `tokens_of_build`, `tokens_of_buildCount`: the tokens of the statements, the window's apart.
-/

namespace ResourceQuery.Sql

variable {Q : Token → Prop}

open Reading (Between Outside Settled)

/-! ### What a template writes -/

namespace Template

/-- The template follows what ends outside quotes and ends there itself. -/
def Clause (Q : Token → Prop) (t : Template) : Prop :=
  t.Lexes Q Outside Outside

/-- The template is a block that binds the values. -/
structure Writes (Q : Token → Prop) (vs : List Value) (t : Template) : Prop where
  block  : t.Block Q
  params : t.params = vs

/-- The template is a clause that binds the values. -/
structure WritesClause (Q : Token → Prop) (vs : List Value) (t : Template) : Prop where
  clause : t.Clause Q
  params : t.params = vs

/-- The templates are blocks that bind the values, one after the other. -/
structure WritesEach (Q : Token → Prop) (vs : List Value) (ts : List Template) : Prop where
  blocks : ∀ t ∈ ts, t.Block Q
  params : ts.flatMap params = vs

variable {t u : Template} {s o e : String} {vs ws : List Value}

theorem Block.enclosed (ht : t.Block Q) (ho : o ∈ starts) (he : e ∈ ends) :
    (text o ++ t ++ text e).Block Q :=
  (ht.started ho).ended he

theorem clause_nil : Clause Q [] :=
  lexes_nil fun _ => id

theorem Block.clause (ht : t.Block Q) (hs : s ∈ joints) : (text s ++ t).Clause Q :=
  (lexes_joint hs).append ht

theorem Writes.clause (ht : t.Writes Q vs) (hs : s ∈ joints) :
    (text s ++ t).WritesClause Q vs :=
  ⟨ht.block.clause hs, by simpa using ht.params⟩

theorem Writes.started (ht : t.Writes Q vs) (ho : o ∈ starts) : (text o ++ t).Writes Q vs :=
  ⟨ht.block.started ho, by simpa using ht.params⟩

theorem Writes.ended (ht : t.Writes Q vs) (he : e ∈ ends) : (t ++ text e).Writes Q vs :=
  ⟨ht.block.ended he, by simpa using ht.params⟩

theorem Writes.joined (ht : t.Writes Q vs) (hs : s ∈ joints) (hu : u.Writes Q ws) :
    (t ++ text s ++ u).Writes Q (vs ++ ws) :=
  ⟨ht.block.joined hs hu.block, by simp [ht.params, hu.params]⟩

theorem Writes.followed (ht : t.Writes Q vs) (hu : u.WritesClause Q ws) :
    (t ++ u).Writes Q (vs ++ ws) :=
  ⟨Lexes.append ht.block hu.clause, by rw [params_append, ht.params, hu.params]⟩

theorem WritesClause.append (ht : t.WritesClause Q vs) (hu : u.WritesClause Q ws) :
    (t ++ u).WritesClause Q (vs ++ ws) :=
  ⟨Lexes.append ht.clause hu.clause, by rw [params_append, ht.params, hu.params]⟩

theorem Writes.cons {ts : List Template} (ht : t.Writes Q vs) (hts : WritesEach Q ws ts) :
    WritesEach Q (vs ++ ws) (t :: ts) where
  blocks := List.forall_mem_cons.mpr ⟨ht.block, hts.blocks⟩
  params := by rw [List.flatMap_cons, ht.params, hts.params]

/-- Templates that are written one by one bind the values of each. -/
theorem writesEach_map {α : Type} {write : α → Template} {values : α → List Value} {xs : List α}
    (h : ∀ x ∈ xs, (write x).Writes Q (values x)) :
    WritesEach Q (xs.flatMap values) (xs.map write) := by
  induction xs with
  | nil => exact ⟨nofun, rfl⟩
  | cons x xs ih =>
      obtain ⟨hhead, htail⟩ := List.forall_mem_cons.mp h
      exact hhead.cons (ih htail)

theorem writesClause_flatMap {α : Type} {write : α → Template} {values : α → List Value}
    {xs : List α} (h : ∀ x ∈ xs, (write x).WritesClause Q (values x)) :
    WritesClause Q (xs.flatMap values) (xs.flatMap write) := by
  induction xs with
  | nil => exact ⟨clause_nil, rfl⟩
  | cons x xs ih =>
      obtain ⟨hhead, htail⟩ := List.forall_mem_cons.mp h
      exact hhead.append (ih htail)

theorem WritesEach.join {ts : List Template} (h : WritesEach Q vs ts) (hs : s ∈ joints) :
    (join s ts).Writes Q vs :=
  ⟨block_join hs h.blocks, by rw [params_join, h.params]⟩

/-- The templates in parentheses, with a joint between neighbours. -/
theorem WritesEach.combined {ts : List Template} (h : WritesEach Q vs ts) (hs : s ∈ joints) :
    (text "(" ++ Template.join s ts ++ text ")").Writes Q vs where
  block := (h.join hs).block.enclosed (by simp [starts]) (by simp [ends])
  params := by simpa using (h.join hs).params

end Template

/-- The template of the fragment, if it has one, is a block. -/
def Fragment.IsBlock (Q : Token → Prop) (f : Fragment) : Prop :=
  ∀ t, f.template = .ok t → t.Block Q

theorem Fragment.IsBlock.writes {f : Fragment} (hf : f.IsBlock Q) {t : Template}
    (h : f.template = .ok t) : t.Writes Q f.params :=
  ⟨hf t h, template_params h⟩

open Template

/-! ### Conditions -/

theorem Comparison.block_sql (op : Comparison) : (text op.sql).Block Q :=
  block_word (by cases op <;> simp [words, Comparison.sql])

namespace Condition

theorem valueList_writes (vs : List Value) : (valueList vs).Writes Q vs := by
  have h : WritesEach Q (vs.flatMap fun v => [v]) (vs.map fun v => [.bind v]) :=
    writesEach_map fun v _ => ⟨block_bind v, rfl⟩
  rw [List.flatMap_singleton'] at h
  exact h.combined (by simp [joints])

/-- A membership binds its values. -/
theorem membership_writes (column : Column) {s : String} (hs : s ∈ joints)
    (vs : List Value) : (text (column.sql ++ s) ++ valueList vs).Writes Q vs := by
  rw [text_append]
  exact ⟨(block_column column).joined hs (valueList_writes vs).block,
    by simpa using (valueList_writes (Q := Q) vs).params⟩

/-- A match that ignores case casts its column to text. -/
theorem lexes_cast : (text "::text) LIKE LOWER(").Lexes Q Settled Between := by
  obtain ⟨hfixed, hends⟩ := fixed_of_start (s := "::text) LIKE LOWER(") (by simp [starts])
  have hend : Reading.between.after "::text) LIKE LOWER(".toList = .between := of_decide_eq_true hends
  have hchars : "::text) LIKE LOWER(".toList = ':' :: ":text) LIKE LOWER(".toList := by
    decide +kernel
  refine lexes_fixed hfixed fun _ => (lexesTo_text hend).after_token hchars ?_
  rintro r (rfl | ⟨name, rfl⟩) <;> rfl

mutual

/-- The template of a condition is a block that binds the condition's values. -/
theorem template_writes : ∀ (c : Condition) (t : Template), c.template = .ok t →
    (∀ f ∈ c.fragments, f.IsBlock Q) → t.Writes Q c.values
  | .compare column op value, t, h, _ => by
      obtain rfl := Except.ok.inj h
      simp only [text_append]
      have hleft : (text column.sql ++ text " " ++ text op.sql).Block Q :=
        (block_column column).joined (by simp [joints]) op.block_sql
      exact ⟨hleft.joined (by simp [joints]) (block_bind value), by simp [params, values]⟩
  | .isIn column vs, t, h, _ => by
      obtain rfl := Except.ok.inj h
      cases vs with
      | nil => exact ⟨block_word (by simp [words]), params_text _⟩
      | cons v vs => exact membership_writes column (by simp [joints]) (v :: vs)
  | .notIn column vs, t, h, _ => by
      obtain rfl := Except.ok.inj h
      cases vs with
      | nil => exact ⟨block_word (by simp [words]), params_text _⟩
      | cons v vs => exact membership_writes column (by simp [joints]) (v :: vs)
  | .isNull column, t, h, _ => by
      obtain rfl := Except.ok.inj h
      rw [text_append]
      exact ⟨(block_column column).ended (by simp [ends]), by simp [values]⟩
  | .isNotNull column, t, h, _ => by
      obtain rfl := Except.ok.inj h
      rw [text_append]
      exact ⟨(block_column column).ended (by simp [ends]), by simp [values]⟩
  | .like column pattern, t, h, _ => by
      obtain rfl := Except.ok.inj h
      simp only [text_append]
      have hstart : (text "LOWER(").Lexes Q Between Between := lexes_start (by simp [starts])
      have hleft : (text "LOWER(" ++ text column.sql ++ text "::text) LIKE LOWER(").Lexes Q
          Between Between := (hstart.append (lexes_column column)).append lexes_cast
      have hblock := Block.ended (hleft.append (block_bind (.text pattern))) (e := ")")
      exact ⟨hblock (by simp [ends]), by simp [params, values]⟩
  | .raw f, t, h, hf => (hf f (List.mem_singleton.mpr rfl)).writes h
  -- an empty combination is a word, and any other one stands in parentheses
  | .or parts, t, h, hf => by
      cases parts with
      | nil =>
          obtain rfl := Except.ok.inj h
          exact ⟨block_word (by simp [words]), params_text _⟩
      | cons c cs =>
          obtain ⟨ts, hts, rfl⟩ := bind_pure_eq_ok.mp h
          exact (templates_write (c :: cs) ts hts hf).combined (by simp [joints])
  | .and parts, t, h, hf => by
      cases parts with
      | nil =>
          obtain rfl := Except.ok.inj h
          exact ⟨block_word (by simp [words]), params_text _⟩
      | cons c cs =>
          obtain ⟨ts, hts, rfl⟩ := bind_pure_eq_ok.mp h
          exact (templates_write (c :: cs) ts hts hf).combined (by simp [joints])
  | .not part, t, h, hf => by
      obtain ⟨u, hu, rfl⟩ := bind_pure_eq_ok.mp h
      have hpart := template_writes part u hu hf
      exact ⟨hpart.block.enclosed (by simp [starts]) (by simp [ends]),
        by simpa [values] using hpart.params⟩
  | .always, t, h, _ => by
      obtain rfl := Except.ok.inj h
      exact ⟨block_word (by simp [words]), params_text _⟩
  | .never, t, h, _ => by
      obtain rfl := Except.ok.inj h
      exact ⟨block_word (by simp [words]), params_text _⟩

/-- The templates of conditions are blocks that bind the conditions' values. -/
theorem templates_write : ∀ (cs : List Condition) (ts : List Template), templates cs = .ok ts →
    (∀ f ∈ fragmentsOf cs, f.IsBlock Q) →
    WritesEach Q (valuesOf cs) ts
  | [], ts, h, _ => by
      obtain rfl := Except.ok.inj h
      exact ⟨nofun, rfl⟩
  | c :: cs, ts, h, hf => by
      obtain ⟨hc, hcs⟩ := List.forall_mem_append.mp hf
      obtain ⟨t, ht, h⟩ := bind_eq_ok.mp h
      obtain ⟨us, hus, rfl⟩ := bind_pure_eq_ok.mp h
      have hhead := template_writes c t ht hc
      exact hhead.cons (templates_write cs us hus hcs)

end

end Condition

/-! ### Entries of the other lists -/

theorem templatesOf_write {α : Type} {write : α → Except SqlError Template}
    {values : α → List Value} {xs : List α} {ts : List Template} (h : templatesOf write xs = .ok ts)
    (hx : ∀ x ∈ xs, ∀ t, write x = .ok t → t.Writes Q (values x)) :
    WritesEach Q (xs.flatMap values) ts := by
  induction xs generalizing ts with
  | nil =>
      obtain rfl := Except.ok.inj h
      exact ⟨nofun, rfl⟩
  | cons x xs ih =>
      obtain ⟨hhead, htail⟩ := List.forall_mem_cons.mp hx
      obtain ⟨t, ht, h⟩ := bind_eq_ok.mp h
      obtain ⟨us, hus, rfl⟩ := bind_pure_eq_ok.mp h
      exact (hhead t ht).cons (ih hus htail)

theorem Projection.template_writes {p : Projection} {t : Template} (h : p.template = .ok t)
    (hf : ∀ f ∈ p.fragments, f.IsBlock Q) : t.Writes Q p.values := by
  cases p with
  | column c =>
      obtain rfl := Except.ok.inj h
      exact ⟨block_column c, params_text _⟩
  | aggregate function c result =>
      obtain rfl := Except.ok.inj h
      have hname : (text function.name).Block Q :=
        block_word (by cases function <;> simp [words, Aggregate.name])
      have hcall : (text function.name ++ text "(" ++ text c.sql).Block Q :=
        hname.joined (by simp [joints]) (block_column c)
      simp only [text_append]
      exact ⟨hcall.joined (by simp [joints]) (block_identifier result), by simp [values, fragments]⟩
  | expression f =>
      have hwrites := (hf f (List.mem_singleton.mpr rfl)).writes h
      exact ⟨hwrites.block, by simpa [values, fragments] using hwrites.params⟩

theorem GroupTerm.template_writes {g : GroupTerm} {t : Template} (h : g.template = .ok t)
    (hf : ∀ f ∈ g.fragments, f.IsBlock Q) : t.Writes Q g.values := by
  cases g with
  | column c =>
      obtain rfl := Except.ok.inj h
      exact ⟨block_column c, params_text _⟩
  | expression f =>
      have hwrites := (hf f (List.mem_singleton.mpr rfl)).writes h
      exact ⟨hwrites.block, by simpa [values, fragments] using hwrites.params⟩

theorem SortOrder.sql_mem (order : SortOrder) : " " ++ order.sql ∈ ends := by
  cases order <;> simp [ends, SortOrder.sql]

theorem OrderTerm.template_writes {o : OrderTerm} {t : Template} (h : o.template = .ok t)
    (hf : ∀ f ∈ o.fragments, f.IsBlock Q) : t.Writes Q o.values := by
  cases o with
  | column c order =>
      obtain rfl := Except.ok.inj h
      rw [String.append_assoc, text_append]
      exact ⟨(block_column c).ended order.sql_mem, by simp [values, fragments]⟩
  | expression f order =>
      obtain ⟨u, hu, rfl⟩ := bind_pure_eq_ok.mp h
      have hwrites := (hf f (List.mem_singleton.mpr rfl)).writes hu
      exact ⟨hwrites.block.ended order.sql_mem, by simpa [values, fragments] using hwrites.params⟩

theorem JoinCondition.template_writes (c : JoinCondition) : c.template.Writes Q c.values := by
  cases c with
  | columns left right =>
      simp only [template, text_append]
      exact ⟨(block_column left).joined (by simp [joints]) (block_column right), by simp [values]⟩
  | value column v =>
      simp only [template, text_append]
      exact ⟨(block_column column).joined (by simp [joints]) (block_bind v),
        by simp [params, values]⟩

/-! ### Queries -/

namespace Query

variable {q : Query} {t : Template}

/-- A table under an alias unless that is its name. -/
theorem named_block {s : String} (hs : (text s).Block Q) (table tableAlias : String) :
    (text (if table = tableAlias then s
      else s ++ " AS " ++ quoteIdentifier tableAlias)).Block Q := by
  by_cases hsame : table = tableAlias
  · rwa [if_pos hsame]
  · rw [if_neg hsame, text_append, text_append]
    exact hs.joined (by simp [joints]) (block_identifier tableAlias)

/-- A table is a block of tokens, with its schema and its alias. -/
theorem tableSql_block (table tableAlias : String) :
    (text (q.tableSql table tableAlias)).Block Q := by
  cases hschema : q.schema with
  | none =>
      simp only [tableSql, hschema]
      exact named_block (block_identifier table) table tableAlias
  | some schema =>
      have hpoint : (text (quoteIdentifier schema ++ "." ++ quoteIdentifier table)).Block Q := by
        rw [text_append, text_append]
        exact (block_identifier schema).joined (by simp [joints]) (block_identifier table)
      simp only [tableSql, hschema]
      exact named_block hpoint table tableAlias

theorem joinTemplate_writes (j : Join) : (q.joinTemplate j).WritesClause Q j.values := by
  have hon : (Template.join " AND " (j.on.map JoinCondition.template)).Writes Q j.values :=
    (writesEach_map fun c _ => c.template_writes).join (by simp [joints])
  have htable : (text " LEFT OUTER JOIN " ++ text (q.tableSql j.table j.tableAlias)).Clause Q :=
    (tableSql_block j.table j.tableAlias).clause (by simp [joints])
  simp only [joinTemplate, text_append]
  refine ⟨(Lexes.append htable (lexes_joint (by simp [joints]))).append hon.block, ?_⟩
  simpa using hon.params

theorem fromTemplate_writes : q.fromTemplate.Writes Q (q.joins.flatMap Join.values) := by
  have htable : (text (q.tableSql q.table q.tableAlias)).Writes Q [] :=
    ⟨tableSql_block q.table q.tableAlias, params_text _⟩
  exact htable.followed (writesClause_flatMap fun j _ => joinTemplate_writes j)

theorem whereTemplate_writes (h : q.whereTemplate = .ok t)
    (hf : ∀ f ∈ Condition.fragmentsOf q.conditions, f.IsBlock Q) :
    t.WritesClause Q (Condition.valuesOf q.conditions) := by
  simp only [whereTemplate] at h
  -- no clause without conditions
  generalize q.conditions = cs at h hf
  cases cs with
  | nil =>
      obtain rfl := Except.ok.inj h
      exact ⟨clause_nil, rfl⟩
  | cons c cs =>
      obtain ⟨ts, hts, rfl⟩ := bind_pure_eq_ok.mp h
      exact ((Condition.templates_write _ ts hts hf).join (by simp [joints])).clause
        (by simp [joints])

theorem selectList_writes (h : q.selectList = .ok t)
    (hf : ∀ f ∈ q.projections.flatMap Projection.fragments, f.IsBlock Q) :
    t.Writes Q (q.projections.flatMap Projection.values) := by
  simp only [selectList] at h
  -- a star without entries
  generalize q.projections = ps at h hf
  cases ps with
  | nil =>
      obtain rfl := Except.ok.inj h
      exact ⟨block_word (by simp [words]), params_text _⟩
  | cons p ps =>
      obtain ⟨ts, hts, rfl⟩ := bind_pure_eq_ok.mp h
      refine (templatesOf_write hts fun p hp t ht => ?_).join (by simp [joints])
      exact Projection.template_writes ht fun f hmem => hf f (List.mem_flatMap.mpr ⟨p, hp, hmem⟩)

/-- A clause that lists entries under a keyword, empty without entries. -/
theorem listClause_writes {α : Type} {write : α → Except SqlError Template}
    {values : α → List Value} {xs : List α} {keyword : String} (hkeyword : keyword ∈ joints)
    (h : (if xs.isEmpty then .ok [] else do
      return text keyword ++ Template.join ", " (← templatesOf write xs)) = Except.ok t)
    (hx : ∀ x ∈ xs, ∀ t, write x = .ok t → t.Writes Q (values x)) :
    t.WritesClause Q (xs.flatMap values) := by
  cases xs with
  | nil =>
      obtain rfl := Except.ok.inj h
      exact ⟨clause_nil, rfl⟩
  | cons x xs =>
      obtain ⟨ts, hts, rfl⟩ := bind_pure_eq_ok.mp h
      exact ((templatesOf_write hts hx).join (by simp [joints])).clause hkeyword

theorem groupTemplate_writes (h : q.groupTemplate = .ok t)
    (hf : ∀ f ∈ q.groupTerms.flatMap GroupTerm.fragments, f.IsBlock Q) :
    t.WritesClause Q (q.groupTerms.flatMap GroupTerm.values) :=
  listClause_writes (by simp [joints]) h fun g hg _ ht =>
    GroupTerm.template_writes ht fun f hmem => hf f (List.mem_flatMap.mpr ⟨g, hg, hmem⟩)

theorem orderTemplate_writes (h : q.orderTemplate = .ok t)
    (hf : ∀ f ∈ q.orderTerms.flatMap OrderTerm.fragments, f.IsBlock Q) :
    t.WritesClause Q (q.orderTerms.flatMap OrderTerm.values) :=
  listClause_writes (by simp [joints]) h fun o ho _ ht =>
    OrderTerm.template_writes ht fun f hmem => hf f (List.mem_flatMap.mpr ⟨o, ho, hmem⟩)

/-- The query without its orders and window is a block that binds its values. -/
theorem selectTemplate_writes (h : q.selectTemplate = .ok t) (hf : ∀ f ∈ q.fragments, f.IsBlock Q) :
    t.Writes Q q.selectValues := by
  simp only [fragments, List.forall_mem_append] at hf
  obtain ⟨⟨⟨hprojections, hconditions⟩, hgroups⟩, -⟩ := hf
  obtain ⟨list, hlist, h⟩ := bind_eq_ok.mp h
  obtain ⟨condition, hcondition, h⟩ := bind_eq_ok.mp h
  obtain ⟨grouping, hgrouping, rfl⟩ := bind_pure_eq_ok.mp h
  have hselect : ("SELECT " ++ if q.distinct then "DISTINCT " else "") ∈ starts := by
    cases q.distinct <;> simp [starts]
  have hrows : (text ("SELECT " ++ if q.distinct then "DISTINCT " else "") ++ list ++
      text " FROM " ++ q.fromTemplate).Writes Q (q.projections.flatMap Projection.values ++
        q.joins.flatMap Join.values) :=
    ((selectList_writes hlist hprojections).started hselect).joined (by simp [joints])
      fromTemplate_writes
  have hwhere := hrows.followed (whereTemplate_writes hcondition hconditions)
  simpa only [selectValues, rowValues, List.append_assoc] using
    hwhere.followed (groupTemplate_writes hgrouping hgroups)

/-- The count of the rows is a block that binds its values. -/
theorem countTemplate_writes (h : q.countTemplate = .ok t) (hf : ∀ f ∈ q.fragments, f.IsBlock Q) :
    t.Writes Q q.countValues := by
  simp only [countTemplate] at h
  simp only [countValues]
  split at h
  · next hcounted =>
    obtain ⟨select, hselect, rfl⟩ := bind_pure_eq_ok.mp h
    rw [if_pos hcounted]
    exact ((selectTemplate_writes hselect hf).started (by simp [starts])).ended (by simp [ends])
  · next hcounted =>
    obtain ⟨condition, hcondition, rfl⟩ := bind_pure_eq_ok.mp h
    rw [if_neg hcounted]
    simp only [fragments, List.forall_mem_append] at hf
    exact (fromTemplate_writes.started (by simp [starts])).followed
      (whereTemplate_writes hcondition hf.1.1.2)

/-! ### The window -/

/-- The tokens of a text and a number. -/
def numberTokens (s : String) (n : UInt64) : List Token :=
  lex s ++ [.run .number (toString n.toNat).toList]

/-- The tokens of the limit and the offset. -/
def windowTokens (q : Query) : List Token :=
  q.limit.toList.flatMap (numberTokens " LIMIT ") ++
    (q.offset.filter (0 < ·)).toList.flatMap (numberTokens " OFFSET ")

/-- Read after anything outside quotes, the text has the tokens and ends outside quotes. -/
def Follows (s : String) (ts : List Token) : Prop :=
  ∀ r : Reading, r.Outside → (r.after s.toList).Outside ∧ r.tokens s.toList = r.finish ++ ts

theorem follows_empty : Follows "" [] :=
  fun _ hr => ⟨hr, (List.append_nil _).symm⟩

/-- What follows a statement follows it one after the other. -/
theorem Follows.append {s u : String} {ts us : List Token} (hs : Follows s ts) (hu : Follows u us) :
    Follows (s ++ u) (ts ++ us) := by
  intro r hr
  obtain ⟨hmid, hts⟩ := hs r hr
  obtain ⟨hend, hus⟩ := hu _ hmid
  rw [String.toList_append, Reading.after_append, Reading.tokens_append hus, hts,
    List.append_assoc]
  exact ⟨hend, rfl⟩

/-- A keyword and a number follow a statement as tokens of their own. -/
theorem follows_number {s : String} (hs : beginsApart s = true) (he : endsApart s = true)
    (n : UInt64) : Follows (s ++ toString n.toNat) (numberTokens s n) := by
  intro r hr
  -- the text ends apart, so the number after it is a token of its own
  obtain ⟨htokens, hafter⟩ := Reading.tokens_digits n.toNat
  have hend : Reading.between.after s.toList = .between := of_decide_eq_true he
  obtain ⟨c, hc, hapart⟩ := (Option.any_eq_true _ _).mp hs
  obtain ⟨cs, hcs⟩ := List.head?_eq_some_iff.mp hc
  have hparted := Reading.extend?_of_isApart hr hapart
  have hdigits : Reading.between.tokens (s.toList ++ (toString n.toNat).toList) =
      numberTokens s n := Reading.tokens_append (by rw [hend, htokens]; rfl)
  have hnumber : Reading.between.after (s.toList ++ (toString n.toNat).toList) =
      .run .number (toString n.toNat).toList := by
    rw [Reading.after_append, hend, hafter]
  rw [String.toList_append, hcs, List.cons_append] at *
  rw [Reading.after_of_parted hparted, Reading.tokens_of_parted hparted, hnumber, hdigits]
  exact ⟨rfl, rfl⟩

/-- The window follows a statement. -/
theorem follows_windowSql (q : Query) : Follows q.windowSql q.windowTokens := by
  refine Follows.append ?_ ?_
  · cases q.limit with
    | none => exact follows_empty
    | some n =>
        rw [Option.toList_some, List.flatMap_singleton]
        exact follows_number (by decide +kernel) (by decide +kernel) n
  · cases q.offset with
    | none => exact follows_empty
    | some n =>
        by_cases hn : 0 < n
        · simp only [hn, if_true, Option.filter_some, decide_true, Option.toList_some,
            List.flatMap_singleton]
          exact follows_number (by decide +kernel) (by decide +kernel) n
        · simp only [hn, if_false, Option.filter_some, decide_false]
          exact follows_empty

/-! ### Statements -/

/-- **The tokens of a query's statement.**  The placeholders are numbered from 1 on, one for each
value of the query, the values being the parameters in order; the other tokens are fixed, or of raw
fragments, but for the window at the end. -/
theorem tokens_of_build {s : Statement} (h : q.build = .ok s)
    (hf : ∀ f ∈ q.fragments, f.IsBlock Q) :
    s.params = q.values ∧ ∃ front, lex s.sql = front ++ q.windowTokens ∧
      Numbered Q 1 s.params.length front := by
  obtain ⟨select, ordering, -, hselect, hordering, rfl⟩ := templates_of_build h
  have horders : ∀ f ∈ q.orderTerms.flatMap OrderTerm.fragments, f.IsBlock Q :=
    fun f hmem => hf f (List.mem_append_right _ hmem)
  have hwrites : (select ++ ordering).Writes Q q.values :=
    (selectTemplate_writes hselect hf).followed (orderTemplate_writes hordering horders)
  have hparams : (select ++ ordering ++ text q.windowSql).params = q.values := by
    rw [params_append, params_text, List.append_nil, hwrites.params]
  obtain ⟨hend, hnumbered⟩ := hwrites.block.tokens 1
  have hwindow := (follows_windowSql q _ hend).2
  refine ⟨hparams, Reading.between.tokens (charsFrom 1 (select ++ ordering)), ?_, ?_⟩
  · rw [lex, Template.statement, String.toList_ofList, charsFrom_append, charsFrom_text]
    exact Reading.tokens_append hwindow
  · rw [Template.statement, hparams, ← hwrites.params]
    exact hnumbered

/-- **The tokens of a count.**  The placeholders are numbered from 1 on, one for each value that is
counted by, and the other tokens are fixed, or of raw fragments. -/
theorem tokens_of_buildCount {s : Statement} (h : q.buildCount = .ok s)
    (hf : ∀ f ∈ q.fragments, f.IsBlock Q) :
    s.params = q.countValues ∧ Numbered Q 1 s.params.length (lex s.sql) := by
  obtain ⟨t, ht, rfl⟩ := template_of_buildCount h
  have hwrites := countTemplate_writes ht hf
  refine ⟨hwrites.params, ?_⟩
  rw [lex, Template.statement, String.toList_ofList]
  exact (hwrites.block.tokens 1).2

end Query

end ResourceQuery.Sql
