import ResourceQuery.Proofs.Compile.Accepted

/-!
# Compile — fields inside JSON columns

A field of a fieldset may address a value inside a JSON column (`IsJsonKey`), and such an entry should
read that value (`Extracts`).  A plain field of the base type does.  The argument of an aggregate and a
field of a joined relation are taken for columns as a whole instead, so that the path behind the colon
is lost (`EntryAdds.of_json`).

* `qualify_of_isJsonKey`: what a key with a JSON path stands for.
* `EntryAdds.mem`, `exists_entryAdds`: what the entries of fieldsets add is what there is in the
  `SELECT` list.
* `jsonExtracted_iff`: the JSON values that fieldsets ask for are read exactly when plain fields of the
  base type alone ask for them.
-/

namespace ResourceQuery

open Sql (Aggregate Column JsonAttribute Projection Query)

/-- The key addresses a value inside a JSON column. -/
def IsJsonKey (key : String) (json : JsonAccess) : Prop :=
  (AttributeKey.ofText key).json = some json ∧ json.path.isEmpty = false

instance (key : String) (json : JsonAccess) : Decidable (IsJsonKey key json) :=
  inferInstanceAs (Decidable (_ ∧ _))

/-- The entry reads the value, or the function of it if there is one. -/
def Sql.JsonAttribute.Extracts (a : JsonAttribute) (function : Option Aggregate) (e : Projection) :
    Prop :=
  match function with
  | none   => e = .expression a.aliased
  | some f => ∃ result, e = .expression
      (a.expression.mapSql fun sql => f.name ++ "(" ++ sql ++ ") AS " ++ Sql.quoteIdentifier result)

namespace Context

variable {ctx : Context} {q q' : Query} {includes : List String} {set name : String}
  {json : JsonAccess} {e : Projection}

/-! ### Entries of fieldsets -/

/-- The key that a name in the fieldset of `set` stands for. -/
def entryKey (ctx : Context) (set name : String) : String :=
  if ctx.isBaseKey set then fieldKey name else set ++ "." ++ name

/-- The function that is taken of it. -/
def entryFunction? (ctx : Context) (set name : String) : Option Aggregate :=
  if ctx.isBaseKey set then (aggregateField? name).map Prod.fst else none

/-- A name in the fieldset of `set` adds the entry to the `SELECT` list of `q`. -/
def EntryAdds (ctx : Context) (includes : List String) (q : Query) (set name : String)
    (e : Projection) : Prop :=
  if ctx.isBaseKey set then ctx.FieldAdds q name e
  else (set ∉ includes ∧ q.hasJoin set = true) ∧ ctx.JoinedAdds set name e

/-- Every entry that addresses a value inside a JSON column reads this value, if it adds anything. -/
def JsonExtracted (ctx : Context) (params : Params) (q : Query) : Prop :=
  ∀ set names, (set, names) ∈ params.fields → ∀ name ∈ names, ∀ json,
    IsJsonKey (ctx.entryKey set name) json → ∀ e, ctx.EntryAdds params.includes q set name e →
      ∃ column, ctx.qualifyColumn (ctx.entryKey set name) = .ok (some column) ∧
        (JsonAttribute.of column json.path json.type).Extracts (ctx.entryFunction? set name) e

/-- A key with a JSON path stands for the value at the path. -/
theorem qualify_of_isJsonKey {key : String} {target : AttributeTarget} (hkey : IsJsonKey key json)
    (h : ctx.qualify key = .ok (some target)) :
    target = .json (.of target.sourceColumn json.path json.type) := by
  obtain ⟨hjson, hpath⟩ := hkey
  obtain ⟨resolved, name, -, -, -, rfl⟩ := qualify_eq_some_iff.mp h
  rw [AttributeKey.sourceColumn_target]
  simp only [AttributeKey.target, hjson, hpath]
  rfl

/-- What an entry with a JSON path adds: the value for a plain field of the base type, and else the whole
column or the function of it. -/
theorem EntryAdds.of_json (hkey : IsJsonKey (ctx.entryKey set name) json)
    (h : ctx.EntryAdds includes q set name e) :
    ∃ column, ctx.qualifyColumn (ctx.entryKey set name) = .ok (some column) ∧
      e = if ctx.isBaseKey set then
          match aggregateField? name with
          | some (function, _) => .aggregate function column function.name
          | none               => .expression (JsonAttribute.of column json.path json.type).aliased
        else .column column := by
  rw [EntryAdds] at h
  rw [entryKey] at hkey ⊢
  split at h
  case isTrue hbase =>
    simp only [if_pos hbase, fieldKey] at hkey ⊢
    rw [FieldAdds] at h
    cases hfield : aggregateField? name with
    | some call =>
        obtain ⟨function, key⟩ := call
        rw [hfield] at h
        obtain ⟨column, hcolumn, -, rfl⟩ := h
        exact ⟨column, hcolumn, rfl⟩
    | none =>
        rw [hfield] at h hkey
        obtain ⟨target, htarget, -, rfl⟩ := h
        refine ⟨_, qualifyColumn_eq_some.mpr ⟨target, htarget, rfl⟩, ?_⟩
        rw [qualify_of_isJsonKey hkey htarget]
        rfl
  case isFalse hrelation =>
    simp only [if_neg hrelation] at hkey ⊢
    obtain ⟨-, target, htarget, rfl⟩ := h
    exact ⟨_, qualifyColumn_eq_some.mpr ⟨target, htarget, rfl⟩, rfl⟩

/-- The entries that address values inside JSON columns read them exactly when those of them that add
anything are plain fields of the base type. -/
theorem jsonExtracted_iff_plain {params : Params} :
    ctx.JsonExtracted params q ↔
      ∀ set names, (set, names) ∈ params.fields → ∀ name ∈ names, ∀ json,
        IsJsonKey (ctx.entryKey set name) json → ∀ e, ctx.EntryAdds params.includes q set name e →
          ctx.isBaseKey set = true ∧ aggregateField? name = none := by
  refine forall₂_congr fun set names => forall₂_congr fun _ name => forall₂_congr fun _ json =>
    forall₂_congr fun hkey e => forall_congr' fun hadds => ?_
  obtain ⟨column, hcolumn, rfl⟩ := hadds.of_json hkey
  rw [entryFunction?]
  by_cases hbase : ctx.isBaseKey set = true
  · simp only [hbase, true_and]
    cases hfield : aggregateField? name with
    | none => exact iff_of_true ⟨column, hcolumn, rfl⟩ rfl
    | some call =>
        refine iff_of_false ?_ nofun
        rintro ⟨_, -, result, h⟩
        cases h
  · simp only [hbase]
    refine iff_of_false ?_ nofun
    rintro ⟨_, -, h⟩
    cases h

variable {fields : Entries (List String)}

/-- What the entries of fieldsets that run add is in the `SELECT` list. -/
theorem EntryAdds.mem {names : List String} (h : (ctx.fieldsStage fields includes).Runs q q')
    (hset : (set, names) ∈ fields) (hname : name ∈ names)
    (hadds : ctx.EntryAdds includes q' set name e) : e ∈ q'.projections := by
  refine (fieldsStage_mem h).mpr (.inr ⟨_, hset, ?_⟩)
  rw [EntryAdds] at hadds
  rw [FieldsetAdds]
  split at hadds
  case isTrue hbase =>
    rw [if_pos hbase]
    exact .inl ⟨name, hname, hadds⟩
  case isFalse hrelation =>
    rw [if_neg hrelation]
    obtain ⟨hjoined, target, htarget, rfl⟩ := hadds
    exact ⟨hjoined, name, hname, _, qualifyColumn_eq_some.mpr ⟨target, htarget, rfl⟩, rfl⟩

/-- Fieldsets that run add what their entries add and columns that included paths need. -/
theorem exists_entryAdds (h : (ctx.fieldsStage fields includes).Runs q q')
    (he : e ∈ q'.projections) :
    e ∈ q.projections ∨ (∃ c, ctx.Needs includes c ∧ e = .column c) ∨
      ∃ set names, (set, names) ∈ fields ∧ ∃ name ∈ names, ctx.EntryAdds includes q' set name e := by
  refine ((fieldsStage_mem h).mp he).imp_right ?_
  rintro ⟨⟨set, names⟩, hset, hadds⟩
  rw [FieldsetAdds] at hadds
  simp only [EntryAdds]
  split at hadds
  case isTrue hbase =>
    rcases hadds with ⟨name, hname, hadds⟩ | hneeds
    · exact .inr ⟨set, names, hset, name, hname, by rwa [if_pos hbase]⟩
    · exact .inl hneeds
  case isFalse hrelation =>
    obtain ⟨hjoined, name, hname, c, hcolumn, rfl⟩ := hadds
    obtain ⟨target, htarget, rfl⟩ := qualifyColumn_eq_some.mp hcolumn
    refine .inr ⟨set, names, hset, name, hname, ?_⟩
    rw [if_neg hrelation]
    exact ⟨hjoined, target, htarget, rfl⟩

end Context

namespace Compiler

/-- **When the JSON values that fieldsets ask for are read.**  What the names in the fieldsets of a
prepared query add is in its `SELECT` list, which holds nothing else but the base table's `*` and
columns that included paths need.  The names that address a value inside a JSON column all read this
value, or a function of it, if they add anything, exactly when all of those that do are plain fields of
the base type: the argument of an aggregate and a field of a joined relation stand for the whole
column. -/
theorem jsonExtracted_iff (c : Compiler) (r : Request) (p : PreparedQuery) (hadjust : r.adjust = id)
    (h : c.prepare r = .ok p) :
    ∃ base, c.registry.type? r.base = some base ∧
      let ctx := c.context base r.tableAlias
      let adds := ctx.EntryAdds r.params.includes p.query
      (∀ set names, (set, names) ∈ r.params.fields → ∀ name ∈ names, ∀ e, adds set name e →
        e ∈ p.query.projections) ∧
      (∀ e ∈ p.query.projections, e = .column (.all ctx.tableAlias) ∨
        (∃ column, ctx.Needs r.params.includes column ∧ e = .column column) ∨
        ∃ set names, (set, names) ∈ r.params.fields ∧ ∃ name ∈ names, adds set name e) ∧
      (ctx.JsonExtracted r.params p.query ↔
        ∀ set names, (set, names) ∈ r.params.fields → ∀ name ∈ names, ∀ json,
          IsJsonKey (ctx.entryKey set name) json → ∀ e, adds set name e →
            ctx.isBaseKey set = true ∧ aggregateField? name = none) := by
  obtain ⟨base, tree, joined, q, hbase, -, hjoined, hparams, hq⟩ := prepare_eq_ok h
  obtain rfl : q = p.query := by rw [hq, hadjust, id]
  obtain ⟨-, hfront⟩ := dependencyStage_lists hjoined ⟨rfl, rfl, rfl, rfl⟩
  -- in front of the fieldsets there is nothing but the star for the base
  obtain ⟨v, hv, hfields⟩ := exists_before_fields (R := fun u => u.projections = joined.projections)
    hparams (fun _ _ _ h => h) (fun _ _ _ h => h) (fun _ _ _ h => h) (fun _ _ h => h) rfl
  refine ⟨base, hbase, fun set names hset name hname e hadds => hadds.mem hfields hset hname,
    fun e he => ?_, Context.jsonExtracted_iff_plain⟩
  refine (Context.exists_entryAdds hfields he).imp_left fun hbefore => ?_
  rw [hv] at hbefore
  rcases hfront with hnone | hstar
  · rw [hnone] at hbefore
    cases hbefore
  · rw [hstar] at hbefore
    exact List.mem_singleton.mp hbefore

/-- The place of articles is read from their data. -/
theorem place_extracted :
    ∃ p, Blog.compiler.prepare Blog.placedArticles = .ok p ∧
      (Blog.context false).JsonExtracted Blog.placedArticles.params p.query ∧
      .expression (JsonAttribute.of (.of "articles" "meta") "zip" none).aliased ∈
        p.query.projections := by
  have htest : ((Blog.compiler.prepare Blog.placedArticles).toOption.any fun _ => true) = true := by
    decide +kernel
  obtain ⟨p, hp, -⟩ := exists_ok_of_any htest
  obtain ⟨base, hbase, hmem, -, hiff⟩ := jsonExtracted_iff Blog.compiler Blog.placedArticles p rfl hp
  obtain rfl : Blog.articles = base := Option.some.inj hbase
  have hplace : (Blog.context false).qualify "meta:zip" =
      .ok (some (.json (.of (.of "articles" "meta") "zip" none))) := by decide +kernel
  refine ⟨p, hp, hiff.mpr ?_, hmem "articles" _ (List.mem_singleton.mpr rfl) "meta:zip" (by decide) _
    ⟨_, hplace, ⟨"articles", rfl, .inl rfl⟩, rfl⟩⟩
  rintro set names hset name hname json - e -
  obtain ⟨rfl, rfl⟩ := Prod.mk.inj (List.mem_singleton.mp hset)
  refine ⟨by decide +kernel, ?_⟩
  rcases List.mem_cons.mp hname with rfl | hname
  · decide +kernel
  · obtain rfl := List.mem_singleton.mp hname
    decide +kernel

/-- The count of the places of articles counts their data. -/
theorem not_jsonExtracted :
    ¬ ∀ (c : Compiler) (r : Request) (p : PreparedQuery), r.adjust = id → c.prepare r = .ok p →
      ∀ base, c.registry.type? r.base = some base →
        (c.context base r.tableAlias).JsonExtracted r.params p.query := by
  intro h
  have htest : ((Blog.compiler.prepare
      (Blog.included [] "articles" ["title", "count(meta:zip)"])).toOption.any fun _ => true) =
        true := by decide +kernel
  obtain ⟨p, hp, -⟩ := exists_ok_of_any htest
  have hplain := Context.jsonExtracted_iff_plain.mp (h Blog.compiler _ p rfl hp Blog.articles rfl)
    "articles" _ (List.mem_singleton.mpr rfl) "count(meta:zip)" (by decide) ⟨"zip", none⟩
    (by decide +kernel) (.aggregate .count (.of "articles" "meta") "count")
  have hdata : (Blog.context false).qualifyColumn "meta:zip" =
      .ok (some (.of "articles" "meta")) := by decide +kernel
  have hadds := hplain ⟨_, hdata, ⟨"articles", rfl, .inl rfl⟩, rfl⟩
  exact absurd hadds.2 (by decide +kernel)

end Compiler

end ResourceQuery
