import ResourceQuery.Compile.Remembered
import ResourceQuery.Proofs.Compile.Loads
import ResourceQuery.Proofs.Compile.Scope
import ResourceQuery.Proofs.Model.TableIndex

/-!
# Compile — what is remembered does not show

Work that looks column names up *gives* the result of a computation without a cache when it does so from
every cache that look-ups for registered types lead to, and leaves such a cache behind (`LookUp.Gives`).
The relation is closed under doing one thing after the other, so that it holds of whole stages once it holds
of a look-up.  A look-up is for the base type or for the target of a relation; these are registered, and
where types are registered under their own names, the cache cannot take one for another.

* `Context.gives_recallKey`, `Context.gives_recallLoad`: the two places where names are looked up.
* `Compiler.gives_recallParams`: the stages behind the joins, with one cache for all of them.
* `Compiler.compileRecalling_eq`: a compilation with a cache is one without.
-/

namespace ResourceQuery

open ColumnCache (Reached)

namespace LookUp

variable {α β : Type} {r : Registry} {m : LookUp α} {x : Except QueryError α} {t : ResourceType}

/-- From every cache that look-ups lead to, the work has the result, and leaves such a cache behind. -/
def Gives (r : Registry) (m : LookUp α) (x : Except QueryError α) : Prop :=
  ∀ cache, Reached r cache → ∃ after, Reached r after ∧ m.run cache = x.map fun a => (a, after)

theorem gives_pure (a : α) : Gives r (pure a) (.ok a) :=
  fun cache h => ⟨cache, h, rfl⟩

/-- What fails or succeeds without a look-up does so with any cache. -/
theorem gives_lift (x : Except QueryError α) : Gives r (liftM x) x := by
  intro cache h
  refine ⟨cache, h, ?_⟩
  cases x with
  | error e => rfl
  | ok a => rfl

/-- One thing after the other, with the cache that the first leaves behind. -/
theorem Gives.bind {f : α → LookUp β} {g : α → Except QueryError β} (hm : Gives r m x)
    (hf : ∀ a, x = .ok a → Gives r (f a) (g a)) : Gives r (m >>= f) (x >>= g) := by
  intro cache h
  obtain ⟨between, hbetween, hrun⟩ := hm cache h
  cases x with
  | error e =>
      refine ⟨cache, h, ?_⟩
      rw [StateT.run_bind, hrun]
      rfl
  | ok a =>
      obtain ⟨after, hafter, hrest⟩ := hf a rfl between hbetween
      refine ⟨after, hafter, ?_⟩
      rw [StateT.run_bind, hrun]
      exact hrest

/-- What is made of something looked up. -/
theorem Gives.map (hm : Gives r m x) (f : α → β) :
    Gives r (do return f (← m)) (x.map f) := by
  have hbind : x.map f = x >>= fun a => pure (f a) := by
    cases x with
    | error e => rfl
    | ok a => rfl
  rw [hbind]
  exact hm.bind fun a _ => gives_pure (f a)

/-- A look-up for a registered type gives its column name. -/
theorem gives_column (registered : r.type? t.name = some t) (name : String) :
    Gives r (column t name) (.ok (t.column name)) := by
  intro cache h
  refine ⟨_, .column h registered name, ?_⟩
  exact congrArg (fun column => Except.ok (column, _)) (ColumnCache.column_eq (h.tells registered) name)

/-- The column names of a registered type are looked up as the type has them. -/
theorem gives_columns (registered : r.type? t.name = some t) (names : List String) :
    Gives r (columns t names) (.ok (names.map t.column)) := by
  intro cache h
  refine ⟨(cache.columns t names).2, ?_, ?_⟩
  · induction names generalizing cache with
    | nil => exact h
    | cons name names ih => exact ih _ (.column h registered name)
  · exact congrArg (fun columns => Except.ok (columns, _)) (ColumnCache.columns_eq (h.tells registered) names)

/-! ### Stages -/

/-- The stage with look-ups gives the query of the stage without. -/
def GivesStage (r : Registry) (s : Sql.Query → LookUp Sql.Query) (stage : Stage) : Prop :=
  ∀ q, Gives r (s q) (stage q).result

theorem givesStage_change (f : Sql.Query → Sql.Query) : GivesStage r (change f) (.change f) :=
  fun q => gives_pure (f q)

/-- What is looked up for a query is added to it. -/
theorem givesStage_add {put : Sql.Query → α → Sql.Query} (hm : Gives r m x) :
    GivesStage r (add m put) (.add x put) := by
  intro q
  have hresult : (Stage.add x put q).result = x.map (put q) := by
    cases x with
    | error e => rfl
    | ok a => rfl
  rw [hresult]
  exact hm.map (put q)

/-- A step that looks something up is the step that knows it. -/
theorem givesStage_step {s : Sql.Query → LookUp Sql.Query}
    {f : Sql.Query → Except QueryError Sql.Query} (h : ∀ q, Gives r (s q) (f q)) :
    GivesStage r s (.step f) := by
  intro q
  have hresult : (Stage.step f q).result = f q := by
    rw [Stage.step]
    cases f q with
    | error e => rfl
    | ok a => rfl
  rw [hresult]
  exact h q

/-- Steps that look something up run one after the other as those that know it, with one cache for all. -/
theorem givesStage_all {ss : List (Sql.Query → LookUp Sql.Query)} {stages : List Stage}
    (h : List.Forall₂ (GivesStage r) ss stages) : GivesStage r (all ss) (.all stages) := by
  induction h with
  | nil => exact fun q => gives_pure q
  | cons hfirst _ ih =>
      intro q
      rw [Stage.all_cons, Stage.result_andThen]
      exact (hfirst q).bind fun q' _ => ih q'

/-- A sequence that is made from a list gives the same when each of its stages does. -/
theorem givesStage_map {γ : Type} {s : γ → Sql.Query → LookUp Sql.Query} {stage : γ → Stage}
    (items : List γ) (h : ∀ i, GivesStage r (s i) (stage i)) :
    GivesStage r (all (items.map s)) (.all (items.map stage)) :=
  givesStage_all (forall₂_map_map items h)

end LookUp

namespace Context

open LookUp

/-- Keys are resolved against types that are registered under their own names. -/
structure IsRegistered (ctx : Context) : Prop where
  named : ctx.registry.Named
  base  : ctx.registry.type? ctx.base.name = some ctx.base

variable {ctx : Context}

theorem IsRegistered.of_type? (h : ctx.IsRegistered) {name : String} {t : ResourceType}
    (ht : ctx.registry.type? name = some t) : ctx.registry.type? t.name = some t := by
  rwa [h.named name t ht]

/-! ### What a key stands for -/

/-- What a key stands for does not depend on the cache: the owner of its column is a registered type. -/
theorem gives_recallTarget (h : ctx.IsRegistered) (key : String) {parsed : AttributeKey}
    {resolved : ResolvedPath}
    (hresolved : ctx.registry.resolveAttribute ctx.base parsed.path = .ok resolved) :
    Gives ctx.registry (ctx.recallTarget key parsed resolved) (ctx.targetOf key parsed resolved) := by
  -- the column belongs to the base or to the target of a relation, both of which are registered
  have howner : ctx.registry.type? (ctx.owner resolved).1.name = some (ctx.owner resolved).1 := by
    rcases owner_registered hresolved with hbase | ⟨name, hname⟩
    · rw [hbase]
      exact h.base
    · exact h.of_type? hname
  cases hmono : resolved.polymorphicHop? with
  | some hop =>
      simp only [recallTarget, targetOf, hmono]
      exact gives_lift _
  | none =>
      cases hattr : resolved.attr with
      | none =>
          simp only [recallTarget, targetOf, hmono, hattr]
          exact gives_lift _
      | some name =>
          rw [targetOf_attribute hmono hattr]
          simp only [recallTarget, hmono, hattr]
          change Gives _ _ (.ok ((ctx.owner resolved).1.column name) >>= fun column =>
            .ok (some (parsed.target (.of (ctx.owner resolved).2 column))))
          refine (gives_column howner name).bind fun column _ => ?_
          simp only [AttributeKey.target]
          cases parsed.json with
          | none => exact gives_pure _
          | some json =>
              by_cases hpath : json.path.isEmpty = true
              · simp only [if_pos hpath]
                exact gives_pure _
              · simp only [if_neg hpath]
                exact gives_pure _

/-- What a key stands for, with its column name looked up. -/
theorem gives_recallKey (h : ctx.IsRegistered) (key : String) :
    Gives ctx.registry (ctx.recallKey key) (ctx.qualify key) := by
  refine (gives_lift _).bind fun found hfound => ?_
  cases found with
  | none => exact gives_pure none
  | some resolved => exact gives_recallTarget h key (resolveAttribute_eq_some.mp hfound)

theorem gives_recallColumn (h : ctx.IsRegistered) (key : String) :
    Gives ctx.registry (ctx.recallColumn key) (ctx.qualifyColumn key) :=
  (gives_recallKey h key).bind fun _ _ => gives_pure _

/-! ### The stages behind the joins -/

/-- Filters do not depend on the cache. -/
theorem gives_recallFilter (h : ctx.IsRegistered) (f : Filter) :
    GivesStage ctx.registry (ctx.recallFilter f) (ctx.filterStage f) := by
  refine givesStage_map f.terms fun term => givesStage_add ?_
  cases term with
  | equality key value =>
      rw [recallConditions, termConditions]
      split
      · exact gives_pure []
      · exact (gives_recallKey h key).bind fun _ _ => gives_pure _
  | typed op key value => exact (gives_recallKey h key).bind fun _ _ => gives_pure _

theorem gives_recallGroups (h : ctx.IsRegistered) (group : List String) :
    GivesStage ctx.registry (ctx.recallGroups group) (ctx.groupStage group) :=
  givesStage_map group fun key => givesStage_add <|
    (gives_recallKey h key).bind fun _ _ => gives_pure _

theorem gives_recallOrders (h : ctx.IsRegistered) (sort : List String) :
    GivesStage ctx.registry (ctx.recallOrders sort) (ctx.sortStage sort) :=
  givesStage_map sort fun entry => givesStage_add <|
    (gives_recallKey h (sortEntry entry).1).bind fun _ _ => gives_pure _

/-- The columns to load of a registered target are those that its naming gives. -/
theorem gives_recallLoaded {r : Registry} {hop : Hop} {target : ResourceType}
    (registered : r.type? target.name = some target) (names : List String) :
    Gives r (recallLoaded hop target names) (.ok (hop.columns target names)) :=
  (gives_columns registered names).map _

/-- The columns of a relation with a registered target do not depend on the cache. -/
theorem gives_recallLoadOf {r : Registry} (path : String) {hop : Hop}
    (htarget : ∀ target, hop.target = some target → r.type? target.name = some target)
    (fieldset : Option (List String)) :
    Gives r (recallLoadOf path hop fieldset) (.ok (loadOf path hop fieldset)) := by
  cases fieldset with
  | none => exact gives_pure _
  | some names =>
      cases hhop : hop.target with
      | none =>
          simp only [recallLoadOf, loadOf, hhop]
          exact gives_pure _
      | some target =>
          simp only [recallLoadOf, loadOf, hhop]
          exact (gives_recallLoaded (htarget target hhop) names).map
            fun columns => Sql.EagerLoad.mk path (some columns)

/-- What to load for an included path, with its column names looked up. -/
theorem gives_recallLoad (h : ctx.IsRegistered) (fields : Entries (List String)) (path : String) :
    Gives ctx.registry (ctx.recallLoad fields path) (ctx.eagerLoad? fields path) := by
  refine (gives_lift _).bind fun found hfound => ?_
  cases hlast : found.bind ResolvedPath.lastHop? with
  | none => exact gives_pure none
  | some hop =>
      obtain ⟨resolved, rfl, hlast⟩ := Option.bind_eq_some_iff.mp hlast
      have hchain := (Registry.resolveRelations_chain (resolveRelations_eq_some.mp hfound)).1
      have htarget : ∀ target, hop.target = some target →
          ctx.registry.type? target.name = some target := by
        intro target htarget
        obtain ⟨name, hname⟩ :=
          hchain.target_registered hop (List.mem_of_getLast? hlast) target htarget
        exact h.of_type? hname
      exact (gives_recallLoadOf path htarget (Entries.find? path fields)).map some

theorem gives_recallIncludes (h : ctx.IsRegistered) (includes : List String)
    (fields : Entries (List String)) :
    GivesStage ctx.registry (ctx.recallIncludes includes fields) (ctx.includeStage includes fields) :=
  givesStage_map includes fun path => givesStage_add (gives_recallLoad h fields path)

/-- A field of the base does not depend on the cache. -/
theorem gives_recallBaseField (h : ctx.IsRegistered) (field : String) (q : Sql.Query) :
    Gives ctx.registry (ctx.recallBaseField field q) (ctx.addBaseField field q) := by
  cases hfield : aggregateField? field with
  | some aggregate =>
      obtain ⟨function, key⟩ := aggregate
      simp only [recallBaseField, addBaseField, hfield]
      refine (gives_recallColumn h key).bind fun found _ => ?_
      cases found with
      | none => exact gives_pure q
      | some c => exact gives_lift _
  | none =>
      simp only [recallBaseField, addBaseField, hfield]
      refine (gives_recallKey h field).bind fun found _ => ?_
      cases found with
      | none => exact gives_pure q
      | some target =>
          cases target with
          | column c => exact gives_lift _
          | json a => exact gives_lift _

theorem gives_recallBaseFields (h : ctx.IsRegistered) (names includes : List String) :
    GivesStage ctx.registry (ctx.recallBaseFields names includes)
      (ctx.baseFieldsStage names includes) := by
  have hfields : List.Forall₂ (GivesStage ctx.registry) (names.map ctx.recallBaseField)
      (names.map fun field => .step (ctx.addBaseField field)) :=
    forall₂_map_map names fun field => givesStage_step (gives_recallBaseField h field)
  exact givesStage_all <| .cons (givesStage_change _) <|
    List.rel_append hfields (.cons (givesStage_change _) .nil)

theorem gives_recallJoinedFields (h : ctx.IsRegistered) (key : String) (names : List String) :
    GivesStage ctx.registry (ctx.recallJoinedFields key names) (ctx.joinedFieldsStage key names) :=
  givesStage_map names fun name => givesStage_add (gives_recallColumn h (key ++ "." ++ name))

theorem gives_recallFields (h : ctx.IsRegistered) (fields : Entries (List String))
    (includes : List String) :
    GivesStage ctx.registry (ctx.recallFields fields includes) (ctx.fieldsStage fields includes) := by
  refine givesStage_map fields fun (key, names) q => ?_
  simp only [recallFieldset, fieldsetStage]
  split
  · exact gives_recallBaseFields h names includes q
  · split
    · exact gives_pure q
    · split
      · exact gives_recallJoinedFields h key names q
      · exact gives_pure q

end Context

namespace Compiler

open LookUp

/-- The stages behind the joins, with one cache for all of them. -/
theorem gives_recallParams {ctx : Context} (h : ctx.IsRegistered) (p : Params) :
    GivesStage ctx.registry (recallParams ctx p) (paramStages ctx p) :=
  givesStage_all <|
    .cons (Context.gives_recallFilter h p.filter) <|
    .cons (Context.gives_recallGroups h p.group) <|
    .cons (Context.gives_recallOrders h p.sort) <|
    .cons (Context.gives_recallIncludes h p.includes p.fields) <|
    .cons (Context.gives_recallFields h p.fields p.includes) .nil

/-- A query made with a cache is the one made without. -/
theorem prepareRecalling_eq (c : Compiler) (hnamed : c.registry.Named) (r : Request) :
    c.prepareRecalling r = c.prepare r := by
  rw [prepareRecalling, prepare]
  cases hbase : c.registry.type? r.base with
  | none => rfl
  | some base =>
      have hregistered : (c.context base r.tableAlias).IsRegistered := by
        refine ⟨hnamed, ?_⟩
        change c.registry.type? base.name = some base
        rwa [hnamed r.base base hbase]
      refine bind_congr fun tree => ?_
      dsimp only
      rw [Stage.result_andThen, bind_assoc]
      refine bind_congr fun joined => ?_
      obtain ⟨after, -, hrun⟩ := gives_recallParams hregistered r.params joined {} .empty
      rw [hrun]
      cases (paramStages (c.context base r.tableAlias) r.params joined).result with
      | error e => rfl
      | ok query => rfl

/-- **What is remembered does not show.**  Where types are registered under their own names, as in every
registry that changes lead to (`Registry.named_changed`), a compilation that looks all column names up in one
cache gives what one without a cache gives. -/
theorem compileRecalling_eq (c : Compiler) (hnamed : c.registry.Named) (r : Request) :
    c.compileRecalling r = c.compile r := by
  rw [compileRecalling, compile, prepareRecalling_eq c hnamed]

end Compiler

end ResourceQuery
