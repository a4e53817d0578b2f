import ResourceQuery.Compile.Joins
import ResourceQuery.Proofs.Except
import ResourceQuery.Proofs.Model.Registration
import ResourceQuery.Proofs.Path.Leads

/-!
# Compile — the types of a valid schema

A registry is closed when each relation of a registered type leads to a registered type, unless its
target depends on the row, and each polymorphic relation has a discriminator (`Closed`).  The registry
of a valid schema is closed (`Schema.closed_of_toRegistry`): it holds one type for each declared name,
made of one of the declarations, and validation has looked at every relation of every declaration.

* `Closed.follow_ne`: from a registered type, following a path meets registered types only.
* `Closed.not_mem_joinPlan`: so does planning the joins of a tree.
* `Relation.joinKeys?_of_discriminator`: the keys of a polymorphic relation follow its discriminator.
* `Schema.nothing_dangles`: all of this for the registry of a valid schema.
-/

namespace ResourceQuery

open Sql (Join)

/-! ### Closed registries -/

/-- The relation leads to a registered type, or to one that depends on the row, and has a
discriminator if it is polymorphic. -/
structure Relation.SoundIn (r : Registry) (relation : Relation) : Prop where
  registered    : relation.kind ≠ .morphTo → ∃ target, r.type? relation.target = some target
  discriminated : relation.kind.isPolymorphic = true → ∃ d, relation.morph = some d

/-- The relations of the registered types are sound. -/
def Registry.Closed (r : Registry) : Prop :=
  ∀ name t, r.type? name = some t → ∀ e ∈ t.relations, e.2.SoundIn r

variable {r : Registry} {base : ResourceType} {name : String}

/-- The declared relations of a registered type are sound where every type's are. -/
theorem Registry.Closed.sound (h : r.Closed) (hbase : r.type? name = some base) {segment : String}
    {relation : Relation} (declared : base.relation? segment = some relation) :
    relation.SoundIn r :=
  h name base hbase (segment, relation) (Entries.mem_of_find? declared)

/-- The keys of a relation with a discriminator are named by it, not after the table. -/
theorem Relation.joinKeys?_of_discriminator {relation : Relation} {d : Discriminator}
    (hd : relation.morph = some d) (hpoly : relation.kind.isPolymorphic = true)
    (kind : relation.kind ≠ .morphTo) (parent target : ResourceType) :
    relation.joinKeys? parent target =
      some (.morph (relation.parentColumn parent) d.idColumnName d.typeColumnName
        (d.value.getD parent.table)) := by
  rw [joinKeys?, hd]
  cases hkind : relation.kind with
  | morphTo => exact absurd hkind kind
  | morphOne | morphMany => rfl
  | belongsTo | hasOne | hasMany | belongsToMany =>
      rw [hkind] at hpoly
      cases hpoly

/-! ### Paths -/

namespace Registry.Closed

/-- Following a path from a registered type does not meet an unregistered target, since relations are
sound. -/
theorem follow_ne (h : r.Closed) {allowAttribute : Bool} (hbase : r.type? name = some base)
    {segments : List String} {e : PathError}
    (hfollow : r.follow allowAttribute base segments = .error e) (hop target : String) :
    e ≠ .unregisteredTarget hop target := by
  obtain ⟨leads, fault⟩ := follow_eq_error.mp hfollow
  cases fault with
  | unknown | polymorphic => nofun
  | unregistered declared kind missing =>
      -- the relation is one of a registered type, so its target is registered
      obtain ⟨_, hreached⟩ := leads.registered hbase
      obtain ⟨_, htarget⟩ := (h.sound hreached declared).registered kind
      cases missing.symm.trans htarget

/-- The segments of a path have nothing to do with targets. -/
theorem segments_ne {path : String} {e : PathError} (h : segments path = .error e)
    (hop target : String) : e ≠ .unregisteredTarget hop target := by
  rw [segments] at h
  split at h <;> cases h
  nofun

/-- A relation path does not meet an unregistered target. -/
theorem resolveRelations_ne (h : r.Closed) (hbase : r.type? name = some base)
    (path hop target : String) :
    r.resolveRelations base path ≠ .error (.unregisteredTarget hop target) := by
  intro hresolve
  rcases bind_eq_error.mp hresolve with hsegments | ⟨pieces, -, hfollow⟩
  · exact segments_ne hsegments hop target rfl
  · exact h.follow_ne hbase hfollow hop target rfl

/-- An attribute path does not meet an unregistered target. -/
theorem resolveAttribute_ne (h : r.Closed) (hbase : r.type? name = some base)
    (path hop target : String) :
    r.resolveAttribute base path ≠ .error (.unregisteredTarget hop target) := by
  intro hresolve
  rcases bind_eq_error.mp hresolve with hsegments | ⟨pieces, -, hfollow⟩
  · exact segments_ne hsegments hop target rfl
  · split at hfollow
    · cases hfollow
    · exact h.follow_ne hbase hfollow hop target rfl

end Registry.Closed

/-! ### Joins -/

/-- The error says that a relation has an unregistered target. -/
def QueryError.isDangling : QueryError → Bool
  | .unsupportedRelation _ _ (.unregisteredTarget _) => true
  | _                                                => false

namespace Registry.Closed

variable {ctx : Context}

/-- A relation of a registered type is joined to a registered type, or something else is in the way. -/
theorem joinTarget_cases (h : ctx.registry.Closed) {parent : ResourceType}
    (hparent : ctx.registry.type? name = some parent) (parentAlias relation : String) :
    (∃ e, ctx.joinTarget parent parentAlias relation = .error e ∧ e.isDangling = false) ∨
    (∃ target joins, ctx.joinTarget parent parentAlias relation = .ok (target, joins) ∧
      ∃ name, ctx.registry.type? name = some target) := by
  rw [Context.joinTarget]
  dsimp only
  split
  case h_1 => exact .inl ⟨_, rfl, rfl⟩
  case h_2 declaration declared =>
    split
    case isTrue => exact .inl ⟨_, rfl, rfl⟩
    case isFalse kind =>
      obtain ⟨target, htarget⟩ := (h.sound hparent declared).registered kind
      rw [htarget]
      dsimp only
      split
      case h_1 keys hkeys => exact .inr ⟨target, _, rfl, _, htarget⟩
      case h_2 => exact .inl ⟨_, rfl, rfl⟩

mutual

/-- What is planned for a relation has no dangling error, by induction on the tree below it. -/
theorem not_mem_planRelation (h : ctx.registry.Closed) {name : String} {parent : ResourceType}
    (hparent : ctx.registry.type? name = some parent) (parentAlias relation : String)
    {e : QueryError} (he : e.isDangling = true) :
    ∀ t, .error e ∉ ctx.planRelation parent parentAlias relation t
  | .node children => by
      rw [Context.planRelation]
      rcases h.joinTarget_cases hparent parentAlias relation with
        ⟨other, hother, hne⟩ | ⟨target, joins, hjoins, name, hname⟩
      · rw [hother, List.mem_singleton]
        intro heq
        obtain rfl := Except.error.inj heq
        exact Bool.false_ne_true (hne.symm.trans he)
      · rw [hjoins, List.mem_cons, not_or]
        exact ⟨nofun, not_mem_planRelations h hname relation he children⟩

/-- What is planned for branches has no dangling error. -/
theorem not_mem_planRelations (h : ctx.registry.Closed) {name : String} {parent : ResourceType}
    (hparent : ctx.registry.type? name = some parent) (parentAlias : String)
    {e : QueryError} (he : e.isDangling = true) :
    ∀ cs, .error e ∉ ctx.planRelations parent parentAlias cs
  | []                => List.not_mem_nil
  | (relation, t) :: rest => by
      rw [Context.planRelations, List.mem_append, not_or]
      exact ⟨not_mem_planRelation h hparent parentAlias relation he t,
        not_mem_planRelations h hparent parentAlias he rest⟩

end

theorem not_mem_joinPlan (h : ctx.registry.Closed) (hbase : ctx.registry.type? name = some ctx.base)
    {e : QueryError} (he : e.isDangling = true) (t : DependencyTree) : .error e ∉ ctx.joinPlan t :=
  h.not_mem_planRelations hbase ctx.tableAlias he t.children

end Registry.Closed

/-! ### Schemas -/

namespace Schema

variable {s : Schema}

/-- A relation without a fault has a declared target or is polymorphic, and has its discriminator if it
needs one. -/
theorem fault?_eq_none {relation : Relation} (h : s.fault? relation = none) :
    (relation.kind ≠ .morphTo → ∃ d ∈ s.types, d.name = relation.target) ∧
    (relation.kind.isPolymorphic = true → ∃ d, relation.morph = some d) := by
  rw [fault?] at h
  split at h
  case isTrue => cases h
  case isFalse htarget =>
    split at h
    case isTrue => cases h
    case isFalse hmorph =>
      constructor
      · intro kind
        by_contra hnone
        refine htarget ⟨kind, fun hany => hnone ?_⟩
        obtain ⟨d, hd, hname⟩ := List.any_eq_true.mp hany
        exact ⟨d, hd, of_decide_eq_true hname⟩
      · intro hpoly
        refine Option.ne_none_iff_exists'.mp fun hnone => hmorph ⟨hpoly, ?_⟩
        rw [hnone, Option.isNone_none]

/-- A valid schema has no relation with a fault. -/
theorem validate_eq_ok (h : s.validate = .ok ()) {d : TypeDeclaration} (hd : d ∈ s.types)
    {e : String × Relation} (he : e ∈ d.relations) : s.fault? e.2 = none := by
  rw [validate] at h
  split at h
  case h_1 => cases h
  case h_2 hnone =>
    have htype : s.typeFault? d = none := List.findSome?_eq_none_iff.mp hnone d hd
    exact Option.map_eq_none_iff.mp (List.findSome?_eq_none_iff.mp htype e he)

/-- A schema that makes a registry is valid, and its declarations make the types. -/
theorem toRegistry_eq_ok (h : s.toRegistry = .ok r) :
    s.validate = .ok () ∧ ∃ ts, Makes s.types ts ∧ r = Registry.ofList ts := by
  rw [toRegistry] at h
  rcases s.registerInto_cases .empty with ⟨reason, hinvalid⟩ | ⟨hvalid, hall⟩
  · rw [hinvalid] at h
    cases h
  · rw [hall] at h
    rcases registerAll_cases s.types .empty with
      ⟨ts, hmade, hts⟩ | ⟨before, d, after, ts, e, -, -, -, hts⟩
    · rw [hts] at h
      cases h
      exact ⟨hvalid, ts, hmade, rfl⟩
    · rw [hts] at h
      cases h

/-- Each registered type was declared, so that its relations have no fault; and each declared name
is registered, be it for another declaration of that name. -/
theorem closed_of_toRegistry (h : s.toRegistry = .ok r) : r.Closed := by
  obtain ⟨hvalid, ts, hts, rfl⟩ := toRegistry_eq_ok h
  intro name t ht e he
  rw [Registry.type?_ofList] at ht
  have hmem : t ∈ ts := Registry.mem_of_findRev? ht
  obtain ⟨d, hd, hmade⟩ : ∃ d ∈ s.types, d.toResourceType = .ok t := by
    rw [← List.mem_map, hts]
    exact List.mem_map_of_mem hmem
  obtain ⟨htarget, hmorph⟩ :=
    fault?_eq_none (validate_eq_ok hvalid hd ((TypeDeclaration.toResourceType_eq_ok hmade).2 he))
  refine ⟨fun kind => ?_, hmorph⟩
  obtain ⟨other, hother, hname⟩ := htarget kind
  obtain ⟨u, hu, hmadeOther⟩ : ∃ u ∈ ts, .ok u = other.toResourceType := by
    rw [← List.mem_map, ← hts]
    exact List.mem_map_of_mem hother
  rw [← hname, ← (TypeDeclaration.toResourceType_eq_ok hmadeOther.symm).1]
  simpa only [Registry.type?_ofList] using Registry.exists_lastNamed? hu

/-- **Nothing dangles in the registry of a valid schema.**  From each of its types, no path and no
tree of relations leads to an unregistered type, and the polymorphic relations of the type have a
discriminator, from which their keys are taken. -/
theorem nothing_dangles (s : Schema) (r : Registry) (name : String) (base : ResourceType)
    (h : s.toRegistry = .ok r) (hbase : r.type? name = some base) :
    (∀ path hop target, r.resolveAttribute base path ≠ .error (.unregisteredTarget hop target) ∧
      r.resolveRelations base path ≠ .error (.unregisteredTarget hop target)) ∧
    (∀ (tableAlias : String) (strict : Bool) (t : DependencyTree) (parent relation target : String),
      .error (.unsupportedRelation parent relation (.unregisteredTarget target)) ∉
        Context.joinPlan ⟨r, base, tableAlias, strict⟩ t) ∧
    (∀ e ∈ base.relations, e.2.kind.isPolymorphic = true → ∃ d, e.2.morph = some d ∧
      (e.2.kind ≠ .morphTo → ∀ target, e.2.joinKeys? base target =
        some (.morph (e.2.parentColumn base) d.idColumnName d.typeColumnName
          (d.value.getD base.table)))) := by
  have hclosed : r.Closed := closed_of_toRegistry h
  refine ⟨fun path hop target => ⟨?_, ?_⟩, ?_, ?_⟩
  · exact hclosed.resolveAttribute_ne hbase path hop target
  · exact hclosed.resolveRelations_ne hbase path hop target
  · intro tableAlias strict t parent relation target
    have hctx : (Context.mk r base tableAlias strict).registry.Closed := hclosed
    exact hctx.not_mem_joinPlan hbase rfl t
  · intro e he hpoly
    have hsound : e.2.SoundIn r := hclosed name base hbase e he
    obtain ⟨d, hd⟩ := hsound.discriminated hpoly
    exact ⟨d, hd, fun kind target => Relation.joinKeys?_of_discriminator hd hpoly kind base target⟩

/-- Albums and photos that lead to one another. -/
def albums : Schema where
  types :=
    [{ name := "albums", relations := [("photos", .morphMany "photos" "imageable")] },
     { name := "photos",
       relations := [("imageable", .morphTo "imageable"), ("album", .belongsTo "albums")] }]

/-- From albums, no path leads to an unregistered type. -/
theorem albums_dangle_nowhere : ∃ r base, albums.toRegistry = .ok r ∧
    r.type? "albums" = some base ∧ ∀ path hop target,
      r.resolveAttribute base path ≠ .error (.unregisteredTarget hop target) ∧
      r.resolveRelations base path ≠ .error (.unregisteredTarget hop target) :=
  ⟨_, _, rfl, rfl, (nothing_dangles albums _ "albums" _ rfl rfl).1⟩

end Schema

end ResourceQuery
