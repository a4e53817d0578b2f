import ResourceQuery.Path.Resolution
import ResourceQuery.Proofs.Except

/-!
# Path — how far a path leads

A path leads from its base along relations with fixed targets, as far as its segments name such
relations (`Registry.Leads`, `exists_leads`).  From the type that it reaches, the rest is followed as if
the path began there (`follow_of_leads`).  If there is a rest, its first segment leads no further
(`Registry.Stops`): it names no relation of the type reached, or one without a fixed target, or one
whose target is not registered.  It may still end the path; otherwise it is at fault.

* `follow_eq_ok`: a path is followed exactly when it leads to a type, possibly with an attribute or a
  relation without a fixed target behind (`Registry.Followed`).
* `follow_eq_error`: it is not followed exactly because of its first segment at fault
  (`Registry.FirstFault`).
-/

namespace ResourceQuery

namespace Registry

variable {r : Registry} {allowAttribute : Bool} {parent reached base : ResourceType}
  {hops : List Hop} {relation : Relation} {segment : String} {segments rest after : List String}
  {resolved : ResolvedPath} {e : PathError}

/-! ### As far as it leads -/

/-- The hops lead from a type along declared relations with fixed targets to another. -/
inductive Leads (r : Registry) : ResourceType → List Hop → ResourceType → Prop where
  | here {parent : ResourceType} : Leads r parent [] parent
  | onward {parent target reached : ResourceType} {name : String} {relation : Relation}
      {hops : List Hop} (declared : parent.relation? name = some relation)
      (kind : relation.kind ≠ .morphTo) (registered : r.type? relation.target = some target)
      (rest : Leads r target hops reached) :
      Leads r parent (⟨name, relation, parent, some target⟩ :: hops) reached

/-- What is reached from a registered type is registered. -/
theorem Leads.registered {name : String} (h : r.Leads parent hops reached)
    (hparent : r.type? name = some parent) : ∃ name, r.type? name = some reached := by
  induction h generalizing name with
  | here => exact ⟨name, hparent⟩
  | onward _ _ registered _ ih => exact ih registered

/-- The segment names no relation of the type that leads to a registered type. -/
inductive Stops (r : Registry) (reached : ResourceType) (segment : String) : Prop where
  | undeclared (undeclared : reached.relation? segment = none)
  | polymorphic {relation : Relation} (declared : reached.relation? segment = some relation)
      (kind : relation.kind = .morphTo)
  | unregistered {relation : Relation} (declared : reached.relation? segment = some relation)
      (kind : relation.kind ≠ .morphTo) (missing : r.type? relation.target = none)

/-- A path leads as far as its segments name relations that lead on. -/
theorem exists_leads (r : Registry) (parent : ResourceType) (segments : List String) :
    ∃ hops reached rest, r.Leads parent hops reached ∧ segments = hops.map Hop.name ++ rest ∧
      ∀ segment after, rest = segment :: after → r.Stops reached segment := by
  induction segments generalizing parent with
  | nil => exact ⟨[], parent, [], .here, rfl, nofun⟩
  | cons segment rest ih =>
      have hstop (h : r.Stops parent segment) : ∃ hops reached back, r.Leads parent hops reached ∧
          segment :: rest = hops.map Hop.name ++ back ∧
          ∀ s after, back = s :: after → r.Stops reached s := by
        refine ⟨[], parent, segment :: rest, .here, rfl, fun s after hs => ?_⟩
        obtain ⟨rfl, -⟩ := List.cons.inj hs
        exact h
      cases declared : parent.relation? segment with
      | none => exact hstop (.undeclared declared)
      | some relation =>
          by_cases kind : relation.kind = .morphTo
          · exact hstop (.polymorphic declared kind)
          · cases registered : r.type? relation.target with
            | none => exact hstop (.unregistered declared kind registered)
            | some target =>
                obtain ⟨hops, reached, back, hleads, rfl, hback⟩ := ih target
                exact ⟨⟨segment, relation, parent, some target⟩ :: hops, reached, back,
                  .onward declared kind registered hleads, rfl, hback⟩

/-- From the type that a path has reached it is followed as if it began there. -/
theorem follow_of_leads (h : r.Leads parent hops reached) :
    r.follow allowAttribute parent (hops.map Hop.name ++ rest) =
      (r.follow allowAttribute reached rest).map fun p => { p with hops := hops ++ p.hops } := by
  induction h with
  | @here parent => cases hrest : r.follow allowAttribute parent rest <;> exact hrest
  | onward declared kind registered _ ih =>
      rw [List.map_cons, List.cons_append, follow, declared]
      simp only [if_neg kind, registered, ih]
      cases r.follow allowAttribute _ rest <;> rfl

/-! ### Segments that lead no further -/

/-- At a segment that is not declared the path ends, in an attribute if one is allowed there and otherwise
in an error. -/
theorem follow_undeclared (undeclared : reached.relation? segment = none) :
    r.follow allowAttribute reached (segment :: after) =
      if after = [] ∧ allowAttribute = true then .ok ⟨[], some segment⟩
      else .error (.unknownRelation reached.name segment) := by
  rw [follow, undeclared]
  simp only [Bool.and_eq_true, List.isEmpty_iff]

/-- A polymorphic relation can be the last step of a path, and nothing else. -/
theorem follow_polymorphic (declared : reached.relation? segment = some relation)
    (kind : relation.kind = .morphTo) :
    r.follow allowAttribute reached (segment :: after) =
      if after = [] then .ok ⟨[⟨segment, relation, reached, none⟩], none⟩
      else .error (.polymorphicHop segment) := by
  rw [follow, declared]
  simp only [if_pos kind, List.isEmpty_iff]

/-- A relation to a type that is not registered cannot be a step. -/
theorem follow_unregistered (declared : reached.relation? segment = some relation)
    (kind : relation.kind ≠ .morphTo) (missing : r.type? relation.target = none) :
    r.follow allowAttribute reached (segment :: after) =
      .error (.unregisteredTarget segment relation.target) := by
  rw [follow, declared]
  simp only [if_neg kind, missing]

/-- What is wrong with a segment at the type that a path has reached, with the segments after it. -/
inductive Fault (r : Registry) (allowAttribute : Bool) (reached : ResourceType) (segment : String)
    (after : List String) : PathError → Prop where
  | unknown (undeclared : reached.relation? segment = none)
      (noAttribute : after ≠ [] ∨ allowAttribute = false) :
      Fault r allowAttribute reached segment after (.unknownRelation reached.name segment)
  | unregistered {relation : Relation} (declared : reached.relation? segment = some relation)
      (kind : relation.kind ≠ .morphTo) (missing : r.type? relation.target = none) :
      Fault r allowAttribute reached segment after (.unregisteredTarget segment relation.target)
  | polymorphic {relation : Relation} (declared : reached.relation? segment = some relation)
      (kind : relation.kind = .morphTo) (notLast : after ≠ []) :
      Fault r allowAttribute reached segment after (.polymorphicHop segment)

/-- The walk along a path stops at a fault with its error. -/
theorem Fault.follow (h : r.Fault allowAttribute reached segment after e) :
    r.follow allowAttribute reached (segment :: after) = .error e := by
  cases h with
  | unknown undeclared noAttribute =>
      rw [follow_undeclared undeclared, if_neg]
      rintro ⟨rfl, hallow⟩
      exact noAttribute.elim (· rfl) (Bool.eq_false_iff.mp · hallow)
  | unregistered declared kind missing => exact follow_unregistered declared kind missing
  | polymorphic declared kind notLast => rw [follow_polymorphic declared kind, if_neg notLast]

/-- A segment that leads no further is an attribute or a relation at the end, or at fault. -/
theorem Stops.cases (h : r.Stops reached segment) (allowAttribute : Bool) (after : List String) :
    (reached.relation? segment = none ∧ after = [] ∧ allowAttribute = true) ∨
    (∃ relation, reached.relation? segment = some relation ∧ relation.kind = .morphTo ∧
      after = []) ∨
    ∃ e, r.Fault allowAttribute reached segment after e := by
  cases h with
  | undeclared undeclared =>
      by_cases hend : after = [] ∧ allowAttribute = true
      · exact .inl ⟨undeclared, hend⟩
      · exact .inr (.inr ⟨_, .unknown undeclared
          ((not_and_or.mp hend).imp_right Bool.eq_false_iff.mpr)⟩)
  | polymorphic declared kind =>
      by_cases hend : after = []
      · exact .inr (.inl ⟨_, declared, kind, hend⟩)
      · exact .inr (.inr ⟨_, .polymorphic declared kind hend⟩)
  | unregistered declared kind missing => exact .inr (.inr ⟨_, .unregistered declared kind missing⟩)

/-! ### Whole paths -/

/-- The path leads from a base to a type, possibly with an attribute or a relation without a fixed
target behind. -/
inductive Followed (r : Registry) (allowAttribute : Bool) (base : ResourceType) :
    List String → ResolvedPath → Prop where
  | arrived {hops : List Hop} {reached : ResourceType} (leads : r.Leads base hops reached) :
      Followed r allowAttribute base (hops.map Hop.name) ⟨hops, none⟩
  | withAttribute {hops : List Hop} {reached : ResourceType} {segment : String}
      (leads : r.Leads base hops reached) (undeclared : reached.relation? segment = none)
      (allowed : allowAttribute = true) :
      Followed r allowAttribute base (hops.map Hop.name ++ [segment]) ⟨hops, some segment⟩
  | polymorphic {hops : List Hop} {reached : ResourceType} {segment : String} {relation : Relation}
      (leads : r.Leads base hops reached) (declared : reached.relation? segment = some relation)
      (kind : relation.kind = .morphTo) :
      Followed r allowAttribute base (hops.map Hop.name ++ [segment])
        ⟨hops ++ [⟨segment, relation, reached, none⟩], none⟩

/-- The error tells what is wrong with the first segment at fault: those before it lead from the base
to the type in which it is looked up. -/
inductive FirstFault (r : Registry) (allowAttribute : Bool) (base : ResourceType) :
    List String → PathError → Prop where
  | intro {hops : List Hop} {reached : ResourceType} {segment : String} {after : List String}
      {e : PathError} (leads : r.Leads base hops reached)
      (fault : r.Fault allowAttribute reached segment after e) :
      FirstFault r allowAttribute base (hops.map Hop.name ++ segment :: after) e

/-- The walk along a path that can be followed finds its steps and its attribute. -/
theorem Followed.follow (h : r.Followed allowAttribute base segments resolved) :
    r.follow allowAttribute base segments = .ok resolved := by
  cases h with
  | @arrived hops _ leads =>
      have hfollow : r.follow allowAttribute base (hops.map Hop.name ++ []) = _ :=
        follow_of_leads leads
      simpa [Registry.follow, Except.map] using hfollow
  | withAttribute leads undeclared allowed =>
      rw [follow_of_leads leads, follow_undeclared undeclared, if_pos ⟨rfl, allowed⟩]
      simp [Except.map]
  | polymorphic leads declared kind =>
      rw [follow_of_leads leads, follow_polymorphic declared kind, if_pos rfl]
      rfl

/-- The walk along a path ends at its first fault, behind the steps that lead there. -/
theorem FirstFault.follow (h : r.FirstFault allowAttribute base segments e) :
    r.follow allowAttribute base segments = .error e := by
  obtain ⟨leads, fault⟩ := h
  rw [follow_of_leads leads, fault.follow]
  rfl

/-- Every path is followed or has a first fault. -/
theorem followed_or_firstFault (r : Registry) (allowAttribute : Bool) (base : ResourceType)
    (segments : List String) :
    (∃ resolved, r.Followed allowAttribute base segments resolved) ∨
      ∃ e, r.FirstFault allowAttribute base segments e := by
  obtain ⟨hops, reached, rest, hleads, rfl, hstop⟩ := r.exists_leads base segments
  cases rest with
  | nil =>
      rw [List.append_nil]
      exact .inl ⟨_, .arrived hleads⟩
  | cons segment after =>
      rcases (hstop segment after rfl).cases allowAttribute after with
        ⟨undeclared, rfl, allowed⟩ | ⟨relation, declared, kind, rfl⟩ | ⟨e, hfault⟩
      · exact .inl ⟨_, .withAttribute hleads undeclared allowed⟩
      · exact .inl ⟨_, .polymorphic hleads declared kind⟩
      · exact .inr ⟨e, .intro hleads hfault⟩

/-- The walk finds exactly what the path can be followed to. -/
theorem follow_eq_ok : r.follow allowAttribute base segments = .ok resolved ↔
    r.Followed allowAttribute base segments resolved := by
  refine ⟨fun hfollow => ?_, Followed.follow⟩
  rcases r.followed_or_firstFault allowAttribute base segments with ⟨other, h⟩ | ⟨e, h⟩
  · rwa [← Except.ok.inj (h.follow.symm.trans hfollow)]
  · cases h.follow.symm.trans hfollow

/-- The walk fails exactly with the first fault of the path. -/
theorem follow_eq_error : r.follow allowAttribute base segments = .error e ↔
    r.FirstFault allowAttribute base segments e := by
  refine ⟨fun hfollow => ?_, FirstFault.follow⟩
  rcases r.followed_or_firstFault allowAttribute base segments with ⟨resolved, h⟩ | ⟨other, h⟩
  · cases h.follow.symm.trans hfollow
  · rwa [← Except.error.inj (h.follow.symm.trans hfollow)]

end Registry

end ResourceQuery
