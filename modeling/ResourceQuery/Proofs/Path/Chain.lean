import ResourceQuery.Proofs.Path.Leads

/-!
# Path — the hops of a followed path form a chain

Following a path from a type gives hops that hang together (`HopChain`): the first starts at that
type, each is a relation that its parent declares, its target is the type registered under the
relation's target name, and the next hop starts there.  Only the last hop may lead to no fixed type.

* `HopChain.prefix_of_names`: the names of the relations tell the hops.
* `HopChain.target_of_next`: a relation is followed from the target of the one before it.
* `HopChain.of_leads`: a chain goes on from the type that hops lead to.
* `follow_chain`: what `follow` gives is a chain, and it spells the segments (`follow_spells`).
* `resolveAttribute_chain`: so is what an attribute path gives, whose hops are empty when the path
  has a single segment (`resolveAttribute_single`), and whose first hop has a target otherwise
  (`resolveAttribute_first`).
* `Registry.EndsIn.target_of_nested`: one more relation behind a relation path is followed from the
  type that the path has reached.
-/

namespace ResourceQuery

/-- The hops lead from `parent` along declared relations to registered types. -/
inductive HopChain (r : Registry) : ResourceType → List Hop → Prop where
  | nil {parent : ResourceType} : HopChain r parent []
  | fixed {parent target : ResourceType} {name : String} {relation : Relation} {hops : List Hop}
      (declared : parent.relation? name = some relation) (kind : relation.kind ≠ .morphTo)
      (registered : r.type? relation.target = some target) (rest : HopChain r target hops) :
      HopChain r parent (⟨name, relation, parent, some target⟩ :: hops)
  | polymorphic {parent : ResourceType} {name : String} {relation : Relation}
      (declared : parent.relation? name = some relation) (kind : relation.kind = .morphTo) :
      HopChain r parent [⟨name, relation, parent, none⟩]

/-- A chain whose names begin another chain from the same type begins it itself. -/
theorem HopChain.prefix_of_names {r : Registry} {parent : ResourceType} {hops hops' : List Hop}
    (h : HopChain r parent hops) (h' : HopChain r parent hops')
    (hnames : hops.map Hop.name <+: hops'.map Hop.name) : hops <+: hops' := by
  induction h generalizing hops' with
  | nil => exact List.nil_prefix
  -- a declared name leads one way only, so that equal names are equal steps
  | fixed declared kind registered rest ih =>
      cases h' with
      | nil => cases List.prefix_nil.mp hnames
      | fixed declared' _ registered' rest' =>
          obtain ⟨hname, hrest⟩ := List.cons_prefix_cons.mp hnames
          obtain rfl := hname
          obtain rfl := Option.some.inj (declared.symm.trans declared')
          obtain rfl := Option.some.inj (registered.symm.trans registered')
          exact List.cons_prefix_cons.mpr ⟨rfl, ih rest' hrest⟩
      | polymorphic declared' kind' =>
          obtain ⟨hname, -⟩ := List.cons_prefix_cons.mp hnames
          obtain rfl := hname
          obtain rfl := Option.some.inj (declared.symm.trans declared')
          exact absurd kind' kind
  | polymorphic declared kind =>
      cases h' with
      | nil => cases List.prefix_nil.mp hnames
      | fixed declared' kind' _ _ =>
          obtain ⟨hname, -⟩ := List.cons_prefix_cons.mp hnames
          obtain rfl := hname
          obtain rfl := Option.some.inj (declared.symm.trans declared')
          exact absurd kind kind'
      | polymorphic declared' _ =>
          obtain ⟨hname, -⟩ := List.cons_prefix_cons.mp hnames
          obtain rfl := hname
          obtain rfl := Option.some.inj (declared.symm.trans declared')
          exact List.prefix_rfl

/-- Where a step follows, the one before has a target, which is the parent of the next. -/
theorem HopChain.target_of_next {r : Registry} {parent : ResourceType} {before after : List Hop}
    {hop next : Hop} (h : HopChain r parent (before ++ hop :: next :: after)) :
    hop.target = some next.parent := by
  induction before generalizing parent with
  | nil =>
      cases h with
      | fixed declared kind registered rest => cases rest <;> rfl
  | cons first before ih =>
      rw [List.cons_append] at h
      generalize hrest : before ++ hop :: next :: after = rest at h
      cases h with
      | fixed declared kind registered rest => exact ih (hrest ▸ rest)
      | polymorphic => exact absurd hrest (by simp)

/-- A hop of a chain that has a target leads to a registered type. -/
theorem HopChain.target_registered {r : Registry} {parent : ResourceType} {hops : List Hop}
    (h : HopChain r parent hops) :
    ∀ hop ∈ hops, ∀ target, hop.target = some target → ∃ name, r.type? name = some target := by
  induction h with
  | nil => exact List.forall_mem_nil _
  | fixed declared kind registered rest ih =>
      refine List.forall_mem_cons.mpr ⟨fun target htarget => ?_, ih⟩
      cases htarget
      exact ⟨_, registered⟩
  | polymorphic declared kind => exact List.forall_mem_singleton.mpr nofun

/-- A chain goes on from the type that hops lead to. -/
theorem HopChain.of_leads {r : Registry} {parent reached : ResourceType} {hops tail : List Hop}
    (h : r.Leads parent hops reached) (htail : HopChain r reached tail) :
    HopChain r parent (hops ++ tail) := by
  induction h with
  | here => exact htail
  | onward declared kind registered _ ih => exact .fixed declared kind registered (ih htail)

namespace Registry

variable {r : Registry} {allowAttribute : Bool} {parent base : ResourceType} {path : String}
  {resolved : ResolvedPath}

/-- The steps that are found while following a path are a chain. -/
theorem follow_chain {segments : List String}
    (h : r.follow allowAttribute parent segments = .ok resolved) :
    HopChain r parent resolved.hops := by
  cases follow_eq_ok.mp h with
  | arrived leads | withAttribute leads => simpa using HopChain.of_leads leads .nil
  | polymorphic leads declared kind => exact .of_leads leads (.polymorphic declared kind)

/-- The steps and the attribute that are found while following a path have the names of its segments. -/
theorem follow_spells {segments : List String}
    (h : r.follow allowAttribute parent segments = .ok resolved) :
    resolved.names ++ resolved.attr.toList = segments := by
  cases follow_eq_ok.mp h <;> simp [ResolvedPath.names]

/-- A path has segments if none of them is empty. -/
theorem segments_eq_ok {pieces : List String} :
    segments path = .ok pieces ↔ "" ∉ Text.split '.' path ∧ Text.split '.' path = pieces := by
  by_cases h : "" ∈ Text.split '.' path <;> simp [segments, h]

theorem segments_eq_error {e : PathError} :
    segments path = .error e ↔ "" ∈ Text.split '.' path ∧ .emptySegment = e := by
  by_cases h : "" ∈ Text.split '.' path <;> simp [segments, h]

/-- The steps of an attribute path are a chain. -/
theorem resolveAttribute_chain (h : r.resolveAttribute base path = .ok resolved) :
    HopChain r base resolved.hops := by
  obtain ⟨pieces, -, h⟩ := bind_eq_ok.mp h
  split at h
  · cases h
    exact .nil
  · exact follow_chain h

/-- A path without a point is an attribute of the base type. -/
theorem resolveAttribute_single (hpath : '.' ∉ path.toList)
    (h : r.resolveAttribute base path = .ok resolved) : resolved.hops = [] := by
  have hsplit : Text.split '.' path = [path] := by
    simp [Text.split, Text.splitOn_of_not_mem hpath]
  obtain ⟨pieces, hpieces, h⟩ := bind_eq_ok.mp h
  obtain rfl : [path] = pieces := hsplit ▸ (segments_eq_ok.mp hpieces).2
  cases h
  rfl

/-- More segments follow the first of several, so that it leads to a type. -/
theorem follow_first {first second : String} {rest : List String}
    (h : r.follow allowAttribute parent (first :: second :: rest) = .ok resolved) {hop : Hop}
    {hops : List Hop} (hhops : resolved.hops = hop :: hops) : hop.target.isSome := by
  generalize hsegments : first :: second :: rest = segments at h
  cases follow_eq_ok.mp h with
  | arrived leads | withAttribute leads | polymorphic leads =>
      cases leads with
      | here => simp at hsegments
      | onward =>
          obtain ⟨rfl, -⟩ := List.cons.inj hhops
          rfl

/-- The first hop of a path with a point has a target. -/
theorem resolveAttribute_first (hpath : '.' ∈ path.toList)
    (h : r.resolveAttribute base path = .ok resolved) {hop : Hop} {hops : List Hop}
    (hhops : resolved.hops = hop :: hops) : hop.target.isSome := by
  obtain ⟨first, second, rest, hsplit⟩ := Text.exists_splitOn_of_mem hpath
  obtain ⟨pieces, hpieces, h⟩ := bind_eq_ok.mp h
  obtain ⟨-, rfl⟩ := segments_eq_ok.mp hpieces
  rw [Text.split, hsplit] at h
  exact follow_first h hhops

/-! ### Relation paths -/

/-- A path without an attribute has the names of its steps as segments. -/
theorem follow_names {segments : List String}
    (h : r.follow false parent segments = .ok resolved) : resolved.names = segments := by
  cases follow_eq_ok.mp h with
  | arrived => rfl
  | withAttribute _ _ allowed => cases allowed
  | polymorphic => exact List.map_append

/-- A relation path follows the relations that it names. -/
theorem resolveRelations_chain (h : r.resolveRelations base path = .ok resolved) :
    HopChain r base resolved.hops ∧ resolved.hops.map Hop.name = Text.split '.' path := by
  obtain ⟨pieces, hpieces, hfollow⟩ := bind_eq_ok.mp h
  obtain ⟨-, rfl⟩ := segments_eq_ok.mp hpieces
  exact ⟨follow_chain hfollow, follow_names hfollow⟩

/-- The path follows relations from a type, and this is the first of them. -/
def StartsIn (r : Registry) (base : ResourceType) (path : String) (hop : Hop) : Prop :=
  ∃ resolved, r.resolveRelations base path = .ok resolved ∧ resolved.hops.head? = some hop

/-- The path follows relations from a type, and this is the last of them. -/
def EndsIn (r : Registry) (base : ResourceType) (path : String) (hop : Hop) : Prop :=
  ∃ resolved, r.resolveRelations base path = .ok resolved ∧ resolved.lastHop? = some hop

/-- The first relation is the one that the type declares under the first name of the path; its
target is registered unless it depends on the row. -/
theorem StartsIn.declared {hop : Hop} (h : r.StartsIn base path hop) :
    (Text.split '.' path).head? = some hop.name ∧ hop.parent = base ∧
      base.relation? hop.name = some hop.relation ∧
      (hop.relation.kind ≠ .morphTo → ∃ target,
        r.type? hop.relation.target = some target ∧ hop.target = some target) := by
  obtain ⟨resolved, hresolved, hfirst⟩ := h
  obtain ⟨hchain, hnames⟩ := resolveRelations_chain hresolved
  rw [← hnames, List.head?_map, hfirst]
  generalize resolved.hops = hops at hchain hfirst
  cases hchain with
  | nil => cases hfirst
  | fixed declared kind registered rest =>
      cases hfirst
      exact ⟨rfl, rfl, declared, fun _ => ⟨_, registered, rfl⟩⟩
  | polymorphic declared kind =>
      cases hfirst
      exact ⟨rfl, rfl, declared, fun hkind => absurd kind hkind⟩

/-- A path has at most one last step. -/
theorem EndsIn.unique {hop hop' : Hop} (h : r.EndsIn base path hop) (h' : r.EndsIn base path hop') :
    hop = hop' := by
  obtain ⟨resolved, hresolved, hlast⟩ := h
  obtain ⟨resolved', hresolved', hlast'⟩ := h'
  obtain rfl := Except.ok.inj (hresolved.symm.trans hresolved')
  exact Option.some.inj (hlast.symm.trans hlast')

/-- One more relation behind a path is followed from the type that the path has reached. -/
theorem EndsIn.target_of_nested {name : String} {hop nested : Hop} (hname : '.' ∉ name.toList)
    (h : r.EndsIn base path hop) (hnested : r.EndsIn base (path ++ "." ++ name) nested) :
    hop.target = some nested.parent := by
  obtain ⟨⟨hops, attr⟩, hresolved, hlast⟩ := h
  obtain ⟨⟨longer, attr'⟩, hlongerResolved, hlongerLast⟩ := hnested
  obtain ⟨hchain, hnames⟩ := resolveRelations_chain hresolved
  obtain ⟨hlonger, hlongerNames⟩ := resolveRelations_chain hlongerResolved
  have hsplit : Text.split '.' (path ++ "." ++ name) = Text.split '.' path ++ [name] :=
    Text.split_concat hname path
  rw [hsplit, ← hnames] at hlongerNames
  have hprefix : hops <+: longer :=
    hchain.prefix_of_names hlonger (hlongerNames ▸ List.prefix_append _ _)
  obtain ⟨rest, rfl⟩ := hprefix
  -- exactly one relation is left behind those of the shorter path
  rw [List.map_append, List.append_cancel_left_eq] at hlongerNames
  obtain ⟨last, rfl, -⟩ := List.map_eq_singleton_iff.mp hlongerNames
  obtain rfl : last = nested := by simpa [ResolvedPath.lastHop?] using hlongerLast
  obtain ⟨before, rfl⟩ := List.getLast?_eq_some_iff.mp hlast
  rw [List.append_assoc] at hlonger
  exact hlonger.target_of_next

end Registry

end ResourceQuery
