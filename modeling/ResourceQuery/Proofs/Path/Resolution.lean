import ResourceQuery.Proofs.Blog
import ResourceQuery.Proofs.Path.Chain

/-!
# Path — what resolving a path gives

A path is resolved as an attribute path or as a relation path (`Registry.resolve`).  An empty segment is
refused before anything else, and the sole segment of an attribute path is not looked up; any other path
is followed (`resolve_eq`).

* `resolution_exact`: a path that is resolved gives a chain of hops which spell it, and a path is not
  resolved exactly when a segment is empty or at fault; the error tells the first such segment.
* `ways_agree`: on two segments or more both ways follow the same relations, up to a last segment that
  only an attribute path can end in.
* `not_ways_agree`: an empty last segment ends neither.
-/

namespace ResourceQuery

namespace Registry

variable {r : Registry} {allowAttribute : Bool} {base reached : ResourceType} {hops : List Hop}
  {hop : Hop} {path front name : String} {segments : List String} {resolved : ResolvedPath}
  {e : PathError}

/-- The path resolved in one of the two ways. -/
def resolve (r : Registry) : Bool → ResourceType → String → Except PathError ResolvedPath
  | true  => r.resolveAttribute
  | false => r.resolveRelations

/-- A path is refused for an empty segment first; a single segment that may be an attribute is one;
otherwise the path is followed. -/
theorem resolve_eq (r : Registry) (allowAttribute : Bool) (base : ResourceType) (path : String) :
    r.resolve allowAttribute base path =
      if "" ∈ Text.split '.' path then .error .emptySegment
      else if allowAttribute = true ∧ (Text.split '.' path).length = 1 then .ok ⟨[], some path⟩
      else r.follow allowAttribute base (Text.split '.' path) := by
  by_cases hempty : "" ∈ Text.split '.' path
  · rw [if_pos hempty]
    cases allowAttribute with
    | true => rw [resolve, resolveAttribute, segments_eq_error.mpr ⟨hempty, rfl⟩]; rfl
    | false => rw [resolve, resolveRelations, segments_eq_error.mpr ⟨hempty, rfl⟩]; rfl
  · rw [if_neg hempty]
    have hsegments := segments_eq_ok.mpr ⟨hempty, rfl⟩
    cases allowAttribute with
    | false =>
        rw [resolve, resolveRelations, hsegments, if_neg (by simp)]
        rfl
    | true =>
        rw [resolve, resolveAttribute, hsegments]
        -- a single segment is the path itself, which the attribute is taken from
        have hspelled : Text.joinWith "." (Text.split '.' path) = path := Text.joinWith_split '.' path
        generalize Text.split '.' path = pieces at hspelled
        match pieces with
        | [] => rfl
        | [piece] =>
            obtain rfl : piece = path := hspelled
            rfl
        | first :: second :: others => simp [bind, Except.bind]

/-- A path is resolved if it is an attribute alone, or if it is followed. -/
theorem resolve_eq_ok : r.resolve allowAttribute base path = .ok resolved ↔
    "" ∉ Text.split '.' path ∧
      if allowAttribute = true ∧ (Text.split '.' path).length = 1 then resolved = ⟨[], some path⟩
      else r.Followed allowAttribute base (Text.split '.' path) resolved := by
  rw [resolve_eq]
  split
  case isTrue hempty => simp [hempty]
  case isFalse hempty =>
    split
    · simp [hempty, eq_comm]
    · simp [hempty, follow_eq_ok]

/-- A path fails for an empty segment, and otherwise with its first fault. -/
theorem resolve_eq_error : r.resolve allowAttribute base path = .error e ↔
    if "" ∈ Text.split '.' path then e = .emptySegment
    else ¬ (allowAttribute = true ∧ (Text.split '.' path).length = 1) ∧
      r.FirstFault allowAttribute base (Text.split '.' path) e := by
  rw [resolve_eq]
  split
  case isTrue hempty => simp [eq_comm]
  case isFalse hempty =>
    split
    case isTrue hsole => simp [hsole]
    case isFalse hsole => simp only [follow_eq_error, hsole, not_false_eq_true, true_and]

/-- **A path is resolved correctly.**  What is resolved is a chain: it starts at the base, each hop is
the relation that its parent declares under its name, it leads to the type registered for the relation,
from which the next hop starts, and only the last hop may lead to no fixed type.  The names of the hops
and the attribute, if any, are the segments of the path.  A path that is not resolved has an empty
segment, or its first fault is the one that the error tells; the sole segment of an attribute path is
never at fault. -/
theorem resolution_exact (r : Registry) (allowAttribute : Bool) (base : ResourceType)
    (path : String) :
    (∀ resolved, r.resolve allowAttribute base path = .ok resolved →
      HopChain r base resolved.hops ∧
        resolved.names ++ resolved.attr.toList = Text.split '.' path ∧
        Text.joinWith "." (resolved.names ++ resolved.attr.toList) = path) ∧
    ∀ e, r.resolve allowAttribute base path = .error e ↔
      if "" ∈ Text.split '.' path then e = .emptySegment
      else ¬ (allowAttribute = true ∧ (Text.split '.' path).length = 1) ∧
        r.FirstFault allowAttribute base (Text.split '.' path) e := by
  have hspelled : Text.joinWith "." (Text.split '.' path) = path := Text.joinWith_split '.' path
  refine ⟨fun resolved hresolved => ?_, fun e => resolve_eq_error⟩
  obtain ⟨-, hok⟩ := resolve_eq_ok.mp hresolved
  suffices h : HopChain r base resolved.hops ∧
      resolved.names ++ resolved.attr.toList = Text.split '.' path from ⟨h.1, h.2, h.2 ▸ hspelled⟩
  split at hok
  case isTrue hsole =>
    obtain ⟨name, hname⟩ := List.length_eq_one_iff.mp hsole.2
    obtain rfl : name = path := by rwa [hname] at hspelled
    rw [hok, hname]
    exact ⟨.nil, rfl⟩
  case isFalse => exact ⟨follow_chain hok.follow, follow_spells hok.follow⟩

/-- A path to the names of people is resolved; one that goes on behind a relation without a fixed target
is at fault there. -/
theorem comments_resolved :
    (∃ resolved, Blog.registry.resolve true Blog.articles "comments.author.name" = .ok resolved ∧
      HopChain Blog.registry Blog.articles resolved.hops ∧
      resolved.names ++ resolved.attr.toList = ["comments", "author", "name"]) ∧
    Blog.registry.resolve true Blog.articles "comments.commentable.name" =
      .error (.polymorphicHop "commentable") ∧
    Blog.registry.FirstFault true Blog.articles ["comments", "commentable", "name"]
      (.polymorphicHop "commentable") := by
  have hsplit : Text.split '.' "comments.author.name" = ["comments", "author", "name"] := by
    decide +kernel
  have hsplit' : Text.split '.' "comments.commentable.name" = ["comments", "commentable", "name"] := by
    decide +kernel
  have hruns : ((Blog.registry.resolve true Blog.articles "comments.author.name").toOption.any
      fun _ => true) = true := by decide +kernel
  obtain ⟨resolved, hresolved, -⟩ := exists_ok_of_any hruns
  obtain ⟨hchain, hnames, -⟩ :=
    (resolution_exact Blog.registry true Blog.articles "comments.author.name").1 resolved hresolved
  have herror : Blog.registry.resolve true Blog.articles "comments.commentable.name" =
      .error (.polymorphicHop "commentable") := rfl
  have hfault := ((resolution_exact Blog.registry true Blog.articles "comments.commentable.name").2
    (.polymorphicHop "commentable")).mp herror
  rw [hsplit', if_neg (by decide)] at hfault
  exact ⟨⟨resolved, hresolved, hchain, hnames.trans hsplit⟩, herror, hfault.2⟩

/-! ### The two ways -/

/-- Hops that lead to a type end in a relation with that target. -/
theorem Leads.last (h : r.Leads base hops reached) (hlast : hops.getLast? = some hop) :
    hop.relation.kind ≠ .morphTo ∧ hop.target = some reached := by
  induction h with
  | here => cases hlast
  | onward declared kind registered rest ih =>
      cases rest with
      | here =>
          obtain rfl := Option.some.inj hlast
          exact ⟨kind, rfl⟩
      | onward => exact ih (List.getLast?_cons_cons ▸ hlast)

/-- What a relation path gives is what the attribute path gives, unless that ends in an attribute. -/
theorem followed_relations : r.Followed false base segments resolved ↔
    r.Followed true base segments resolved ∧ resolved.attr = none := by
  constructor
  · intro h
    cases h with
    | arrived leads => exact ⟨.arrived leads, rfl⟩
    | withAttribute _ _ allowed => cases allowed
    | polymorphic leads declared kind => exact ⟨.polymorphic leads declared kind, rfl⟩
  · rintro ⟨h, hattr⟩
    cases h with
    | arrived leads => exact .arrived leads
    | withAttribute => cases hattr
    | polymorphic leads declared kind => exact .polymorphic leads declared kind

/-- A path is followed to an attribute if steps lead in front of its last segment to a type that does not
declare it as a relation. -/
theorem followed_attribute : r.Followed true base segments ⟨hops, some name⟩ ↔
    ∃ reached, r.Leads base hops reached ∧ reached.relation? name = none ∧
      segments = hops.map Hop.name ++ [name] := by
  constructor
  · intro h
    cases h with
    | withAttribute leads undeclared _ => exact ⟨_, leads, undeclared, rfl⟩
  · rintro ⟨reached, leads, undeclared, rfl⟩
    exact .withAttribute leads undeclared rfl

/-- A relation path that does not end in a relation without a fixed target leads to a type. -/
theorem Followed.leads (h : r.Followed false base segments ⟨hops, none⟩)
    (hlast : hops.getLast? = some hop) (kind : hop.relation.kind ≠ .morphTo)
    (htarget : hop.target = some reached) :
    r.Leads base hops reached ∧ segments = hops.map Hop.name := by
  cases h with
  | arrived leads =>
      obtain rfl := Option.some.inj (htarget.symm.trans (leads.last hlast).2)
      exact ⟨leads, rfl⟩
  | polymorphic leads declared hkind =>
      rw [List.getLast?_concat, Option.some.injEq] at hlast
      subst hlast
      exact absurd hkind kind

/-- What is wrong with an attribute path is wrong with the relation path. -/
theorem FirstFault.relations (h : r.FirstFault true base segments e) :
    r.FirstFault false base segments e := by
  obtain ⟨leads, fault⟩ := h
  refine .intro leads ?_
  cases fault with
  | unknown undeclared _ => exact .unknown undeclared (.inr rfl)
  | unregistered declared kind missing => exact .unregistered declared kind missing
  | polymorphic declared kind notLast => exact .polymorphic declared kind notLast

theorem resolveRelations_eq_ok : r.resolveRelations base path = .ok resolved ↔
    "" ∉ Text.split '.' path ∧ r.Followed false base (Text.split '.' path) resolved := by
  have h : r.resolve false base path = .ok resolved ↔ _ := resolve_eq_ok
  rwa [if_neg (by simp)] at h

/-- A relation path fails for an empty segment, and otherwise with its first fault. -/
theorem resolveRelations_eq_error : r.resolveRelations base path = .error e ↔
    if "" ∈ Text.split '.' path then e = .emptySegment
    else r.FirstFault false base (Text.split '.' path) e := by
  have h : r.resolve false base path = .error e ↔ _ := resolve_eq_error
  simpa [resolve] using h

/-- A path with several segments is an attribute path exactly if none of them is empty and it can be
followed. -/
theorem resolveAttribute_eq_ok (hseveral : 1 < (Text.split '.' path).length) :
    r.resolveAttribute base path = .ok resolved ↔
      "" ∉ Text.split '.' path ∧ r.Followed true base (Text.split '.' path) resolved := by
  have h : r.resolve true base path = .ok resolved ↔ _ := resolve_eq_ok
  rwa [if_neg fun hsole => Nat.ne_of_gt hseveral hsole.2] at h

/-- The relation path is resolved to these hops, and the last of them has this target. -/
structure ArrivesAt (r : Registry) (base : ResourceType) (path : String) (hops : List Hop)
    (target : ResourceType) : Prop where
  resolved : r.resolveRelations base path = .ok ⟨hops, none⟩
  last     : ∃ hop, hops.getLast? = some hop ∧ hop.relation.kind ≠ .morphTo ∧
    hop.target = some target

/-- A path arrives exactly where its segments lead. -/
theorem arrivesAt_iff : r.ArrivesAt base path hops reached ↔
    "" ∉ Text.split '.' path ∧ r.Leads base hops reached ∧
      Text.split '.' path = hops.map Hop.name := by
  constructor
  · rintro ⟨hresolved, hop, hlast, kind, htarget⟩
    obtain ⟨hempty, hfollowed⟩ := resolveRelations_eq_ok.mp hresolved
    exact ⟨hempty, hfollowed.leads hlast kind htarget⟩
  · rintro ⟨hempty, leads, hnames⟩
    have hhops : hops ≠ [] := by
      rintro rfl
      exact Text.split_ne_nil '.' path hnames
    have hlast := List.getLast?_eq_some_getLast hhops
    exact ⟨resolveRelations_eq_ok.mpr ⟨hempty, hnames ▸ .arrived leads⟩, _, hlast, leads.last hlast⟩

/-- An attribute path ends in an attribute when it has one behind a relation path that leads to a type
without such a relation. -/
theorem resolveAttribute_eq_attribute (hseveral : 1 < (Text.split '.' path).length) :
    r.resolveAttribute base path = .ok ⟨hops, some name⟩ ↔
      name ≠ "" ∧ ∃ front target, path = front ++ "." ++ name ∧ '.' ∉ name.toList ∧
        r.ArrivesAt base front hops target ∧ target.relation? name = none := by
  rw [resolveAttribute_eq_ok hseveral, followed_attribute]
  constructor
  · rintro ⟨hempty, target, leads, undeclared, hspelled⟩
    obtain ⟨front, piece, rfl, hpiece⟩ := Text.exists_concat_of_split hseveral
    rw [Text.split_concat hpiece] at hspelled hempty
    obtain ⟨hnames, hname⟩ := List.append_inj' hspelled rfl
    obtain rfl := List.singleton_inj.mp hname
    obtain ⟨hfront, hne⟩ := not_or.mp (mt List.mem_append.mpr hempty)
    exact ⟨fun h => hne (h ▸ List.mem_cons_self), front, target, rfl, hpiece,
      arrivesAt_iff.mpr ⟨hfront, leads, hnames⟩, undeclared⟩
  · rintro ⟨hne, front, target, rfl, hname, harrives, undeclared⟩
    obtain ⟨hempty, leads, hnames⟩ := arrivesAt_iff.mp harrives
    have hsplit : Text.split '.' (front ++ "." ++ name) = Text.split '.' front ++ [name] :=
      Text.split_concat hname front
    rw [hsplit, hnames]
    refine ⟨fun hmem => ?_, target, leads, undeclared, rfl⟩
    rcases List.mem_append.mp hmem with hmem | hmem
    · exact hempty (hnames ▸ hmem)
    · exact hne (List.mem_singleton.mp hmem).symm

/-- **The two ways agree.**  On two segments or more, an attribute path that does not end in an attribute
is resolved exactly when the relation path is, to the same hops.  It ends in an attribute exactly when
this is a last segment that is not empty, the segments before it are resolved as a relation path to the
same hops, and the type that the last hop leads to declares no relation of this name; then the relation
path fails for that type and that name.  Otherwise both fail with the same error. -/
theorem ways_agree (r : Registry) (base : ResourceType) (path : String)
    (hseveral : 1 < (Text.split '.' path).length) :
    (∀ resolved, r.resolveRelations base path = .ok resolved ↔
      r.resolveAttribute base path = .ok resolved ∧ resolved.attr = none) ∧
    (∀ hops name, r.resolveAttribute base path = .ok ⟨hops, some name⟩ ↔
      name ≠ "" ∧ ∃ front target, path = front ++ "." ++ name ∧ '.' ∉ name.toList ∧
        r.ArrivesAt base front hops target ∧ target.relation? name = none) ∧
    (∀ hops name, r.resolveAttribute base path = .ok ⟨hops, some name⟩ →
      ∃ hop target, hops.getLast? = some hop ∧ hop.target = some target ∧
        r.resolveRelations base path = .error (.unknownRelation target.name name)) ∧
    ∀ e, r.resolveAttribute base path = .error e → r.resolveRelations base path = .error e := by
  refine ⟨fun resolved => ?same, fun hops name => resolveAttribute_eq_attribute hseveral,
    fun hops name h => ?unknown, fun e h => ?error⟩
  case same =>
    rw [resolveRelations_eq_ok, resolveAttribute_eq_ok hseveral, followed_relations, and_assoc]
  case unknown =>
    -- as a relation path it fails where the attribute stands, which the last target does not declare
    obtain ⟨-, front, target, -, -, ⟨-, hop, hlast, -, htarget⟩, -⟩ :=
      (resolveAttribute_eq_attribute hseveral).mp h
    obtain ⟨hempty, hfollowed⟩ := (resolveAttribute_eq_ok hseveral).mp h
    obtain ⟨reached, leads, undeclared, hnames⟩ := followed_attribute.mp hfollowed
    obtain rfl := Option.some.inj (htarget.symm.trans (leads.last hlast).2)
    refine ⟨hop, target, hlast, htarget, resolveRelations_eq_error.mpr ?_⟩
    rw [if_neg hempty, hnames]
    exact .intro leads (.unknown undeclared (.inr rfl))
  case error =>
    have herror : r.resolve true base path = .error e := h
    refine resolveRelations_eq_error.mpr ?_
    rw [resolve_eq_error] at herror
    split at herror
    case isTrue hempty => rwa [if_pos hempty]
    case isFalse hempty => exact (if_neg hempty).mpr herror.2.relations

theorem author_arrivesAt :
    Blog.registry.ArrivesAt Blog.articles "author" [Blog.authorHop] Blog.people where
  resolved := rfl
  last     := ⟨Blog.authorHop, rfl, by decide, rfl⟩

/-- People have no relation `name`, so that only an attribute path can end in it. -/
theorem name_ways_agree :
    1 < (Text.split '.' "author.name").length ∧
      Blog.registry.resolveAttribute Blog.articles "author.name" =
        .ok ⟨[Blog.authorHop], some "name"⟩ ∧
      Blog.registry.resolveRelations Blog.articles "author.name" =
        .error (.unknownRelation "people" "name") := by
  have hseveral : 1 < (Text.split '.' "author.name").length := by decide +kernel
  obtain ⟨-, hends, hunknown, -⟩ :=
    ways_agree Blog.registry Blog.articles "author.name" hseveral
  have hname := (hends [Blog.authorHop] "name").mpr
    ⟨by decide, "author", Blog.people, rfl, by decide, author_arrivesAt, rfl⟩
  obtain ⟨hop, target, hlast, htarget, herror⟩ := hunknown _ _ hname
  obtain rfl : Blog.authorHop = hop := Option.some.inj hlast
  obtain rfl : Blog.people = target := Option.some.inj htarget
  exact ⟨hseveral, hname, herror⟩

/-- **An empty last segment ends neither path**, although the segments before it are resolved and the
type that they lead to has no relation without a name. -/
theorem not_ways_agree :
    1 < (Text.split '.' "author.").length ∧
    ¬ ∀ hops name, Blog.registry.resolveAttribute Blog.articles "author." = .ok ⟨hops, some name⟩ ↔
      ∃ front target, "author." = front ++ "." ++ name ∧ '.' ∉ name.toList ∧
        Blog.registry.ArrivesAt Blog.articles front hops target ∧ target.relation? name = none := by
  refine ⟨by decide +kernel, fun h => ?_⟩
  have hok := (h [Blog.authorHop] "").mpr
    ⟨"author", Blog.people, rfl, by decide, author_arrivesAt, rfl⟩
  have herror : Blog.registry.resolveAttribute Blog.articles "author." = .error .emptySegment := rfl
  cases hok.symm.trans herror

end Registry

end ResourceQuery
