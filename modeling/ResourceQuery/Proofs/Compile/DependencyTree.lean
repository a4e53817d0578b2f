import ResourceQuery.Compile.Dependencies
import ResourceQuery.Proofs.Except

/-!
# Compile — chains of names in a dependency tree

A chain of names leads from the root of a tree to a node when each name is a child of the node
before it (`HasPath`).  Inserting a chain adds that chain and its prefixes and nothing else
(`hasPath_insertPath`), so the chains of a tree built from paths are the prefixes of these paths
(`hasPath_ofPaths`).  The tree of a request holds the relations that each of its keys follows
(`hasPath_dependencyTree`).

A walk over a tree goes to every child, also to those that no search by name finds.  Its chains
(`HasBranch`) are the prefixes of the paths as well (`prefix_of_hasBranch`).
-/

namespace ResourceQuery

namespace DependencyTree

/-- The names lead from the root of the tree to one of its nodes. -/
def HasPath : List String → DependencyTree → Prop
  | [],      _ => True
  | n :: ns, t => ∃ child, t.child? n = some child ∧ HasPath ns child

theorem hasPath_empty {names : List String} : HasPath names empty ↔ names = [] := by
  cases names with
  | nil => simp [HasPath]
  | cons n ns => simp [HasPath, child?, empty, children]

/-- An insertion changes the branch of its first name and nothing else. -/
theorem child?_insertPath_cons (name other : String) (names : List String) (t : DependencyTree) :
    (insertPath (name :: names) t).child? other =
      if name = other then some (insertPath names ((t.child? name).getD empty))
      else t.child? other := by
  obtain ⟨cs⟩ := t
  exact Entries.find?_update name other _ cs

/-- A path is in a tree behind an insertion if it was there before or begins what has been inserted. -/
theorem hasPath_insertPath {names inserted : List String} {t : DependencyTree} :
    HasPath names (insertPath inserted t) ↔ HasPath names t ∨ names <+: inserted := by
  induction inserted generalizing names t with
  | nil =>
      rw [insertPath, List.prefix_nil]
      exact ⟨.inl, fun h => h.elim id fun h => h ▸ trivial⟩
  | cons name inserted ih =>
      cases names with
      | nil => exact ⟨fun _ => .inl trivial, fun _ => trivial⟩
      | cons n ns =>
          simp only [HasPath, child?_insertPath_cons, List.cons_prefix_cons]
          by_cases hn : name = n
          · subst hn
            -- the insertion goes on in the child, or in a new one
            simp only [if_true, Option.some.injEq, exists_eq_left', ih, true_and]
            cases t.child? name with
            | none =>
                have hnil : ns = [] → ns <+: inserted := fun h => h ▸ List.nil_prefix
                simpa [hasPath_empty] using hnil
            | some child => simp
          · simp [hn, Ne.symm hn]

/-- A path is in a tree behind insertions if it was there before or begins one of them, by induction on
them. -/
theorem hasPath_foldl_insertPath {names : List String} {paths : List (List String)}
    {t : DependencyTree} :
    HasPath names (paths.foldl (fun t path => insertPath path t) t) ↔
      HasPath names t ∨ ∃ path ∈ paths, names <+: path := by
  induction paths generalizing t with
  | nil => simp
  | cons path paths ih =>
      rw [List.foldl_cons, ih, hasPath_insertPath, or_assoc]
      simp

/-- The chains of the tree of some paths are the prefixes of these paths. -/
theorem hasPath_ofPaths {names : List String} {paths : List (List String)} :
    HasPath names (ofPaths paths) ↔ names = [] ∨ ∃ path ∈ paths, names <+: path := by
  rw [ofPaths, hasPath_foldl_insertPath, hasPath_empty]

/-- The names lead from a list of children to one of the nodes below, by any child of each name. -/
def HasBranch : List String → List (String × DependencyTree) → Prop
  | [],      _  => True
  | n :: ns, cs => ∃ child, (n, child) ∈ cs ∧ HasBranch ns child.children

/-- A branch is not lost behind another one. -/
theorem hasBranch_cons {names : List String} {c : String × DependencyTree}
    {cs : List (String × DependencyTree)} (h : HasBranch names cs) : HasBranch names (c :: cs) := by
  cases names with
  | nil => trivial
  | cons n ns =>
      obtain ⟨child, hmem, hbelow⟩ := h
      exact ⟨child, List.mem_cons_of_mem c hmem, hbelow⟩

theorem hasBranch_nil {names : List String} (h : HasBranch names []) : names = [] := by
  cases names with
  | nil => rfl
  | cons n ns =>
      obtain ⟨child, hmem, -⟩ := h
      cases hmem

/-- A branch behind an insertion was there before or begins what has been inserted. -/
theorem hasBranch_insertPath {names inserted : List String} {t : DependencyTree}
    (h : HasBranch names (insertPath inserted t).children) :
    HasBranch names t.children ∨ names <+: inserted := by
  induction inserted generalizing names t with
  | nil => exact .inl h
  | cons name inserted ih =>
      cases names with
      | nil => exact .inl trivial
      | cons n ns =>
          obtain ⟨cs⟩ := t
          obtain ⟨child, hmem, hbelow⟩ := h
          rcases Entries.mem_update hmem with hmem | ⟨rfl, rfl⟩
          · exact .inl ⟨child, hmem, hbelow⟩
          · rcases ih hbelow with hbelow | hprefix
            · cases hold : Entries.find? n cs with
              | none =>
                  rw [hold] at hbelow
                  obtain rfl := hasBranch_nil hbelow
                  exact .inr (List.cons_prefix_cons.mpr ⟨rfl, List.nil_prefix⟩)
              | some old =>
                  rw [hold] at hbelow
                  exact .inl ⟨old, Entries.mem_of_find? hold, hbelow⟩
            · exact .inr (List.cons_prefix_cons.mpr ⟨rfl, hprefix⟩)

/-- A branch behind insertions was there before or begins one of them. -/
theorem hasBranch_foldl_insertPath {names : List String} {paths : List (List String)}
    {t : DependencyTree}
    (h : HasBranch names (paths.foldl (fun t path => insertPath path t) t).children) :
    HasBranch names t.children ∨ ∃ path ∈ paths, names <+: path := by
  induction paths generalizing t with
  | nil => exact .inl h
  | cons path paths ih =>
      rcases ih h with h | ⟨other, hmem, hprefix⟩
      · refine (hasBranch_insertPath h).imp_right fun hprefix => ?_
        exact ⟨path, List.mem_cons_self, hprefix⟩
      · exact .inr ⟨other, List.mem_cons_of_mem path hmem, hprefix⟩

/-- The branches of the tree of some paths lead along these paths. -/
theorem prefix_of_hasBranch {names : List String} {paths : List (List String)} (hne : names ≠ [])
    (h : HasBranch names (ofPaths paths).children) : ∃ path ∈ paths, names <+: path := by
  refine (hasBranch_foldl_insertPath h).resolve_left fun hnone => ?_
  exact hne (hasBranch_nil hnone)

/-- A tree that is not empty has a first name. -/
theorem exists_hasPath_of_isEmpty {t : DependencyTree} (h : t.isEmpty = false) :
    ∃ name, HasPath [name] t := by
  obtain ⟨cs⟩ := t
  cases cs with
  | nil => cases h
  | cons c cs => exact ⟨c.1, c.2, if_pos rfl, trivial⟩

/-- A chain without names adds nothing to a tree. -/
theorem ofPaths_without_nil (before after : List (List String)) :
    ofPaths (before ++ [] :: after) = ofPaths (before ++ after) := by
  rw [ofPaths, ofPaths, List.foldl_append, List.foldl_append, List.foldl_cons, insertPath]

end DependencyTree

/-- The keys of a request that its joins depend on. -/
def requestKeys (filter : Filter) (group sort : List String) : List String :=
  filter.keys ++ group ++ sort.map fun entry => (sortEntry entry).1

namespace Context

variable {ctx : Context}

/-- The paths of several keys are that of the first and those of the others. -/
theorem dependencyPaths_cons {key : String} {keys : List String} {paths : List (List String)} :
    ctx.dependencyPaths (key :: keys) = .ok paths ↔ ∃ path rest,
      ctx.dependencies key = .ok path ∧ ctx.dependencyPaths keys = .ok rest ∧
        path :: rest = paths := by
  simp only [dependencyPaths, bind_eq_ok, pure, Except.pure, Except.ok.injEq, exists_and_left]

/-- Each key has its path among those that have been found. -/
theorem mem_dependencyPaths {keys : List String} {paths : List (List String)}
    (h : ctx.dependencyPaths keys = .ok paths) {key : String} (hkey : key ∈ keys) :
    ∃ path ∈ paths, ctx.dependencies key = .ok path := by
  induction keys generalizing paths with
  | nil => cases hkey
  | cons k keys ih =>
      obtain ⟨path, rest, hpath, hrest, rfl⟩ := dependencyPaths_cons.mp h
      rcases List.mem_cons.mp hkey with rfl | hkey
      · exact ⟨path, List.mem_cons_self, hpath⟩
      · obtain ⟨found, hmem, hfound⟩ := ih hrest hkey
        exact ⟨found, List.mem_cons_of_mem path hmem, hfound⟩

/-- Each path that has been found is that of a key. -/
theorem exists_key_of_mem {keys : List String} {paths : List (List String)}
    (h : ctx.dependencyPaths keys = .ok paths) {path : List String} (hpath : path ∈ paths) :
    ∃ key ∈ keys, ctx.dependencies key = .ok path := by
  induction keys generalizing paths with
  | nil =>
      cases h
      cases hpath
  | cons k keys ih =>
      obtain ⟨first, rest, hfirst, hrest, rfl⟩ := dependencyPaths_cons.mp h
      rcases List.mem_cons.mp hpath with rfl | hpath
      · exact ⟨k, List.mem_cons_self, hfirst⟩
      · obtain ⟨key, hkey, hdependencies⟩ := ih hrest hpath
        exact ⟨key, List.mem_cons_of_mem k hkey, hdependencies⟩

/-- The paths of two lists of keys stand one behind the other. -/
theorem dependencyPaths_append {keys others : List String} {paths : List (List String)} :
    ctx.dependencyPaths (keys ++ others) = .ok paths ↔ ∃ front back,
      ctx.dependencyPaths keys = .ok front ∧ ctx.dependencyPaths others = .ok back ∧
        front ++ back = paths := by
  induction keys generalizing paths with
  | nil =>
      constructor
      · exact fun h => ⟨[], paths, rfl, h, rfl⟩
      · rintro ⟨front, back, hfront, hback, rfl⟩
        cases hfront
        exact hback
  | cons key keys ih =>
      simp only [List.cons_append, dependencyPaths_cons, ih]
      constructor
      · rintro ⟨path, _, hpath, ⟨front, back, hfront, hback, rfl⟩, rfl⟩
        exact ⟨path :: front, back, ⟨path, front, hpath, hfront, rfl⟩, hback, rfl⟩
      · rintro ⟨_, back, ⟨path, front, hpath, hfront, rfl⟩, hback, rfl⟩
        exact ⟨path, front ++ back, hpath, ⟨front, back, hfront, hback, rfl⟩, rfl⟩

/-- The tree of a request holds the chain of relations that each of its keys follows. -/
theorem hasPath_dependencyTree {filter : Filter} {group sort : List String} {t : DependencyTree}
    (h : ctx.dependencyTree filter group sort = .ok t) {key : String}
    (hkey : key ∈ requestKeys filter group sort) :
    ∃ path, ctx.dependencies key = .ok path ∧ t.HasPath path := by
  obtain ⟨paths, hpaths, rfl⟩ := bind_pure_eq_ok.mp h
  obtain ⟨path, hmem, hpath⟩ := mem_dependencyPaths hpaths hkey
  exact ⟨path, hpath, DependencyTree.hasPath_ofPaths.mpr (.inr ⟨path, hmem, List.prefix_rfl⟩)⟩

end Context

end ResourceQuery
