import Mathlib.Data.Finset.Card
import Mathlib.Data.List.Infix
import ResourceQuery.Proofs.Blog
import ResourceQuery.Proofs.Compile.DependencyTree
import ResourceQuery.Proofs.Request.Pushes

/-!
# Compile — paths that are merged into one tree

A tree of paths has a node for each prefix of the paths.  Here the nodes are counted and the order of
the names below each of them is given.

Every insertion adds at most one name below a node, at the end of those that are there
(`namesBelow_insertPath`), so that the names stand in the order in which they first came
(`namesBelow_ofPaths`).  No name stands twice below a node (`Distinct`).  A walk over the tree
therefore meets every chain once (`Distinct.nodup_chains`), and there are as many relations as
prefixes, the empty one aside (`size_ofPaths`).

* `insertPath_eq_self_iff`: a chain that is in the tree changes nothing, and only such a chain.
* `paths_merged`: all that a tree of paths holds.
-/

namespace ResourceQuery

namespace DependencyTree

/-- A further path is inserted into the tree of those before. -/
theorem ofPaths_concat (paths : List (List String)) (path : List String) :
    ofPaths (paths ++ [path]) = insertPath path (ofPaths paths) := by
  rw [ofPaths, List.foldl_append]
  rfl

/-! ### The names below a node -/

/-- The names below the node that a chain of names leads to, in order. -/
def namesBelow : List String → DependencyTree → List String
  | [],      t => Entries.keys t.children
  | n :: ns, t => namesBelow ns ((t.child? n).getD empty)

/-- The name that follows a chain of names in a path that begins with the chain. -/
def nextName (names path : List String) : Option String :=
  if names <+: path then path[names.length]? else none

theorem nextName_cons_cons (n m : String) (ns ms : List String) :
    nextName (n :: ns) (m :: ms) = if n = m then nextName ns ms else none := by
  by_cases h : n = m <;> simp [nextName, List.cons_prefix_cons, h]

theorem namesBelow_empty (names : List String) : namesBelow names empty = [] := by
  induction names with
  | nil => rfl
  | cons n ns ih => exact ih

/-- Inserting a path adds the name that follows in it to the names below a node. -/
theorem namesBelow_insertPath (names path : List String) (t : DependencyTree) :
    namesBelow names (insertPath path t) =
      (nextName names path).elim (namesBelow names t) fun next =>
        if next ∈ namesBelow names t then namesBelow names t
        else namesBelow names t ++ [next] := by
  induction names generalizing path t with
  | nil =>
      obtain ⟨cs⟩ := t
      cases path with
      | nil => rfl
      | cons m ms => exact Entries.keys_update m _ cs
  | cons n ns ih =>
      cases path with
      | nil => rfl
      | cons m ms =>
          rw [namesBelow, child?_insertPath_cons, nextName_cons_cons]
          by_cases h : m = n
          · rw [if_pos h, if_pos h.symm, Option.getD_some, ih, h, namesBelow]
          · rw [if_neg h, if_neg (Ne.symm h), Option.elim_none, namesBelow]

/-- The names below a node stand in the order in which they first came. -/
theorem namesBelow_ofPaths (names : List String) (paths : List (List String)) :
    namesBelow names (ofPaths paths) = (paths.filterMap (nextName names)).eraseDups := by
  induction paths using List.reverseRecOn with
  | nil => exact namesBelow_empty names
  | append_singleton paths path ih =>
      rw [ofPaths_concat, namesBelow_insertPath, List.filterMap_append, ih]
      cases hnext : nextName names path with
      | none => simp [hnext]
      | some next => simp [hnext, eraseDups_concat]

/-! ### The number of relations -/

mutual

/-- The chains of names into a tree, each before those that go on from it. -/
def chains : DependencyTree → List (List String)
  | .node cs => [] :: chainsOf cs

/-- The chains of names that begin with one of the children. -/
def chainsOf : List (String × DependencyTree) → List (List String)
  | []           => []
  | (n, t) :: cs => (chains t).map (n :: ·) ++ chainsOf cs

end

mutual

/-- A tree has as many chains as nodes, its root counted. -/
theorem length_chains : ∀ t : DependencyTree, (chains t).length = t.size + 1
  | .node cs => by rw [chains, List.length_cons, length_chainsOf cs, size]

/-- Branches have as many chains as nodes. -/
theorem length_chainsOf : ∀ cs : List (String × DependencyTree), (chainsOf cs).length = sizes cs
  | []           => rfl
  | (n, t) :: cs => by
      rw [chainsOf, List.length_append, List.length_map, length_chains t, length_chainsOf cs, sizes]
      omega

end

mutual

/-- The chains of a tree are its branches, by induction on the tree. -/
theorem mem_chains : ∀ (t : DependencyTree) (names : List String),
    names ∈ chains t ↔ HasBranch names t.children
  | .node cs, names => by
      rw [chains, List.mem_cons, mem_chainsOf cs names]
      cases names with
      | nil => exact ⟨fun _ => trivial, fun _ => .inl rfl⟩
      | cons n ns => simp [children]

/-- The chains of branches are the branches that are not empty. -/
theorem mem_chainsOf : ∀ (cs : List (String × DependencyTree)) (names : List String),
    names ∈ chainsOf cs ↔ names ≠ [] ∧ HasBranch names cs
  | [], names => by cases names <;> simp [chainsOf, HasBranch]
  | (n, t) :: cs, names => by
      rw [chainsOf, List.mem_append, List.mem_map, mem_chainsOf cs names]
      cases names with
      | nil => simp
      | cons m ms =>
          simp only [HasBranch, List.mem_cons, List.cons.injEq, Prod.mk.injEq, mem_chains t]
          constructor
          · rintro (⟨_, hms, rfl, rfl⟩ | ⟨-, child, hmem, hms⟩)
            · exact ⟨List.cons_ne_nil _ _, t, .inl ⟨rfl, rfl⟩, hms⟩
            · exact ⟨List.cons_ne_nil _ _, child, .inr hmem, hms⟩
          · rintro ⟨hne, child, ⟨rfl, rfl⟩ | hmem, hms⟩
            · exact .inl ⟨ms, hms, rfl, rfl⟩
            · exact .inr ⟨hne, child, hmem, hms⟩

end

/-- No name stands twice below a node. -/
inductive Distinct : DependencyTree → Prop where
  | node {cs : List (String × DependencyTree)} (hkeys : (Entries.keys cs).Nodup)
      (hbelow : ∀ c ∈ cs, Distinct c.2) : Distinct (.node cs)

theorem distinct_empty : Distinct empty :=
  .node List.nodup_nil fun _ hc => nomatch hc

/-- The names of a tree stay distinct in an insertion. -/
theorem Distinct.insertPath {t : DependencyTree} (h : Distinct t) (path : List String) :
    Distinct (t.insertPath path) := by
  induction path generalizing t with
  | nil => exact h
  | cons name path ih =>
      obtain ⟨hkeys, hbelow⟩ := h
      refine .node (Entries.nodup_keys_update _ hkeys) fun c hc => ?_
      rcases Entries.mem_update hc with hc | ⟨-, hchanged⟩
      · exact hbelow c hc
      · rw [hchanged]
        refine ih ?_
        cases hold : Entries.find? name _ with
        | none => exact distinct_empty
        | some old => exact hbelow _ (Entries.mem_of_find? hold)

theorem distinct_ofPaths (paths : List (List String)) : Distinct (ofPaths paths) := by
  induction paths using List.reverseRecOn with
  | nil => exact distinct_empty
  | append_singleton paths path ih => exact ofPaths_concat paths path ▸ ih.insertPath path

/-- Branches with distinct names have distinct chains. -/
theorem nodup_chainsOf {cs : List (String × DependencyTree)} (hkeys : (Entries.keys cs).Nodup)
    (hbelow : ∀ c ∈ cs, (chains c.2).Nodup) : (chainsOf cs).Nodup := by
  induction cs with
  | nil => exact List.nodup_nil
  | cons c cs ih =>
      obtain ⟨hnew, hkeys⟩ := List.nodup_cons.mp hkeys
      rw [chainsOf, List.nodup_append]
      refine ⟨(hbelow c List.mem_cons_self).map List.cons_injective,
        ih hkeys fun d hd => hbelow d (List.mem_cons_of_mem c hd), ?_⟩
      -- chains through the first child begin with a name that the others do not have
      rintro _ hfirst _ hrest rfl
      obtain ⟨ns, -, rfl⟩ := List.mem_map.mp hfirst
      obtain ⟨-, child, hmem, -⟩ := (mem_chainsOf cs _).mp hrest
      exact hnew (List.mem_map.mpr ⟨_, hmem, rfl⟩)

theorem Distinct.nodup_chains {t : DependencyTree} (h : Distinct t) : (chains t).Nodup := by
  induction h with
  | node hkeys _ ih =>
      rw [chains, List.nodup_cons]
      exact ⟨fun h => ((mem_chainsOf _ _).mp h).1 rfl, nodup_chainsOf hkeys ih⟩

/-- A path in a tree is a branch of it. -/
theorem hasBranch_of_hasPath {names : List String} {t : DependencyTree} (h : HasPath names t) :
    HasBranch names t.children := by
  induction names generalizing t with
  | nil => trivial
  | cons n ns ih =>
      obtain ⟨child, hchild, hbelow⟩ := h
      exact ⟨child, Entries.mem_of_find? hchild, ih hbelow⟩

/-- The chains of a tree are what begins one of its paths. -/
theorem mem_chains_ofPaths {names : List String} {paths : List (List String)} (hne : names ≠ []) :
    names ∈ chains (ofPaths paths) ↔ ∃ path ∈ paths, names <+: path := by
  rw [mem_chains]
  refine ⟨prefix_of_hasBranch hne, fun h => ?_⟩
  exact hasBranch_of_hasPath (hasPath_ofPaths.mpr (.inr h))

/-- A tree of paths has as many relations as the paths have prefixes, the empty one aside. -/
theorem size_ofPaths (paths : List (List String)) :
    (ofPaths paths).size = ((paths.flatMap List.inits).toFinset.erase []).card := by
  have hnodup := (distinct_ofPaths paths).nodup_chains
  have hset : (chains (ofPaths paths)).toFinset.erase [] =
      (paths.flatMap List.inits).toFinset.erase [] := by
    ext names
    rw [Finset.mem_erase, Finset.mem_erase, and_congr_right_iff]
    intro hne
    rw [List.mem_toFinset, mem_chains_ofPaths hne]
    simp
  have hroot : [] ∈ (chains (ofPaths paths)).toFinset :=
    List.mem_toFinset.mpr ((mem_chains _ _).mpr trivial)
  rw [← hset, Finset.card_erase_of_mem hroot, List.toFinset_card_of_nodup hnodup, length_chains]
  exact (Nat.add_sub_cancel _ 1).symm

/-! ### What a tree of paths holds -/

/-- An insertion changes nothing exactly if the path is there. -/
theorem insertPath_eq_self_iff {path : List String} {t : DependencyTree} :
    insertPath path t = t ↔ HasPath path t := by
  constructor
  · intro h
    exact h ▸ hasPath_insertPath.mpr (.inr List.prefix_rfl)
  · intro h
    induction path generalizing t with
    | nil => rfl
    | cons name path ih =>
        obtain ⟨cs⟩ := t
        obtain ⟨child, hchild, hbelow⟩ := h
        exact congrArg node (Entries.update_of_find? hchild (ih hbelow))

/-- **Paths are merged into a tree.**  When paths are inserted into a tree without relations:

* chains of names lead to a node exactly when they begin one of the paths;
* there are as many relations as the paths have different beginnings, the empty one aside;
* the names below each node stand in the order in which they first followed it in a path;
* inserting a further path changes nothing exactly when the path leads to a node already;
* in another order the paths make the same nodes. -/
theorem paths_merged (paths : List (List String)) :
    (∀ names, HasPath names (ofPaths paths) ↔ names = [] ∨ ∃ path ∈ paths, names <+: path) ∧
    (ofPaths paths).size = ((paths.flatMap List.inits).toFinset.erase []).card ∧
    (∀ names, namesBelow names (ofPaths paths) =
      (paths.filterMap (nextName names)).eraseDups) ∧
    (∀ path, insertPath path (ofPaths paths) = ofPaths paths ↔ HasPath path (ofPaths paths)) ∧
    ∀ others, paths.Perm others →
      ∀ names, HasPath names (ofPaths others) ↔ HasPath names (ofPaths paths) := by
  refine ⟨fun _ => hasPath_ofPaths, size_ofPaths paths, fun names => namesBelow_ofPaths names paths,
    fun _ => insertPath_eq_self_iff, fun others hperm names => ?_⟩
  rw [hasPath_ofPaths, hasPath_ofPaths]
  simp only [hperm.mem_iff]

/-- The paths of the blog in another order, with the relation that two of them share. -/
theorem blog_paths_merged :
    let others := [["author", "country"], ["comments"], ["author"]]
    Blog.paths.Perm others ∧ (ofPaths others).size = 3 ∧
      namesBelow [] (ofPaths Blog.paths) = ["author", "comments"] ∧
      insertPath ["author"] (ofPaths Blog.paths) = ofPaths Blog.paths ∧
      HasPath ["author", "country"] (ofPaths others) := by
  intro others
  have hperm : Blog.paths.Perm others := by decide
  obtain ⟨hpath, -, hnames, hself, hsame⟩ := paths_merged Blog.paths
  refine ⟨hperm, rfl, ?_, ?_, ?_⟩
  · rw [hnames]
    decide
  · exact (hself _).mpr ((hpath _).mpr (.inr ⟨["author"], by decide, List.prefix_rfl⟩))
  · refine (hsame others hperm _).mpr ((hpath _).mpr (.inr ?_))
    exact ⟨["author", "country"], by decide, List.prefix_rfl⟩

end DependencyTree

end ResourceQuery
