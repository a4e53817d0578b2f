import ResourceQuery.Proofs.Compile.JsonFields
import ResourceQuery.Proofs.Model.DeclaredNames
import ResourceQuery.Proofs.Naming.Columns
import ResourceQuery.Proofs.Sql.ReadNames

/-!
# Compile — keys without a column name

In a context without empty names (`Context.IsNamed`), what a key stands for should have a name as well.
Its path has no empty segments, so that the table and the attribute have names, but the convention of
the owner may leave nothing of the attribute's (`Context.IsNameless`, `empty_mem_names_iff`).  What is
made of the target of a key has the names of the column that it reads and no others
(`termConditions_names`, `names_orderTerm`), except that a value inside a JSON column is selected under
the leaf of its path (`empty_mem_projection_iff`).
-/

namespace ResourceQuery

open Sql (Column Condition JsonAttribute)

/-! ### Paths -/

section

variable {r : Registry} {parent base reached : ResourceType} {hops : List Hop} {path name : String}
  {resolved : ResolvedPath}

/-- The relations on a path have names. -/
theorem HopChain.name_ne_empty (h : HopChain r parent hops) (hr : r.IsNamed)
    (hparent : "" ∉ parent.declaredNames) : ∀ hop ∈ hops, hop.name ≠ "" := by
  induction h with
  | nil => simp
  | fixed declared kind registered rest ih =>
      refine List.forall_mem_cons.mpr ⟨?_, ih (hr.type? registered)⟩
      exact (ResourceType.relation?_named hparent declared).1
  | polymorphic declared kind =>
      exact List.forall_mem_singleton.mpr (ResourceType.relation?_named hparent declared).1

namespace Registry

/-- A path that leads on has no polymorphic relation. -/
theorem Leads.find?_polymorphic (h : r.Leads parent hops reached) :
    hops.find? (fun hop => hop.target.isNone) = none := by
  induction h with
  | here => rfl
  | onward _ _ _ _ ih => rwa [List.find?_cons_of_neg Bool.false_ne_true]

/-- A path that ends in an attribute has no polymorphic hop, and the attribute has a name. -/
theorem resolveAttribute_attr (h : r.resolveAttribute base path = .ok resolved)
    (hattr : resolved.attr = some name) : resolved.polymorphicHop? = none ∧ name ≠ "" := by
  obtain ⟨pieces, hpieces, h⟩ := bind_eq_ok.mp h
  obtain ⟨hnamed, rfl⟩ := segments_eq_ok.mp hpieces
  have hname (hmem : name ∈ Text.split '.' path) : name ≠ "" := fun hempty => hnamed (hempty ▸ hmem)
  split at h
  · next only hsingle =>
    cases h
    obtain rfl := Option.some.inj hattr
    exact ⟨rfl, hname (hsingle ▸ List.mem_singleton.mpr rfl)⟩
  · have hspells := follow_spells h
    rw [hattr] at hspells
    refine ⟨?_, hname (hspells ▸ List.mem_append_right _ (List.mem_singleton.mpr rfl))⟩
    generalize Text.split '.' path = pieces at h
    cases follow_eq_ok.mp h with
    | withAttribute leads => exact leads.find?_polymorphic
    | arrived | polymorphic => cases hattr

end Registry

end

/-! ### JSON attributes -/

namespace Sql

/-- A column has an empty name in it if the table or the column has. -/
theorem Column.empty_mem_names_of {table name : String} :
    "" ∈ (Column.of table name).names ↔ table = "" ∨ name = "" := by
  have hstar : "" ∈ (if name = "*" then [] else [name]) ↔ name = "" := by
    split
    · next hstar => simp [hstar]
    · simp [eq_comm]
  rw [names, List.mem_append, of, hstar]
  simp [eq_comm]

/-- The last segment of a JSON path is empty exactly if the path ends in a dot. -/
theorem JsonAttribute.leaf_of_eq_empty {column : Column} {path : String} {type : Option String}
    (hpath : path.isEmpty = false) :
    (JsonAttribute.of column path type).leaf = "" ↔ path.toList.getLast? = some '.' := by
  have hne : path.toList ≠ [] := by simpa using hpath
  have hend : (Text.splitOn '.' path.toList).getLast? = some [] ↔ path.toList.getLast? = some '.' :=
    Text.getLast?_splitOn_eq_nil.trans (or_iff_right hne)
  rw [← hend]
  simp only [leaf, of, Text.split, List.getLast?_map]
  cases hlast : (Text.splitOn '.' path.toList).getLast? with
  | none => exact absurd (List.getLast?_eq_none_iff.mp hlast) (Text.splitOn_ne_nil '.' path.toList)
  | some piece => simp

end Sql

namespace AttributeTarget

variable (target : AttributeTarget)

theorem names_groupTerm : target.groupTerm.names = target.sourceColumn.names := by
  cases target with
  | column c => rfl
  | json a => exact a.names_expression

theorem names_orderTerm (order : Sql.SortOrder) :
    (target.orderTerm order).names = target.sourceColumn.names := by
  cases target with
  | column c => rfl
  | json a => exact a.names_expression

end AttributeTarget

namespace Context

variable {ctx : Context} {key : String} {target : AttributeTarget}

/-- Nothing that a context resolves keys against has an empty name. -/
structure IsNamed (ctx : Context) : Prop where
  registry   : ctx.registry.IsNamed
  base       : "" ∉ ctx.base.declaredNames
  tableAlias : ctx.tableAlias ≠ ""

/-- The key leads to an attribute that the convention of its type leaves without a column name. -/
def IsNameless (ctx : Context) (key : String) : Prop :=
  ∃ resolved name,
    ctx.registry.resolveAttribute ctx.base (AttributeKey.ofText key).path = .ok resolved ∧
      resolved.attr = some name ∧ (ctx.owner resolved).1.naming.Erases name

/-- A key that stands for a column without a name is a nameless one. -/
theorem isNameless_iff :
    ctx.IsNameless key ↔
      ∃ target, ctx.qualify key = .ok (some target) ∧ target.sourceColumn.name = "" := by
  constructor
  · rintro ⟨resolved, name, hresolved, hattr, herases⟩
    have hmono := (Registry.resolveAttribute_attr hresolved hattr).1
    refine ⟨_, qualify_eq_some_iff.mpr ⟨resolved, name, hresolved, hmono, hattr, rfl⟩, ?_⟩
    rw [AttributeKey.sourceColumn_target]
    exact herases
  · rintro ⟨target, htarget, hempty⟩
    obtain ⟨resolved, name, hresolved, -, hattr, hcolumn⟩ := qualify_eq_some htarget
    rw [hcolumn] at hempty
    exact ⟨resolved, name, hresolved, hattr, hempty⟩

/-- The types that keys lead to have conventions that can be configured. -/
structure IsConfigured (ctx : Context) : Prop where
  registry : ∀ e ∈ ctx.registry.types, e.2.naming.IsBuiltIn
  base     : ctx.base.naming.IsBuiltIn

/-- The owner of an attribute has a convention that can be configured. -/
theorem IsConfigured.owner (h : ctx.IsConfigured) {path : String} {resolved : ResolvedPath}
    (hresolved : ctx.registry.resolveAttribute ctx.base path = .ok resolved) :
    (ctx.owner resolved).1.naming.IsBuiltIn := by
  rcases owner_registered hresolved with hbase | ⟨name, hname⟩
  · exact hbase ▸ h.base
  · exact h.registry _ (Entries.mem_of_find? hname)

/-- The key leads to an attribute of underscores alone, of a type with column names in snake case. -/
def IsUnderscored (ctx : Context) (key : String) : Prop :=
  ∃ resolved name,
    ctx.registry.resolveAttribute ctx.base (AttributeKey.ofText key).path = .ok resolved ∧
      resolved.attr = some name ∧ (ctx.owner resolved).1.naming = .snakeCase ∧
      ∀ c ∈ name.toList, c = '_'

/-- Under conventions that can be configured, the nameless keys lead to attributes of underscores. -/
theorem IsConfigured.isNameless_iff (h : ctx.IsConfigured) (key : String) :
    ctx.IsNameless key ↔ ctx.IsUnderscored key := by
  refine exists_congr fun resolved => exists_congr fun name => and_congr_right fun hresolved =>
    and_congr_right fun hattr => ?_
  have hname := (Registry.resolveAttribute_attr hresolved hattr).2
  exact NamingConvention.erases_iff (h.owner hresolved) hname

example : (Blog.context false).qualify "author.__" = .ok (some (.column (.of "author" ""))) := by
  decide +kernel

namespace IsNamed

/-- The table of an attribute has an alias. -/
theorem owner_ne_empty (h : ctx.IsNamed) {path : String} {resolved : ResolvedPath}
    (hresolved : ctx.registry.resolveAttribute ctx.base path = .ok resolved) :
    (ctx.owner resolved).2 ≠ "" := by
  rw [owner]
  split
  · next hop hlast =>
    split
    · have hchain := Registry.resolveAttribute_chain hresolved
      exact hchain.name_ne_empty h.registry h.base hop (List.mem_of_getLast? hlast)
    · exact h.tableAlias
  · exact h.tableAlias

/-- What a key stands for has an empty name exactly if the key is nameless. -/
theorem empty_mem_names_iff (h : ctx.IsNamed) (htarget : ctx.qualify key = .ok (some target)) :
    "" ∈ target.sourceColumn.names ↔ ctx.IsNameless key := by
  obtain ⟨resolved, name, hresolved, -, -, hcolumn⟩ := qualify_eq_some htarget
  rw [isNameless_iff, hcolumn, Column.empty_mem_names_of, or_iff_right (h.owner_ne_empty hresolved)]
  simp [htarget, hcolumn, Column.of]

/-- A key stands for a column with an empty name when it is nameless. -/
theorem exists_empty_iff (h : ctx.IsNamed) :
    (∃ target, ctx.qualify key = .ok (some target) ∧ "" ∈ target.sourceColumn.names) ↔
      ctx.IsNameless key := by
  constructor
  · rintro ⟨target, htarget, hempty⟩
    exact (h.empty_mem_names_iff htarget).mp hempty
  · intro hnameless
    obtain ⟨target, htarget, -⟩ := isNameless_iff.mp hnameless
    exact ⟨target, htarget, (h.empty_mem_names_iff htarget).mpr hnameless⟩

end IsNamed

/-! ### What is made of targets -/

/-- A key that stands for a value inside a JSON column has the path to it. -/
theorem isJsonKey_of_qualify {a : JsonAttribute} (h : ctx.qualify key = .ok (some (.json a))) :
    ∃ json, IsJsonKey key json ∧ a = .of a.column json.path json.type := by
  obtain ⟨resolved, name, -, -, -, ha⟩ := qualify_eq_some_iff.mp h
  rw [AttributeKey.target] at ha
  split at ha
  · next json hjson =>
    split at ha
    · cases ha
    · next hpath =>
      cases ha
      exact ⟨json, ⟨hjson, Bool.eq_false_iff.mpr hpath⟩, rfl⟩
  · cases ha

/-- A key has one JSON part. -/
theorem isJsonKey_unique {json json' : JsonAccess} (h : IsJsonKey key json)
    (h' : IsJsonKey key json') : json = json' :=
  Option.some.inj (h.1.symm.trans h'.1)

/-- The key has a path into a JSON column that ends in a point. -/
def LacksLeaf (key : String) : Prop :=
  ∃ json, IsJsonKey key json ∧ json.path.toList.getLast? = some '.'

/-- What a plain field selects has an empty name when its column or the leaf of its path has. -/
theorem empty_mem_projection_iff (h : ctx.IsNamed) (htarget : ctx.qualify key = .ok (some target)) :
    "" ∈ target.projection.names ↔ ctx.IsNameless key ∨ LacksLeaf key := by
  rw [← h.empty_mem_names_iff htarget]
  cases target with
  | column c =>
      refine (or_iff_left ?_).symm
      rintro ⟨json, hkey, -⟩
      cases qualify_of_isJsonKey hkey htarget
  | json a =>
      obtain ⟨json, hkey, ha⟩ := isJsonKey_of_qualify htarget
      have hleaf : "" = a.leaf ↔ LacksLeaf key := by
        rw [ha, eq_comm, JsonAttribute.leaf_of_eq_empty hkey.2]
        refine ⟨fun hlast => ⟨json, hkey, hlast⟩, ?_⟩
        rintro ⟨other, hother, hlast⟩
        rwa [isJsonKey_unique hkey hother]
      have hnames : (AttributeTarget.json a).projection.names = a.column.names ++ [a.leaf] :=
        a.names_aliased
      rw [hnames, List.mem_append, List.mem_singleton, hleaf]
      rfl

/-- Conditions of a filter that have names have those of the column that their key stands for. -/
theorem termConditions_names {f : Filter} {term : FilterTerm} {cs : List Condition}
    (hcs : ctx.termConditions f term = .ok cs) (hne : Condition.namesOf cs ≠ []) :
    ∃ target, ctx.qualify term.key = .ok (some target) ∧
      ∀ n, n ∈ Condition.namesOf cs ↔ n ∈ target.sourceColumn.names := by
  by_cases hfound : ∃ target, ctx.qualify term.key = .ok (some target)
  · obtain ⟨target, htarget⟩ := hfound
    have hreads : ∀ c ∈ cs, c.Reads (· = target.sourceColumn) := by
      refine reads_termConditions (fun other hother => ?_) hcs
      cases htarget.symm.trans hother
      rfl
    exact ⟨target, htarget, Condition.givesNames_of_reads hreads hne⟩
  · -- conditions that read no column at all have the names of one without names
    have hreads : ∀ c ∈ cs, c.Reads (· = Column.bare "*") :=
      reads_termConditions (fun target htarget => absurd ⟨target, htarget⟩ hfound) hcs
    obtain ⟨n, hn⟩ := List.exists_mem_of_ne_nil _ hne
    cases (Condition.givesNames_of_reads hreads hne n).mp hn

/-- The conditions of a term have an empty name exactly if they have any and the key of the term is
nameless. -/
theorem termConditions_empty_iff (h : ctx.IsNamed) {f : Filter} {term : FilterTerm}
    {cs : List Condition} (hcs : ctx.termConditions f term = .ok cs) :
    "" ∈ Condition.namesOf cs ↔ Condition.namesOf cs ≠ [] ∧ ctx.IsNameless term.key := by
  by_cases hne : Condition.namesOf cs = []
  · simp [hne]
  · obtain ⟨target, htarget, hnames⟩ := termConditions_names hcs hne
    rw [hnames, h.empty_mem_names_iff htarget, and_iff_right hne]

end Context

end ResourceQuery
