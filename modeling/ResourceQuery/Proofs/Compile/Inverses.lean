import ResourceQuery.Compile.Joins

/-!
# Compile — a relation and its inverse

The rows of two types can be linked from either side: one type has rows of the other, which belong to it
(`Relation.Inverse`), or each of them has a many-to-many relation to the other.  Each side names the
columns on its own, from what it declares and from the two types, and its joins lead the other way.
Still both sides join on the same columns.

* `Inverse.joinKeys?_eq`, `IsBare.joinKeys?_eq`: the join keys of each side, from the same names.
* `inverses_join_alike`: the joins of both sides.
-/

namespace ResourceQuery

open Sql (Column)

namespace Relation

/-- The rows of one relation belong to those of the other: the same foreign key is declared for both, or
none, and the same key that it refers to. -/
structure Inverse (has belongs : Relation) : Prop where
  kind           : has.kind = .hasOne ∨ has.kind = .hasMany
  inverseKind    : belongs.kind = .belongsTo
  sameForeignKey : has.foreignKey = belongs.foreignKey
  sameKey        : has.parentKey = belongs.targetKey

/-- A many-to-many relation without any declared names. -/
structure IsBare (r : Relation) : Prop where
  kind       : r.kind = .belongsToMany
  foreignKey : r.foreignKey = none
  parentKey  : r.parentKey = none
  targetKey  : r.targetKey = none
  junction   : r.through.getD {} = {}

variable {has belongs r : Relation}

theorem Inverse.targetColumn_eq (h : Inverse has belongs) (left : ResourceType) :
    belongs.targetColumn left = has.parentColumn left := by
  rw [targetColumn, parentColumn, h.sameKey]

/-- A relation and its inverse join the same two columns, in either direction. -/
theorem Inverse.joinKeys?_eq (h : Inverse has belongs) (left right : ResourceType) :
    has.joinKeys? left right =
        some (.has (has.parentColumn left) (has.foreignKey.getD left.defaultForeignKey)) ∧
      belongs.joinKeys? right left =
        some (.belongsTo (has.foreignKey.getD left.defaultForeignKey) (has.parentColumn left)) := by
  constructor
  · rw [joinKeys?]
    rcases h.kind with hkind | hkind <;> rw [hkind]
  · rw [joinKeys?, h.inverseKind, h.targetColumn_eq, h.sameForeignKey]

/-- A relation without keys of its own is joined by the defaults of its types. -/
theorem IsBare.joinKeys?_eq (h : r.IsBare) (left right : ResourceType) :
    r.joinKeys? left right =
      some (.through left.idColumn (junctionTable left.table right.table) left.defaultForeignKey
        right.defaultForeignKey right.idColumn) := by
  rw [joinKeys?, h.kind, parentColumn, targetColumn, h.foreignKey, h.parentKey, h.targetKey]
  simp only [h.junction, Option.getD_none]

/-- Both sides name the same junction table. -/
theorem junctionTable_comm (a b : String) : junctionTable a b = junctionTable b a := by
  rw [junctionTable, junctionTable]
  split
  case isTrue hlt => rw [if_neg (String.lt_asymm hlt)]
  case isFalse hle =>
    split
    case isTrue => rfl
    case isFalse hge =>
      obtain rfl : a = b := String.le_antisymm hle hge
      rfl

/-- **A relation and its inverse join on the same columns.**  If one type has rows of another and these
belong to it, both joins equate the same column of the one with the same column of the other, under
whatever aliases.  The many-to-many relations between two types for which nothing is declared lead
through the same junction table, and each has the columns of the other exchanged.  The names that are
filled in are made of the table names as the conventions of the types inflect them. -/
theorem inverses_join_alike (left right : ResourceType) :
    (∀ has belongs, Inverse has belongs → ∀ leftAlias rightAlias,
      let leftColumn := Column.of leftAlias (has.parentKey.getD left.idColumn)
      let rightColumn := Column.of rightAlias
        (has.foreignKey.getD (left.naming.singularize left.table ++ "_" ++ left.idColumn))
      (has.joinKeys? left right).map (JoinKeys.joins leftAlias rightAlias right.table) =
        some [⟨right.table, rightAlias, [.columns leftColumn rightColumn]⟩] ∧
      (belongs.joinKeys? right left).map (JoinKeys.joins rightAlias leftAlias left.table) =
        some [⟨left.table, leftAlias, [.columns rightColumn leftColumn]⟩]) ∧
    ∀ there back : Relation, there.IsBare → back.IsBare →
      ∃ junction,
        let toLeft := left.naming.singularize left.table ++ "_" ++ left.idColumn
        let toRight := right.naming.singularize right.table ++ "_" ++ right.idColumn
        there.joinKeys? left right =
          some (.through left.idColumn junction toLeft toRight right.idColumn) ∧
        back.joinKeys? right left =
          some (.through right.idColumn junction toRight toLeft left.idColumn) := by
  refine ⟨fun has belongs h leftAlias rightAlias => ?_, fun there back hthere hback => ?_⟩
  · obtain ⟨hhas, hbelongs⟩ := h.joinKeys?_eq left right
    rw [hhas, hbelongs]
    exact ⟨rfl, rfl⟩
  · refine ⟨_, hthere.joinKeys?_eq left right, ?_⟩
    rw [hback.joinKeys?_eq right left, junctionTable_comm]
    rfl

/-- Customers in a table of people, whose convention knows no other word than `customer`. -/
def customers : ResourceType where
  name     := "customers"
  table    := "people"
  idColumn := "personId"
  naming   := { NamingConvention.verbatim with singularize := fun _ => "customer" }

/-- Orders in a table of another name. -/
def orders : ResourceType where
  name     := "orders"
  table    := "purchase_orders"
  idColumn := "uuid"
  naming   := .snakeCase

/-- Customers have orders, which belong to them, and both have many of each other. -/
theorem customers_join_alike :
    Inverse (.hasMany "orders") (.belongsTo "customers") ∧
    (belongsToMany "orders").IsBare ∧ (belongsToMany "customers").IsBare ∧
    ((hasMany "orders").joinKeys? customers orders).map (JoinKeys.joins "c" "o" "purchase_orders") =
      some [⟨"purchase_orders", "o",
        [.columns (.of "c" "personId") (.of "o" "customer_personId")]⟩] ∧
    ((belongsTo "customers").joinKeys? orders customers).map (JoinKeys.joins "o" "c" "people") =
      some [⟨"people", "c", [.columns (.of "o" "customer_personId") (.of "c" "personId")]⟩] ∧
    ∃ junction,
      (belongsToMany "orders").joinKeys? customers orders = some (.through "personId" junction
        "customer_personId" "purchase_order_uuid" "uuid") ∧
      (belongsToMany "customers").joinKeys? orders customers = some (.through "uuid" junction
        "purchase_order_uuid" "customer_personId" "personId") := by
  have hinverse : Inverse (.hasMany "orders") (.belongsTo "customers") := ⟨.inr rfl, rfl, rfl, rfl⟩
  have hthere : (belongsToMany "orders").IsBare := ⟨rfl, rfl, rfl, rfl, rfl⟩
  have hback : (belongsToMany "customers").IsBare := ⟨rfl, rfl, rfl, rfl, rfl⟩
  obtain ⟨hone, hmany⟩ := inverses_join_alike customers orders
  have hcustomer : customers.naming.singularize customers.table ++ "_" ++ customers.idColumn =
      "customer_personId" := by decide +kernel
  have horder : orders.naming.singularize orders.table ++ "_" ++ orders.idColumn =
      "purchase_order_uuid" := by decide +kernel
  have hjoins := hone _ _ hinverse "c" "o"
  have hthrough := hmany _ _ hthere hback
  simp only [hcustomer, horder] at hjoins hthrough
  exact ⟨hinverse, hthere, hback, hjoins.1, hjoins.2, hthrough⟩

end Relation

end ResourceQuery
