import ResourceQuery.Proofs.Compile.KeyNames
import ResourceQuery.Proofs.Naming.SnakeCase

/-!
# Compile — the two spellings of an attribute

An attribute may be spelled as clients do or as the column that stores it.  The column name of a column
name is that name, so that two keys which follow the same relations and end in the two spellings stand
for the same (`Respells.qualify`).

* `spellings_agree`: column names stay as they are, and keys in both spellings address the same column.
-/

namespace ResourceQuery

namespace Context

variable {ctx : Context} {key stored : String}

/-- The keys follow the same relations to an attribute of a type with a convention that can be configured,
and the second spells it as the column that stores it; what they read inside the column is the same. -/
def Respells (ctx : Context) (key stored : String) : Prop :=
  ∃ resolved name,
    ctx.registry.resolveAttribute ctx.base (AttributeKey.ofText key).path = .ok resolved ∧
      resolved.attr = some name ∧ (ctx.owner resolved).1.naming.IsBuiltIn ∧
      ctx.registry.resolveAttribute ctx.base (AttributeKey.ofText stored).path =
        .ok { resolved with attr := some ((ctx.owner resolved).1.column name) } ∧
      (AttributeKey.ofText stored).json = (AttributeKey.ofText key).json

/-- A key and its stored spelling stand for the same. -/
theorem Respells.qualify (h : ctx.Respells key stored) :
    ∃ target, ctx.qualify key = .ok (some target) ∧ ctx.qualify stored = .ok (some target) := by
  obtain ⟨resolved, name, hkey, hattr, hbuiltIn, hstored, hjson⟩ := h
  have hmono := (Registry.resolveAttribute_attr hkey hattr).1
  have hcolumn : (ctx.owner resolved).1.column ((ctx.owner resolved).1.column name) =
      (ctx.owner resolved).1.column name := NamingConvention.toColumn_toColumn hbuiltIn name
  refine ⟨_, qualify_eq_some_iff.mpr ⟨resolved, name, hkey, hmono, hattr, rfl⟩,
    qualify_eq_some_iff.mpr ⟨_, _, hstored, hmono, rfl, ?_⟩⟩
  -- the owner is found from the relations alone
  have howner : ctx.owner { resolved with attr := some ((ctx.owner resolved).1.column name) } =
      ctx.owner resolved := rfl
  rw [howner, hcolumn, AttributeKey.target, AttributeKey.target, hjson]

/-- **Both spellings of an attribute address the same column.**  Under a convention that can be configured,
the column name of a column name is that name.  The names that are their own column names are, under snake
case, those in snake case and those that are no identifiers; the column name of an identifier spells its
words, in lower case and with single underscores between them.  So a key and one that spells its attribute
as the column stand for the same. -/
theorem spellings_agree :
    (∀ convention : NamingConvention, convention.IsBuiltIn → ∀ name : String,
      convention.toColumn (convention.toColumn name) = convention.toColumn name ∧
      (convention.toColumn name = name ↔
        (convention = .snakeCase → Naming.isIdentifier name = true → Naming.IsSnakeCase name))) ∧
    (∀ name stored, Naming.isIdentifier name = true →
      (NamingConvention.snakeCase.toColumn name = stored ↔ Naming.StoredAs name stored)) ∧
    ∀ (ctx : Context) (key stored : String), ctx.Respells key stored →
      ∃ target, ctx.qualify key = .ok (some target) ∧ ctx.qualify stored = .ok (some target) := by
  refine ⟨fun convention hbuiltIn name => ⟨NamingConvention.toColumn_toColumn hbuiltIn name,
      NamingConvention.toColumn_eq_self_iff hbuiltIn⟩,
    fun name stored hname => ?_, fun ctx key stored h => h.qualify⟩
  change Naming.snakeColumn name = stored ↔ _
  rw [Naming.snakeColumn, if_pos hname]
  exact Naming.snakeCase_eq_iff

/-- An attribute with an acronym, a digit and two underscores, of people, whose columns are in snake
case. -/
theorem httpStatus_spellings :
    NamingConvention.snakeCase.IsBuiltIn ∧ Naming.isIdentifier "HTTPStatus2__lastURL" = true ∧
    NamingConvention.snakeCase.toColumn "http_status2_last_url" = "http_status2_last_url" ∧
    Naming.IsSnakeCase "http_status2_last_url" ∧
    Naming.StoredAs "HTTPStatus2__lastURL" "http_status2_last_url" ∧
    (Blog.context false).Respells "author.HTTPStatus2__lastURL:zip:numeric"
      "author.http_status2_last_url:zip:numeric" ∧
    ∃ target,
      (Blog.context false).qualify "author.HTTPStatus2__lastURL:zip:numeric" = .ok (some target) ∧
      (Blog.context false).qualify "author.http_status2_last_url:zip:numeric" = .ok (some target) := by
  obtain ⟨hnames, hwords, hkeys⟩ := spellings_agree
  have hbuiltIn : NamingConvention.snakeCase.IsBuiltIn := ⟨"snake_case", rfl⟩
  have hidentifier : Naming.isIdentifier "HTTPStatus2__lastURL" = true := by decide +kernel
  have hcolumn : NamingConvention.snakeCase.toColumn "HTTPStatus2__lastURL" =
      "http_status2_last_url" := by decide +kernel
  have hstays := (hnames .snakeCase hbuiltIn "HTTPStatus2__lastURL").1
  have hspells := (hwords "HTTPStatus2__lastURL" _ hidentifier).mp hcolumn
  rw [hcolumn] at hstays
  have hsnake := (hnames .snakeCase hbuiltIn "http_status2_last_url").2.mp hstays rfl (by decide +kernel)
  have hspelled : (Blog.context false).Respells "author.HTTPStatus2__lastURL:zip:numeric"
      "author.http_status2_last_url:zip:numeric" :=
    ⟨⟨[Blog.authorHop], some "HTTPStatus2__lastURL"⟩, "HTTPStatus2__lastURL", rfl, rfl, hbuiltIn, rfl,
      by decide +kernel⟩
  exact ⟨hbuiltIn, hidentifier, hstays, hsnake, hspells, hspelled, hkeys _ _ _ hspelled⟩

end Context

end ResourceQuery
