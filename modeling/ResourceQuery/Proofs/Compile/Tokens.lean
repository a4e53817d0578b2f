import ResourceQuery.Proofs.Blog
import ResourceQuery.Proofs.Compile.Prepare
import ResourceQuery.Proofs.Sql.JsonTokens

/-!
# Compile — no text of a request becomes SQL

Whatever a request, the settings and the types hold, the statements that are compiled from them
consist of quoted identifiers, numbered placeholders and the compiler's own words, operators and
marks, but for the numbers of a window at the end (`compile_tokens`).

* `prepare_isStaged`: the only raw fragments in a prepared query are expressions over JSON
  attributes.
* `compile_eq_ok`: the two statements that a request is compiled to.
-/

namespace ResourceQuery

open Sql (Query Statement Token lex Spells)

/-! ### Tokens -/

/-- The token is a quoted identifier, a placeholder with a number, or fixed. -/
def Sql.Token.IsWritten (t : Token) : Prop :=
  t.isFixed = true ∨ ∃ n : Nat, t = .run .placeholder (toString n).toList

/-- The tokens are nothing, or the words `LIMIT` and possibly `OFFSET` with a number each. -/
def Sql.IsWindow (ts : List Token) : Prop :=
  ts = [] ∨ ∃ limit : Nat, let ls : List Token :=
      [.run .word "LIMIT".toList, .run .number (toString limit).toList]
    ts = ls ∨ ∃ offset : Nat,
      ts = ls ++ [.run .word "OFFSET".toList, .run .number (toString offset).toList]

namespace Sql

/-- Tokens that are numbered and have no odd ones among them are those of a written query. -/
theorem Numbered.isWritten {n k : Nat} {ts : List Token} (h : Numbered (fun _ => False) n k ts) :
    ∀ t ∈ ts, t.IsWritten := by
  intro t ht
  cases hp : t.placeholder? with
  | none => exact .inl ((h.others t ht hp).resolve_right id)
  | some digits =>
      have hmem : digits ∈ ts.filterMap Token.placeholder? := List.mem_filterMap.mpr ⟨t, ht, hp⟩
      rw [h.numbers] at hmem
      obtain ⟨i, -, rfl⟩ := List.mem_map.mp hmem
      exact .inr ⟨i, Token.eq_of_placeholder? hp⟩

/-- A written token is not cut off. -/
theorem Token.IsWritten.ne_unterminated {t : Token} (h : t.IsWritten) : t ≠ .unterminated := by
  rcases h with h | ⟨n, rfl⟩
  · rintro rfl
    cases h
  · nofun

/-- The tokens of a window are the limit and the offset, which has a limit in front. -/
theorem isWindow_windowTokens {q : Query} (h : q.limit = none → q.offset = none) :
    IsWindow q.windowTokens := by
  have hlimit : lex " LIMIT " = [.run .word "LIMIT".toList] := by decide +kernel
  have hoffset : lex " OFFSET " = [.run .word "OFFSET".toList] := by decide +kernel
  rw [Query.windowTokens]
  cases hl : q.limit with
  | none =>
      rw [h hl]
      exact .inl rfl
  | some limit =>
      refine .inr ⟨limit.toNat, ?_⟩
      cases q.offset.filter (0 < ·) with
      | none =>
          simp only [Option.toList_some, List.flatMap_singleton, Query.numberTokens, hlimit]
          exact .inl rfl
      | some offset =>
          simp only [Option.toList_some, List.flatMap_singleton, Query.numberTokens, hlimit,
            hoffset]
          exact .inr ⟨offset.toNat, rfl⟩

theorem IsWindow.unterminated_not_mem {ts : List Token} (h : IsWindow ts) : .unterminated ∉ ts := by
  rcases h with rfl | ⟨limit, rfl | ⟨offset, rfl⟩⟩ <;> simp

end Sql

/-! ### Prepared queries -/

/-- The raw fragments are expressions over JSON attributes, and there is no offset. -/
structure Sql.Query.IsStaged (q : Query) : Prop where
  clauses : q.ClausesRead fun _ => True
  select  : q.SelectReads fun _ => True
  offset  : q.offset = none

/-- A query stays staged in every stage. -/
theorem keptByStages_isStaged : KeptByStages Query.IsStaged where
  join q j hq := by
    rw [Query.join]
    split
    · exact hq
    · exact { hq with clauses := hq.clauses.of_same rfl rfl rfl }
  restrict q d hd hq := { hq with clauses := hq.clauses.restrict hd }
  groupBy q t ht hq := { hq with clauses := hq.clauses.groupBy ht }
  orderBy q t ht hq := { hq with clauses := hq.clauses.orderBy ht }
  load q e hq := { hq with clauses := hq.clauses.of_same rfl rfl rfl }
  makeDistinct q hq := { hq with clauses := hq.clauses.of_same rfl rfl rfl }
  select q e he hq :=
    { hq with
      clauses := hq.clauses.of_same rfl rfl rfl
      select  := hq.select.select he }

namespace PreparedQuery

/-- The query for the page of a prepared query, or for all rows. -/
def windowed (p : PreparedQuery) : Query :=
  match p.page with
  | some page => p.query.paginate page.limitOffset.1 page.limitOffset.2
  | none      => p.query

variable (p : PreparedQuery)

/-- A prepared query has the window of its page, or none. -/
theorem windowed_cases :
    p.windowed = p.query ∨ ∃ limit offset, p.windowed = p.query.paginate limit offset := by
  rw [windowed]
  split
  · exact .inr ⟨_, _, rfl⟩
  · exact .inl rfl

/-- A prepared query compiles to its statement with the window and its count without. -/
theorem compile_eq_windowed : p.compile = (do
    let query ← p.windowed.build
    let countQuery ← p.query.buildCount
    return ⟨p.resourceType, query, countQuery, p.query.eagerLoads⟩) := by
  obtain ⟨type, q, page, collection⟩ := p
  cases page <;> rfl

end PreparedQuery

namespace Compiler

variable {c : Compiler} {r : Request} {p : PreparedQuery}

theorem prepare_isStaged (hadjust : r.adjust = id) (h : c.prepare r = .ok p) : p.query.IsStaged :=
  prepare_keeps keptByStages_isStaged hadjust h fun _ =>
    ⟨⟨nofun, nofun, nofun⟩, nofun, rfl⟩

/-- The two statements of a request come from its prepared query. -/
theorem compile_eq_ok {out : CompiledQuery} (h : c.compile r = .ok out) :
    ∃ p q, c.prepare r = .ok p ∧ (q = p.query ∨ ∃ limit offset, q = p.query.paginate limit offset) ∧
      q.build = .ok out.query ∧ p.query.buildCount = .ok out.countQuery := by
  obtain ⟨p, hp, h⟩ := bind_eq_ok.mp h
  have h : p.compile = .ok out := mapError_eq_ok.mp h
  rw [PreparedQuery.compile_eq_windowed] at h
  obtain ⟨query, hquery, h⟩ := bind_eq_ok.mp h
  obtain ⟨count, hcount, rfl⟩ := bind_pure_eq_ok.mp h
  exact ⟨p, p.windowed, hp, p.windowed_cases, hquery, hcount⟩

/-- **No text of a request becomes SQL.**  The statement of a request consists of quoted
identifiers, placeholders and fixed tokens, followed by nothing or by the numbers of a window; its
count consists of the first alone.  The tokens are all there is in the texts but blanks. -/
theorem compile_tokens (c : Compiler) (r : Request) (out : CompiledQuery) (hadjust : r.adjust = id)
    (h : c.compile r = .ok out) :
    (∃ front window, lex out.query.sql = front ++ window ∧ (∀ t ∈ front, t.IsWritten) ∧
      Sql.IsWindow window ∧ Spells (front ++ window) out.query.sql.toList) ∧
    (∀ t ∈ lex out.countQuery.sql, t.IsWritten) ∧
      Spells (lex out.countQuery.sql) out.countQuery.sql.toList := by
  obtain ⟨p, q, hp, hq, hbuild, hcount⟩ := compile_eq_ok h
  have hstaged := prepare_isStaged hadjust hp
  have hblocks : ∀ f ∈ p.query.fragments, f.IsBlock fun _ => False :=
    Query.isBlock_of_reads hstaged.clauses hstaged.select
  constructor
  · -- the window of a page comes after everything else
    have hsame : q.fragments = p.query.fragments ∧ (q.limit = none → q.offset = none) := by
      rcases hq with rfl | ⟨limit, offset, rfl⟩
      · exact ⟨rfl, fun _ => hstaged.offset⟩
      · exact ⟨rfl, nofun⟩
    obtain ⟨-, front, hlex, hfront⟩ := Query.tokens_of_build hbuild (hsame.1 ▸ hblocks)
    have hwindow := Sql.isWindow_windowTokens hsame.2
    have hwritten := hfront.isWritten
    refine ⟨front, q.windowTokens, hlex, hwritten, hwindow, hlex ▸ Sql.lex_spells ?_⟩
    rw [hlex, List.mem_append, not_or]
    exact ⟨fun hmem => (hwritten _ hmem).ne_unterminated rfl, hwindow.unterminated_not_mem⟩
  · have hwritten := (Query.tokens_of_buildCount hcount hblocks).2.isWritten
    exact ⟨hwritten, Sql.lex_spells fun hmem => (hwritten _ hmem).ne_unterminated rfl⟩

/-- Quotes and placeholders in the names of a schema, an alias and a column, and in a value. -/
theorem quoted_tokens :
    ∃ out, Blog.quotedCompiler.compile Blog.quotedRequest = .ok out ∧
      out.query.sql = "SELECT * FROM \"s\"\"\".\"articles\" AS \"a'?$1\" WHERE " ++
        "\"a'?$1\".\"the\"\"title\" IN ($1) LIMIT 5 OFFSET 10" ∧
      ∀ t ∈ lex out.countQuery.sql, t.IsWritten := by
  have htest : ((Blog.quotedCompiler.compile Blog.quotedRequest).toOption.any fun out =>
      out.query.sql = "SELECT * FROM \"s\"\"\".\"articles\" AS \"a'?$1\" WHERE " ++
        "\"a'?$1\".\"the\"\"title\" IN ($1) LIMIT 5 OFFSET 10") = true := by decide +kernel
  obtain ⟨out, hout, hsql⟩ := exists_ok_of_any htest
  have htokens := compile_tokens Blog.quotedCompiler Blog.quotedRequest out rfl hout
  exact ⟨out, hout, of_decide_eq_true hsql, htokens.2.1⟩

end Compiler

end ResourceQuery
