import ResourceQuery.Fetch
import ResourceQuery.Proofs.Compile.Tokens
import ResourceQuery.Proofs.Sql.Renderings

/-!
# Fetch — one call for each request

A request that does not compile never reaches the executor.  Any other request is one call, of the
statements that it compiles to: which call it is follows from the request and the settings alone
(`Compiler.call`), and what comes back is the answer to that call (`fetch_of_compile`).  The calls are
observed by an executor that writes each of them down (`Executor.logged`).

* `build_eq_ok`: what a query is written down as begins with what it is without its window.
* `prepare_unwindowed`: the stages of a request set no window.
* `compile_windows`: the window of a page stands at the end of the statement and nowhere else.
* `fetch_calls`: the calls of a request, its answer and its statements.
-/

namespace ResourceQuery

open Sql (Query Statement Token lex)

/-! ### Calls -/

/-- A call of an executor. -/
inductive Call where
  | one (compiled : CompiledQuery)
  | all (compiled : CompiledQuery)
  | page (compiled : CompiledQuery) (page : PageRequest)

/-- The window that belongs to a call. -/
def Call.window : Call → String
  | .one _ | .all _ => ""
  | .page _ p       => Query.windowText p.limitOffset.1 p.limitOffset.2

/-- The call for a request: a page if the request or else the settings have one, but of collections
only. -/
def Compiler.call (c : Compiler) (r : Request) (compiled : CompiledQuery) : Call :=
  if r.collection then
    match r.params.page.or c.config.pagination with
    | some page => .page compiled page
    | none      => .all compiled
  else .one compiled

namespace Executor

variable {m : Type → Type} [Monad m]

/-- The answer to a call. -/
def answer (e : Executor m) : Call → m (Except StorageError Outcome)
  | .one compiled       => do return (← e.fetchOne compiled).map .one
  | .all compiled       => do return (← e.fetchAll compiled).map .many
  | .page compiled page => do return (← e.fetchPage compiled page).map .page

/-- The executor that writes down each call before it passes it on. -/
def logged (e : Executor m) : Executor (StateT (List Call) m) where
  fetchOne compiled       := do
    modify (· ++ [.one compiled])
    e.fetchOne compiled
  fetchAll compiled       := do
    modify (· ++ [.all compiled])
    e.fetchAll compiled
  fetchPage compiled page := do
    modify (· ++ [.page compiled page])
    e.fetchPage compiled page

/-- A logging executor answers as the executor does, and writes the call down. -/
theorem run_logged_answer [LawfulMonad m] (e : Executor m) (call : Call) (log : List Call) :
    (e.logged.answer call).run log = do return (← e.answer call, log ++ [call]) := by
  cases call <;> simp [answer, logged]

end Executor

/-! ### Answers -/

variable {m : Type → Type} [Monad m] {c : Compiler} {r : Request} {p : PreparedQuery}
  {compiled : CompiledQuery}

namespace Executor

/-- A prepared query is run by the call for its request. -/
theorem run_eq_answer (e : Executor m) (h : c.prepare r = .ok p) :
    e.run p compiled = e.answer (c.call r compiled) := by
  obtain ⟨hpage, hcollection⟩ := Compiler.prepare_shape h
  rw [run, hpage, hcollection, Compiler.call]
  cases r.collection with
  | false => rfl
  | true => cases r.params.page.or c.config.pagination <;> rfl

/-- A request that does not compile is not answered, and nothing is called. -/
theorem fetch_of_error (e : Executor m) {err : QueryError} (h : c.compile r = .error err) :
    e.fetch c r = pure (.error err) := by
  rw [fetch]
  cases hp : c.prepare r with
  | error err' =>
      rw [Compiler.compile, hp] at h
      cases h
      rfl
  | ok p =>
      rw [Compiler.compile_of_prepare hp] at h
      cases hcompile : p.compile with
      | error cause =>
          rw [hcompile] at h
          cases h
          simp only [hcompile]
      | ok compiled =>
          rw [hcompile] at h
          cases h

/-- A request that compiles is answered by one call, whose errors are those of the storage. -/
theorem fetch_of_compile (e : Executor m) (h : c.compile r = .ok compiled) :
    e.fetch c r = do return (← e.answer (c.call r compiled)).mapError .storage := by
  obtain ⟨p, hp, hcompile⟩ := bind_eq_ok.mp h
  rw [fetch, hp]
  simp only [mapError_eq_ok.mp hcompile, run_eq_answer e hp]

end Executor

/-! ### Windows -/

namespace Sql

/-- The text has neither of the words of a window, in whatever case. -/
def Windowless (sql : String) : Prop :=
  ∀ text, .run .word text ∈ lex sql → String.ofList (text.map Char.toUpper) ∉ ["LIMIT", "OFFSET"]

/-- A statement that reads as the tokens of a written query has no window. -/
theorem windowless_of_isWritten {sql : String} (h : ∀ t ∈ lex sql, t.IsWritten) :
    Windowless sql := by
  intro text hmem
  have hkeywords : ∀ k ∈ keywords, String.ofList (k.toList.map Char.toUpper) ∉ ["LIMIT", "OFFSET"] := by
    decide +kernel
  rcases h _ hmem with hfixed | ⟨n, hn⟩
  · have hk := hkeywords _ (List.contains_iff_mem.mp hfixed)
    rwa [String.toList_ofList] at hk
  · cases hn

/-- What a query is written down as begins with what it is without its window. -/
theorem Query.build_eq_ok {q : Query} {s : Statement} (h : q.build = .ok s) :
    ∃ t, q.unpaged.build = .ok t ∧ s = ⟨t.sql ++ q.windowSql, t.params⟩ := by
  obtain ⟨select, ordering, hvalid, hselect, hordering, -⟩ := templates_of_build h
  obtain ⟨hunpaged, hbuild⟩ := build_eq_unpaged hvalid hselect hordering
  exact ⟨_, hunpaged, Except.ok.inj (h.symm.trans hbuild)⟩

end Sql

namespace Compiler

/-- No stage sets a window. -/
theorem keptByStages_unwindowed :
    KeptByStages fun q : Query => q.limit = none ∧ q.offset = none where
  join q j hq := by
    rw [Query.join]
    split <;> exact hq
  restrict _ _ _ hq := hq
  groupBy _ _ _ hq := hq
  orderBy _ _ _ hq := hq
  load _ _ hq := hq
  makeDistinct _ hq := hq
  select _ _ _ hq := hq

theorem prepare_unwindowed (hadjust : r.adjust = id) (h : c.prepare r = .ok p) :
    p.query.limit = none ∧ p.query.offset = none :=
  prepare_keeps keptByStages_unwindowed hadjust h fun _ => ⟨rfl, rfl⟩

/-- A query is written down with the window of the call for its request. -/
theorem windowSql_windowed (hadjust : r.adjust = id) (h : c.prepare r = .ok p) :
    p.windowed.windowSql = (c.call r compiled).window := by
  obtain ⟨hlimit, hoffset⟩ := prepare_unwindowed hadjust h
  have hnone : p.query.windowSql = "" := by
    rw [Query.windowSql, hlimit, hoffset]
    rfl
  obtain ⟨hpage, -⟩ := prepare_shape h
  rw [PreparedQuery.windowed, hpage, call]
  cases r.collection with
  | false => exact hnone
  | true =>
      cases r.params.page.or c.config.pagination with
      | none => exact hnone
      | some page => rfl

/-- The window of a page stands at the end of the statement and nowhere else. -/
theorem compile_windows (hadjust : r.adjust = id) (h : c.compile r = .ok compiled) :
    (∃ text, Sql.Windowless text ∧ compiled.query.sql = text ++ (c.call r compiled).window) ∧
      Sql.Windowless compiled.countQuery.sql := by
  obtain ⟨p, hp, hcompile⟩ := bind_eq_ok.mp h
  have hstaged := prepare_isStaged hadjust hp
  have hblocks : ∀ f ∈ p.query.fragments, f.IsBlock fun _ => False :=
    Query.isBlock_of_reads hstaged.clauses hstaged.select
  have hcompile : p.compile = .ok compiled := mapError_eq_ok.mp hcompile
  rw [PreparedQuery.compile_eq_windowed] at hcompile
  obtain ⟨query, hquery, hcompile⟩ := bind_eq_ok.mp hcompile
  obtain ⟨count, hcount, rfl⟩ := bind_pure_eq_ok.mp hcompile
  constructor
  · obtain ⟨t, ht, rfl⟩ := Query.build_eq_ok hquery
    refine ⟨t.sql, Sql.windowless_of_isWritten ?_,
      congrArg (t.sql ++ ·) (windowSql_windowed hadjust hp)⟩
    have hfragments : p.windowed.unpaged.fragments = p.query.fragments := by
      obtain hq | ⟨limit, offset, hq⟩ := p.windowed_cases <;> rw [hq] <;> rfl
    obtain ⟨-, front, hlex, hfront⟩ := Query.tokens_of_build ht (hfragments ▸ hblocks)
    -- without a window the tokens of the statement are all in front of it
    have hlex : lex t.sql = front := hlex.trans (List.append_nil front)
    exact hlex ▸ hfront.isWritten
  · exact Sql.windowless_of_isWritten (Query.tokens_of_buildCount hcount hblocks).2.isWritten

end Compiler

namespace Executor

/-- **One call for each request.**  A request that does not compile is not handed to the executor, and
the error is returned.  Any other request is handed over in one call, with the statements that it
compiles to: for a page if the request is one for a collection and it or else the settings have a page,
for all rows of a collection without a page, and for one row otherwise.  What is returned is the answer
to that call, an error being passed on as it is.  The statement ends with the limit and the offset of
the page of the call, and they stand nowhere else, least of all in the count. -/
theorem fetch_calls [LawfulMonad m] (e : Executor m) (c : Compiler) (r : Request)
    (hadjust : r.adjust = id) (log : List Call) :
    (∀ err, c.compile r = .error err →
      (e.logged.fetch c r).run log = pure (.error err, log)) ∧
    ∀ compiled, c.compile r = .ok compiled →
      (e.logged.fetch c r).run log = (do
        let answer ← e.answer (c.call r compiled)
        return (answer.mapError .storage, log ++ [c.call r compiled])) ∧
      (∃ text, Sql.Windowless text ∧ compiled.query.sql = text ++ (c.call r compiled).window) ∧
      Sql.Windowless compiled.countQuery.sql := by
  refine ⟨fun err h => ?_, fun compiled h => ⟨?_, Compiler.compile_windows hadjust h⟩⟩
  · rw [fetch_of_error e.logged h]
    rfl
  · rw [fetch_of_compile e.logged h, StateT.run_bind, run_logged_answer]
    simp

/-- The executor that cannot reach its database. -/
def offline : Executor Id where
  fetchOne _    := .error (.connection "offline")
  fetchAll _    := .error (.connection "offline")
  fetchPage _ _ := .error (.connection "offline")

theorem offline_calls :
    ∃ compiled, Blog.quotedCompiler.compile Blog.quotedRequest = .ok compiled ∧
      (offline.logged.fetch Blog.quotedCompiler Blog.quotedRequest).run [] =
        (.error (.storage (.connection "offline")), [.page compiled (.window 5 10)]) ∧
      (∃ text, Sql.Windowless text ∧ compiled.query.sql = text ++ " LIMIT 5 OFFSET 10") ∧
      Sql.Windowless compiled.countQuery.sql := by
  have htest : ((Blog.quotedCompiler.compile Blog.quotedRequest).toOption.any fun _ => true) =
      true := by decide +kernel
  obtain ⟨compiled, hcompiled, -⟩ := exists_ok_of_any htest
  obtain ⟨hcall, ⟨text, htext, hsql⟩, hcount⟩ :=
    (fetch_calls offline Blog.quotedCompiler Blog.quotedRequest rfl []).2 compiled hcompiled
  have hwindow : Query.windowText (PageRequest.window 5 10).limitOffset.1
      (PageRequest.window 5 10).limitOffset.2 = " LIMIT 5 OFFSET 10" := by decide +kernel
  exact ⟨compiled, hcompiled, hcall, ⟨text, htext, hsql.trans (congrArg (text ++ ·) hwindow)⟩, hcount⟩

end Executor

end ResourceQuery
