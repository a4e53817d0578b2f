import ResourceQuery.Proofs.Compile.Lenient
import ResourceQuery.Proofs.Compile.Strictness
import ResourceQuery.Proofs.Compile.Tokens
import ResourceQuery.Proofs.Sql.Renderings

/-!
# Compile — the errors of a compilation

A request is not prepared when its type is not registered or, in strict mode, when one of its keys is
rejected (`prepare_eq_error`).  The raw fragments of a prepared query are expressions over JSON
attributes, which have as many placeholders as parameters (`IsStaged.fits`), so nothing but its size
stands in the way of its statements (`PreparedQuery.compile_of_fits`).

* `compile_errors`: every error is one of the client, and outside strict mode a request for a
  registered type fails exactly when its query is too complex.
-/

namespace ResourceQuery

open Sql (Query)

/-! ### Fragments that fit -/

namespace Sql.Query

variable {q : Query}

/-- A query that only stages have worked on has no fragment but fitting ones. -/
theorem IsStaged.fits (h : q.IsStaged) : ∀ f ∈ q.fragments, f.Fits := by
  intro f hf
  obtain ⟨t, hfills, -⟩ := fitted_of_reads (Q := fun _ => True) h.clauses h.select f hf
  exact hfills.count

theorem build_succeeds (hvalid : q.validate = .ok ()) (hfits : ∀ f ∈ q.fragments, f.Fits) :
    ∃ s, q.build = .ok s :=
  (reports_build hvalid).succeeds hfits

theorem buildCount_succeeds (hvalid : q.validate = .ok ()) (hfits : ∀ f ∈ q.fragments, f.Fits) :
    ∃ s, q.buildCount = .ok s :=
  (reports_buildCount hvalid).succeeds fun _ hf => hfits _ (q.countFragments_subset hf)

end Sql.Query

/-! ### The statements of a prepared query -/

namespace PreparedQuery

variable (p : PreparedQuery)

/-- A page changes neither the size of a query nor its fragments. -/
theorem windowed_same :
    p.windowed.validate = p.query.validate ∧ p.windowed.fragments = p.query.fragments := by
  rw [windowed]
  split <;> exact ⟨rfl, rfl⟩

variable {p}

/-- A query whose fragments fit has its statements unless it is too complex. -/
theorem compile_of_fits (hfits : ∀ f ∈ p.query.fragments, f.Fits) :
    if p.query.TooComplex then ∃ e, e.isTooComplex = true ∧ p.compile = .error e
    else ∃ out, p.compile = .ok out := by
  obtain ⟨hvalidate, hfragments⟩ := p.windowed_same
  rw [compile_eq_windowed]
  split
  · next hcomplex =>
    obtain ⟨e, he, hinvalid⟩ := Query.validate_of_tooComplex hcomplex
    refine ⟨e, he, ?_⟩
    rw [Query.build, hvalidate, hinvalid]
    rfl
  · next hsmall =>
    have hvalid := Query.validate_of_not_tooComplex hsmall
    exact bind_succeeds (Query.build_succeeds (hvalidate.trans hvalid) (hfragments ▸ hfits))
      fun _ => bind_succeeds (Query.buildCount_succeeds hvalid hfits) fun _ => ⟨_, rfl⟩

end PreparedQuery

/-! ### Requests -/

theorem QueryError.isClientError_of_isRejection {e : QueryError} (h : e.isRejection = true) :
    e.isClientError = true := by
  cases e with
  | invalidPath | notAnAttribute | unsupportedRelation => rfl
  | unknownResourceType | sql | storage => cases h

/-- The limits on the size of a query are those of the settings. -/
def Config.Limits (config : Config) (q : Query) : Prop :=
  q.maxConditions = config.maxConditions ∧ q.maxJoins = config.maxJoins

/-- The joins and conditions of a query that stages work on are limited. -/
theorem keptByStages_limits (config : Config) : KeptByStages config.Limits where
  join q j hq := by
    rw [Query.join]
    split <;> exact hq
  restrict _ _ _ hq := hq
  groupBy _ _ _ hq := hq
  orderBy _ _ _ hq := hq
  load _ _ hq := hq
  makeDistinct _ hq := hq
  select _ _ _ hq := hq

namespace Compiler

variable {c : Compiler} {r : Request} {p : PreparedQuery} {e : QueryError}

/-- Preparing a request fails with a rejection or for its type. -/
theorem prepare_eq_error (h : c.prepare r = .error e) :
    e.isRejection = true ∨ e = .unknownResourceType r.base := by
  refine ((prepare_same c r).of_error h).imp_right fun hlenient => ?_
  cases hbase : c.registry.type? r.base with
  | none =>
      rw [prepare, show (c.withStrictness false).registry.type? r.base = none from hbase] at hlenient
      exact (Except.error.inj hlenient).symm
  | some base =>
      obtain ⟨p, hp⟩ := prepare_succeeds (c := c.withStrictness false) rfl hbase
      cases hp.symm.trans hlenient

/-- A prepared query has its statements unless it exceeds the limits of the settings. -/
theorem compile_of_prepared (hadjust : r.adjust = id) (h : c.prepare r = .ok p) :
    if c.config.maxConditions < p.query.predicates.length ∨ c.config.maxJoins < p.query.joins.length then
      ∃ e, e.isTooComplex = true ∧ c.compile r = .error (.sql e)
    else ∃ out, c.compile r = .ok out := by
  obtain ⟨hconditions, hjoins⟩ : c.config.Limits p.query :=
    prepare_keeps (keptByStages_limits c.config) hadjust h fun _ => ⟨rfl, rfl⟩
  have hparts := PreparedQuery.compile_of_fits (prepare_isStaged hadjust h).fits
  simp only [Query.TooComplex, hconditions, hjoins] at hparts
  split at hparts
  · next hcomplex =>
    obtain ⟨e, he, hfails⟩ := hparts
    rw [if_pos hcomplex, compile_of_prepare h, hfails]
    exact ⟨e, he, rfl⟩
  · next hsmall =>
    obtain ⟨out, hout⟩ := hparts
    rw [if_neg hsmall, compile_of_prepare h, hout]
    exact ⟨out, rfl⟩

/-- **The errors of a compilation.**  Unless a request changes the query itself, every error of its
compilation is one of the client, and no fragment has placeholders and parameters that do not match.
Outside strict mode every request for a registered type is prepared, and it is compiled unless its
query has more predicates or more joins than the settings allow; then the error says so. -/
theorem compile_errors (c : Compiler) (r : Request) (hadjust : r.adjust = id) :
    (∀ e, c.compile r = .error e → e.isClientError = true ∧
      ∀ sql placeholders params, e ≠ .sql (.placeholderMismatch sql placeholders params)) ∧
    (c.config.strictPaths = false → (c.registry.type? r.base).isSome = true →
      ∃ p, c.prepare r = .ok p ∧
        if c.config.maxConditions < p.query.predicates.length ∨
            c.config.maxJoins < p.query.joins.length then
          ∃ e, e.isTooComplex = true ∧ c.compile r = .error (.sql e)
        else ∃ out, c.compile r = .ok out) := by
  constructor
  · intro e he
    have hclient : e.isClientError = true := by
      cases hp : c.prepare r with
      | error e' =>
          rw [compile, hp] at he
          obtain rfl := Except.error.inj he
          rcases prepare_eq_error hp with hreject | rfl
          · exact QueryError.isClientError_of_isRejection hreject
          · rfl
      | ok p =>
          have hp := compile_of_prepared hadjust hp
          split at hp
          · obtain ⟨cause, hcause, hfails⟩ := hp
            obtain rfl := Except.error.inj (hfails.symm.trans he)
            exact hcause
          · obtain ⟨out, hout⟩ := hp
            cases hout.symm.trans he
    refine ⟨hclient, ?_⟩
    rintro sql placeholders params rfl
    cases hclient
  · intro hlenient hbase
    obtain ⟨base, hbase⟩ := Option.isSome_iff_exists.mp hbase
    obtain ⟨p, hp⟩ := prepare_succeeds hlenient hbase
    exact ⟨p, hp, compile_of_prepared hadjust hp⟩

/-- A filter over a relation where no joins are allowed, and two texts under one `like` where one predicate
is; one text is compiled. -/
theorem sizes_limited :
    (∃ e, e.isTooComplex = true ∧ Blog.joinlessCompiler.compile (Blog.filtered "author.firstName") =
      .error (.sql e)) ∧
    (∃ e, e.isTooComplex = true ∧ Blog.narrowCompiler.compile (Blog.titleLike "a,b") =
      .error (.sql e)) ∧
    ∃ out, Blog.narrowCompiler.compile (Blog.titleLike "a") = .ok out := by
  refine ⟨?_, ?_, ?_⟩
  · have htest : ((Blog.joinlessCompiler.prepare (Blog.filtered "author.firstName")).toOption.any
        fun p => p.query.joins.length = 1) = true := by decide +kernel
    obtain ⟨p, hp, hjoins⟩ := exists_ok_of_any htest
    obtain ⟨p', hp', hcompile⟩ := (compile_errors Blog.joinlessCompiler
      (Blog.filtered "author.firstName") rfl).2 rfl (by decide +kernel)
    obtain rfl := Except.ok.inj (hp.symm.trans hp')
    rwa [of_decide_eq_true hjoins, if_pos (.inr Nat.zero_lt_one)] at hcompile
  · have htest : ((Blog.narrowCompiler.prepare (Blog.titleLike "a,b")).toOption.any
        fun p => p.query.predicates.length = 2) = true := by decide +kernel
    obtain ⟨p, hp, hpredicates⟩ := exists_ok_of_any htest
    obtain ⟨p', hp', hcompile⟩ := (compile_errors Blog.narrowCompiler (Blog.titleLike "a,b") rfl).2 rfl
      (by decide +kernel)
    obtain rfl := Except.ok.inj (hp.symm.trans hp')
    rwa [of_decide_eq_true hpredicates, if_pos (.inl (by decide))] at hcompile
  · have htest : ((Blog.narrowCompiler.prepare (Blog.titleLike "a")).toOption.any
        fun p => p.query.predicates.length = 1 && p.query.joins.length = 0) = true := by decide +kernel
    obtain ⟨p, hp, hsmall⟩ := exists_ok_of_any htest
    obtain ⟨p', hp', hcompile⟩ := (compile_errors Blog.narrowCompiler (Blog.titleLike "a") rfl).2 rfl
      (by decide +kernel)
    obtain rfl := Except.ok.inj (hp.symm.trans hp')
    obtain ⟨hpredicates, hjoins⟩ := Bool.and_eq_true_iff.mp hsmall
    rwa [of_decide_eq_true hpredicates, of_decide_eq_true hjoins, if_neg (by decide)] at hcompile

end Compiler

end ResourceQuery
