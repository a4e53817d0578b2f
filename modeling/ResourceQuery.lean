import ResourceQuery.Document.Json
import ResourceQuery.Fetch
import ResourceQuery.Model.ColumnCache
import ResourceQuery.Model.Declaration
import ResourceQuery.Request.QueryString
import ResourceQuery.Sql.Outline
import ResourceQuery.Proofs.Compile.Stage
import ResourceQuery.Proofs.Except
import ResourceQuery.Proofs.Path.Leads
import ResourceQuery.Proofs.Path.Chain
import ResourceQuery.Proofs.Path.Resolution
import ResourceQuery.Proofs.Compile.DependencyTree
import ResourceQuery.Proofs.Compile.Joins
import ResourceQuery.Proofs.Compile.Scope
import ResourceQuery.Proofs.Blog
import ResourceQuery.Proofs.Compile.Fieldsets
import ResourceQuery.Proofs.Compile.Select
import ResourceQuery.Proofs.Sql.Lexer
import ResourceQuery.Proofs.Sql.TemplateTokens
import ResourceQuery.Proofs.Sql.Parts
import ResourceQuery.Proofs.Sql.StatementTokens
import ResourceQuery.Proofs.Sql.JsonTokens
import ResourceQuery.Proofs.Compile.Tokens
import ResourceQuery.Proofs.Sql.Numbering
import ResourceQuery.Proofs.Sql.Truth
import ResourceQuery.Proofs.Request.FilterTerms
import ResourceQuery.Proofs.Compile.FilterMeaning
import ResourceQuery.Proofs.Sql.Reports
import ResourceQuery.Proofs.Sql.Renderings
import ResourceQuery.Proofs.Compile.Star
import ResourceQuery.Proofs.Compile.Lenient
import ResourceQuery.Proofs.Request.Deletes
import ResourceQuery.Proofs.Compile.Dropped
import ResourceQuery.Proofs.Compile.Enumeration
import ResourceQuery.Proofs.Compile.Strictness
import ResourceQuery.Proofs.Compile.Errors
import ResourceQuery.Proofs.Compile.Junctions
import ResourceQuery.Proofs.Compile.Aliases
import ResourceQuery.Proofs.Sql.Masked
import ResourceQuery.Proofs.Compile.AlikeStages
import ResourceQuery.Proofs.Compile.FilterValues
import ResourceQuery.Proofs.Request.SameShape
import ResourceQuery.Proofs.Compile.JsonFilters
import ResourceQuery.Proofs.Request.Decoders
import ResourceQuery.Proofs.Request.Plain
import ResourceQuery.Proofs.Sql.Rename
import ResourceQuery.Proofs.Compile.RenamedConditions
import ResourceQuery.Proofs.Compile.RenamedKeys
import ResourceQuery.Proofs.Compile.BaseAlias
import ResourceQuery.Proofs.Model.JoinSides
import ResourceQuery.Proofs.Model.Registration
import ResourceQuery.Proofs.Model.TableEntries
import ResourceQuery.Proofs.Compile.Loads
import ResourceQuery.Proofs.Compile.RelationKeys
import ResourceQuery.Proofs.Compile.DistinctOrder
import ResourceQuery.Proofs.Request.Pushes
import ResourceQuery.Proofs.Compile.ValidSchema
import ResourceQuery.Proofs.Model.TableIndex
import ResourceQuery.Proofs.Sql.Formula
import ResourceQuery.Proofs.Sql.Predicates
import ResourceQuery.Proofs.Sql.WhereClause
import ResourceQuery.Proofs.Request.Reordered
import ResourceQuery.Proofs.Fetch
import ResourceQuery.Proofs.Compile.Accepted
import ResourceQuery.Proofs.Compile.JsonFields
import ResourceQuery.Proofs.Compile.ListedValues
import ResourceQuery.Proofs.Compile.MergedPaths
import ResourceQuery.Proofs.Page
import ResourceQuery.Proofs.Request.Keys
import ResourceQuery.Proofs.Request.Unknown
import ResourceQuery.Proofs.Request.Partners
import ResourceQuery.Proofs.Compile.Inverses
import ResourceQuery.Proofs.Compile.IncludedPaths
import ResourceQuery.Proofs.Compile.RangeFilters
import ResourceQuery.Proofs.Naming.Inflection
import ResourceQuery.Proofs.Model.Lookups
import ResourceQuery.Proofs.Sql.Mismatch
import ResourceQuery.Proofs.Sql.Identifiers
import ResourceQuery.Proofs.Sql.StatementNames
import ResourceQuery.Proofs.Sql.ReadNames
import ResourceQuery.Proofs.Naming.Columns
import ResourceQuery.Proofs.Model.DeclaredNames
import ResourceQuery.Proofs.Compile.KeyNames
import ResourceQuery.Proofs.Compile.Named
import ResourceQuery.Proofs.Naming.Words
import ResourceQuery.Proofs.Naming.SnakeCase
import ResourceQuery.Proofs.Compile.Spellings
import ResourceQuery.Proofs.Sql.ColumnText
import ResourceQuery.Proofs.Sql.Written
import ResourceQuery.Proofs.Request.Offered
import ResourceQuery.Compile.Remembered
import ResourceQuery.Proofs.Compile.Remembered
