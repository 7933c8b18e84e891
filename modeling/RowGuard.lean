import RowGuard.Arguments
import RowGuard.Command
import RowGuard.Comparison
import RowGuard.Decimal.FloatText
import RowGuard.Decimal.Shortest
import RowGuard.Evaluation.Decision
import RowGuard.Evaluation.Fixture
import RowGuard.Evaluation.Session
import RowGuard.Evaluation.Store
import RowGuard.Evaluation.Walk
import RowGuard.Expression.Basic
import RowGuard.Expression.Json
import RowGuard.Graph.Basic
import RowGuard.Graph.Shortest
import RowGuard.Graph.Simple
import RowGuard.Json.Basic
import RowGuard.Json.Document
import RowGuard.Json.Number
import RowGuard.Json.Parser
import RowGuard.Json.Printer
import RowGuard.Main
import RowGuard.Path.Basic
import RowGuard.Path.Dotted
import RowGuard.Path.Json
import RowGuard.Policy
import RowGuard.Proofs.Evaluation.Ancestors
import RowGuard.Proofs.Evaluation.Coherence
import RowGuard.Proofs.Evaluation.Returns
import RowGuard.Proofs.Evaluation.Tables
import RowGuard.Proofs.Policy.Agreement
import RowGuard.Proofs.Policy.Restriction
import RowGuard.Proofs.Query.Assignment
import RowGuard.Proofs.Query.Combination
import RowGuard.Proofs.Query.Functional
import RowGuard.Proofs.Query.Joins
import RowGuard.Proofs.Query.Reordering
import RowGuard.Proofs.Query.Rows
import RowGuard.Proofs.Query.Sameness
import RowGuard.Proofs.Query.Together
import RowGuard.Proofs.Query.Truth
import RowGuard.Proofs.Scope.Admission
import RowGuard.Proofs.Scope.Agreement
import RowGuard.Proofs.Scope.Aliases
import RowGuard.Proofs.Scope.Chain
import RowGuard.Proofs.Scope.Closure
import RowGuard.Proofs.Scope.Compilation
import RowGuard.Proofs.Scope.Intersection
import RowGuard.Proofs.Scope.Lineage
import RowGuard.Proofs.Scope.Union
import RowGuard.Proofs.Value.Atom
import RowGuard.Proofs.Value.Congruence
import RowGuard.Proofs.Value.Operands
import RowGuard.Query.Basic
import RowGuard.Query.Fragment
import RowGuard.Query.Json
import RowGuard.Query.Sql
import RowGuard.Report
import RowGuard.Schema.Basic
import RowGuard.Schema.Entity
import RowGuard.Schema.Json
import RowGuard.Scope.Binder
import RowGuard.Scope.Compiler
import RowGuard.Scope.FilterValue
import RowGuard.Settings
import RowGuard.Text.Blank
import RowGuard.Text.CodeRanges
import RowGuard.Text.Quoted
import RowGuard.Text.Table
import RowGuard.Text.Unprintable
import RowGuard.Text.Uppercase
import RowGuard.Text.Width
import RowGuard.Text.Width.Basic
import RowGuard.Text.Width.Emoji
import RowGuard.Text.Width.Follower
import RowGuard.Text.Width.Ligature
import RowGuard.Text.Width.Wide
import RowGuard.Text.Width.Zero
import RowGuard.Value.Basic
import RowGuard.Value.Display
import RowGuard.Value.Equality
import RowGuard.Value.Json
import RowGuard.Value.Tagged
import RowGuard.Proofs.Evaluation.Script
import RowGuard.Proofs.Scope.Alternatives
import RowGuard.Proofs.Evaluation.Memoization
import RowGuard.Proofs.Evaluation.History
import RowGuard.Proofs.Evaluation.Limits
import RowGuard.Proofs.Graph.Search
import RowGuard.Proofs.Graph.Ancestry
import RowGuard.Proofs.Graph.Cheapest
import RowGuard.Proofs.Scope.Wildcard
import RowGuard.Proofs.Evaluation.Offline
import RowGuard.Proofs.Evaluation.Composition
import RowGuard.Proofs.Query.Lexing
import RowGuard.Proofs.Query.Conditions
import RowGuard.Proofs.Query.Carried
import RowGuard.Proofs.Query.Placeholders
import RowGuard.Proofs.Scope.Leaves
import RowGuard.Proofs.Value.Literals
import RowGuard.Proofs.Evaluation.Tracks
import RowGuard.Proofs.Scope.Tracks
import RowGuard.Proofs.Scope.Decisions
import RowGuard.Proofs.Evaluation.Simulation
import RowGuard.Proofs.Evaluation.Reproducible
import RowGuard.Proofs.Policy.Authorization
import RowGuard.Proofs.Scope.Failures
import RowGuard.Proofs.Scope.NullChecks
import RowGuard.Proofs.Scope.Identities
import RowGuard.Proofs.Graph.SimplePaths
import RowGuard.Proofs.Scope.Course
import RowGuard.Proofs.Scope.ForeignKeys
import RowGuard.Proofs.Evaluation.Gathering
import RowGuard.Proofs.Evaluation.Totality
import RowGuard.Proofs.Evaluation.Preloading
import RowGuard.Proofs.Evaluation.Columns
import RowGuard.Proofs.Value.Equivalence
import RowGuard.Proofs.Query.Accumulation
import RowGuard.Proofs.Scope.Negation
import RowGuard.Proofs.Value.Ordering
import RowGuard.Proofs.Evaluation.Inverses
import RowGuard.Proofs.Json.Number
import RowGuard.Proofs.Json.Members
import RowGuard.Proofs.Value.Reencoding
import RowGuard.Proofs.Text.Delimited
import RowGuard.Proofs.Text.Quoted
import RowGuard.Proofs.Decimal.Shortest
import RowGuard.Proofs.Decimal.FloatText
import RowGuard.Proofs.Value.Inspect
import RowGuard.Proofs.Evaluation.Keys
import RowGuard.Graph.Construction
import RowGuard.Proofs.Repetition
import RowGuard.Proofs.Json.Order
import RowGuard.Proofs.Expression.Roundtrip
import RowGuard.Proofs.Text.Blank
import RowGuard.Proofs.Path.Dotted
import RowGuard.Proofs.Text.Numeral
import RowGuard.Proofs.Command.Subject
import RowGuard.Proofs.Graph.Bounds
import RowGuard.Proofs.Graph.Construction
import RowGuard.Proofs.Graph.Mirror
import RowGuard.Proofs.Schema.Catalog
