import QueryGate.AllowList
import QueryGate.AllowListSource
import QueryGate.CacheSession
import QueryGate.Calendar
import QueryGate.Catalog
import QueryGate.Clock
import QueryGate.Command
import QueryGate.Command.Failure
import QueryGate.Command.Invocation
import QueryGate.Command.Option
import QueryGate.Connection
import QueryGate.Database
import QueryGate.Database.Cell
import QueryGate.Dialect
import QueryGate.Event
import QueryGate.Executor
import QueryGate.Gate
import QueryGate.Json
import QueryGate.Json.Reader
import QueryGate.Json.Writer
import QueryGate.Main
import QueryGate.Number.Binary
import QueryGate.Number.Shortest
import QueryGate.Offence
import QueryGate.Proofs.Acceptance
import QueryGate.Proofs.BoundedStaleness
import QueryGate.Proofs.CacheHistory
import QueryGate.Proofs.CapSearch
import QueryGate.Proofs.CappedText
import QueryGate.Proofs.Effects
import QueryGate.Proofs.ExecutorPlan
import QueryGate.Proofs.ExpiringCache
import QueryGate.Proofs.Grammar.Queries
import QueryGate.Proofs.Grammar.Sources
import QueryGate.Proofs.Grammar.Terms
import QueryGate.Proofs.Grammar.Uniform
import QueryGate.Proofs.History
import QueryGate.Proofs.LexicalScope
import QueryGate.Proofs.Lexing.Delimited
import QueryGate.Proofs.Lexing.Front
import QueryGate.Proofs.Lexing.Kinds
import QueryGate.Proofs.Lexing.Numbers
import QueryGate.Proofs.Lexing.Operators
import QueryGate.Proofs.Lexing.Phrases
import QueryGate.Proofs.Lexing.Rewritten
import QueryGate.Proofs.Lexing.Scans
import QueryGate.Proofs.Lexing.Step
import QueryGate.Proofs.Location
import QueryGate.Proofs.LookupsInFlight
import QueryGate.Proofs.Offences
import QueryGate.Proofs.Outcome
import QueryGate.Proofs.ReadOnly
import QueryGate.Proofs.Rewriting
import QueryGate.Proofs.RoundTrip
import QueryGate.Proofs.RowCap
import QueryGate.Proofs.CommentReadings
import QueryGate.Proofs.TableScope
import QueryGate.Proofs.TableUse
import QueryGate.Proofs.Trimmed
import QueryGate.Rejection
import QueryGate.Relations
import QueryGate.RowLimit
import QueryGate.Rules
import QueryGate.Settings
import QueryGate.Settings.Document
import QueryGate.SourceCalls
import QueryGate.SourceSession
import QueryGate.Sql.Lexer
import QueryGate.Sql.Lexer.Comment
import QueryGate.Sql.Lexer.Fault
import QueryGate.Sql.Lexer.Number
import QueryGate.Sql.Lexer.Operator
import QueryGate.Sql.Lexer.Quoted
import QueryGate.Sql.Location
import QueryGate.Sql.Parser
import QueryGate.Sql.Parser.Basic
import QueryGate.Sql.Parser.Change
import QueryGate.Sql.Parser.DataType
import QueryGate.Sql.Parser.Power
import QueryGate.Sql.Parser.Query
import QueryGate.Sql.Parser.Reserved
import QueryGate.Sql.Parser.Source
import QueryGate.Sql.Parser.Term
import QueryGate.Sql.Token
import QueryGate.Sql.Tree
import QueryGate.TableName
import QueryGate.Text.Alphanumeric
import QueryGate.Text.Blank
import QueryGate.Text.Case
import QueryGate.Text.CaseTable
import QueryGate.Text.CodeRange
import QueryGate.Text.Count
import QueryGate.Text.Shown
import QueryGate.TtlCache
import QueryGate.Vocabulary
import QueryGate.Yaml.Cursor
import QueryGate.Yaml.Layout
import QueryGate.Yaml.Node
import QueryGate.Yaml.Scalar
import QueryGate.Yaml.Writer
import QueryGate.Proofs.DeliveredRows
import QueryGate.Proofs.FirstLookup
import QueryGate.Proofs.LimitGrammar
import QueryGate.Proofs.OffenceSearch
import QueryGate.Proofs.PolicyAgreement
import QueryGate.Proofs.RowObjects
import QueryGate.Proofs.TableSpelling
import QueryGate.Proofs.Tightening
import QueryGate.Proofs.BrokenTail
import QueryGate.Proofs.CatalogList
import QueryGate.Proofs.Grammar.Selections
import QueryGate.Proofs.NameSpelling
import QueryGate.Proofs.LogContent
import QueryGate.Proofs.SettingsRoundTrip
