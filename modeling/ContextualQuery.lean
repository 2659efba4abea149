import ContextualQuery.Calendar
import ContextualQuery.Catalog.Basic
import ContextualQuery.Catalog.FieldType
import ContextualQuery.Catalog.Notation
import ContextualQuery.Catalog.Resolution
import ContextualQuery.Catalog.Validity
import ContextualQuery.CommandLine.Arguments
import ContextualQuery.CommandLine.Command
import ContextualQuery.CommandLine.Help
import ContextualQuery.CommandLine.Options
import ContextualQuery.CommandLine.Report
import ContextualQuery.CommandLine.Session
import ContextualQuery.Dictionary
import ContextualQuery.Json.Basic
import ContextualQuery.Json.Fields
import ContextualQuery.Json.Reading
import ContextualQuery.Json.Scalar
import ContextualQuery.Json.Shape
import ContextualQuery.Json.Skipping
import ContextualQuery.Json.Writing
import ContextualQuery.Main
import ContextualQuery.Mask
import ContextualQuery.Number.Binary
import ContextualQuery.Number.Decimal
import ContextualQuery.Page
import ContextualQuery.Plan.Basic
import ContextualQuery.Plan.Fault
import ContextualQuery.Plan.Operand
import ContextualQuery.Plan.Requests
import ContextualQuery.Predicate.Basic
import ContextualQuery.Predicate.Notation
import ContextualQuery.Predicate.Path
import ContextualQuery.Proofs.Calendar
import ContextualQuery.Proofs.Composition
import ContextualQuery.Proofs.Encoding
import ContextualQuery.Proofs.Grammar
import ContextualQuery.Proofs.Identifiers
import ContextualQuery.Proofs.Instants
import ContextualQuery.Proofs.JsonTexts
import ContextualQuery.Proofs.Lexing
import ContextualQuery.Proofs.Masks
import ContextualQuery.Proofs.Mirroring
import ContextualQuery.Proofs.Ordering
import ContextualQuery.Proofs.Paging
import ContextualQuery.Proofs.ParserRules
import ContextualQuery.Proofs.Parsing
import ContextualQuery.Proofs.Places
import ContextualQuery.Proofs.Planning
import ContextualQuery.Proofs.Quoting
import ContextualQuery.Proofs.Reading
import ContextualQuery.Proofs.Remembering
import ContextualQuery.Proofs.Rereading
import ContextualQuery.Proofs.Results
import ContextualQuery.Proofs.Rounding
import ContextualQuery.Proofs.SchemaFiles
import ContextualQuery.Proofs.Slicing
import ContextualQuery.Proofs.TextOrder
import ContextualQuery.Proofs.Typing
import ContextualQuery.Proofs.WellFormed
import ContextualQuery.Query.Fault
import ContextualQuery.Query.Filter
import ContextualQuery.Query.Lexer
import ContextualQuery.Query.Lookahead
import ContextualQuery.Query.Parser
import ContextualQuery.Query.Token
import ContextualQuery.Query.Vocabulary
import ContextualQuery.Record.Basic
import ContextualQuery.Record.Reading
import ContextualQuery.Register
import ContextualQuery.Repository
import ContextualQuery.Resolver
import ContextualQuery.Settings
import ContextualQuery.Store.Answering
import ContextualQuery.Store.Basic
import ContextualQuery.Store.Loading
import ContextualQuery.Store.Matching
import ContextualQuery.Store.Sorting
import ContextualQuery.Store.Values
import ContextualQuery.Temporal
import ContextualQuery.Text.Blank
import ContextualQuery.Text.Diagnostic
import ContextualQuery.Text.LetterCase
import ContextualQuery.Text.Parsed
import ContextualQuery.Text.Quoted
import ContextualQuery.Text.Span
import ContextualQuery.Uuid
import ContextualQuery.Value.Basic
import ContextualQuery.Value.Notation
import ContextualQuery.Value.Order
import ContextualQuery.Proofs.Scanning
import ContextualQuery.Proofs.LikePatterns
import ContextualQuery.Proofs.Joins
import ContextualQuery.Proofs.LetterCase
import ContextualQuery.Proofs.IgnoringCase
import ContextualQuery.Proofs.SortedRows
import ContextualQuery.Proofs.Resolving
import ContextualQuery.Proofs.LiteralTerms
import ContextualQuery.Proofs.RelationSymbols
import ContextualQuery.Proofs.Links
import ContextualQuery.Proofs.Lexemes
import ContextualQuery.Proofs.Layout
import ContextualQuery.Proofs.Phrases
import ContextualQuery.Proofs.Pasting
import ContextualQuery.Proofs.Variants
import ContextualQuery.Proofs.Runs
import ContextualQuery.Proofs.FilterPlaces
import ContextualQuery.Proofs.Pushdown
import ContextualQuery.Proofs.Nesting
import ContextualQuery.Proofs.UnknownEntities
import ContextualQuery.Proofs.DataFiles
import ContextualQuery.Proofs.QueryGrammar
import ContextualQuery.Proofs.Routes
import ContextualQuery.Proofs.Ranges
import ContextualQuery.Proofs.Carets
import ContextualQuery.Proofs.Sentences
import ContextualQuery.Proofs.Cursors
