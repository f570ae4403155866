import CodeSurvey.Command.Argument
import CodeSurvey.Command.Run
import CodeSurvey.Component
import CodeSurvey.Config.Basic
import CodeSurvey.Config.Document
import CodeSurvey.Config.Wire
import CodeSurvey.Decimal.Double
import CodeSurvey.Decimal.Shortest
import CodeSurvey.Directory.Glob
import CodeSurvey.Directory.Ignore
import CodeSurvey.Directory.Load
import CodeSurvey.Directory.Path
import CodeSurvey.Directory.Tree
import CodeSurvey.Directory.Walk
import CodeSurvey.Endpoint.Detection
import CodeSurvey.Endpoint.Route
import CodeSurvey.Grammar.Class
import CodeSurvey.Grammar.Dialect
import CodeSurvey.Grammar.Expression
import CodeSurvey.Grammar.Form
import CodeSurvey.Grammar.Lexeme
import CodeSurvey.Grammar.Markup
import CodeSurvey.Grammar.Module
import CodeSurvey.Grammar.Parse
import CodeSurvey.Grammar.Reading
import CodeSurvey.Grammar.Repair
import CodeSurvey.Grammar.Semicolon
import CodeSurvey.Grammar.Statement
import CodeSurvey.Grammar.Trivia
import CodeSurvey.Grammar.Type
import CodeSurvey.Json.Decode
import CodeSurvey.Json.Parser
import CodeSurvey.Json.Printer
import CodeSurvey.Json.Value
import CodeSurvey.Language
import CodeSurvey.Main
import CodeSurvey.Proofs.AmbientExports
import CodeSurvey.Proofs.Ancestors
import CodeSurvey.Proofs.Batch
import CodeSurvey.Proofs.Bindings
import CodeSurvey.Proofs.CanonicalRoute
import CodeSurvey.Proofs.Comment
import CodeSurvey.Proofs.CommentedRecords
import CodeSurvey.Proofs.Complexity
import CodeSurvey.Proofs.Consistency
import CodeSurvey.Proofs.Contribution
import CodeSurvey.Proofs.DeclaredNames
import CodeSurvey.Proofs.Discovery
import CodeSurvey.Proofs.ExportShape
import CodeSurvey.Proofs.ExportedDeclaration
import CodeSurvey.Proofs.ExportedRecords
import CodeSurvey.Proofs.Extraction
import CodeSurvey.Proofs.FileExtension
import CodeSurvey.Proofs.FirstFault
import CodeSurvey.Proofs.IgnoreFaults
import CodeSurvey.Proofs.IgnoreFiles
import CodeSurvey.Proofs.Insertion
import CodeSurvey.Proofs.Interruption
import CodeSurvey.Proofs.JsonRecord
import CodeSurvey.Proofs.JsonRoundTrip
import CodeSurvey.Proofs.JsonToken
import CodeSurvey.Proofs.LastPlace
import CodeSurvey.Proofs.Layout
import CodeSurvey.Proofs.LeadingDot
import CodeSurvey.Proofs.LiteralNames
import CodeSurvey.Proofs.Matching
import CodeSurvey.Proofs.ModuleExports
import CodeSurvey.Proofs.MovedTree
import CodeSurvey.Proofs.NestedArrows
import CodeSurvey.Proofs.NextToken
import CodeSurvey.Proofs.Outcome
import CodeSurvey.Proofs.ParameterShape
import CodeSurvey.Proofs.Parameters
import CodeSurvey.Proofs.Path
import CodeSurvey.Proofs.PatternShape
import CodeSurvey.Proofs.Place
import CodeSurvey.Proofs.PlainReading
import CodeSurvey.Proofs.Preorder
import CodeSurvey.Proofs.QuotedLiteral
import CodeSurvey.Proofs.Ranking
import CodeSurvey.Proofs.RecordLines
import CodeSurvey.Proofs.RouteGroup
import CodeSurvey.Proofs.RouteParts
import CodeSurvey.Proofs.RouteSegment
import CodeSurvey.Proofs.Schedule
import CodeSurvey.Proofs.SearchedPlaces
import CodeSurvey.Proofs.Separators
import CodeSurvey.Proofs.Settings
import CodeSurvey.Proofs.SizeLimit
import CodeSurvey.Proofs.Sorted
import CodeSurvey.Proofs.SourceContents
import CodeSurvey.Proofs.StatementShape
import CodeSurvey.Proofs.Surroundings
import CodeSurvey.Proofs.Survey
import CodeSurvey.Proofs.SurveyRoundTrip
import CodeSurvey.Proofs.TiledReading
import CodeSurvey.Proofs.Tiling
import CodeSurvey.Proofs.TokenEnd
import CodeSurvey.Proofs.TotalComplexity
import CodeSurvey.Proofs.TreeShape
import CodeSurvey.Proofs.Walk
import CodeSurvey.Proofs.Weight
import CodeSurvey.Record.Anchor
import CodeSurvey.Record.Basic
import CodeSurvey.Record.Binding
import CodeSurvey.Record.Class
import CodeSurvey.Record.Complexity
import CodeSurvey.Record.Export
import CodeSurvey.Record.Extraction
import CodeSurvey.Record.File
import CodeSurvey.Record.Function
import CodeSurvey.Record.Import
import CodeSurvey.Record.Wire
import CodeSurvey.Report.Format
import CodeSurvey.Report.Hotspot
import CodeSurvey.Report.Table
import CodeSurvey.Report.Terminal
import CodeSurvey.Repository.Architecture
import CodeSurvey.Repository.Batch
import CodeSurvey.Repository.Dependency
import CodeSurvey.Repository.Manifest
import CodeSurvey.Repository.Survey
import CodeSurvey.Repository.Wire
import CodeSurvey.Syntax.Cursor
import CodeSurvey.Syntax.Fault
import CodeSurvey.Syntax.Kind
import CodeSurvey.Syntax.Source
import CodeSurvey.Syntax.Tree
import CodeSurvey.Text.LetterCase
import CodeSurvey.Text.Lowercase
import CodeSurvey.Text.Ranges
import CodeSurvey.Text.Sorted
import CodeSurvey.Text.Split
import CodeSurvey.Text.Whitespace
import CodeSurvey.Text.Width
import CodeSurvey.Toml.Document
import CodeSurvey.Toml.Scalar
import CodeSurvey.Toml.Value
