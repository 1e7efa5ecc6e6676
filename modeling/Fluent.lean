import Fluent.Text.Cursor
import Fluent.Text.Blank
import Fluent.Number.DecimalReader
import Fluent.Number.FloatText
import Fluent.Number.FloatReader
import Fluent.Tree.Equality
import Fluent.Grammar.Token
import Fluent.Grammar.Quoted
import Fluent.Tree.Checked
import Fluent.Number.DecimalFloat
import Fluent.Grammar.Literal
import Fluent.Grammar.Comment
import Fluent.Grammar.Layout
import Fluent.Grammar.Expression
import Fluent.Grammar.Pattern
import Fluent.Grammar.Entry
import Fluent.Resource.Parse
import Fluent.Json.Print
import Fluent.Tree.Encode
import Fluent.Resource.Print
import Fluent.Resource.Diagnostic
import Fluent.Format.Value
import Fluent.Format.Failure
import Fluent.Format.Isolation
import Fluent.Format.Catalog
import Fluent.Locale.Plural
import Fluent.Format.NumberFunction
import Fluent.Format.Formatter
import Fluent.Format.Resolve
import Fluent.Format.DepthBalance
import Fluent.Tree.Decode
import Fluent.Json.Reader
import Fluent.Settings.Decode
import Fluent.Proofs.Grammar.Limits
import Fluent.Proofs.Resource.Accounting
import Fluent.Proofs.Grammar.Strings
import Fluent.Proofs.Grammar.Arguments
import Fluent.Proofs.Resource.Attachment
import Fluent.Proofs.Resource.RoundTrip
import Fluent.Proofs.Grammar.Placeables
import Fluent.Proofs.Grammar.Variants
import Fluent.Proofs.Grammar.Braces
import Fluent.Proofs.Resource.SpacedEntries
import Fluent.Proofs.Format.DepthGuard
import Fluent.Proofs.Format.Room
import Fluent.Proofs.Resource.NestingLimit
import Fluent.Proofs.Resource.ErrorLimit
import Fluent.Proofs.Resource.JsonRoundTrip
import Fluent.Proofs.Format.TermIsolation
import Fluent.Proofs.Format.IdealFormat
import Fluent.Proofs.Resource.CommentPlacement
import Fluent.Proofs.Format.References
import Fluent.Proofs.Format.Moments
import Fluent.Proofs.Format.Trail
import Fluent.Proofs.Format.Permits
import Fluent.Proofs.Format.CycleDetection
import Fluent.Proofs.Grammar.Levels
import Fluent.Proofs.Resource.PatternLevels
import Fluent.Proofs.Format.Affordable
import Fluent.Proofs.Format.RaisedLimit
import Fluent.Proofs.Format.Reporting
import Fluent.Proofs.Format.Locality
import Fluent.Proofs.Grammar.IndentedLines
import Fluent.Proofs.Format.Subtrees
import Fluent.Proofs.Format.Marks
import Fluent.Proofs.Format.Mirrors
import Fluent.Proofs.Format.MarksApart
import Fluent.Proofs.Format.Presentation
import Fluent.Proofs.Grammar.DeepenedRules
import Fluent.Proofs.Resource.DeepenedEntry
import Fluent.Proofs.Resource.EscapedValue
import Fluent.Proofs.Number.NumberTokens
import Fluent.Proofs.Resource.WrittenValue
import Fluent.Proofs.Resource.AnnotationSpans
import Fluent.Proofs.Format.Containment
import Fluent.Proofs.Grammar.CommentRoundTrip
import Fluent.Proofs.Resource.LineEnds
import Fluent.Proofs.Format.NestedMarks
import Fluent.Proofs.Format.VariantOrder
import Fluent.Proofs.Format.NamedValues
import Fluent.Proofs.Format.FirstDefinitions
import Fluent.Proofs.Grammar.StringLength
import Fluent.Proofs.Grammar.Progress
import Fluent.Proofs.Text.Steps
