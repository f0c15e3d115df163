import SqlDialects.Dialect.Builtin
import SqlDialects.Dialect.Grammar
import SqlDialects.Dialect.Registry
import SqlDialects.Fragment.Call
import SqlDialects.Fragment.Quoting
import SqlDialects.Fragment.Scan
import SqlDialects.Logging
import SqlDialects.Proofs.Aggregate.BasicCall
import SqlDialects.Proofs.Aggregate.Calls
import SqlDialects.Proofs.Aggregate.Change
import SqlDialects.Proofs.Aggregate.Lines
import SqlDialects.Proofs.Aggregate.Patterns
import SqlDialects.Proofs.Aggregate.Quoted
import SqlDialects.Proofs.Aggregate.Renamed
import SqlDialects.Proofs.Aggregate.Spans
import SqlDialects.Proofs.BooleanLiteral.Occurrences
import SqlDialects.Proofs.BooleanLiteral.Pattern
import SqlDialects.Proofs.BooleanLiteral.Repetition
import SqlDialects.Proofs.Call.Arguments
import SqlDialects.Proofs.Call.Closing
import SqlDialects.Proofs.Call.Independence
import SqlDialects.Proofs.Call.Openings
import SqlDialects.Proofs.Call.Positions
import SqlDialects.Proofs.Call.Renaming
import SqlDialects.Proofs.Dialect.LastWrite
import SqlDialects.Proofs.Expression.Grammar
import SqlDialects.Proofs.Expression.Joining
import SqlDialects.Proofs.Expression.Layout
import SqlDialects.Proofs.FieldConcat.Change
import SqlDialects.Proofs.FieldConcat.Composition
import SqlDialects.Proofs.FieldConcat.Edits
import SqlDialects.Proofs.FieldConcat.Induction
import SqlDialects.Proofs.FieldConcat.Reading
import SqlDialects.Proofs.FieldConcat.Repetition
import SqlDialects.Proofs.FieldConcat.Unclosed
import SqlDialects.Proofs.FieldConcat.Words
import SqlDialects.Proofs.Formula.Grammar
import SqlDialects.Proofs.Formula.Grouping
import SqlDialects.Proofs.Formula.Joining
import SqlDialects.Proofs.NullCoalesce.Pattern
import SqlDialects.Proofs.NullCoalesce.Renamed
import SqlDialects.Proofs.NullCoalesce.Signs
import SqlDialects.Proofs.Reading.Depth
import SqlDialects.Proofs.Reading.Order
import SqlDialects.Proofs.Reading.Plain
import SqlDialects.Proofs.Reading.Quoted
import SqlDialects.Proofs.Reading.Scan
import SqlDialects.Proofs.Reading.Substitution
import SqlDialects.Proofs.Reading.Traces
import SqlDialects.Proofs.Reading.Words
import SqlDialects.Proofs.Schema.History
import SqlDialects.Proofs.Schema.Interleaving
import SqlDialects.Proofs.Schema.StrictMode
import SqlDialects.Proofs.Schema.Timestamps
import SqlDialects.Proofs.Schema.Turns
import SqlDialects.Proofs.Text.Blank
import SqlDialects.Proofs.Text.Keyword
import SqlDialects.Proofs.Text.Substitution
import SqlDialects.Proofs.Translation.Agreement
import SqlDialects.Proofs.Translation.Basic
import SqlDialects.Proofs.Translation.Commutation
import SqlDialects.Proofs.Translation.LongerNames
import SqlDialects.Proofs.Translation.Needs
import SqlDialects.Proofs.Translation.OnePass
import SqlDialects.Proofs.Translation.ParserCalls
import SqlDialects.Proofs.Translation.Progress
import SqlDialects.Proofs.Translation.Quoted
import SqlDialects.Proofs.Translation.Stability
import SqlDialects.Proofs.Translation.Validation
import SqlDialects.Proofs.Translation.WellFormed
import SqlDialects.Rule.Aggregate
import SqlDialects.Rule.BooleanLiteral
import SqlDialects.Rule.FieldConcat
import SqlDialects.Rule.NullCoalesce
import SqlDialects.Rule.Pipeline
import SqlDialects.Schema.Admin
import SqlDialects.Schema.Connection
import SqlDialects.Settings.Basic
import SqlDialects.Settings.EnvFile
import SqlDialects.Settings.Value
import SqlDialects.Setup
import SqlDialects.Text.Keyword
import SqlDialects.Text.Lowercase
import SqlDialects.Text.Quoted
import SqlDialects.Text.Substitution
import SqlDialects.Text.Uppercase
import SqlDialects.Text.Word
import SqlDialects.Trace
import SqlDialects.Translator
import SqlDialects.Validation
