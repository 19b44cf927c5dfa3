import Rollforward.Collection.Distinct
import Rollforward.Collection.OrderedMap
import Rollforward.Decimal.Binary
import Rollforward.Decimal.Numeral
import Rollforward.Decimal.Shortest
import Rollforward.Decimal.Text
import Rollforward.Evaluation.Basic
import Rollforward.Evaluation.Cancellation
import Rollforward.Evaluation.Error
import Rollforward.Formula.Expr
import Rollforward.Formula.Fault
import Rollforward.Formula.Lexer
import Rollforward.Formula.Offset
import Rollforward.Formula.Parser
import Rollforward.Formula.Reference
import Rollforward.Formula.Scan
import Rollforward.Formula.Token
import Rollforward.Graph.Basic
import Rollforward.Graph.Order
import Rollforward.Json.Field
import Rollforward.Json.Quantity
import Rollforward.Json.Reader
import Rollforward.Json.Value
import Rollforward.Json.Writer
import Rollforward.Options
import Rollforward.Period.Basic
import Rollforward.Period.Calculate
import Rollforward.Period.Cancellation
import Rollforward.Provider.Basic
import Rollforward.Provider.Domain
import Rollforward.Provider.RawInput
import Rollforward.Provider.Statement
import Rollforward.Registry.Basic
import Rollforward.Registry.Standard
import Rollforward.Rule.Basic
import Rollforward.Rule.Check
import Rollforward.Rule.Violation
import Rollforward.Run.Basic
import Rollforward.Run.Execute
import Rollforward.Run.Report
import Rollforward.Snapshot.Basic
import Rollforward.Snapshot.Json
import Rollforward.Statement.Basic
import Rollforward.Statement.Compile
import Rollforward.Statement.Impact
import Rollforward.Statement.Trace
import Rollforward.Template.Basic
import Rollforward.Template.Json
import Rollforward.Text.Basic
import Rollforward.Text.Visible
import Rollforward.Time.Clock
import Rollforward.Time.Context
import Rollforward.Proofs.Formula.Grammar
import Rollforward.Proofs.Formula.Unambiguous
import Rollforward.Proofs.Formula.Offset
import Rollforward.Proofs.Formula.Reading
import Rollforward.Proofs.Formula.Lookahead
import Rollforward.Proofs.Formula.Viable
import Rollforward.Proofs.Formula.Soundness
import Rollforward.Proofs.Formula.Completeness
import Rollforward.Proofs.Formula.Parse
import Rollforward.Proofs.Formula.Place
import Rollforward.Proofs.Formula.Failure
import Rollforward.Proofs.Formula.Scan
import Rollforward.Proofs.Evaluation.Locality
import Rollforward.Proofs.Collection.OrderedMap
import Rollforward.Proofs.Graph.Basic
import Rollforward.Proofs.Graph.Additions
import Rollforward.Proofs.Graph.Order
import Rollforward.Proofs.Graph.Cycle
import Rollforward.Proofs.Graph.Loop
import Rollforward.Proofs.Graph.Least
import Rollforward.Proofs.Graph.Counting
import Rollforward.Proofs.Graph.Passes
import Rollforward.Proofs.Statement.Basic
import Rollforward.Proofs.Statement.Compile
import Rollforward.Proofs.Statement.WellFormed
import Rollforward.Proofs.Statement.Part
import Rollforward.Proofs.Period.Fill
import Rollforward.Proofs.Period.Cancellation
import Rollforward.Proofs.Period.RuleView
import Rollforward.Proofs.Period.Turn
import Rollforward.Proofs.Period.Failure
import Rollforward.Proofs.Period.Solvable
import Rollforward.Proofs.Period.Part
import Rollforward.Proofs.Provider.Claims
import Rollforward.Proofs.Period.Resolution
import Rollforward.Proofs.Provider.Target
import Rollforward.Proofs.Run.History
import Rollforward.Proofs.Graph.Reach
import Rollforward.Proofs.Statement.Impact
import Rollforward.Proofs.Period.Impact
import Rollforward.Proofs.Evaluation.Correspondence
import Rollforward.Proofs.Evaluation.Agreement
import Rollforward.Proofs.Period.Correspondence
import Rollforward.Proofs.Period.Alike
import Rollforward.Proofs.Provider.RawInput
import Rollforward.Proofs.Run.Simulation
import Rollforward.Proofs.Run.Alike
import Rollforward.Proofs.Run.RawInputs
import Rollforward.Proofs.Run.Prefix
import Rollforward.Proofs.Period.Closing
import Rollforward.Proofs.Rule.Verdict
import Rollforward.Proofs.Run.Verdict
import Rollforward.Proofs.Run.Report
import Rollforward.Proofs.Run.Padding
import Rollforward.Proofs.Run.Part
import Rollforward.Proofs.Run.Reordering
import Rollforward.Proofs.Provider.Disjoint
import Rollforward.Proofs.Run.Calendar
import Rollforward.Proofs.Provider.Translation
import Rollforward.Proofs.Run.Translation
import Rollforward.Proofs.Run.Stepwise
import Rollforward.Proofs.Run.Strict
import Rollforward.Proofs.Run.Cancellation
import Rollforward.Proofs.Decimal.Finite
import Rollforward.Proofs.Decimal.Rounding
import Rollforward.Proofs.Decimal.Digits
import Rollforward.Proofs.Formula.Literal
import Rollforward.Proofs.Evaluation.Finite
import Rollforward.Proofs.Period.Finite
import Rollforward.Proofs.Decimal.Spelling
import Rollforward.Proofs.Decimal.Quotient
import Rollforward.Proofs.Json.Reader
import Rollforward.Proofs.Json.Text
import Rollforward.Proofs.Json.Field
import Rollforward.Proofs.Json.Quantity
import Rollforward.Proofs.Json.RoundTrip
import Rollforward.Proofs.Statement.Edges
import Rollforward.Proofs.Formula.References
import Rollforward.Proofs.Run.Clock
import Rollforward.Proofs.Text.Run
import Rollforward.Proofs.Formula.Lexis
import Rollforward.Proofs.Formula.Layout
import Rollforward.Proofs.Formula.Alike
import Rollforward.Proofs.Formula.Bytes
import Rollforward.Proofs.Formula.Spacing
import Rollforward.Proofs.Decimal.Nearest
import Rollforward.Proofs.Formula.Prefix
import Rollforward.Proofs.Formula.Print
import Rollforward.Proofs.Formula.Shift
import Rollforward.Proofs.Collection.Occurrence
import Rollforward.Proofs.Graph.Numbered
import Rollforward.Proofs.Graph.Mentions
import Rollforward.Proofs.Graph.Worklist
import Rollforward.Proofs.Statement.Downstream
import Rollforward.Proofs.Registry.History
import Rollforward.Proofs.Statement.Walk
import Rollforward.Proofs.Statement.Outline
import Rollforward.Proofs.Statement.Shown
import Rollforward.Proofs.Statement.Stem
import Rollforward.Proofs.Statement.Trace
