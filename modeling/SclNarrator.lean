import SclNarrator.Analysis.Session
import SclNarrator.Main
import SclNarrator.Proofs.Run.Assign
import SclNarrator.Proofs.Run.Replay
import SclNarrator.Proofs.Text.Cut
import SclNarrator.Proofs.Program.Syntax
import SclNarrator.Proofs.Program.Calls
import SclNarrator.Proofs.Program.Assignments
import SclNarrator.Proofs.Program.Conditional
import SclNarrator.Proofs.Program.Branching
import SclNarrator.Proofs.Program.Nested
import SclNarrator.Proofs.Program.Guards
import SclNarrator.Proofs.Number.Numeral
import SclNarrator.Proofs.Number.Shortest
import SclNarrator.Proofs.Number.DecimalText
import SclNarrator.Proofs.Expr.Term
import SclNarrator.Proofs.Expr.Literals
import SclNarrator.Proofs.Expr.Symbolize
import SclNarrator.Proofs.Expr.Names
import SclNarrator.Proofs.Expr.Operand
import SclNarrator.Proofs.Expr.Scan
import SclNarrator.Proofs.Expr.Parsing
import SclNarrator.Proofs.Expr.Grammar
import SclNarrator.Proofs.Expr.Acceptance
import SclNarrator.Proofs.Expr.Printing
import SclNarrator.Proofs.Expr.Agreement
import SclNarrator.Proofs.Expr.ReadBack
import SclNarrator.Proofs.Expr.Vocabulary
import SclNarrator.Proofs.Expr.Spelling
import SclNarrator.Proofs.Text.Folding
import SclNarrator.Proofs.Program.Enclosed
import SclNarrator.Proofs.Program.Reference
import SclNarrator.Proofs.Program.LiteralText
import SclNarrator.Proofs.Program.Selection
import SclNarrator.Proofs.Run.Layout
import SclNarrator.Proofs.Run.Seeding
import SclNarrator.Proofs.Run.Aliases
import SclNarrator.Proofs.Tag.Resolution
import SclNarrator.Proofs.Tag.Extraction
import SclNarrator.Proofs.Tag.Ingestion
import SclNarrator.Proofs.Analysis.Outcome
import SclNarrator.Proofs.Analysis.Failure
import SclNarrator.Proofs.Analysis.Diagnostics
import SclNarrator.Proofs.Analysis.Unmentioned
import SclNarrator.Proofs.Analysis.Comments
import SclNarrator.Proofs.Analysis.History
import SclNarrator.Proofs.Analysis.Parallel
import SclNarrator.Proofs.Source.Views
import SclNarrator.Proofs.Source.Structure
import SclNarrator.Proofs.Source.Operands
import SclNarrator.Proofs.Source.Identifiers
import SclNarrator.Proofs.Source.Labels
import SclNarrator.Proofs.Source.QuotedNames
import SclNarrator.Proofs.Value.Written
import SclNarrator.Proofs.Expr.Lossless
import SclNarrator.Proofs.Report.Lines
import SclNarrator.Proofs.Command.Output
