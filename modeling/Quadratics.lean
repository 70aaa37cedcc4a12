import Quadratics.Command.Demonstration
import Quadratics.Command.Options
import Quadratics.Command.Output
import Quadratics.Command.Run
import Quadratics.Command.Settings
import Quadratics.Error
import Quadratics.Evaluation
import Quadratics.Expression
import Quadratics.Expression.Folding
import Quadratics.Log.Level
import Quadratics.Log.Record
import Quadratics.Main
import Quadratics.Number.Binary
import Quadratics.Number.Decimal
import Quadratics.Number.Layout
import Quadratics.Number.Power
import Quadratics.Polynomial
import Quadratics.Postfix
import Quadratics.Proofs.Command.Batch
import Quadratics.Proofs.Command.Settings
import Quadratics.Proofs.Evaluation.Marks
import Quadratics.Proofs.Evaluation.Range
import Quadratics.Proofs.Evaluation.Refusals
import Quadratics.Proofs.Evaluation.SourceForm
import Quadratics.Proofs.Evaluation.Spacing
import Quadratics.Proofs.Evaluation.Swap
import Quadratics.Proofs.Expression.Applying
import Quadratics.Proofs.Expression.Building
import Quadratics.Proofs.Expression.Exchange
import Quadratics.Proofs.Expression.Postorder
import Quadratics.Proofs.Expression.Printing
import Quadratics.Proofs.Expression.Signs
import Quadratics.Proofs.Expression.Value
import Quadratics.Proofs.Formula
import Quadratics.Proofs.Infix
import Quadratics.Proofs.Infix.Neighbours
import Quadratics.Proofs.Infix.Prefix
import Quadratics.Proofs.Number.Arithmetic
import Quadratics.Proofs.Number.Bounds
import Quadratics.Proofs.Number.Exact
import Quadratics.Proofs.Number.Nearest
import Quadratics.Proofs.Number.Operations
import Quadratics.Proofs.Number.Order
import Quadratics.Proofs.Number.Packing
import Quadratics.Proofs.Number.Power
import Quadratics.Proofs.Number.Range
import Quadratics.Proofs.Number.ReadBack
import Quadratics.Proofs.Number.Rounding
import Quadratics.Proofs.Number.Sides
import Quadratics.Proofs.Number.Sign
import Quadratics.Proofs.Number.Square
import Quadratics.Proofs.Number.Value
import Quadratics.Proofs.Number.Whole
import Quadratics.Proofs.Polynomial.Order
import Quadratics.Proofs.Polynomial.Powers
import Quadratics.Proofs.Polynomial.Range
import Quadratics.Proofs.Polynomial.Sorting
import Quadratics.Proofs.Polynomial.Sums
import Quadratics.Proofs.Polynomial.Value
import Quadratics.Proofs.Postfix.Acceptance
import Quadratics.Proofs.Postfix.Arity
import Quadratics.Proofs.Postfix.Carrying
import Quadratics.Proofs.Postfix.Columns
import Quadratics.Proofs.Postfix.Completeness
import Quadratics.Proofs.Postfix.Conservation
import Quadratics.Proofs.Postfix.Contributions
import Quadratics.Proofs.Postfix.Kinds
import Quadratics.Proofs.Postfix.Matching
import Quadratics.Proofs.Postfix.Origins
import Quadratics.Proofs.Postfix.Reading
import Quadratics.Proofs.Postfix.Refusals
import Quadratics.Proofs.Postfix.Stacking
import Quadratics.Proofs.Postfix.Tidying
import Quadratics.Proofs.Postfix.ZeroSide
import Quadratics.Proofs.Report.Numerals
import Quadratics.Proofs.Report.Printing
import Quadratics.Proofs.Report.ReducedForm
import Quadratics.Proofs.Report.Remarks
import Quadratics.Proofs.Solver.Distinct
import Quadratics.Proofs.Solver.Equation
import Quadratics.Proofs.Solver.Exact
import Quadratics.Proofs.Solver.Finite
import Quadratics.Proofs.Solver.Kind
import Quadratics.Proofs.Solver.Shape
import Quadratics.Proofs.Steps
import Quadratics.Proofs.Task.Config
import Quadratics.Proofs.Task.Grammar
import Quadratics.Proofs.Task.Joined
import Quadratics.Proofs.Task.Parsing
import Quadratics.Proofs.Token.Lexemes
import Quadratics.Proofs.Token.Numerals
import Quadratics.Proofs.Token.Scanning
import Quadratics.Proofs.Token.Spacing
import Quadratics.Proofs.Token.Trimming
import Quadratics.Report
import Quadratics.Report.Forms
import Quadratics.Report.Roots
import Quadratics.Report.Table
import Quadratics.Solver
import Quadratics.Task.Config
import Quadratics.Task.Document
import Quadratics.Task.Error
import Quadratics.Text.Blank
import Quadratics.Text.LetterCase
import Quadratics.Text.LowerCase
import Quadratics.Text.Natural
import Quadratics.Token
import Quadratics.Token.Scanner
