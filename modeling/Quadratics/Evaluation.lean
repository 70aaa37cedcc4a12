import Quadratics.Expression.Folding
import Quadratics.Postfix
import Quadratics.Solver
import Quadratics.Token.Scanner
/-! The way from the text of an equation to its solution. -/
namespace Quadratics

/-- The rearranged tokens of an equation, `(left) - (right)` when it has two sides. -/
def Postfix.ofString (source : String) : Except EquationError (List Token) :=
  convert (Scanner.ofString source).items

structure Evaluation where
  tokens : List Token
  tree : Expression
  /-- Descending powers without zero coefficients. -/
  reduced : List Term
  degree : Option Int32
  discriminant : Option Float
  solution : Solution
deriving DecidableEq

def rejecting {α : Type} (result : Except EquationError α) : Except Failure α :=
  result.mapError .rejected

def evaluate (source : String) : Except Failure Evaluation := do
  let tokens ← rejecting (Postfix.ofString source)
  let tree ← rejecting (Expression.build tokens)
  let folded ← tree.fold
  let (solution, solver) ← rejecting (Solver.ofTerms folded.terms).solve
  return {
    tokens := tokens
    tree := tree
    reduced := solver.terms
    degree := solver.degree
    discriminant := solver.discriminant
    solution := solution }

end Quadratics
