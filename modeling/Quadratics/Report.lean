import Quadratics.Evaluation
import Quadratics.Report.Forms
import Quadratics.Report.Table
import Quadratics.Task.Config
/-! What is printed about one equation. -/
namespace Quadratics.Report

/-- A quiet report is the solution alone, a verbose one has the tokens, the tree and the terms as
well. The solution is put into words before anything is printed, the terms when their turn comes; a
number that cannot be printed ends the report with what is printed by then. -/
def lines (mode : Mode) (precision : Nat) (source : String) (e : Evaluation) :
    Except (List String) (List String) :=
  let answer := solution e.solution precision
  let forms := [s!"Equation: {sourceForm source}", s!"Reduced form: {reducedForm e.reduced}"]
  let details := [s!"Postfix: {showTokens e.tokens}", s!"Tree: {e.tree.text}"]
  let last := [remark e.degree e.discriminant, answer]
  if (numbers e.solution).all (isPrintable precision) then
    match mode with
    | .quiet => .ok [answer]
    | .normal => .ok (forms ++ last)
    | .verbose =>
      if e.reduced.all fun t => isPrintable precision t.coefficient then
        .ok (forms ++ details ++ termTable e.reduced precision :: last)
      else .error (forms ++ details)
  else .error []

def refusal (source : String) (e : EquationError) : List String :=
  [source] ++ (if e.position.isSome then [e.caret] else []) ++ [s!"Error: {e.shown}"]

end Quadratics.Report
