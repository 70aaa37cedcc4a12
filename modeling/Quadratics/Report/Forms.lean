import Quadratics.Polynomial
import Quadratics.Text.Blank
/-! The equation as typed, its reduced form, and a remark on its kind. -/
namespace Quadratics.Report

/-- A magnitude keeps all its digits, so that the form can be read again. -/
def monomial (t : Term) : String := s!"{Number.plain t.coefficient.abs} * X^{t.power.toInt}"

def firstTerm (t : Term) : String := (if t.coefficient < 0 then "-" else "") ++ monomial t

def laterTerm (t : Term) : String := (if t.coefficient < 0 then " - " else " + ") ++ monomial t

/-- `3 * X^2 - 12 * X^1 + 4 * X^0 = 0`. -/
def reducedForm : List Term → String
  | [] => "0 = 0"
  | t :: ts => firstTerm t ++ String.join (ts.map laterTerm) ++ " = 0"

/-- The equation as typed; a right side that is missing is zero. -/
def sourceForm (source : String) : String :=
  let trimmed := Text.trim source.toList
  if trimmed.contains '=' then String.ofList trimmed else String.ofList trimmed ++ " = 0"

def remark (degree : Option Int32) (discriminant : Option Float) : String :=
  match degree with
  | none => "Polynomial degree: 0"
  | some n =>
    let line := s!"Polynomial degree: {n.toInt}"
    match discriminant with
    | none => line
    | some d =>
      if n ≠ 2 then line
      else if d < 0 then
        line ++ "\nDiscriminant is strictly negative, the two solutions are complex:"
      else if d == 0 then line ++ "\nDiscriminant is zero, the solution is:"
      else line ++ "\nDiscriminant is strictly positive, the two solutions are:"

end Quadratics.Report
