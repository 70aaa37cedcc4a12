import Quadratics.Polynomial
/-! The roots of a polynomial of degree two or less. -/
namespace Quadratics

structure Complex where
  re : Float
  im : Float
deriving DecidableEq

/-- Two real roots stand in ascending order, of two complex ones the lower comes first. -/
inductive Solution where
  | noSolution
  | allReals
  | one (x : Float)
  | twoReal (x₁ x₂ : Float)
  | twoComplex (z₁ z₂ : Complex)
deriving DecidableEq

/-- The terms of an equation, those with a zero coefficient dropped, and the discriminant once a
quadratic has been solved. -/
structure Solver where
  terms : List Term
  discriminant : Option Float := none

inductive Shape where
  | empty
  | constant
  | monomial
  | linear (b c : Float)
  | quadratic (a b c : Float)

def quadraticRoots (a b c : Float) : Float × Solution :=
  let d := b * b - 4 * a * c
  let middle := Number.positiveZero (-b / (2 * a))
  if d < 0 then
    let im := (-d).sqrt / (2 * a).abs
    (d, .twoComplex ⟨middle, -im⟩ ⟨middle, im⟩)
  else if d == 0 then (d, .one middle)
  else
    let first := Number.positiveZero ((-b - d.sqrt) / (2 * a))
    let second := Number.positiveZero ((-b + d.sqrt) / (2 * a))
    (d, .twoReal (Number.lesser first second) (Number.greater first second))

def linearRoot (b c : Float) : Float := Number.positiveZero (-c / b)

namespace Solver

def ofTerms (ts : List Term) : Solver := { terms := ts.filter fun t => t.coefficient != 0 }

def highest (t : Term) (ts : List Term) : Int32 :=
  ts.foldl (fun high u => if high < u.power then u.power else high) t.power

def degree (s : Solver) : Option Int32 :=
  match s.terms with
  | [] => none
  | t :: ts => some (highest t ts)

def coefficient (s : Solver) (power : Int32) : Float :=
  match s.terms.find? (·.power == power) with
  | some t => t.coefficient
  | none => 0

/-- Coefficients are looked at before powers. -/
def validate (s : Solver) : Except EquationError Unit :=
  match s.terms.find? (!·.coefficient.isFinite) with
  | some t => .error ⟨.infiniteCoefficient t.power, none⟩
  | none =>
    match s.terms.find? (fun t => t.power < 0 || 2 < t.power) with
    | some t => .error ⟨.powerOutOfRange t.power, none⟩
    | none => .ok ()

/-- No term holds for every number, a lone constant for none, and a lone power only for zero. -/
def shape (s : Solver) : Except EquationError Shape :=
  match s.terms with
  | [] => .ok .empty
  | [t] => .ok (if t.power = 0 then .constant else .monomial)
  | t :: ts =>
    let degree := highest t ts
    if degree = 1 then .ok (.linear (s.coefficient 1) (s.coefficient 0))
    else if degree = 2 then .ok (.quadratic (s.coefficient 2) (s.coefficient 1) (s.coefficient 0))
    else .error ⟨.unsolvableDegree degree, none⟩

def answer : Shape → Option Float × Solution
  | .empty => (none, .allReals)
  | .constant => (none, .noSolution)
  | .monomial => (none, .one 0)
  | .linear b c => (none, .one (linearRoot b c))
  | .quadratic a b c =>
    let (d, roots) := quadraticRoots a b c
    (some d, roots)

def solve (s : Solver) : Except EquationError (Solution × Solver) := do
  s.validate
  let (discriminant, solution) := answer (← s.shape)
  return (solution, { s with discriminant := discriminant })

end Solver
end Quadratics
