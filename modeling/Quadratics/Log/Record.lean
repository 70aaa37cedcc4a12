import Quadratics.Evaluation
import Quadratics.Log.Level
/-! What is logged about an equation, step by step. -/
namespace Quadratics

inductive Origin where
  | conversion | folding | solver
deriving DecidableEq

def Origin.path : Origin → String
  | .conversion => "computor::equation::shunting_yard"
  | .folding => "computor::equation::expression_tree"
  | .solver => "computor::equation::solver"

inductive Record where
  | error (message : String)
  | warn (message : String)
  | info (message : String)
  | debug (origin : Origin) (message : String)
deriving DecidableEq

namespace Record

def level : Record → Level
  | .error _ => .error
  | .warn _ => .warn
  | .info _ => .info
  | .debug _ _ => .debug

def message : Record → String
  | .error message | .warn message | .info message | .debug _ message => message

/-- Details carry the number of the thread, 1 for the main one, and the place they come from. -/
def line (r : Record) : String :=
  match r with
  | .debug origin message => s!"[DEBUG] (1) {origin.path}: {message}"
  | .error message | .warn message | .info message => s!"[{r.level.name}] {message}"

def isShown (limit : Level) (r : Record) : Bool := r.level.rank ≤ limit.rank

def converted (tokens : List Token) : Record := .debug .conversion s!"postfix: {showTokens tokens}"

def folded (p : Polynomial) : Record := .debug .folding s!"folded into {p.terms.length} term(s)"

def complex (z : Complex) : String :=
  "Complex \x7b re: " ++ Number.logged z.re ++ ", im: " ++ Number.logged z.im ++ " \x7d"

def solution : Solution → String
  | .noSolution => "NoSolution"
  | .allReals => "AllReals"
  | .one x => s!"One({Number.logged x})"
  | .twoReal x₁ x₂ => s!"TwoReal({Number.logged x₁}, {Number.logged x₂})"
  | .twoComplex z₁ z₂ => s!"TwoComplex({complex z₁}, {complex z₂})"

def formula : Shape → List Record
  | .empty | .constant | .monomial => []
  | .linear b c => [.debug .solver s!"linear equation {Number.plain b}x + {Number.plain c} = 0"]
  | .quadratic a b c =>
    [.debug .solver s!"quadratic equation, discriminant {Number.plain (quadraticRoots a b c).1}"]

/-- A solver that refuses its terms logs nothing. -/
def solving (s : Solver) : List Record :=
  match s.validate, s.shape with
  | .ok (), .ok shape => formula shape ++ [.info s!"solution: {solution (Solver.answer shape).2}"]
  | _, _ => []

def steps (source : String) : List Record :=
  match Postfix.ofString source with
  | .error _ => []
  | .ok tokens =>
    converted tokens ::
      match Expression.build tokens with
      | .error _ => []
      | .ok tree =>
        match tree.fold with
        | .error _ => []
        | .ok p => folded p :: solving (Solver.ofTerms p.terms)

def evaluation (source : String) : List Record :=
  .info s!"solving '{source}'" :: steps source ++
    match evaluate source with
    | .error (.rejected e) => [.warn s!"'{source}' rejected: {e.shown}"]
    | _ => []

end Record
end Quadratics
