import Quadratics.Command.Output
import Quadratics.Report
/-! Built-in demonstrations. -/
namespace Quadratics.Command.Demonstration

def solvable : List String :=
  ["5 * x^0 - 4 * x^0 + 7 * x^1",
   "5*x^0 + 13*x^1 + 3*x^2 = 1*x^0 + 1*x^1",
   "-x^2 + x = 0",
   "x + 2x^2 + 1 = 0",
   "(11*x^4 + 5*x^3) / x^2 = -6*x^-1*x - 1*X^1",
   "0 * x^0 = 0",
   "6*x^0 + 11*x^1 + 5*x^2 = 1*x^0 + 1*X^1",
   "11*x^1 - 5*x^1 = 1*x^0 + 1*X^1",
   "xx = 5^-3",
   "(x^(2 + 5 - 4) 4) /x/x = 5 x ^ 0"]

def refused : List String := ["2 * x + $", "(x + 1", "-+x", "x^x = 2", "x^3 = 1"]

def solve (level : Level) (source : String) : List Output :=
  Output.logged level (Record.evaluation source) ++
    match evaluate source with
    | .ok e =>
      [.out source, .out s!"  reduced form: {Report.reducedForm e.reduced}",
       .out s!"  {Report.solution e.solution Report.defaultPrecision}"]
    | .error (.rejected e) => [.out source, .out e.caret]
    | .error .overflow => []

def point (level : Level) (source : String) : List Output :=
  Output.logged level (Record.evaluation source) ++
    match evaluate source with
    | .error (.rejected e) => [.out source, .out e.caret, .out e.shown]
    | _ => []

def stages (level : Level) (source : String) : List Output :=
  let failed (e : EquationError) : List Output := [.out e.shown]
  match tokenize source with
  | .error e => failed e
  | .ok scanned =>
    .out s!"{scanned.length} tokens" ::
      match Postfix.ofString source with
      | .error e => failed e
      | .ok tokens =>
        Output.logged level [.converted tokens] ++ .out s!"postfix: {showTokens tokens}" ::
          match Expression.build tokens with
          | .error e => failed e
          | .ok tree =>
            .out s!"tree: {tree.text}" ::
              match tree.fold with
              | .error (.rejected e) => failed e
              | .error .overflow => []
              | .ok p => Output.logged level [.folded p] ++ [.out (Report.termTable p.terms 4)]

def outputs (level : Level) (number : Nat) : List Output :=
  match number with
  | 0 => solvable.flatMap (solve level)
  | 1 => stages level "(11*x^4 + 5*x^3) / x^2 = -6*x^-1*x - 1*X^1"
  | 2 => refused.flatMap (point level)
  | _ => [.out "no such example"]

end Quadratics.Command.Demonstration
