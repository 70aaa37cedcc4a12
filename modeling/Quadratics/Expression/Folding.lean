import Quadratics.Expression
import Quadratics.Polynomial
/-! The polynomial of an expression, from the leaves up. -/
namespace Quadratics.Expression

def applyUnary (op : Operator) (p : Polynomial) (position : Nat) : Except Failure Polynomial :=
  match op with
  | .unaryMinus => .ok p.neg
  | .unaryPlus => .ok p
  | .add | .sub | .mul | .div | .pow => refuse (.notUnary op) position

def applyBinary (op : Operator) (p q : Polynomial) (position : Nat) : Except Failure Polynomial :=
  match op with
  | .add => .ok (p.add q)
  | .sub => .ok (p.sub q)
  | .mul => p.mul q position
  | .div => p.div q position
  | .pow => p.pow q position
  | .unaryMinus | .unaryPlus => refuse (.notBinary op) position

/-- The left operand is folded first, so its refusal wins. -/
def fold : Expression → Except Failure Polynomial
  | .number value _ => .ok (.constant value)
  | .var multiplier _ => .ok (.var multiplier)
  | .unary op operand position => do applyUnary op (← operand.fold) position
  | .binary op left right position => do
    let p ← left.fold
    let q ← right.fold
    applyBinary op p q position

end Quadratics.Expression
