import Quadratics.Error
/-! Expressions as trees, their text, and their operators behind the operands. -/
namespace Quadratics

/-- Each node keeps the place of its token. -/
inductive Expression where
  | number (value : Float) (position : Nat)
  | var (multiplier : Float) (position : Nat)
  | unary (op : Operator) (operand : Expression) (position : Nat)
  | binary (op : Operator) (left right : Expression) (position : Nat)
deriving DecidableEq

namespace Expression

def position : Expression → Nat
  | .number _ p | .var _ p | .unary _ _ p | .binary _ _ _ p => p

/-- A binary node stands in parentheses, a sign directly before its operand. -/
def text : Expression → String
  | .number value _ => Number.plain value
  | .var multiplier _ => if multiplier == 1 then "X" else Number.plain multiplier ++ "X"
  | .unary op operand _ => (if op = .unaryMinus then "-" else "+") ++ operand.text
  | .binary op left right _ => "(" ++ left.text ++ " " ++ op.symbol ++ " " ++ right.text ++ ")"

def postorder : Expression → List (Token.Kind × Nat)
  | .number value p => [(.number value, p)]
  | .var _ p => [(.var, p)]
  | .unary op operand p => operand.postorder ++ [(.operator op, p)]
  | .binary op left right p => left.postorder ++ right.postorder ++ [(.operator op, p)]

/-- A sign in front of another one has to be the same. -/
def signed (op : Operator) (operand : Expression) (position : Nat) :
    Except EquationError Expression :=
  match operand with
  | .unary inner _ _ =>
    if inner = op then .ok (.unary op operand position) else .error ⟨.mixedSigns, some position⟩
  | _ => .ok (.unary op operand position)

def push (stack : List Expression) (t : Token) : Except EquationError (List Expression) :=
  match t.kind with
  | .number value => .ok (.number value t.position :: stack)
  | .var => .ok (.var 1 t.position :: stack)
  | .operator op =>
    if op.isUnary then
      match stack with
      | operand :: rest => (signed op operand t.position).map (· :: rest)
      | [] => .error ⟨.operandNotBuilt op, some t.position⟩
    else
      match stack with
      | right :: left :: rest => .ok (.binary op left right t.position :: rest)
      | _ => .error ⟨.operandNotBuilt op, some t.position⟩
  | _ => .error ⟨.unrecognizedToken t.text, some t.position⟩

def build (ts : List Token) : Except EquationError Expression := do
  let stack ← ts.foldlM push []
  match stack.reverse with
  | [e] => .ok e
  | [] => .error ⟨.nothingToBuild, none⟩
  | _ :: second :: _ => .error ⟨.severalNodes, some second.position⟩

end Expression
end Quadratics
