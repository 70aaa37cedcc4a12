import Quadratics.Number.Layout
/-! Operators and tokens of an equation. -/
namespace Quadratics

/-- The two signs are never written as such: a plus or minus is one where no operand precedes it. -/
inductive Operator where
  | add | sub | mul | div | pow | unaryMinus | unaryPlus
deriving DecidableEq

namespace Operator

/-- A higher number binds tighter; a sign binds tighter than a power. -/
def precedence : Operator → Nat
  | .unaryMinus | .unaryPlus => 5
  | .pow => 4
  | .mul | .div => 3
  | .add | .sub => 2

def rightAssociative : Operator → Bool
  | .unaryMinus | .unaryPlus | .pow => true
  | .add | .sub | .mul | .div => false

def isUnary : Operator → Bool
  | .unaryMinus | .unaryPlus => true
  | .add | .sub | .mul | .div | .pow => false

def toUnary : Operator → Option Operator
  | .sub => some .unaryMinus
  | .add => some .unaryPlus
  | .mul | .div | .pow | .unaryMinus | .unaryPlus => none

/-- A sign is marked to keep it apart from the sum operator. -/
def symbol : Operator → String
  | .add => "+"
  | .sub => "-"
  | .mul => "*"
  | .div => "/"
  | .pow => "^"
  | .unaryMinus => "u-"
  | .unaryPlus => "u+"

end Operator

inductive Token.Kind where
  | number (value : Float)
  | var
  | operator (op : Operator)
  | leftParen
  | rightParen
  | equals
  | whitespace
deriving DecidableEq

/-- `text` is the token as written, `position` its column, the number of characters before it. A
column has 64 bits where tokens are held; `InColumns` says for which streams a number is as good. -/
structure Token where
  kind : Token.Kind
  text : String
  position : Nat
deriving DecidableEq

namespace Token

def Kind.isWhitespace : Kind → Bool
  | .whitespace => true
  | _ => false

def Kind.isEquals : Kind → Bool
  | .equals => true
  | _ => false

def Kind.isLeftParen : Kind → Bool
  | .leftParen => true
  | _ => false

def Kind.isRightParen : Kind → Bool
  | .rightParen => true
  | _ => false

def Kind.isOperator : Kind → Bool
  | .operator _ => true
  | _ => false

def Kind.isOperand : Kind → Bool
  | .number _ | .var => true
  | _ => false

def Kind.isUnaryPlus : Kind → Bool
  | .operator .unaryPlus => true
  | _ => false

def Kind.text : Kind → String
  | .number value => Number.plain value
  | .var => "x"
  | .operator op => op.symbol
  | .leftParen => "("
  | .rightParen => ")"
  | .equals => "="
  | .whitespace => " "

/-- A token that is not in the source, such as the `*` of `2x`. -/
def synthetic (kind : Kind) (position : Nat) : Token := ⟨kind, kind.text, position⟩

/-- An operator is shown by its symbol, so that a sign is told apart; all else as written. -/
def shown (t : Token) : String :=
  match t.kind with
  | .operator op => op.symbol
  | _ => t.text

end Token

def showTokens (ts : List Token) : String := " ".intercalate (ts.map Token.shown)

end Quadratics
