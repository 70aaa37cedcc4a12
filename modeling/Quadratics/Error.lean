import Quadratics.Token
/-! Why an equation is refused, where, and in which words. -/
namespace Quadratics

inductive Stage where
  | lexical | validation | tree | simplification
deriving DecidableEq

def Stage.name : Stage → String
  | .lexical => "LexError"
  | .validation => "ValidationError"
  | .tree => "TreeError"
  | .simplification => "SimplificationError"

inductive Cause where
  | unknownCharacter (c : Char)
  | operatorBeforeClosing
  | secondEquals
  | unopenedParenthesis
  | unclosedParenthesis
  | unexpectedToken (shown : String)
  | missingOperand (op : Operator)
  | emptyEquation
  | operandsWithoutOperator
  | infiniteCoefficient (power : Int32)
  | powerOutOfRange (power : Int32)
  | unsolvableDegree (degree : Int32)
  | notUnary (op : Operator)
  | notBinary (op : Operator)
  | mixedSigns
  | unrecognizedToken (text : String)
  | nothingToBuild
  | operandNotBuilt (op : Operator)
  | severalNodes
  | productOfPolynomials
  | polynomialDivisor
  | zeroDivisor
  | variableExponent
  | fractionalExponent
  | exponentTooLarge
  | powerOfPolynomial
  | zeroToNegativePower
  | powerOverflow
  | coefficientOverflow
  | reported (stage : Stage) (message : String)
deriving DecidableEq

namespace Cause

def stage : Cause → Stage
  | .unknownCharacter _ => .lexical
  | .operatorBeforeClosing | .secondEquals | .unopenedParenthesis | .unclosedParenthesis
  | .unexpectedToken _ | .missingOperand _ | .emptyEquation | .operandsWithoutOperator
  | .infiniteCoefficient _ | .powerOutOfRange _ | .unsolvableDegree _ => .validation
  | .notUnary _ | .notBinary _ | .mixedSigns | .unrecognizedToken _ | .nothingToBuild
  | .operandNotBuilt _ | .severalNodes => .tree
  | .productOfPolynomials | .polynomialDivisor | .zeroDivisor | .variableExponent
  | .fractionalExponent | .exponentTooLarge | .powerOfPolynomial | .zeroToNegativePower
  | .powerOverflow | .coefficientOverflow => .simplification
  | .reported stage _ => stage

def message : Cause → String
  | .unknownCharacter c => s!"unknown character '{c}'"
  | .operatorBeforeClosing => "operator directly before a closing parenthesis"
  | .secondEquals => "no more than one equality sign allowed"
  | .unopenedParenthesis => "unbalanced parentheses: no matching '('"
  | .unclosedParenthesis => "unbalanced parentheses: '(' is never closed"
  | .unexpectedToken shown => s!"unexpected token '{shown}'"
  | .missingOperand op => s!"operator '{op.symbol}' is missing an operand"
  | .emptyEquation => "the equation is empty"
  | .operandsWithoutOperator => "the equation is not well formed: operands without an operator"
  | .infiniteCoefficient power =>
    s!"coefficient of x^{power.toInt} is out of the floating point range"
  | .powerOutOfRange power => s!"powers from 0 to 2 only, found x^{power.toInt}"
  | .unsolvableDegree degree => s!"cannot solve an equation of degree Some({degree.toInt})"
  | .notUnary op => s!"'{op.symbol}' is not a unary operator"
  | .notBinary op => s!"'{op.symbol}' is not a binary operator"
  | .mixedSigns => "inconsistent adjacent unary operators"
  | .unrecognizedToken text => s!"unrecognized token '{text}'"
  | .nothingToBuild => "nothing to build a tree from"
  | .operandNotBuilt op => s!"operator '{op.symbol}' is missing an operand"
  | .severalNodes => "the postfix sequence leaves several nodes on the stack"
  | .productOfPolynomials => "multiplying two polynomials is not supported"
  | .polynomialDivisor => "dividing by a polynomial is not supported"
  | .zeroDivisor => "division by zero"
  | .variableExponent => "the exponent must not depend on x"
  | .fractionalExponent => "fractional exponent is forbidden"
  | .exponentTooLarge => "exponent is too large"
  | .powerOfPolynomial => "only a monomial can be raised to a power, (ax + b)^n is not supported"
  | .zeroToNegativePower => "zero raised to a negative power"
  | .powerOverflow => "resulting power is out of range"
  | .coefficientOverflow => "coefficient is out of the floating point range"
  | .reported _ message => message

end Cause

/-- `position` counts the characters of the source before the place at fault. -/
structure EquationError where
  cause : Cause
  position : Option Nat
deriving DecidableEq

namespace EquationError

def message (e : EquationError) : String := e.cause.message

def shown (e : EquationError) : String :=
  match e.position with
  | some p => s!"{e.cause.stage.name} at position {p}: {e.cause.message}"
  | none => s!"{e.cause.stage.name}: {e.cause.message}"

def caret (e : EquationError) : String :=
  match e.position with
  | some p => String.ofList (List.replicate p ' ') ++ s!"^ {e.cause.message}"
  | none => e.cause.message

end EquationError

inductive Failure where
  | rejected (error : EquationError)
  /-- The power of a divisor has no negative in 32 bits; there is no verdict on the equation. -/
  | overflow
deriving DecidableEq

end Quadratics
