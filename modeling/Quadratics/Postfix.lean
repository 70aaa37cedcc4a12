import Quadratics.Error
/-! The tokens of an equation rearranged so that every operator follows its operands. A plus or
minus without an operand before it becomes a sign, `2x` gets its `*`, and `l = r` turns into
`(l) - (r)`, so that the result is what has to be zero. -/
namespace Quadratics

/-- Where the rearrangement stands. Both lists have the latest token first. -/
structure Converter where
  output : List Token := []
  /-- Operators and parentheses that wait. -/
  stack : List Token := []
  /-- A plus or minus would be a sign here. -/
  signAllowed : Bool := true
  previous : Option Token.Kind := none
  /-- The furthest place seen. -/
  position : Nat := 0
  /-- The number of tokens under the parenthesis that was opened behind `=`. -/
  barrier : Option Nat := none

namespace Converter

def emit (c : Converter) (t : Token) : Converter := { c with output := t :: c.output }

/-- Whether a waiting token is applied before an operator that comes in. Signs wait for each other,
`--x` is `-(-x)`. -/
def yieldsTo (incoming : Operator) (waiting : Token) : Bool :=
  match waiting.kind with
  | .operator op =>
    incoming.precedence < op.precedence
      || (incoming.precedence == op.precedence && !incoming.rightAssociative)
  | _ => false

def operator (c : Converter) (t : Token) (op : Operator) : Converter :=
  let op := if c.signAllowed then op.toUnary.getD op else op
  { c with
    output := (c.stack.takeWhile (yieldsTo op)).reverse ++ c.output
    stack := { t with kind := .operator op } :: c.stack.dropWhile (yieldsTo op)
    signAllowed := true }

/-- The `*` that is not written, placed at the furthest place seen. -/
def juxtapose (c : Converter) : Converter :=
  c.operator (.synthetic (.operator .mul) c.position) .mul

def operand (c : Converter) (t : Token) : Converter := { c.emit t with signAllowed := false }

def number (c : Converter) (t : Token) : Converter :=
  if c.previous.any (·.isRightParen) then c.juxtapose.operand t else c.operand t

def var (c : Converter) (t : Token) : Converter :=
  if c.previous.any (fun k => k.isOperand || k.isRightParen) then c.juxtapose.operand t
  else c.operand t

def openParen (c : Converter) (t : Token) : Converter :=
  { c with stack := t :: c.stack, signAllowed := true }

/-- Closes the nearest open parenthesis; the one opened behind `=` is not there to be closed. -/
def closeParen (c : Converter) (t : Token) : Except EquationError Converter :=
  if c.previous.any (·.isOperator) then .error ⟨.operatorBeforeClosing, some t.position⟩
  else
    match c.stack.dropWhile (fun w => !w.kind.isLeftParen) with
    | [] => .error ⟨.unopenedParenthesis, some t.position⟩
    | _ :: below =>
      if c.barrier = some below.length then .error ⟨.unopenedParenthesis, some t.position⟩
      else .ok
        { c with
          output := (c.stack.takeWhile (fun w => !w.kind.isLeftParen)).reverse ++ c.output
          stack := below
          signAllowed := false }

def pending (c : Converter) : List Token :=
  match c.barrier with
  | some depth => c.stack.eraseIdx (c.stack.length - 1 - depth)
  | none => c.stack

def flush (c : Converter) : Except EquationError Converter :=
  match c.pending.find? (·.kind.isLeftParen) with
  | some t => .error ⟨.unclosedParenthesis, some t.position⟩
  | none => .ok { c with output := c.pending.reverse ++ c.output, stack := [], barrier := none }

/-- Behind `=` everything is subtracted: `- (`, from here to the end. A left side without tokens
counts as zero. The `=` itself stays in the output until the end and keeps the sides apart. The one
place where a column is computed: it has to have one behind it, `InColumns`. -/
def moveLeft (c : Converter) (t : Token) : Converter :=
  let c := if c.output.isEmpty then c.emit (.synthetic (.number 0) t.position) else c
  let c : Converter := { c.emit t with signAllowed := false, position := max c.position t.position }
  let c := c.operator (.synthetic (.operator .sub) t.position) .sub
  let c : Converter := { c with position := max c.position (t.position + 1) }
  let c := c.openParen (.synthetic .leftParen (t.position + 1))
  { c with barrier := some (c.stack.length - 1) }

def equals (c : Converter) (t : Token) : Except EquationError Converter :=
  if c.barrier.isSome then .error ⟨.secondEquals, some t.position⟩
  else c.flush.map (·.moveLeft t)

def accept (c : Converter) (t : Token) : Except EquationError Converter :=
  match t.kind with
  | .operator op => .ok (c.operator t op)
  | .number _ => .ok (c.number t)
  | .var => .ok (c.var t)
  | .leftParen => .ok (c.openParen t)
  | .rightParen => c.closeParen t
  | .equals => c.equals t
  | .whitespace => .ok c

def step (c : Converter) (t : Token) : Except EquationError Converter :=
  if t.kind.isWhitespace then .ok c
  else
    (accept { c with position := max c.position t.position } t).map
      fun d => { d with previous := some t.kind }

/-- All tokens of a stream, up to the first refusal, be it in the stream or of a token. -/
def run (c : Converter) : List (Except EquationError Token) → Except EquationError Converter
  | [] => .ok c
  | .error e :: _ => .error e
  | .ok t :: items => (c.step t).bind fun d => d.run items

end Converter

namespace Postfix

/-- Of neighbouring plus signs the first one stays. -/
def collapseAfter (afterPlus : Bool) : List Token → List Token
  | [] => []
  | t :: ts =>
    if afterPlus && t.kind.isUnaryPlus then collapseAfter true ts
    else t :: collapseAfter t.kind.isUnaryPlus ts

/-- The output in reading order, plus signs collapsed on each side of `=`, then without the `=`. -/
def tidy (output : List Token) : List Token :=
  (collapseAfter false output.reverse).filter (!·.kind.isEquals)

def count (values : Nat) (t : Token) : Except EquationError Nat :=
  match t.kind with
  | .number _ | .var => .ok (values + 1)
  | .operator op =>
    let consumed := if op.isUnary then 1 else 2
    if values < consumed then .error ⟨.missingOperand op, some t.position⟩
    else .ok (values - consumed + 1)
  | _ => .error ⟨.unexpectedToken t.shown, some t.position⟩

def checkArity (ts : List Token) : Except EquationError Unit :=
  match ts.foldlM count 0 with
  | .error e => .error e
  | .ok 1 => .ok ()
  | .ok 0 => .error ⟨.emptyEquation, none⟩
  | .ok _ => .error ⟨.operandsWithoutOperator, ts.getLast?.map (·.position)⟩

def convert (items : List (Except EquationError Token)) : Except EquationError (List Token) := do
  let c ← Converter.run {} items
  let c ← c.flush
  let ts := tidy c.output
  checkArity ts
  return ts

end Postfix
end Quadratics
