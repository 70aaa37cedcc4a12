import Quadratics.Solver
import Quadratics.Number.Layout
/-! Roots as they are printed, rounded to a number of decimals. -/
namespace Quadratics.Report

def defaultPrecision : Nat := 2

def mostPlaces : Nat := 65535

/-- The power of ten whose exponent is the low half of the precision, 32 bits read with a sign. -/
def scale (precision : Nat) : Float := Number.power 10 ((precision : Int).bmod Int32.size)

def rounded (x : Float) (precision : Nat) : Float :=
  Number.positiveZero (Number.roundAway (x * scale precision) / scale precision)

/-- A whole number has no places, any other as many as asked for. -/
def isPrintable (precision : Nat) (x : Float) : Bool :=
  Number.isWhole (rounded x precision) || precision ≤ mostPlaces

def number (x : Float) (precision : Nat) : String :=
  let value := rounded x precision
  if Number.isWhole value then Number.plain value
  else Number.toPlaces (min precision mostPlaces) value

def complex (z : Complex) (precision : Nat) : String :=
  let sign := if z.im < 0 then "-" else "+"
  s!"{number z.re precision} {sign} {number z.im.abs precision}i"

def solution (s : Solution) (precision : Nat) : String :=
  match s with
  | .noSolution => "The equation has no solution"
  | .allReals => "Each real number is a solution"
  | .one x => s!"X = {number x precision}"
  | .twoReal x₁ x₂ => s!"X1 = {number x₁ precision}, X2 = {number x₂ precision}"
  | .twoComplex z₁ z₂ => s!"X1 = {complex z₁ precision}, X2 = {complex z₂ precision}"

def numbers : Solution → List Float
  | .noSolution | .allReals => []
  | .one x => [x]
  | .twoReal x₁ x₂ => [x₁, x₂]
  | .twoComplex z₁ z₂ => [z₁.re, z₁.im.abs, z₂.re, z₂.im.abs]

end Quadratics.Report
