/-! The exact value of a binary64 number, a sign and a mantissa times a power of two, and what
follows from it by integer arithmetic: wholeness, conversion to `Int`, rounding to whole numbers. -/
namespace Quadratics.Number

/-- The value `mantissa * 2 ^ exponent` with a sign; a zero keeps its sign. -/
structure Dyadic where
  negative : Bool
  mantissa : Nat
  exponent : Int
deriving DecidableEq

namespace Dyadic

def num (d : Dyadic) : Nat := d.mantissa * Nat.pow 2 d.exponent.toNat

def den (d : Dyadic) : Nat := Nat.pow 2 (-d.exponent).toNat

theorem den_pos (d : Dyadic) : 0 < d.den := Nat.pow_pos (by decide)

def sign (d : Dyadic) (n : Nat) : Int := if d.negative then -n else n

end Dyadic

def dyadic? (x : Float) : Option Dyadic :=
  match x.toModel.unpack with
  | .zero s => some ⟨s == .negative, 0, 0⟩
  | .finite s m e _ => some ⟨s == .negative, m, e⟩
  | .infinity _ => none
  | .notANumber => none

def signed (negative : Bool) (x : Float) : Float := if negative then -x else x

def toInt? (x : Float) : Option Int :=
  match dyadic? x with
  | some d => if d.num % d.den = 0 then some (d.sign (d.num / d.den)) else none
  | none => none

def isWhole (x : Float) : Bool := (toInt? x).isSome

/-- The nearest whole number, a half going away from zero. The sign of zero is kept, and so are
infinities and NaN. -/
def roundAway (x : Float) : Float :=
  match dyadic? x with
  | some d => signed d.negative (Float.ofNat ((2 * d.num + d.den) / (2 * d.den)))
  | none => x

/-- The other operand in place of NaN. -/
def lesser (x y : Float) : Float :=
  if x.isNaN then y else if y.isNaN then x else if y < x then y else x

def greater (x y : Float) : Float :=
  if x.isNaN then y else if y.isNaN then x else if x < y then y else x

def positiveZero (x : Float) : Float := x + 0.0

end Quadratics.Number
