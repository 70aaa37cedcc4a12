import Quadratics.Number.Binary
/-! Decimal fractions `digits / 10 ^ places`: the number that one reads as, the shortest one that
reads back as a given number, and the rounding of an exact value to fixed places. -/
namespace Quadratics.Number

/-- The value `digits / 10 ^ places`. -/
structure Decimal where
  digits : Nat
  places : Nat
deriving DecidableEq

namespace Decimal

def toFloat (d : Decimal) : Float := .ofModel (.ofScientific d.digits (-d.places))

def trim (digits : Nat) : Nat → Decimal
  | 0 => ⟨digits, 0⟩
  | places + 1 => if digits % 10 = 0 then trim (digits / 10) places else ⟨digits, places + 1⟩

def multiple (step : Int) (count : Nat) : Decimal :=
  trim (count * Nat.pow 10 step.toNat) (-step).toNat

/-- The two multiples of `10 ^ step` around `num / den`, the nearer first; a tie puts the larger
first. -/
def around (num den : Nat) (step : Int) : List Decimal :=
  let num := num * Nat.pow 10 (-step).toNat
  let den := den * Nat.pow 10 step.toNat
  let below := num / den
  if 2 * (num % den) < den then [multiple step below, multiple step (below + 1)]
  else [multiple step (below + 1), multiple step below]

/-- The power of ten of the first digit of `num / den`, or one more. -/
def leading (num den : Nat) : Int :=
  if den ≤ num then (Nat.toDigits 10 (num / den)).length - 1
  else 1 - (Nat.toDigits 10 (den / num)).length

def ofDyadic (d : Dyadic) : Decimal :=
  let places := (-d.exponent).toNat
  trim (d.num * Nat.pow 5 places) places

/-- The fewest digits that read back as `x`, of those the nearest to `x`. Seventeen digits are
always enough, eighteen grids are tried because `leading` may be one too high; the exact fraction
stands last. The sign of `x` is left out. -/
def shortest (x : Float) (d : Dyadic) : Decimal :=
  let grids := (List.range 18).map fun (i : Nat) => leading d.num d.den - i
  (grids.findSome? fun step => (around d.num d.den step).find? fun c => c.toFloat = x.abs).getD
    (ofDyadic d)

def roundEven (num den : Nat) : Nat :=
  let below := num / den
  let rest := num % den
  if 2 * rest < den then below else if den < 2 * rest then below + 1 else below + below % 2

def fixed (places : Nat) (d : Dyadic) : Decimal :=
  ⟨roundEven (d.num * Nat.pow 10 places) d.den, places⟩

end Decimal
end Quadratics.Number
