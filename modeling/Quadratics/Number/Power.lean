/-! Whole powers of a number by repeated squaring, each product rounded. -/
namespace Quadratics.Number

/-- `product * base ^ n`, the low bits of `n` first. -/
def powerInto (product base : Float) (n : Nat) : Float :=
  let product := if n % 2 = 1 then product * base else product
  if h : n / 2 = 0 then product else powerInto product (base * base) (n / 2)
termination_by n
decreasing_by omega

def power (base : Float) (n : Int) : Float :=
  let positive := powerInto 1 base n.natAbs
  if n < 0 then 1 / positive else positive

end Quadratics.Number
