import Quadratics.Number.Decimal
/-! The written forms of a number: plain digits without an exponent, a fixed count of places, and
the form of the log, which shows every number as a fraction or with an exponent. -/
namespace Quadratics.Number

def fraction (places n : Nat) : List Char :=
  let digits := Nat.toDigits 10 n
  List.replicate (places - digits.length) '0' ++ digits

def Decimal.chars (d : Decimal) : List Char :=
  if d.places = 0 then Nat.toDigits 10 d.digits
  else
    Nat.toDigits 10 (d.digits / Nat.pow 10 d.places) ++
      '.' :: fraction d.places (d.digits % Nat.pow 10 d.places)

def layout (x : Float) (magnitude : Dyadic → List Char) : List Char :=
  match dyadic? x with
  | some d => (if d.negative then ['-'] else []) ++ magnitude d
  | none => if x.isNaN then "NaN".toList else if x < 0 then "-inf".toList else "inf".toList

def plainChars (x : Float) : List Char := layout x fun d => (Decimal.shortest x d).chars

def plain (x : Float) : String := String.ofList (plainChars x)

def toPlaces (places : Nat) (x : Float) : String :=
  String.ofList (layout x fun d => (Decimal.fixed places d).chars)

def scientificChars (d : Decimal) : List Char :=
  let digits := Nat.toDigits 10 d.digits
  let exponent : Int := digits.length - 1 - d.places
  let shown := (digits.reverse.dropWhile (· == '0')).reverse
  let tail := match shown with
    | [] => ['0']
    | [first] => [first]
    | first :: more => first :: '.' :: more
  tail ++ 'e' :: (toString exponent).toList

/-- Magnitudes below 0.0001, but not zero, and from 10000000000000000 on have an exponent, all
others at least one digit after the point. -/
def logged (x : Float) : String :=
  String.ofList <| layout x fun d =>
    let decimal := Decimal.shortest x d
    if 1e16 ≤ x.abs ∨ (x.abs < 1e-4 ∧ 0 < x.abs) then scientificChars decimal
    else if decimal.places = 0 then decimal.chars ++ ['.', '0']
    else decimal.chars

end Quadratics.Number
