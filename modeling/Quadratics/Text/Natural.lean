/-! Natural numbers of 64 bits as they are written in settings. -/
namespace Quadratics.Text

def withoutPlus : List Char → List Char
  | '+' :: digits => digits
  | digits => digits

/-- Decimal digits, at least one, behind an optional plus sign. -/
def natural? (text : String) : Option Nat :=
  let digits := withoutPlus text.toList
  if !digits.isEmpty && digits.all Char.isDigit then
    let n := Nat.ofDigitChars 10 digits 0
    if n < UInt64.size then some n else none
  else none

end Quadratics.Text
