/-! White space as Unicode has it, trimming, and the lines of a text. -/
namespace Quadratics.Text

def blankRanges : List (Nat × Nat) :=
  [(0x9, 0xD), (0x20, 0x20), (0x85, 0x85), (0xA0, 0xA0), (0x1680, 0x1680), (0x2000, 0x200A),
   (0x2028, 0x2029), (0x202F, 0x202F), (0x205F, 0x205F), (0x3000, 0x3000)]

def isBlank (c : Char) : Bool :=
  blankRanges.any fun (first, last) => first ≤ c.toNat && c.toNat ≤ last

def trimStart (cs : List Char) : List Char := cs.dropWhile isBlank

def trimEnd (cs : List Char) : List Char := (cs.reverse.dropWhile isBlank).reverse

def trim (cs : List Char) : List Char := trimEnd (trimStart cs)

/-- A line as read, the latest character first; a carriage return in front of the line feed belongs
to the line's end. -/
def endLine : List Char → List Char
  | '\r' :: current => current.reverse
  | current => current.reverse

def linesAfter (current : List Char) : List Char → List (List Char)
  | [] => if current.isEmpty then [] else [current.reverse]
  | c :: cs =>
    if c = '\n' then endLine current :: linesAfter [] cs else linesAfter (c :: current) cs

/-- Lines end at line feeds; the last one needs none, and an empty one after the last line feed does
not count. -/
def lines (cs : List Char) : List (List Char) := linesAfter [] cs

end Quadratics.Text
