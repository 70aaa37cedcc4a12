import Quadratics.Error
import Quadratics.Text.Blank
/-! The scanner: the longest lexeme at each place, blanks included, until a character starts none.
Nothing else is refused: a numeral has a digit and one point at most, so that it can always be read
(`isNumeral_numeral`), and each of the five operator characters is an operator. -/
namespace Quadratics

namespace Lexeme

/-- The longest start of the form digits, point, digits; the point may be missing, and the digits on
one side of it. -/
def numeral (cs : List Char) : List Char :=
  let whole := cs.takeWhile Char.isDigit
  match cs.dropWhile Char.isDigit with
  | '.' :: rest =>
    let places := rest.takeWhile Char.isDigit
    if whole.isEmpty && places.isEmpty then [] else whole ++ '.' :: places
  | _ => whole

def decimal (cs : List Char) : Number.Decimal :=
  ⟨Nat.ofDigitChars 10 (cs.filter Char.isDigit) 0, ((cs.dropWhile Char.isDigit).drop 1).length⟩

def symbol? (c : Char) : Option Token.Kind :=
  match c with
  | 'x' | 'X' => some .var
  | '+' => some (.operator .add)
  | '-' => some (.operator .sub)
  | '*' => some (.operator .mul)
  | '/' => some (.operator .div)
  | '^' => some (.operator .pow)
  | '(' => some .leftParen
  | ')' => some .rightParen
  | '=' => some .equals
  | _ => none

/-- The longest lexeme at the start and what it stands for. -/
def first? (cs : List Char) : Option (Token.Kind × List Char) :=
  match cs with
  | [] => none
  | c :: _ =>
    if Text.isBlank c then some (.whitespace, cs.takeWhile Text.isBlank)
    else
      match symbol? c with
      | some kind => some (kind, [c])
      | none =>
        match numeral cs with
        | [] => none
        | digits => some (.number (decimal digits).toFloat, digits)

theorem first?_ne_nil {cs text : List Char} {kind : Token.Kind}
    (h : first? cs = some (kind, text)) : text ≠ [] := by
  unfold first? at h
  split at h
  · simp at h
  · split at h
    · next hb => cases h; simp [hb]
    · split at h
      · cases h; simp
      · split at h
        · simp at h
        · next hn => cases h; exact hn

end Lexeme

structure Scanner where
  rest : List Char
  column : Nat

namespace Scanner

def ofString (source : String) : Scanner := ⟨source.toList, 0⟩

/-- The next token, or the refusal of a character, after which nothing is left. -/
def next? (s : Scanner) : Option (Except EquationError Token × Scanner) :=
  match s.rest with
  | [] => none
  | c :: _ =>
    match Lexeme.first? s.rest with
    | some (kind, text) =>
      some (.ok ⟨kind, String.ofList text, s.column⟩,
        ⟨s.rest.drop text.length, s.column + text.length⟩)
    | none => some (.error ⟨.unknownCharacter c, some s.column⟩, ⟨[], s.column⟩)

theorem length_next? {s t : Scanner} {item : Except EquationError Token}
    (h : s.next? = some (item, t)) : t.rest.length < s.rest.length := by
  unfold next? at h
  split at h
  · simp at h
  · next c cs hs =>
    split at h
    · next kind text hl =>
      cases h
      have := List.length_pos_iff.mpr (Lexeme.first?_ne_nil hl)
      simp only [List.length_drop, hs, List.length_cons]
      omega
    · cases h
      simp [hs]

def items (s : Scanner) : List (Except EquationError Token) :=
  match _h : s.next? with
  | none => []
  | some (item, t) => item :: t.items
termination_by s.rest.length
decreasing_by exact length_next? _h

end Scanner

def tokenize (source : String) : Except EquationError (List Token) :=
  (Scanner.ofString source).items.mapM id

end Quadratics
