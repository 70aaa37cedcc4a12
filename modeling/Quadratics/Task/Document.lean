import Quadratics.Task.Error
import Quadratics.Text.Blank
/-! Task files: sections of a title line and lines `key: value`. Blank lines and comments are
skipped; every section has at least one pair. -/
namespace Quadratics.Task

abbrev Section := String × List (String × String)

def isSpace (c : Char) : Bool := c == ' ' || c == '\t'

def isKeyStart (c : Char) : Bool := c.isAlpha || c == '_'

def isKeyCharacter (c : Char) : Bool := c.isAlphanum || c == '_'

def key? (line : List Char) : Option (List Char × List Char) :=
  let start := line.dropWhile isSpace
  match start with
  | [] => none
  | c :: _ =>
    if isKeyStart c then
      some (start.takeWhile isKeyCharacter, (start.dropWhile isKeyCharacter).dropWhile isSpace)
    else none

/-- What a line says. A value ends at a carriage return inside the line; `rest` is what is left
then. -/
inductive Entry where
  | title (name : String)
  | pair (key value : String) (rest : List Char)
  | other

/-- A carriage return at the end belongs to the end of the line. -/
def endsLine (rest : List Char) : Bool := rest.isEmpty || rest == ['\r']

def entry (line : List Char) : Entry :=
  match key? line with
  | none => .other
  | some (key, ':' :: value) =>
    .pair (String.ofList key) (String.ofList (Text.trim (value.takeWhile (· ≠ '\r'))))
      (value.dropWhile (· ≠ '\r'))
  | some (key, rest) => if endsLine rest then .title (String.ofList key) else .other

def pairs : List (List Char) → List (String × String) × List (List Char)
  | [] => ([], [])
  | line :: lines =>
    match entry line with
    | .pair key value rest =>
      if endsLine rest then ((key, value) :: (pairs lines).1, (pairs lines).2)
      else ([(key, value)], rest :: lines)
    | .title _ | .other => ([], line :: lines)

theorem length_pairs (lines : List (List Char)) : (pairs lines).2.length ≤ lines.length := by
  induction lines with
  | nil => simp [pairs]
  | cons line lines ih =>
    unfold pairs
    split
    · split
      · exact Nat.le_succ_of_le ih
      · simp
    · simp
    · simp

def sections : List (List Char) → List Section × List (List Char)
  | [] => ([], [])
  | line :: lines =>
    match entry line with
    | .title name =>
      if (pairs lines).1.isEmpty then ([], line :: lines)
      else ((name, (pairs lines).1) :: (sections (pairs lines).2).1, (sections (pairs lines).2).2)
    | .pair _ _ _ | .other => ([], line :: lines)
termination_by lines => lines.length
decreasing_by all_goals exact Nat.lt_succ_of_le (length_pairs lines)

def isComment (trimmed : List Char) : Bool :=
  match trimmed with
  | '/' :: '/' :: _ | '#' :: _ | '%' :: _ | ';' :: _ => true
  | _ => false

def isSkipped (line : List Char) : Bool :=
  let trimmed := Text.trim line
  trimmed.isEmpty || isComment trimmed

/-- The sections of a text; the first line that fits into none is quoted. -/
def parse (text : String) : Except TaskError (List Section) :=
  let (found, left) := sections ((Text.lines text.toList).filter (!isSkipped ·))
  match left.find? (fun line => !(Text.trim line).isEmpty) with
  | none => .ok found
  | some _ => .error (.parse (String.ofList (Text.trim (left.headD []))))

end Quadratics.Task
