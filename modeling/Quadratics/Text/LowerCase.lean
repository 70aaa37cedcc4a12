import Quadratics.Text.LetterCase
/-! Texts in small letters. Two capitals are special: a dotted I becomes two characters, and a sigma
at the end of a word has a form of its own. -/
namespace Quadratics.Text

def CaseRun.covers (r : CaseRun) (n : Nat) : Bool :=
  r.first ≤ n && n ≤ r.last && (n - r.first) % r.step == 0

def small (c : Char) : Char :=
  match capitals.find? (·.covers c.toNat) with
  | some r => Char.ofNat (c.toNat + r.shift).toNat
  | none => c

def inRanges (ranges : List (Nat × Nat)) (c : Char) : Bool :=
  ranges.any fun (first, last) => first ≤ c.toNat && c.toNat ≤ last

def meetsCased (cs : List Char) : Bool :=
  match cs.dropWhile (inRanges ignoredRanges) with
  | c :: _ => inRanges casedRanges c
  | [] => false

def lowerAfter (before : List Char) : List Char → List Char
  | [] => []
  | c :: cs =>
    let now :=
      if c = 'Σ' then [if meetsCased before && !meetsCased cs then 'ς' else 'σ']
      else if c = 'İ' then ['i', '\u0307']
      else [small c]
    now ++ lowerAfter (c :: before) cs

def lower (cs : List Char) : List Char := lowerAfter [] cs

end Quadratics.Text
