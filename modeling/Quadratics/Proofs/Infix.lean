import Quadratics.Proofs.Formula
/-! The grammar of equations over the kinds of their tokens, blanks left out. Each derivation comes
with the formula it stands for. -/
namespace Quadratics.Infix

open Token (Kind)

/-- The levels of the grammar, each one made of the one before. -/
inductive Phrase where
  | atom | signed | power | product | sum

/-- Two factors may stand side by side if the second starts with a variable, or with a number
directly after `)`. -/
def juxtaposable (first second : List Kind) : Bool :=
  match second with
  | .var :: _ => true
  | .number _ :: _ => first.getLast?.any (·.isRightParen)
  | _ => false

inductive Derives : Phrase → List Kind → Formula → Prop where
  | number (value : Float) : Derives .atom [.number value] (.number value)
  | var : Derives .atom [.var] .var
  | paren {w : List Kind} {f : Formula} (h : Derives .sum w f) :
      Derives .atom (.leftParen :: w ++ [.rightParen]) f
  | ofAtom {w : List Kind} {f : Formula} (h : Derives .atom w f) : Derives .signed w f
  | minus {w : List Kind} {f : Formula} (h : Derives .signed w f) :
      Derives .signed (.operator .sub :: w) (.unary .unaryMinus f)
  | plus {w : List Kind} {f : Formula} (h : Derives .signed w f) :
      Derives .signed (.operator .add :: w) (.unary .unaryPlus f)
  | ofSigned {w : List Kind} {f : Formula} (h : Derives .signed w f) : Derives .power w f
  | pow {v w : List Kind} {f g : Formula} (hl : Derives .signed v f) (hr : Derives .power w g) :
      Derives .power (v ++ .operator .pow :: w) (.binary .pow f g)
  | ofPower {w : List Kind} {f : Formula} (h : Derives .power w f) : Derives .product w f
  | mul {v w : List Kind} {f g : Formula} (hl : Derives .product v f) (hr : Derives .power w g) :
      Derives .product (v ++ .operator .mul :: w) (.binary .mul f g)
  | div {v w : List Kind} {f g : Formula} (hl : Derives .product v f) (hr : Derives .power w g) :
      Derives .product (v ++ .operator .div :: w) (.binary .div f g)
  | juxtapose {v w : List Kind} {f g : Formula} (hl : Derives .product v f)
      (hr : Derives .power w g) (hj : juxtaposable v w = true) :
      Derives .product (v ++ w) (.binary .mul f g)
  | ofProduct {w : List Kind} {f : Formula} (h : Derives .product w f) : Derives .sum w f
  | add {v w : List Kind} {f g : Formula} (hl : Derives .sum v f) (hr : Derives .product w g) :
      Derives .sum (v ++ .operator .add :: w) (.binary .add f g)
  | sub {v w : List Kind} {f g : Formula} (hl : Derives .sum v f) (hr : Derives .product w g) :
      Derives .sum (v ++ .operator .sub :: w) (.binary .sub f g)

/-- An equation is a sum, two sums around `=`, or a sum behind `=`; its formula has to be zero. -/
inductive Equation : List Kind → Formula → Prop where
  | zero {w : List Kind} {f : Formula} (h : Derives .sum w f) : Equation w f
  | sides {v w : List Kind} {f g : Formula} (hl : Derives .sum v f) (hr : Derives .sum w g) :
      Equation (v ++ .equals :: w) (.binary .sub f g)
  | right {w : List Kind} {f : Formula} (h : Derives .sum w f) :
      Equation (.equals :: w) (.binary .sub (.number 0) f)

def significant (ts : List Token) : List Kind := (ts.map (·.kind)).filter (!·.isWhitespace)

def endsPhrase (k : Kind) : Bool := k.isOperand || k.isRightParen

theorem getLast?_append_of_any {p : Kind → Bool} (v : List Kind) {w : List Kind}
    (h : w.getLast?.any p = true) : (v ++ w).getLast? = w.getLast? := by
  cases hw : w.getLast? with
  | none => simp [hw] at h
  | some k => simp [List.getLast?_append, hw]

theorem Derives.getLast? {p : Phrase} {w : List Kind} {f : Formula} (h : Derives p w f) :
    w.getLast?.any endsPhrase = true := by
  have grow {v w : List Kind} (h : w.getLast?.any endsPhrase = true) :
      (v ++ w).getLast?.any endsPhrase = true := by
    rwa [getLast?_append_of_any v h]
  induction h with
  | number value => rfl
  | var => rfl
  | paren => rw [List.getLast?_concat]; rfl
  | ofAtom h ih => exact ih
  | minus h ih => exact grow (v := [_]) ih
  | plus h ih => exact grow (v := [_]) ih
  | ofSigned h ih => exact ih
  | pow hl hr _ ih => exact grow (grow (v := [_]) ih)
  | ofPower h ih => exact ih
  | mul hl hr _ ih => exact grow (grow (v := [_]) ih)
  | div hl hr _ ih => exact grow (grow (v := [_]) ih)
  | juxtapose hl hr hj _ ih => exact grow ih
  | ofProduct h ih => exact ih
  | add hl hr _ ih => exact grow (grow (v := [_]) ih)
  | sub hl hr _ ih => exact grow (grow (v := [_]) ih)

theorem Derives.proper {p : Phrase} {w : List Kind} {f : Formula} (h : Derives p w f) :
    f.Proper := by
  induction h with
  | number value => trivial
  | var => trivial
  | paren h ih => exact ih
  | ofAtom h ih => exact ih
  | minus h ih => exact ⟨rfl, ih⟩
  | plus h ih => exact ⟨rfl, ih⟩
  | ofSigned h ih => exact ih
  | pow hl hr ihl ihr => exact ⟨rfl, ihl, ihr⟩
  | ofPower h ih => exact ih
  | mul hl hr ihl ihr => exact ⟨rfl, ihl, ihr⟩
  | div hl hr ihl ihr => exact ⟨rfl, ihl, ihr⟩
  | juxtapose hl hr hj ihl ihr => exact ⟨rfl, ihl, ihr⟩
  | ofProduct h ih => exact ih
  | add hl hr ihl ihr => exact ⟨rfl, ihl, ihr⟩
  | sub hl hr ihl ihr => exact ⟨rfl, ihl, ihr⟩

theorem Equation.proper {w : List Kind} {f : Formula} (h : Equation w f) : f.Proper := by
  cases h with
  | zero h => exact h.proper
  | sides hl hr => exact ⟨rfl, hl.proper, hr.proper⟩
  | right h => exact ⟨rfl, trivial, h.proper⟩

end Quadratics.Infix
