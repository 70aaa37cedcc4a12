import Quadratics.Proofs.Expression.Building
import Quadratics.Proofs.Number.ReadBack
import Quadratics.Proofs.Token.Numerals
import Quadratics.Report.Forms
/-! The text of a reduced form, as tokens and as a formula of the grammar. -/
namespace Quadratics.Report

open Token (Kind)
open Number (Decimal Nonzero)
open Infix (Derives Equation)

def exponentKinds (k : Int) : List Kind :=
  (if k < 0 then [.operator .sub] else []) ++ [.number (⟨k.natAbs, 0⟩ : Decimal).toFloat]

def monomialKinds (t : Term) : List Kind :=
  .number t.coefficient.abs :: .operator .mul :: .var :: .operator .pow ::
    exponentKinds t.power.toInt

def firstKinds (t : Term) : List Kind :=
  (if t.coefficient < 0 then [.operator .sub] else []) ++ monomialKinds t

def laterOperator (t : Term) : Operator := if t.coefficient < 0 then .sub else .add

def laterKinds (t : Term) : List Kind := .operator (laterOperator t) :: monomialKinds t

def sumKinds : List Term → List Kind
  | [] => [.number 0]
  | t :: ts => firstKinds t ++ ts.flatMap laterKinds

def exponentFormula (k : Int) : Formula :=
  if k < 0 then .unary .unaryMinus (.number (⟨k.natAbs, 0⟩ : Decimal).toFloat)
  else .number (⟨k.natAbs, 0⟩ : Decimal).toFloat

def monomialFormula (coefficient : Formula) (t : Term) : Formula :=
  .binary .mul coefficient (.binary .pow .var (exponentFormula t.power.toInt))

def firstFormula (t : Term) : Formula :=
  monomialFormula
    (if t.coefficient < 0 then .unary .unaryMinus (.number t.coefficient.abs)
      else .number t.coefficient.abs) t

def laterFormula (f : Formula) (t : Term) : Formula :=
  .binary (laterOperator t) f (monomialFormula (.number t.coefficient.abs) t)

def sumFormula : List Term → Formula
  | [] => .number 0
  | t :: ts => ts.foldl laterFormula (firstFormula t)

def equationFormula (ts : List Term) : Formula := .binary .sub (sumFormula ts) (.number 0)

variable {rest : List Char} {ks : List Kind} {t : Term} {ts : List Term}

theorem toList_toString_int (n : Int) :
    (toString n).toList = (if n < 0 then ['-'] else []) ++ (⟨n.natAbs, 0⟩ : Decimal).chars := by
  cases n with
  | ofNat n => simp [toString, Int.repr, Decimal.chars]
  | negSucc n => simp [toString, Int.repr, Decimal.chars]

theorem toList_monomial (t : Term) :
    (monomial t).toList = Number.plainChars t.coefficient.abs ++ ' ' :: '*' :: ' ' :: 'X' :: '^' ::
      (toString t.power.toInt).toList := by
  simp [monomial, toString, Number.plain]

theorem toList_firstTerm (t : Term) :
    (firstTerm t).toList = (if t.coefficient < 0 then ['-'] else []) ++ (monomial t).toList := by
  rw [firstTerm, String.toList_append]
  split <;> rfl

theorem toList_laterTerm (t : Term) :
    (laterTerm t).toList =
      ' ' :: (if t.coefficient < 0 then '-' else '+') :: ' ' :: (monomial t).toList := by
  rw [laterTerm, String.toList_append]
  split <;> rfl

theorem toList_reducedForm (t : Term) (ts : List Term) :
    (reducedForm (t :: ts)).toList =
      (firstTerm t).toList ++
        (ts.flatMap (fun u => (laterTerm u).toList) ++ [' ', '=', ' ', '0']) := by
  rw [reducedForm]
  simp [String.toList_append, List.flatMap_map]

def Spaced (rest : List Char) : Prop := ∀ c ∈ rest.head?, c = ' '

theorem Spaced.ends (h : Spaced rest) : Lexeme.Ends rest := by
  intro c hc
  rw [h c hc]
  decide

theorem scans_int (n : Int) (hr : Spaced rest) (h : Scans rest ks) :
    Scans ((toString n).toList ++ rest) (exponentKinds n ++ ks) := by
  have hd := h.decimal ⟨n.natAbs, 0⟩ hr.ends
  rw [toList_toString_int, exponentKinds, List.append_assoc, List.append_assoc]
  split
  · exact hd.symbol rfl (by decide) rfl
  · exact hd

theorem scans_monomial (hc : Nonzero t.coefficient) (hr : Spaced rest) (h : Scans rest ks) :
    Scans ((monomial t).toList ++ rest) (monomialKinds t ++ ks) := by
  obtain ⟨d, hd, hv⟩ := Number.plainChars_abs hc.isFinite
  have hpow := scans_int t.power.toInt hr h
  have hx := (hpow.symbol (c := '^') rfl (by decide) rfl).symbol (c := 'X') rfl (by decide) rfl
  have hmul := (hx.blank (by simp; decide)).symbol (c := '*') rfl (by decide) rfl
  have hnum := (hmul.blank (by simp; decide)).decimal d (by simp [Lexeme.Ends])
  rw [toList_monomial, hd, monomialKinds, ← hv]
  simpa using hnum

theorem scans_firstTerm (hc : Nonzero t.coefficient) (hr : Spaced rest) (h : Scans rest ks) :
    Scans ((firstTerm t).toList ++ rest) (firstKinds t ++ ks) := by
  have hm := scans_monomial hc hr h
  rw [toList_firstTerm, firstKinds, List.append_assoc, List.append_assoc]
  split
  · simp only [List.cons_append, List.nil_append]
    exact hm.symbol rfl (by decide) rfl
  · simpa only [List.nil_append] using hm

theorem spaced_laterTerms (hr : Spaced rest) :
    Spaced (ts.flatMap (fun u => (laterTerm u).toList) ++ rest) := by
  cases ts with
  | nil => exact hr
  | cons t ts => simp [Spaced, toList_laterTerm]

theorem scans_laterTerms (hc : ∀ t ∈ ts, Nonzero t.coefficient) (hr : Spaced rest)
    (h : Scans rest ks) :
    Scans (ts.flatMap (fun u => (laterTerm u).toList) ++ rest) (ts.flatMap laterKinds ++ ks) := by
  induction ts with
  | nil => exact h
  | cons t ts ih =>
    obtain ⟨ht, hts⟩ := List.forall_mem_cons.mp hc
    have hm := scans_monomial ht (spaced_laterTerms hr) (ih hts)
    obtain ⟨d, hd, -⟩ := Number.plainChars_abs ht.isFinite
    obtain ⟨c, cs, hfirst, hdigit⟩ := Lexeme.exists_chars_cons d
    have hb := hm.blank (by simp [toList_monomial, hd, hfirst, Lexeme.isBlank_of_isDigit hdigit])
    rw [List.flatMap_cons, List.flatMap_cons, toList_laterTerm, laterKinds, laterOperator,
      List.append_assoc, List.append_assoc]
    split
    · exact (hb.symbol (c := '-') rfl (by decide) rfl).blank (by simp; decide)
    · exact (hb.symbol (c := '+') rfl (by decide) rfl).blank (by simp; decide)

theorem toFloat_zero : (⟨0, 0⟩ : Decimal).toFloat = 0 := rfl

theorem scans_zero : Scans ['0'] [.number 0] := by
  rw [← toFloat_zero]
  exact Scans.nil.decimal ⟨0, 0⟩ (by simp [Lexeme.Ends])

theorem scans_right : Scans [' ', '=', ' ', '0'] [.equals, .number 0] :=
  ((scans_zero.blank (by simp; decide)).symbol (c := '=') rfl (by decide) rfl).blank
    (by simp; decide)

theorem scans_reducedForm (hc : ∀ t ∈ ts, Nonzero t.coefficient) :
    Scans (reducedForm ts).toList (sumKinds ts ++ [.equals, .number 0]) := by
  cases ts with
  | nil =>
    have h := scans_right.decimal ⟨0, 0⟩ (by simp [Lexeme.Ends])
    rw [toFloat_zero] at h
    exact h
  | cons t ts =>
    obtain ⟨ht, hts⟩ := List.forall_mem_cons.mp hc
    have hright : Spaced [' ', '=', ' ', '0'] := by simp [Spaced]
    have hlater := scans_laterTerms hts hright scans_right
    rw [toList_reducedForm, sumKinds, List.append_assoc]
    exact scans_firstTerm ht (spaced_laterTerms hright) hlater

theorem derives_exponent (k : Int) : Derives .power (exponentKinds k) (exponentFormula k) := by
  rw [exponentKinds, exponentFormula]
  split
  · exact .ofSigned (.minus (.ofAtom (.number _)))
  · exact .ofSigned (.ofAtom (.number _))

theorem derives_monomial {w : List Kind} {f : Formula} (t : Term)
    (h : Derives .product (w ++ [.number t.coefficient.abs]) f) :
    Derives .product (w ++ monomialKinds t) (monomialFormula f t) := by
  have hpow : Derives .power (.var :: .operator .pow :: exponentKinds t.power.toInt) _ :=
    .pow (v := [.var]) (.ofAtom .var) (derives_exponent t.power.toInt)
  simpa [monomialKinds, monomialFormula] using Derives.mul h hpow

theorem derives_firstTerm (t : Term) : Derives .sum (firstKinds t) (firstFormula t) := by
  rw [firstKinds, firstFormula]
  split
  · exact .ofProduct (derives_monomial t (.ofPower (.ofSigned (.minus (.ofAtom (.number _))))))
  · exact .ofProduct (derives_monomial t (.ofPower (.ofSigned (.ofAtom (.number _)))))

theorem derives_laterTerms {w : List Kind} {f : Formula} (h : Derives .sum w f) :
    Derives .sum (w ++ ts.flatMap laterKinds) (ts.foldl laterFormula f) := by
  induction ts generalizing w f with
  | nil => simpa using h
  | cons t ts ih =>
    have hm : Derives .product (monomialKinds t) (monomialFormula (.number t.coefficient.abs) t) :=
      derives_monomial (w := []) t (.ofPower (.ofSigned (.ofAtom (.number _))))
    have ht : Derives .sum (w ++ laterKinds t) (laterFormula f t) := by
      rw [laterKinds, laterFormula, laterOperator]
      split
      · exact .sub h hm
      · exact .add h hm
    rw [List.flatMap_cons, ← List.append_assoc, List.foldl_cons]
    exact ih ht

theorem equation_reducedForm (ts : List Term) :
    Equation (sumKinds ts ++ [.equals, .number 0]) (equationFormula ts) := by
  have hzero : Derives .sum [.number 0] (.number 0) :=
    .ofProduct (.ofPower (.ofSigned (.ofAtom (.number 0))))
  cases ts with
  | nil => exact .sides (v := [.number 0]) hzero hzero
  | cons t ts => exact .sides (derives_laterTerms (derives_firstTerm t)) hzero

/-- The only signs are minuses in front of numbers. -/
def Plain : Formula → Prop
  | .number _ | .var => True
  | .unary op operand => op = .unaryMinus ∧ ∃ value, operand = .number value
  | .binary _ left right => Plain left ∧ Plain right

theorem Plain.collapse {f : Formula} (h : Plain f) : f.collapse = f := by
  induction f with
  | number value => rfl
  | var => rfl
  | unary op operand _ =>
    obtain ⟨rfl, value, rfl⟩ := h
    rfl
  | binary op left right ihl ihr => rw [Formula.collapse, ihl h.1, ihr h.2]

theorem Plain.unmixed {f : Formula} (h : Plain f) : f.Unmixed := by
  induction f with
  | number value => trivial
  | var => trivial
  | unary op operand _ =>
    obtain ⟨-, value, rfl⟩ := h
    exact ⟨trivial, trivial⟩
  | binary op left right ihl ihr => exact ⟨ihl h.1, ihr h.2⟩

theorem plain_exponent (k : Int) : Plain (exponentFormula k) := by
  rw [exponentFormula]
  split
  · exact ⟨rfl, _, rfl⟩
  · trivial

theorem plain_firstTerm (t : Term) : Plain (firstFormula t) := by
  refine ⟨?_, trivial, plain_exponent _⟩
  split
  · exact ⟨rfl, _, rfl⟩
  · trivial

theorem plain_laterTerms {f : Formula} (h : Plain f) : Plain (ts.foldl laterFormula f) := by
  induction ts generalizing f with
  | nil => exact h
  | cons t ts ih => exact ih ⟨h, trivial, trivial, plain_exponent _⟩

theorem plain_equation (ts : List Term) : Plain (equationFormula ts) := by
  cases ts with
  | nil => exact ⟨trivial, trivial⟩
  | cons t ts => exact ⟨plain_laterTerms (plain_firstTerm t), trivial⟩

end Quadratics.Report
