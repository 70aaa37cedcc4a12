import Quadratics.Proofs.Expression.Building
/-! The places of its tokens do not matter to a tree: it folds to the same polynomial, or is refused
for the same cause. -/
namespace Quadratics

open Failure (SameCause)

theorem agree_refuse {α : Type} {R : α → α → Prop} (cause : Cause) (m n : Nat) :
    Agree SameCause R (refuse cause m) (refuse cause n) := .error rfl

namespace Polynomial

variable (p q : Polynomial) (m n : Nat)

theorem agree_ensureFinite : Agree SameCause Eq (p.ensureFinite m) (p.ensureFinite n) := by
  unfold ensureFinite
  split
  · exact .ok rfl
  · exact agree_refuse _ m n

theorem agree_shifted (power shift : Int32) (c : Float) :
    Agree SameCause Eq (shifted power shift c m) (shifted power shift c n) := by
  unfold shifted
  split
  · exact .ok rfl
  · exact agree_refuse _ m n

theorem agree_scale (t : Term) : Agree SameCause Eq (p.scale t m) (p.scale t n) := by
  refine (Agree.mapM (fun u => agree_shifted m n _ _ _) _).bind ?_
  rintro ts _ rfl
  exact agree_ensureFinite _ m n

theorem agree_mul : Agree SameCause Eq (p.mul q m) (p.mul q n) := by
  unfold mul
  split
  · exact agree_scale p m n _
  · exact agree_scale q m n _
  · exact agree_refuse _ m n

theorem agree_divided (t u : Term) : Agree SameCause Eq (divided t m u) (divided t n u) := by
  unfold divided
  split
  · exact .error trivial
  · exact agree_shifted m n _ _ _

theorem agree_div : Agree SameCause Eq (p.div q m) (p.div q n) := by
  unfold div
  split
  · split
    · exact agree_refuse _ m n
    · refine (Agree.mapM (fun u => agree_divided m n _ _) _).bind ?_
      rintro ts _ rfl
      exact agree_ensureFinite _ m n
  · exact agree_refuse _ m n

theorem agree_exponent : Agree SameCause Eq (q.exponent m) (q.exponent n) := by
  unfold exponent
  split
  · split
    · exact agree_refuse _ m n
    · split
      · exact agree_refuse _ m n
      · split
        · exact agree_refuse _ m n
        · exact .ok rfl
  · exact agree_refuse _ m n

theorem agree_pow : Agree SameCause Eq (p.pow q m) (p.pow q n) := by
  refine (agree_exponent q m n).bind ?_
  rintro k _ rfl
  split
  · split
    · exact agree_refuse _ m n
    · split
      · exact agree_ensureFinite _ m n
      · exact agree_refuse _ m n
  · exact agree_refuse _ m n

end Polynomial

namespace Expression

theorem agree_applyUnary (op : Operator) (p : Polynomial) (m n : Nat) :
    Agree SameCause Eq (applyUnary op p m) (applyUnary op p n) := by
  cases op with
  | unaryMinus | unaryPlus => exact .ok rfl
  | add | sub | mul | div | pow => exact agree_refuse _ m n

theorem agree_applyBinary (op : Operator) (p q : Polynomial) (m n : Nat) :
    Agree SameCause Eq (applyBinary op p q m) (applyBinary op p q n) := by
  cases op with
  | add | sub => exact .ok rfl
  | mul => exact Polynomial.agree_mul p q m n
  | div => exact Polynomial.agree_div p q m n
  | pow => exact Polynomial.agree_pow p q m n
  | unaryMinus | unaryPlus => exact agree_refuse _ m n

theorem agree_fold {e e' : Expression} (hw : e.Written) (hw' : e'.Written)
    (h : e.formula = e'.formula) : Agree SameCause Eq e.fold e'.fold := by
  induction e generalizing e' with
  | number value position =>
    cases e' <;> cases h
    exact .ok rfl
  | var multiplier position =>
    cases e' <;> cases h
    cases hw
    cases hw'
    exact .ok rfl
  | unary op operand position ih =>
    cases e' with
    | unary op' operand' position' =>
      injection h with hop ho
      subst hop
      have hwo : operand'.Written := hw'
      refine (ih hw hwo ho).bind ?_
      rintro p _ rfl
      exact agree_applyUnary op p _ _
    | number | var | binary => cases h
  | binary op left right position ihl ihr =>
    cases e' with
    | binary op' left' right' position' =>
      injection h with hop hl hr
      subst hop
      refine (ihl hw.1 hw'.1 hl).bind ?_
      rintro p _ rfl
      refine (ihr hw.2 hw'.2 hr).bind ?_
      rintro q _ rfl
      exact agree_applyBinary op p q _ _
    | number | var | unary => cases h

end Expression
end Quadratics
