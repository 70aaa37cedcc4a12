import Quadratics.Proofs.Expression.Signs
import Quadratics.Proofs.Polynomial.Powers
/-! The operations that folding a tree comes to, and the failures among them: a tree is refused for
nothing else. -/
namespace Quadratics.Expression

open Failure (Algebraic)
open Quadratics.Polynomial (Combines Lowest)

/-- While the tree is folded, the operator at the place is applied to the polynomials of its
operands; nothing before it has failed. -/
inductive Applies : Expression → Operator → Polynomial → Polynomial → Nat → Prop where
  | here {op : Operator} {left right : Expression} {p q : Polynomial} {position : Nat}
      (hl : left.fold = .ok p) (hr : right.fold = .ok q) :
      Applies (.binary op left right position) op p q position
  | operand {op o : Operator} {e : Expression} {p q : Polynomial} {position place : Nat}
      (h : Applies e op p q position) : Applies (.unary o e place) op p q position
  | left {op o : Operator} {l r : Expression} {p q : Polynomial} {position place : Nat}
      (h : Applies l op p q position) : Applies (.binary o l r place) op p q position
  | right {op o : Operator} {l r : Expression} {p q s : Polynomial} {position place : Nat}
      (hl : l.fold = .ok s) (h : Applies r op p q position) :
      Applies (.binary o l r place) op p q position

variable {e : Expression} {op : Operator} {p q r : Polynomial} {position : Nat} {f : Failure}

theorem Applies.fold_eq_error (h : Applies e op p q position)
    (hf : applyBinary op p q position = .error f) : e.fold = .error f := by
  induction h with
  | here hl hr => exact bind_eq_error.mpr (.inr ⟨_, hl, bind_eq_error.mpr (.inr ⟨_, hr, hf⟩)⟩)
  | operand h ih => exact bind_eq_error.mpr (.inl (ih hf))
  | left h ih => exact bind_eq_error.mpr (.inl (ih hf))
  | right hl h ih => exact bind_eq_error.mpr (.inr ⟨_, hl, bind_eq_error.mpr (.inl (ih hf))⟩)

theorem applyUnary_ne_error (hop : op.isUnary = true) :
    applyUnary op p position ≠ .error f := by
  cases op with
  | unaryMinus => rintro ⟨⟩
  | unaryPlus => rintro ⟨⟩
  | add | sub | mul | div | pow => cases hop

theorem exists_applies_of_fold_eq_error (hp : e.Proper) (h : e.fold = .error f) :
    ∃ op p q position, op.isUnary = false ∧ Applies e op p q position ∧
      applyBinary op p q position = .error f := by
  induction e with
  | number value position => cases h
  | var m position => cases h
  | unary o operand place ih =>
    rcases bind_eq_error.mp h with h | ⟨p, -, h⟩
    · obtain ⟨op, p, q, position, hop, ha, hf⟩ := ih hp.2 h
      exact ⟨op, p, q, position, hop, ha.operand, hf⟩
    · exact absurd h (applyUnary_ne_error hp.1)
  | binary o left right place ihl ihr =>
    rcases bind_eq_error.mp h with h | ⟨p, hl, h⟩
    · obtain ⟨op, p, q, position, hop, ha, hf⟩ := ihl hp.2.1 h
      exact ⟨op, p, q, position, hop, ha.left, hf⟩
    · rcases bind_eq_error.mp h with h | ⟨q, hr, h⟩
      · obtain ⟨op, p, q, position, hop, ha, hf⟩ := ihr hp.2.2 h
        exact ⟨op, p, q, position, hop, .right hl ha, hf⟩
      · exact ⟨o, p, q, place, hp.1, .here hl hr, h⟩

theorem algebraic_applyBinary (hop : op.isUnary = false)
    (h : applyBinary op p q position = .error f) :
    Algebraic position f ∨ f = .overflow ∧ op = .div ∧ q.Lowest := by
  cases op with
  | add => cases h
  | sub => cases h
  | mul => exact .inl (Polynomial.algebraic_mul h)
  | div => exact (Polynomial.algebraic_div h).imp_right fun ⟨hf, hq⟩ => ⟨hf, rfl, hq⟩
  | pow => exact .inl (Polynomial.algebraic_pow h)
  | unaryMinus => cases hop
  | unaryPlus => cases hop

theorem combines_applyBinary (hop : op = .mul ∨ op = .div ∨ op = .pow)
    (h : applyBinary op p q position = .ok r) : Combines p q op r.powers := by
  rcases hop with rfl | rfl | rfl
  · exact Polynomial.combines_mul h
  · exact Polynomial.combines_div h
  · exact Polynomial.combines_pow h

theorem terms_ne_nil_of_applyBinary (hp : p.terms ≠ []) (hq : q.terms ≠ [])
    (h : applyBinary op p q position = .ok r) : r.terms ≠ [] := by
  cases op with
  | add =>
    cases h
    exact Polynomial.merge_ne_nil hp
  | sub =>
    cases h
    exact Polynomial.merge_ne_nil hp
  | mul | div | pow =>
    have hc := combines_applyBinary (by decide) h
    exact mt Polynomial.powers_eq_nil_iff.mpr (hc.ne_nil hp hq)
  | unaryMinus | unaryPlus => cases h

theorem terms_ne_nil_of_fold (h : e.fold = .ok p) : p.terms ≠ [] := by
  induction e generalizing p with
  | number value position =>
    cases h
    exact List.cons_ne_nil _ _
  | var m position =>
    cases h
    exact List.cons_ne_nil _ _
  | unary op operand position ih =>
    obtain ⟨q, hq, h⟩ := bind_eq_ok.mp h
    cases op with
    | unaryMinus =>
      cases h
      exact mt List.map_eq_nil_iff.mp (ih hq)
    | unaryPlus =>
      cases h
      exact ih hq
    | add | sub | mul | div | pow => cases h
  | binary op left right position ihl ihr =>
    obtain ⟨l, hl, h⟩ := bind_eq_ok.mp h
    obtain ⟨r, hr, h⟩ := bind_eq_ok.mp h
    exact terms_ne_nil_of_applyBinary (ihl hl) (ihr hr) h

theorem Applies.terms_ne_nil (h : Applies e op p q position) : p.terms ≠ [] := by
  induction h with
  | here hl hr => exact terms_ne_nil_of_fold hl
  | operand h ih => exact ih
  | left h ih => exact ih
  | right hl h ih => exact ih

end Quadratics.Expression
