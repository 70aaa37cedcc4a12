import Quadratics.Proofs.Number.Arithmetic
import Quadratics.Proofs.Polynomial.Order
/-! The operands of a sum or a product can change places anywhere in a tree. A product refuses both
orders for the same reason; trees that are refused may differ in the reason, as the left operand is
folded first. -/
namespace Quadratics

namespace Polynomial

variable {ts us : List Term}

theorem merge_comm (ts us : List Term) : merge ts us = merge us ts := by
  induction ts, us using merge.induct with
  | case1 us => rw [merge, merge_nil]
  | case2 ts hne => rw [merge_nil, merge]
  | case3 t ts u us hut ih =>
    rw [merge, if_pos hut, ih, merge, if_neg (Int32.not_lt.mpr (Int32.le_of_lt hut)), if_pos hut]
  | case4 t ts u us hut htu ih =>
    rw [merge, if_neg hut, if_pos htu, ih, merge, if_pos htu]
  | case5 t ts u us hut htu ih =>
    have hpower : t.power = u.power :=
      Int32.le_antisymm (Int32.not_lt.mp hut) (Int32.not_lt.mp htu)
    rw [merge, if_neg hut, if_neg htu, ih, merge, if_neg htu, if_neg hut, hpower,
      Number.add_comm]

protected theorem add_comm (p q : Polynomial) : p.add q = q.add p :=
  congrArg Polynomial.mk (merge_comm p.terms q.terms)

theorem shifted_comm (a b : Int32) (c : Float) (position : Nat) :
    shifted a b c position = shifted b a c position := by
  rw [shifted, shifted, Int.add_comm]

theorem scale_comm (a b : Term) (position : Nat) :
    scale ⟨[a]⟩ b position = scale ⟨[b]⟩ a position := by
  simp only [scale, List.mapM_cons, List.mapM_nil, shifted_comm a.power,
    Number.mul_comm a.coefficient]

protected theorem mul_comm (p q : Polynomial) (position : Nat) :
    p.mul q position = q.mul p position := by
  obtain ⟨ts⟩ := p
  obtain ⟨us⟩ := q
  match ts, us with
  | [a], [b] => exact scale_comm a b position
  | [a], [] | [], [a] | [a], _ :: _ :: _ | _ :: _ :: _, [a] => rfl
  | [], [] | [], _ :: _ :: _ | _ :: _ :: _, [] | _ :: _ :: _, _ :: _ :: _ => rfl

end Polynomial

namespace Expression

/-- The same tree, but for the order of the operands at any of its sums and products. -/
inductive Exchanged : Expression → Expression → Prop where
  | number (value : Float) (position : Nat) :
      Exchanged (.number value position) (.number value position)
  | var (multiplier : Float) (position : Nat) :
      Exchanged (.var multiplier position) (.var multiplier position)
  | unary {op : Operator} {e e' : Expression} {position : Nat} (h : Exchanged e e') :
      Exchanged (.unary op e position) (.unary op e' position)
  | binary {op : Operator} {l l' r r' : Expression} {position : Nat} (hl : Exchanged l l')
      (hr : Exchanged r r') : Exchanged (.binary op l r position) (.binary op l' r' position)
  | exchange {op : Operator} {l l' r r' : Expression} {position : Nat}
      (hop : op = .add ∨ op = .mul) (hl : Exchanged l l') (hr : Exchanged r r') :
      Exchanged (.binary op l r position) (.binary op r' l' position)

theorem applyBinary_comm {op : Operator} (hop : op = .add ∨ op = .mul) (p q : Polynomial)
    (position : Nat) : applyBinary op p q position = applyBinary op q p position := by
  rcases hop with rfl | rfl
  · exact congrArg Except.ok (Polynomial.add_comm p q)
  · exact Polynomial.mul_comm p q position

theorem fold_unary_eq_ok {op : Operator} {e : Expression} {position : Nat} {p : Polynomial} :
    (unary op e position).fold = .ok p ↔
      ∃ q, e.fold = .ok q ∧ applyUnary op q position = .ok p := bind_eq_ok

theorem fold_binary_eq_ok {op : Operator} {l r : Expression} {position : Nat} {p : Polynomial} :
    (binary op l r position).fold = .ok p ↔
      ∃ a b, l.fold = .ok a ∧ r.fold = .ok b ∧ applyBinary op a b position = .ok p := by
  simp only [fold, bind_eq_ok, exists_and_left]

/-- A tree is folded exactly if the other one is, and both have the same polynomial. -/
theorem fold_exchanged {e e' : Expression} (h : Exchanged e e') (p : Polynomial) :
    e.fold = .ok p ↔ e'.fold = .ok p := by
  induction h generalizing p with
  | number value position => rfl
  | var multiplier position => rfl
  | unary h ih => simp only [fold_unary_eq_ok, ih]
  | binary hl hr ihl ihr => simp only [fold_binary_eq_ok, ihl, ihr]
  | exchange hop hl hr ihl ihr =>
    simp only [fold_binary_eq_ok, ihl, ihr]
    constructor
    · rintro ⟨a, b, ha, hb, hp⟩
      exact ⟨b, a, hb, ha, applyBinary_comm hop a b _ ▸ hp⟩
    · rintro ⟨b, a, hb, ha, hp⟩
      exact ⟨a, b, ha, hb, applyBinary_comm hop b a _ ▸ hp⟩

/-- `(x + 1) * 2x + x` and `x + 2x * (1 + x)`. -/
theorem fold_exchanged_product :
    let sum := binary .add (binary .mul (binary .add (var 1 1) (number 1 5) 3)
      (binary .mul (number 2 10) (var 1 11) 11) 8) (var 1 15) 13
    let sum' := binary .add (var 1 15) (binary .mul (binary .mul (number 2 10) (var 1 11) 11)
      (binary .add (number 1 5) (var 1 1) 3) 8) 13
    Exchanged sum sum' ∧ sum.fold = .ok ⟨[⟨2, 2⟩, ⟨1, 3⟩]⟩ ∧
      sum'.fold = .ok ⟨[⟨2, 2⟩, ⟨1, 3⟩]⟩ := by
  intro sum sum'
  have hfactor : Exchanged (binary .add (var 1 1) (number 1 5) 3)
      (binary .add (number 1 5) (var 1 1) 3) := .exchange (.inl rfl) (.var 1 1) (.number 1 5)
  have hproduct : Exchanged (binary .mul (number 2 10) (var 1 11) 11)
      (binary .mul (number 2 10) (var 1 11) 11) := .binary (.number 2 10) (.var 1 11)
  have h : Exchanged sum sum' :=
    .exchange (.inl rfl) (.exchange (.inr rfl) hfactor hproduct) (.var 1 15)
  have hfold : sum.fold = .ok ⟨[⟨2, 2⟩, ⟨1, 3⟩]⟩ := by decide +kernel
  exact ⟨h, hfold, (fold_exchanged h _).mp hfold⟩

end Expression
end Quadratics
