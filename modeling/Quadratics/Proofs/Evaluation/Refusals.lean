import Mathlib.Control.Monad.Basic
import Quadratics.Proofs.Evaluation.Stages
import Quadratics.Proofs.Expression.Applying
import Quadratics.Proofs.Postfix.Arity
/-! How an evaluation ends without a result once its tokens are in order: mixed signs are the only
fault of a tree, and a divisor of the lowest power is the only thing that gets no verdict. -/
namespace Quadratics

open Expression (Applies applyBinary)
open Failure (Algebraic)
open Quadratics.Polynomial (Combines Lowest)

namespace Expression

/-- What passes the count of values is a tree, or signs are mixed in it. -/
theorem build_of_convert {items : List (Except EquationError Token)} {out : List Token}
    (h : Postfix.convert items = .ok out) :
    (∃ tree, build out = .ok tree) ∨
      ∃ t ∈ out, ∃ op : Operator, t.kind = .operator op ∧ op.isUnary = true ∧
        build out = .error ⟨.mixedSigns, some t.position⟩ := by
  obtain ⟨f, hp, hf⟩ := Postfix.exists_formula_of_convert h
  by_cases hu : f.Unmixed
  · obtain ⟨tree, htree, -, -⟩ := build_postorder hp hu hf
    exact .inl ⟨tree, htree⟩
  · exact .inr (build_mixed hp hu hf)

theorem fold_eq_error_of_build {ts : List Token} {tree : Expression} {f : Failure}
    (hb : build ts = .ok tree) (h : tree.fold = .error f) :
    ∃ op p q position, tree.Applies op p q position ∧
      (Algebraic position f ∨ f = .overflow ∧ op = .div ∧ q.Lowest) := by
  obtain ⟨op, p, q, position, hop, ha, hf⟩ :=
    exists_applies_of_fold_eq_error (hereditary_proper.build hb) h
  exact ⟨op, p, q, position, ha, algebraic_applyBinary hop hf⟩

theorem simplification_of_fold {ts : List Token} {tree : Expression} {e : EquationError}
    (hb : build ts = .ok tree) (h : tree.fold = .error (.rejected e)) :
    e.cause.stage = .simplification := by
  obtain ⟨op, p, q, position, -, ⟨cause, hc, he⟩ | ⟨he, -⟩⟩ := fold_eq_error_of_build hb h
  · cases he
    exact hc
  · cases he

end Expression

/-- Tokens that are accepted build a tree unless a sign stands under a different one, trees are
folded without a fault of the tree, and so mixed signs are the only such fault of an equation. -/
theorem tree_refuses_only_mixedSigns :
    (∀ items out, Postfix.convert items = .ok out →
      (∃ tree, Expression.build out = .ok tree) ∨
        ∃ t ∈ out, ∃ op : Operator, t.kind = .operator op ∧ op.isUnary = true ∧
          Expression.build out = .error ⟨.mixedSigns, some t.position⟩) ∧
    (∀ ts tree e, Expression.build ts = .ok tree → tree.fold = .error (.rejected e) →
      e.cause.stage ≠ .tree) ∧
    ∀ source e, evaluate source = .error (.rejected e) → e.cause.stage = .tree →
      e.cause = .mixedSigns ∧ e.message = "inconsistent adjacent unary operators" := by
  refine ⟨fun items out h => Expression.build_of_convert h, ?_, ?_⟩
  · intro ts tree e hb h
    simp [Expression.simplification_of_fold hb h]
  · intro source e h hs
    rcases evaluate_eq_error h with ⟨e', he, hl | hv⟩ | ⟨tokens, ht, ⟨e', hb, he⟩ | ⟨tree, hb, hf⟩⟩
    · cases he
      simp [hs] at hl
    · cases he
      simp [hs] at hv
    · cases he
      rcases Expression.build_of_convert ht with ⟨tree, htree⟩ | ⟨t, -, op, -, -, herr⟩
      · cases hb.symm.trans htree
      · cases hb.symm.trans herr
        exact ⟨rfl, rfl⟩
    · simp [Expression.simplification_of_fold hb hf] at hs

/-- `-+x` and `x / 0`. -/
theorem tree_refuses_only_mixedSigns_cases :
    (∃ out, Postfix.convert (Scanner.ofString "-+x").items = .ok out ∧
      ((∃ tree, Expression.build out = .ok tree) ∨
        ∃ t ∈ out, ∃ op : Operator, t.kind = .operator op ∧ op.isUnary = true ∧
          Expression.build out = .error ⟨.mixedSigns, some t.position⟩)) ∧
    (∃ ts tree e, Expression.build ts = .ok tree ∧ tree.fold = .error (.rejected e) ∧
      e.cause.stage ≠ .tree) ∧
    ∃ e, evaluate "-+x" = .error (.rejected e) ∧ e.cause.stage = .tree ∧ e.cause = .mixedSigns ∧
      e.message = "inconsistent adjacent unary operators" := by
  obtain ⟨hbuild, hfold, hcause⟩ := tree_refuses_only_mixedSigns
  refine ⟨?_, ?_, ?_⟩
  · have h : ∃ out, Postfix.convert (Scanner.ofString "-+x").items = .ok out := ⟨_, by cbv⟩
    obtain ⟨out, h⟩ := h
    exact ⟨out, h, hbuild _ out h⟩
  · let ts := [Token.Kind.var, .number 0, .operator .div].map (Token.synthetic · 0)
    let tree := Expression.binary .div (.var 1 0) (.number 0 0) 0
    have hb : Expression.build ts = .ok tree := rfl
    have hf : tree.fold = .error (.rejected ⟨.zeroDivisor, some 0⟩) := by decide +kernel
    exact ⟨ts, tree, _, hb, hf, hfold ts tree _ hb hf⟩
  · have h : evaluate "-+x" = .error (.rejected ⟨.mixedSigns, some 0⟩) := by decide +kernel
    exact ⟨_, h, rfl, hcause _ _ h rfl⟩

/-- There is a verdict on the equation, and every product, quotient and power that folding comes to
has exact powers or is refused at its operator. -/
def PowersExact (source : String) : Prop :=
  evaluate source ≠ .error .overflow ∧
    ∀ tokens tree op p q position, Postfix.ofString source = .ok tokens →
      Expression.build tokens = .ok tree → Applies tree op p q position →
      op = .mul ∨ op = .div ∨ op = .pow →
      (∃ r, applyBinary op p q position = .ok r ∧ Combines p q op r.powers) ∨
        ∃ f, applyBinary op p q position = .error f ∧ Algebraic position f

/-- Folding comes to a division by a monomial of the power -2147483648. -/
def DividesByLowest (source : String) : Prop :=
  ∃ tokens tree p q position, Postfix.ofString source = .ok tokens ∧
    Expression.build tokens = .ok tree ∧ Applies tree .div p q position ∧ q.Lowest

theorem overflow_of_dividesByLowest {source : String} (h : DividesByLowest source) :
    evaluate source = .error .overflow := by
  obtain ⟨tokens, tree, p, q, position, ht, hb, ha, hq⟩ := h
  exact evaluate_of_fold_eq_error ht hb
    (ha.fold_eq_error (Polynomial.div_eq_overflow ha.terms_ne_nil hq))

theorem dividesByLowest_of_overflow {source : String} (h : evaluate source = .error .overflow) :
    DividesByLowest source := by
  rcases evaluate_eq_error h with ⟨e, he, -⟩ | ⟨tokens, ht, ⟨e, -, he⟩ | ⟨tree, hb, hf⟩⟩
  · cases he
  · cases he
  · obtain ⟨op, p, q, position, ha, ⟨cause, -, he⟩ | ⟨-, rfl, hq⟩⟩ :=
      Expression.fold_eq_error_of_build hb hf
    · cases he
    · exact ⟨tokens, tree, p, q, position, ht, hb, ha, hq⟩

/-- The powers of an equation are exact or refused unless it divides by the lowest power of all, and
that is the one way to get no verdict. -/
theorem power_arithmetic_exact (source : String) :
    (PowersExact source ↔ ¬ DividesByLowest source) ∧
      (evaluate source = .error .overflow ↔ DividesByLowest source) := by
  refine ⟨⟨?_, ?_⟩, dividesByLowest_of_overflow, overflow_of_dividesByLowest⟩
  · rintro ⟨hverdict, -⟩ hd
    exact hverdict (overflow_of_dividesByLowest hd)
  · intro hd
    refine ⟨fun h => hd (dividesByLowest_of_overflow h), ?_⟩
    intro tokens tree op p q position ht hb ha hop
    cases hr : applyBinary op p q position with
    | ok r => exact .inl ⟨r, rfl, Expression.combines_applyBinary hop hr⟩
    | error f =>
      have hu : op.isUnary = false := by rcases hop with rfl | rfl | rfl <;> rfl
      rcases Expression.algebraic_applyBinary hu hr with hf | ⟨rfl, rfl, hq⟩
      · exact .inr ⟨f, rfl, hf⟩
      · exact absurd ⟨tokens, tree, p, q, position, ht, hb, ha, hq⟩ hd

/-- One over a power that can be written but has no negative: no verdict, though the quotient could
be refused like any other whose power is out of range. -/
theorem evaluate_lowest_divisor :
    evaluate "1/(x^-2147483647/x)" = .error .overflow ∧ ¬ PowersExact "1/(x^-2147483647/x)" := by
  have h : evaluate "1/(x^-2147483647/x)" = .error .overflow := by decide +kernel
  exact ⟨h, fun he => he.1 h⟩

end Quadratics
