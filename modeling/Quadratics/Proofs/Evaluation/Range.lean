import Quadratics.Proofs.Evaluation.Refusals
import Quadratics.Proofs.Expression.Nodes
import Quadratics.Proofs.Polynomial.Range
import Quadratics.Proofs.Postfix.Operands
/-! Values that are infinite or NaN anywhere in an equation. They reach the root of the tree or are
refused on the way, unless an operation absorbs them. -/
namespace Quadratics

open Expression (Applies Within applyUnary applyBinary)

namespace Expression

variable {e : Expression} {op : Operator} {p q r : Polynomial} {position : Nat}

theorem finite_of_applyUnary (h : applyUnary op p position = .ok r) (hr : r.Finite) :
    p.Finite := by
  cases op with
  | unaryMinus =>
    cases h
    exact Polynomial.finite_of_neg hr
  | unaryPlus =>
    cases h
    exact hr
  | add | sub | mul | div | pow => cases h

theorem finite_of_applyBinary (hp : p.terms ≠ []) (hq : q.terms ≠ [])
    (h : applyBinary op p q position = .ok r) (hr : r.Finite) :
    p.Finite ∧ q.Finite ∨ p.Absorbs q op := by
  cases op with
  | add =>
    cases h
    exact .inl (Polynomial.finite_of_merge hr)
  | sub =>
    cases h
    exact .inl ((Polynomial.finite_of_merge hr).imp_right Polynomial.finite_of_neg)
  | mul => exact .inl (Polynomial.finite_of_mul hp hq h)
  | div => exact Polynomial.finite_of_div hp h
  | pow => exact Polynomial.finite_of_pow h
  | unaryMinus | unaryPlus => cases h

/-- Of a tree with a finite polynomial all nodes have one, or a value is absorbed. -/
theorem finite_or_absorbs (h : e.fold = .ok p) (hp : p.Finite) :
    (∀ node q, Within node e → node.fold = .ok q → q.Finite) ∨
      ∃ op q r position, Applies e op q r position ∧ q.Absorbs r op := by
  induction e generalizing p with
  | number value place =>
    left
    intro node q hw hq
    cases hw
    cases h.symm.trans hq
    exact hp
  | var multiplier place =>
    left
    intro node q hw hq
    cases hw
    cases h.symm.trans hq
    exact hp
  | unary o operand place ih =>
    obtain ⟨s, hs, happly⟩ := bind_eq_ok.mp h
    rcases ih hs (finite_of_applyUnary happly hp) with hnodes | ⟨op, q, r, position, ha, habsorbs⟩
    · left
      intro node q hw hq
      cases hw with
      | self =>
        cases h.symm.trans hq
        exact hp
      | operand hw => exact hnodes node q hw hq
    · exact .inr ⟨op, q, r, position, ha.operand, habsorbs⟩
  | binary o left right place ihl ihr =>
    obtain ⟨a, hl, hrest⟩ := bind_eq_ok.mp h
    obtain ⟨b, hr, happly⟩ := bind_eq_ok.mp hrest
    rcases finite_of_applyBinary (terms_ne_nil_of_fold hl) (terms_ne_nil_of_fold hr) happly hp with
      ⟨ha, hb⟩ | habsorbs
    · rcases ihl hl ha with hleft | ⟨op, q, r, position, happlies, habsorbs⟩
      · rcases ihr hr hb with hright | ⟨op, q, r, position, happlies, habsorbs⟩
        · refine .inl fun node q hw hq => ?_
          cases hw with
          | self =>
            cases h.symm.trans hq
            exact hp
          | left hw => exact hleft node q hw hq
          | right hw => exact hright node q hw hq
        · exact .inr ⟨op, q, r, position, .right hl happlies, habsorbs⟩
      · exact .inr ⟨op, q, r, position, .left happlies, habsorbs⟩
    · exact .inr ⟨o, a, b, place, .here hl hr, habsorbs⟩

theorem Applies.operands (h : Applies e op p q position) :
    ∃ left right, Within left e ∧ left.fold = .ok p ∧ Within right e ∧ right.fold = .ok q := by
  induction h with
  | here hl hr => exact ⟨_, _, .left (.self _), hl, .right (.self _), hr⟩
  | operand h ih =>
    obtain ⟨left, right, hl, hp, hr, hq⟩ := ih
    exact ⟨left, right, hl.operand, hp, hr.operand, hq⟩
  | left h ih =>
    obtain ⟨left, right, hl, hp, hr, hq⟩ := ih
    exact ⟨left, right, hl.left, hp, hr.left, hq⟩
  | right hl h ih =>
    obtain ⟨left, right, hl, hp, hr, hq⟩ := ih
    exact ⟨left, right, hl.right, hp, hr.right, hq⟩

end Expression

theorem Solver.finite_of_validate {p : Polynomial}
    (h : (Solver.ofTerms p.terms).validate = .ok ()) : p.Finite := by
  intro t ht
  by_cases hz : (t.coefficient == 0) = true
  · exact Number.isFinite_of_beq_zero hz
  · have hmem : t ∈ (Solver.ofTerms p.terms).terms :=
      List.mem_filter.mpr ⟨ht, by rw [bne, Bool.eq_false_iff.mpr hz]; rfl⟩
    exact (Solver.validate_ok h t hmem).1

/-- A number is written whose value is infinite, or a node of the tree has a polynomial with an
infinite coefficient or NaN. -/
def LeavesRange (source : String) : Prop :=
  (∃ t value, .ok t ∈ (Scanner.ofString source).items ∧ t.kind = .number value ∧
    value.isFinite = false) ∨
  ∃ tokens tree node p, Postfix.ofString source = .ok tokens ∧
    Expression.build tokens = .ok tree ∧ Within node tree ∧ node.fold = .ok p ∧ ¬ p.Finite

/-- Folding comes to an operation that absorbs such a value. -/
def AbsorbsRange (source : String) : Prop :=
  ∃ tokens tree op p q position, Postfix.ofString source = .ok tokens ∧
    Expression.build tokens = .ok tree ∧ Applies tree op p q position ∧ p.Absorbs q op

variable {source : String} {r : Evaluation}

theorem leavesRange_of_absorbsRange (h : AbsorbsRange source) : LeavesRange source := by
  obtain ⟨tokens, tree, op, p, q, position, ht, hb, ha, habsorbs⟩ := h
  obtain ⟨left, right, hl, hp, hr, hq⟩ := ha.operands
  refine .inr ⟨tokens, tree, ?_⟩
  by_cases hfinite : p.Finite
  · exact ⟨right, q, ht, hb, hr, hq, fun hq' => habsorbs.not_finite ⟨hfinite, hq'⟩⟩
  · exact ⟨left, p, ht, hb, hl, hp, hfinite⟩

theorem absorbsRange_of_evaluate (h : evaluate source = .ok r) (hrange : LeavesRange source) :
    AbsorbsRange source := by
  obtain ⟨p, solver, ht, hb, hp, hs, -⟩ := evaluate_eq_ok_iff.mp h
  have hfinite := Solver.finite_of_validate (Solver.solve_ok hs).1
  rcases Expression.finite_or_absorbs hp hfinite with hnodes | ⟨op, q, s, position, ha, habsorbs⟩
  · rcases hrange with ⟨t, value, hmem, hk, hvalue⟩ | ⟨tokens, tree, node, q, ht', hb', hw, hq, hn⟩
    · -- the literal is a leaf of the tree
      have hout := Postfix.mem_convert ht (by rw [hk]; rfl) hmem
      have hleaf : (.number value, t.position) ∈ r.tree.postorder := by
        rw [Expression.postorder_of_build hb, ← hk]
        exact List.mem_map_of_mem hout
      have hconstant : (Polynomial.constant value).Finite :=
        hnodes _ _ (Expression.within_of_mem_postorder hleaf) rfl
      exact absurd (Polynomial.finite_constant.mp hconstant) (Bool.eq_false_iff.mp hvalue)
    · cases ht.symm.trans ht'
      cases hb.symm.trans hb'
      exact absurd (hnodes node q hw hq) hn
  · exact ⟨_, _, op, q, s, position, ht, hb, ha, habsorbs⟩

/-- An equation in which a value is infinite or NaN is refused, unless the value is absorbed or
there is no verdict at all; and of the equations that are solved, it is those that absorb one. -/
theorem leavesRange_refused_or_absorbed (source : String) :
    (LeavesRange source → (∃ e, evaluate source = .error (.rejected e)) ∨
      AbsorbsRange source ∨ DividesByLowest source) ∧
    ∀ r, evaluate source = .ok r → (LeavesRange source ↔ AbsorbsRange source) := by
  refine ⟨fun hrange => ?_, fun r h => ⟨absorbsRange_of_evaluate h, leavesRange_of_absorbsRange⟩⟩
  cases h : evaluate source with
  | ok r => exact .inr (.inl (absorbsRange_of_evaluate h hrange))
  | error f =>
    cases f with
    | rejected e => exact .inl ⟨e, rfl⟩
    | overflow => exact .inr (.inr (dividesByLowest_of_overflow h))

def overflowingSum (column : Nat) : Expression :=
  .binary .add (.binary .pow (.number 10 column) (.number 308 (column + 3)) (column + 2))
    (.binary .pow (.number 10 (column + 9)) (.number 308 (column + 12)) (column + 11)) (column + 7)

theorem absorbsRange_quotient : AbsorbsRange "x = 1/(10^308 + 10^308)" := by
  let quotient := Expression.binary .div (.number 1 4) (overflowingSum 7) 5
  have htree : (Postfix.ofString "x = 1/(10^308 + 10^308)" >>= Expression.build) =
      .ok (.binary .sub (.var 1 0) quotient 2) := by decide +kernel
  obtain ⟨tokens, ht, hb⟩ := bind_eq_ok.mp htree
  have hsum : (overflowingSum 7).fold = .ok (.constant (1 / 0)) := by decide +kernel
  refine ⟨tokens, _, .div, .constant 1, .constant (1 / 0), 5, ht, hb,
    .right rfl (.here rfl hsum), ?_⟩
  have hone : (Polynomial.constant 1).Finite := Polynomial.finite_constant.mpr (by decide +kernel)
  have hinf : (1 / 0 : Float).isInf = true := by decide +kernel
  exact .divisor (m := ⟨0, 1 / 0⟩) hone rfl hinf

theorem solution_quotient :
    ∃ r, evaluate "x = 1/(10^308 + 10^308)" = .ok r ∧ r.solution = .one 0 := by
  have h : (evaluate "x = 1/(10^308 + 10^308)").map Evaluation.solution = .ok (.one 0) := by
    decide +kernel
  exact map_eq_ok.mp h

/-- `x = 10^308 + 10^308`, and as a divisor the same sum is absorbed. -/
theorem leavesRange_refused_or_absorbed_sums :
    (LeavesRange "x = 10^308 + 10^308" ∧
      ((∃ e, evaluate "x = 10^308 + 10^308" = .error (.rejected e)) ∨
        AbsorbsRange "x = 10^308 + 10^308" ∨ DividesByLowest "x = 10^308 + 10^308")) ∧
    ∃ r, evaluate "x = 1/(10^308 + 10^308)" = .ok r ∧
      (LeavesRange "x = 1/(10^308 + 10^308)" ↔ AbsorbsRange "x = 1/(10^308 + 10^308)") := by
  have htree : (Postfix.ofString "x = 10^308 + 10^308" >>= Expression.build) =
      .ok (.binary .sub (.var 1 0) (overflowingSum 4) 2) := by decide +kernel
  obtain ⟨tokens, ht, hb⟩ := bind_eq_ok.mp htree
  have hsum : (overflowingSum 4).fold = .ok (.constant (1 / 0)) := by decide +kernel
  have hinf : (1 / 0 : Float).isFinite = false := by decide +kernel
  have hnot : ¬ (Polynomial.constant (1 / 0)).Finite := by
    rw [Polynomial.finite_constant]
    exact Bool.eq_false_iff.mp hinf
  have hrange : LeavesRange "x = 10^308 + 10^308" :=
    .inr ⟨tokens, _, _, _, ht, hb, .right (.self _), hsum, hnot⟩
  obtain ⟨r, hr, -⟩ := solution_quotient
  exact ⟨⟨hrange, (leavesRange_refused_or_absorbed _).1 hrange⟩,
    r, hr, (leavesRange_refused_or_absorbed _).2 r hr⟩

/-- The sum of two large powers is infinite, and one divided by it is an ordinary zero. -/
theorem evaluate_absorbed_sum :
    LeavesRange "x = 1/(10^308 + 10^308)" ∧
      ∃ r, evaluate "x = 1/(10^308 + 10^308)" = .ok r ∧ r.solution = .one 0 :=
  ⟨leavesRange_of_absorbsRange absorbsRange_quotient, solution_quotient⟩

end Quadratics
