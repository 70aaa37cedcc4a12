import Quadratics.Proofs.Evaluation.Refusals
import Quadratics.Proofs.Expression.Nodes
import Quadratics.Proofs.Postfix.Origins
/-! Every error of an equation points to the place in its source that the cause is about. -/
namespace Quadratics

open Expression (Applies applyBinary)

variable {source : String} {e : EquationError} {p : Nat} {op : Operator}

theorem Marks.placed {cause : Cause} (h : Marks source cause p) :
    ¬ (cause = .emptyEquation ∨ cause.OfSolver) := by
  rintro (rfl | hs)
  · cases h with
    | algebra hc => cases hc
  · have hvalidation := hs.stage
    cases h with
    | algebra hc => exact absurd (hc.symm.trans hvalidation) (by decide)
    | _ => cases hs

theorem OperatorAt.sign (h : OperatorAt source p op) (hop : op.isUnary = true) :
    CharAt source p '+' ∨ CharAt source p '-' := by
  rcases h with hc | ⟨rfl, -⟩ | ⟨rfl, -⟩
  · cases op with
    | unaryPlus => exact .inl hc
    | unaryMinus => exact .inr hc
    | add | sub | mul | div | pow => cases hop
  · cases hop
  · cases hop

theorem OperatorAt.algebra (h : OperatorAt source p op) (hop : op = .mul ∨ op = .div ∨ op = .pow) :
    CharAt source p '*' ∨ CharAt source p '/' ∨ CharAt source p '^' ∨ FactorAt source p := by
  rcases h with hc | ⟨rfl, -⟩ | ⟨-, hf⟩
  · rcases hop with rfl | rfl | rfl
    · exact .inl hc
    · exact .inr (.inl hc)
    · exact .inr (.inr (.inl hc))
  · simp at hop
  · exact .inr (.inr (.inr hf))

namespace Expression

theorem op_of_applyBinary_eq_error {q r : Polynomial} {f : Failure} (hop : op.isUnary = false)
    (h : applyBinary op q r p = .error f) : op = .mul ∨ op = .div ∨ op = .pow := by
  cases op with
  | add | sub => cases h
  | mul | div | pow => decide
  | unaryMinus | unaryPlus => cases hop

theorem Applies.mem_postorder {tree : Expression} {q r : Polynomial} (h : Applies tree op q r p) :
    (.operator op, p) ∈ tree.postorder := by
  induction h with
  | here hl hr => simp [postorder]
  | operand h ih => simp [postorder, ih]
  | left h ih => simp [postorder, ih]
  | right hl h ih => simp [postorder, ih]

end Expression

theorem points_build {tokens : List Token} (ht : Postfix.ofString source = .ok tokens)
    (h : Expression.build tokens = .error e) : Points source e := by
  rcases Expression.build_of_convert ht with ⟨tree, htree⟩ | ⟨t, hmem, op, hk, hop, herr⟩
  · cases h.symm.trans htree
  · cases h.symm.trans herr
    have hsite := (Postfix.placed_of_ofString ht t hmem).1
    rw [hk] at hsite
    exact ⟨t.position, rfl, .mixedSigns (hsite.operatorAt.sign hop)⟩

/-- The algebra fails at an operator, which has kept its place on the way into the tree. -/
theorem points_fold {tokens : List Token} {tree : Expression}
    (ht : Postfix.ofString source = .ok tokens) (hb : Expression.build tokens = .ok tree)
    (h : tree.fold = .error (.rejected e)) : Points source e := by
  obtain ⟨op, q, r, position, hop, ha, hf⟩ :=
    Expression.exists_applies_of_fold_eq_error (Expression.hereditary_proper.build hb) h
  rcases Expression.algebraic_applyBinary hop hf with ⟨cause, hc, he⟩ | ⟨he, -⟩
  · cases he
    have hnode := ha.mem_postorder
    rw [Expression.postorder_of_build hb] at hnode
    obtain ⟨t, hmem, htk⟩ := List.mem_map.mp hnode
    obtain ⟨hk, rfl⟩ := Prod.mk.inj htk
    have hsite := (Postfix.placed_of_ofString ht t hmem).1
    rw [hk] at hsite
    exact ⟨t.position, rfl,
      .algebra hc (hsite.operatorAt.algebra (Expression.op_of_applyBinary_eq_error hop hf))⟩
  · cases he

/-- An error has no place if the equation comes to nothing or cannot be solved, and else it points
to a character of the source, the one that its cause is about. -/
theorem errors_point_into_source {source : String} {e : EquationError}
    (h : evaluate source = .error (.rejected e)) :
    (e.position = none ↔ e.cause = .emptyEquation ∨ e.cause.OfSolver) ∧
      ∀ p, e.position = some p → p < source.length ∧ Marks source e.cause p := by
  have hcases : e.position = none ∧ (e.cause = .emptyEquation ∨ e.cause.OfSolver) ∨
      Points source e := by
    rcases evaluate_eq_error_stage h with
      ⟨e', he, hf⟩ | ⟨tokens, ht, ⟨e', he, hf⟩ | ⟨tree, hb, hf | ⟨q, e', -, he, hf⟩⟩⟩
    · cases hf
      rcases Postfix.points_ofString he with rfl | hp
      · exact .inl ⟨rfl, .inl rfl⟩
      · exact .inr hp
    · cases hf
      exact .inr (points_build ht he)
    · exact .inr (points_fold ht hb hf)
    · cases hf
      obtain ⟨hnone, hsolver⟩ := Solver.ofSolver_solve he
      exact .inl ⟨hnone, .inr hsolver⟩
  rcases hcases with ⟨hnone, hcause⟩ | ⟨p, hsome, hmarks⟩
  · exact ⟨iff_of_true hnone hcause, fun p hp => by simp [hnone] at hp⟩
  · refine ⟨iff_of_false (by simp [hsome]) hmarks.placed, fun q hq => ?_⟩
    cases hsome.symm.trans hq
    exact ⟨hmarks.lt, hmarks⟩

/-- A parenthesis too many behind a blank of two bytes, a side that is missing, a product that is
not written and goes out of range, signs that differ, and a power that cannot be solved. -/
theorem errors_point_into_source_cases :
    (4 < "x\u00a0= )".length ∧ Marks "x\u00a0= )" .unopenedParenthesis 4) ∧
    (2 < "x =".length ∧ Marks "x =" (.missingOperand .sub) 2) ∧
    (14 < "(x^2147483647)x".length ∧ Marks "(x^2147483647)x" .powerOverflow 14) ∧
    (0 < "-+x".length ∧ Marks "-+x" .mixedSigns 0) ∧
    (Cause.powerOutOfRange 3 = .emptyEquation ∨ (Cause.powerOutOfRange 3).OfSolver) := by
  have hclosing : evaluate "x\u00a0= )" = .error (.rejected ⟨.unopenedParenthesis, some 4⟩) := by
    decide +kernel
  have hside : evaluate "x =" = .error (.rejected ⟨.missingOperand .sub, some 2⟩) := by
    decide +kernel
  have hproduct : evaluate "(x^2147483647)x" = .error (.rejected ⟨.powerOverflow, some 14⟩) := by
    decide +kernel
  have hsigns : evaluate "-+x" = .error (.rejected ⟨.mixedSigns, some 0⟩) := by decide +kernel
  have hpower : evaluate "x^3" = .error (.rejected ⟨.powerOutOfRange 3, none⟩) := by
    decide +kernel
  exact ⟨(errors_point_into_source hclosing).2 4 rfl, (errors_point_into_source hside).2 2 rfl,
    (errors_point_into_source hproduct).2 14 rfl, (errors_point_into_source hsigns).2 0 rfl,
    (errors_point_into_source hpower).1.mp rfl⟩

end Quadratics
