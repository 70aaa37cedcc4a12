import Quadratics.Proofs.Evaluation.Stages
import Quadratics.Proofs.Expression.Places
import Quadratics.Proofs.Expression.Signs
import Quadratics.Proofs.Number.Arithmetic
import Quadratics.Proofs.Polynomial.Order
import Quadratics.Proofs.Postfix.ZeroSide
import Quadratics.Proofs.Token.Trimming
/-! A right side that is missing is zero: with `= 0` behind it an equation has the same answer, or
is refused for the same cause. -/
namespace Quadratics

variable {source : String} {f : Formula} {e e' : Expression} {out out' : List Token}

theorem Postfix.agree_sourceForm (h : '=' ∉ source.toList)
    (hne : ∀ e, ofString source = .error e → e.cause ≠ .emptyEquation) :
    Agree EquationError.SameCause
      (fun out out' => out'.map (·.kind) = out.map (·.kind) ++ [.number 0, .operator .sub])
      (ofString source) (ofString (Report.sourceForm source)) := by
  rcases reads_sourceForm h with ⟨ks, hs, hk, hf⟩ | ⟨ks, c, hs, hk, hf⟩
  · obtain ⟨ts, hts, rfl⟩ := hs.scans 0
    obtain ⟨us, hus, hks⟩ := hf.scans 0
    rw [ofString, Scanner.ofString, hts] at hne ⊢
    rw [ofString, Scanner.ofString, hus]
    exact agree_zero hks hk hne
  · obtain ⟨ts, p, hts, rfl⟩ := hs.items 0
    obtain ⟨us, q, hus, hks⟩ := hf.items 0
    rw [ofString, ofString, Scanner.ofString, Scanner.ofString, hts, hus]
    have hcause : EquationError.SameCause ⟨.unknownCharacter c, some p⟩
        ⟨.unknownCharacter c, some q⟩ := rfl
    obtain ⟨a, b, ha, hb, hab⟩ := agree_refused hks.symm hk hcause
    rw [ha, hb]
    exact .error hab

namespace Expression

theorem agree_fold_zero (hw : e.Written) (hw' : e'.Written)
    (hf : e'.formula = .binary .sub e.formula (.number 0)) :
    Agree Failure.SameCause (fun p p' => p' = p.sub (.constant 0)) e.fold e'.fold := by
  cases e' with
  | number | var | unary => cases hf
  | binary op l r position =>
    injection hf with hop hl hr
    subst hop
    cases r with
    | var | unary | binary => cases hr
    | number value q =>
      cases hr
      have hbind : (Expression.binary .sub l (.number 0 q) position).fold =
          l.fold.map fun p => p.sub (.constant 0) := by
        rw [fold]
        cases l.fold <;> rfl
      rw [hbind]
      have hagree := agree_fold hw hw'.1 hl.symm
      generalize e.fold = x at hagree ⊢
      generalize l.fold = y at hagree ⊢
      cases hagree with
      | error h => exact .error h
      | ok h => exact .ok (by rw [h])

end Expression

/-- What zero adds is dropped again: nothing changes but a coefficient that is zero. -/
theorem Polynomial.filter_merge_negZero (ts : List Term) :
    (merge ts [⟨0, -0⟩]).filter (fun t => t.coefficient != 0) =
      ts.filter fun t => t.coefficient != 0 := by
  have hzero : ((-0 : Float) != 0) = false := by decide
  have hadd (x : Float) : Number.SameValue (x + -0) x :=
    Number.SameValue.add_of_isZero (Number.isZero_iff.mp (by decide))
  induction ts with
  | nil => simp [merge, hzero]
  | cons t ts ih =>
    rw [merge]
    split
    · rw [List.filter_cons, List.filter_cons, ih]
    · split
      · rw [List.filter_cons_of_neg (by simp [hzero]), merge_nil]
      · have hsame : (t.coefficient + -0 != 0) = (t.coefficient != 0) := by
          rw [Bool.eq_iff_iff, Number.bne_zero_iff, Number.bne_zero_iff, (hadd _).isZero_iff]
        rw [List.filter_cons, List.filter_cons, merge_nil]
        simp only [hsame]
        split
        · next ht =>
          rw [Number.bne_zero_iff, ← (hadd t.coefficient).isZero_iff] at ht
          rw [(hadd t.coefficient).eq_of_not_isZero ht]
        · rfl

theorem Solver.ofTerms_sub_zero (p : Polynomial) :
    Solver.ofTerms (p.sub (.constant 0)).terms = Solver.ofTerms p.terms :=
  congrArg (Solver.mk · none) (Polynomial.filter_merge_negZero p.terms)

theorem agree_rejecting {α β : Type} {R : α → β → Prop} {x : Except EquationError α}
    {y : Except EquationError β} (h : Agree EquationError.SameCause R x y) :
    Agree Failure.SameCause R (rejecting x) (rejecting y) := by
  cases h with
  | error h => exact .error h
  | ok h => exact .ok h

namespace Agree

variable {α β : Type} {R : α → β → Prop} {x : Except Failure α} {y : Except Failure β}

theorem exists_of_rejected {a : EquationError} (h : Agree Failure.SameCause R x y)
    (hx : x = .error (.rejected a)) : ∃ b, y = .error (.rejected b) ∧ b.cause = a.cause := by
  obtain ⟨f, hf, hsame⟩ := h.exists_of_error hx
  cases f with
  | rejected b => exact ⟨b, hf, Eq.symm hsame⟩
  | overflow => exact absurd hsame id

theorem eq_overflow (h : Agree Failure.SameCause R x y) (hx : x = .error .overflow) :
    y = .error .overflow := by
  obtain ⟨f, hf, hsame⟩ := h.exists_of_error hx
  cases f with
  | rejected b => exact absurd hsame id
  | overflow => exact hf

end Agree

namespace Evaluation

/-- What is reported of two equations is the same, their tokens and trees apart. -/
structure SameAnswer (r s : Evaluation) : Prop where
  reduced : s.reduced = r.reduced
  degree : s.degree = r.degree
  discriminant : s.discriminant = r.discriminant
  solution : s.solution = r.solution

end Evaluation

open Evaluation (SameAnswer)

theorem agree_evaluate (h : '=' ∉ source.toList)
    (hne : ∀ e, Postfix.ofString source = .error e → e.cause ≠ .emptyEquation) :
    Agree Failure.SameCause SameAnswer (evaluate source)
      (evaluate (Report.sourceForm source)) := by
  have htokens := Postfix.agree_sourceForm h hne
  cases ht : Postfix.ofString source with
  | error a =>
    obtain ⟨b, hb, hab⟩ := htokens.exists_of_error ht
    rw [evaluate, evaluate, ht, hb]
    exact .error hab
  | ok out =>
    obtain ⟨f, hp, hf⟩ := Postfix.exists_formula_of_convert ht
    obtain ⟨out', ht', hk⟩ := htokens.exists_of_ok ht
    rw [evaluate, evaluate, ht, ht']
    have hp' : (Formula.binary .sub f (.number 0)).Proper := ⟨rfl, hp, trivial⟩
    have hunmixed : f.Unmixed ↔ (Formula.binary .sub f (.number 0)).Unmixed :=
      ⟨fun hu => ⟨hu, trivial⟩, And.left⟩
    have hf' : out'.map (·.kind) = (Formula.binary .sub f (.number 0)).postorder := by
      rw [hk, hf, Formula.postorder, Formula.postorder, List.append_assoc]
      rfl
    refine (agree_rejecting (Expression.agree_build hp hp' hunmixed hf hf')).bind ?_
    rintro e e' ⟨⟨hw, rfl⟩, hw', hformula⟩
    refine (Expression.agree_fold_zero hw hw' hformula).bind ?_
    rintro p _ rfl
    rw [Solver.ofTerms_sub_zero]
    cases (Solver.ofTerms p.terms).solve with
    | error a => exact .error rfl
    | ok r => exact .ok ⟨rfl, rfl, rfl, rfl⟩

theorem evaluate_of_ofString_eq_error {a : EquationError}
    (h : Postfix.ofString source = .error a) : evaluate source = .error (.rejected a) := by
  rw [evaluate, h]
  rfl

/-- The form of an equation without `=` has `= 0` behind it, and nothing changes with that: an
answer stays what it is, and so does the cause of a refusal, unless it is that the equation is
empty. -/
theorem evaluate_sourceForm (h : '=' ∉ source.toList) :
    Report.sourceForm source = String.ofList (Text.trim source.toList) ++ " = 0" ∧
    (∀ r, evaluate source = .ok r →
      ∃ s, evaluate (Report.sourceForm source) = .ok s ∧ r.SameAnswer s) ∧
    (∀ e, evaluate source = .error (.rejected e) → e.cause ≠ .emptyEquation →
      ∃ e', evaluate (Report.sourceForm source) = .error (.rejected e') ∧ e'.cause = e.cause) ∧
    (evaluate source = .error .overflow →
      evaluate (Report.sourceForm source) = .error .overflow) := by
  refine ⟨sourceForm_of_not_mem h, fun r hr => ?_, fun e he hcause => ?_, fun ho => ?_⟩
  · refine (agree_evaluate h fun a ha => ?_).exists_of_ok hr
    cases hr.symm.trans (evaluate_of_ofString_eq_error ha)
  · refine (agree_evaluate h fun a ha => ?_).exists_of_rejected he
    cases he.symm.trans (evaluate_of_ofString_eq_error ha)
    exact hcause
  · refine (agree_evaluate h fun a ha => ?_).eq_overflow ho
    cases ho.symm.trans (evaluate_of_ofString_eq_error ha)

/-- `x^2 - 1` with blanks around it, an operator without its second operand, and the quotient whose
power has no negative. -/
theorem evaluate_sourceForm_cases :
    (Report.sourceForm " x^2 - 1 " = "x^2 - 1 = 0" ∧
      ∃ r s, evaluate " x^2 - 1 " = .ok r ∧ evaluate (Report.sourceForm " x^2 - 1 ") = .ok s ∧
        r.solution = .twoReal (-1) 1 ∧ r.SameAnswer s) ∧
    (∃ e', evaluate "x +" = .error (.rejected ⟨.missingOperand .add, some 2⟩) ∧
      evaluate (Report.sourceForm "x +") = .error (.rejected e') ∧
      e'.cause = .missingOperand .add) ∧
    evaluate "1/(x^-2147483647/x)" = .error .overflow ∧
      evaluate (Report.sourceForm "1/(x^-2147483647/x)") = .error .overflow := by
  refine ⟨?_, ?_, ?_⟩
  · have hsolved : (evaluate " x^2 - 1 ").map (·.solution) = .ok (.twoReal (-1) 1) := by
      decide +kernel
    obtain ⟨r, hr, hsolution⟩ := map_eq_ok.mp hsolved
    have hno : '=' ∉ " x^2 - 1 ".toList := by decide
    obtain ⟨hform, hok, -⟩ := evaluate_sourceForm hno
    obtain ⟨s, hs, hsame⟩ := hok r hr
    exact ⟨hform.trans (by decide +kernel), r, s, hr, hs, hsolution, hsame⟩
  · have hrefused : (evaluate "x +").map (·.solution) =
        .error (.rejected ⟨.missingOperand .add, some 2⟩) := by decide +kernel
    have he := map_eq_error.mp hrefused
    obtain ⟨e', he', hcause⟩ := (evaluate_sourceForm (by decide)).2.2.1 _ he (by decide)
    exact ⟨e', he, he', hcause⟩
  · have hfails : (evaluate "1/(x^-2147483647/x)").map (·.solution) = .error .overflow := by
      decide +kernel
    have ho := map_eq_error.mp hfails
    exact ⟨ho, (evaluate_sourceForm (by decide)).2.2.2 ho⟩

end Quadratics
