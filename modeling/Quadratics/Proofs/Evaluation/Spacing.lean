import Quadratics.Proofs.Evaluation.SourceForm
import Quadratics.Proofs.Postfix.Kinds
import Quadratics.Proofs.Token.Spacing
/-! Blanks and the letter case of variables do not matter to an equation: its tree reads the same,
and so does its answer, or it is refused for the same cause. -/
namespace Quadratics

variable {source changed : String} {ts : List Token}

theorem exists_tokenize_respaced (h : tokenize source = .ok ts) (hr : Respaced ts changed.toList) :
    ∃ us, tokenize changed = .ok us ∧ Infix.significant ts = Infix.significant us := by
  have hitems := tokenize_eq_ok_iff.mp h
  obtain ⟨us, hus, hk⟩ := (hr.lexed hitems).scans 0
  exact ⟨us, tokenize_eq_ok_iff.mpr hus, hk.symm⟩

theorem Expression.text_eq {e e' : Expression} (hw : e.Written) (hw' : e'.Written)
    (h : e.formula = e'.formula) : e.text = e'.text := by
  induction e generalizing e' with
  | number value position =>
    cases e' <;> cases h
    rfl
  | var multiplier position =>
    cases e' <;> cases h
    cases hw
    cases hw'
    rfl
  | unary op operand position ih =>
    cases e' with
    | unary op' operand' position' =>
      injection h with hop ho
      have hwo : operand'.Written := hw'
      rw [text, text, hop, ih hw hwo ho]
    | number | var | binary => cases h
  | binary op left right position ihl ihr =>
    cases e' with
    | binary op' left' right' position' =>
      injection h with hop hl hr
      rw [text, text, hop, ihl hw.1 hw'.1 hl, ihr hw.2 hw'.2 hr]
    | number | var | unary => cases h

namespace Evaluation

/-- What is reported of two equations is the same, tokens and places apart. -/
structure SameReport (r s : Evaluation) : Prop extends SameAnswer r s where
  text : s.tree.text = r.tree.text

end Evaluation

open Evaluation (SameReport)

theorem agree_respaced (h : tokenize source = .ok ts) (hr : Respaced ts changed.toList) :
    Agree Failure.SameCause SameReport (evaluate source) (evaluate changed) := by
  obtain ⟨us, hus, hk⟩ := exists_tokenize_respaced h hr
  have htokens := Postfix.agree_ofString h hus hk
  cases ht : Postfix.ofString source with
  | error a =>
    obtain ⟨b, hb, hab⟩ := htokens.exists_of_error ht
    rw [evaluate, evaluate, ht, hb]
    exact .error hab
  | ok out =>
    obtain ⟨f, hp, hf⟩ := Postfix.exists_formula_of_convert ht
    obtain ⟨out', ht', hkinds⟩ := htokens.exists_of_ok ht
    rw [evaluate, evaluate, ht, ht']
    refine (agree_rejecting (Expression.agree_build hp hp .rfl hf (hkinds ▸ hf))).bind ?_
    rintro e e' ⟨⟨hw, rfl⟩, hw', hformula⟩
    refine (Expression.agree_fold hw hw' hformula.symm).bind ?_
    rintro p _ rfl
    cases (Solver.ofTerms p.terms).solve with
    | error a => exact .error rfl
    | ok r => exact .ok ⟨⟨rfl, rfl, rfl, rfl⟩, Expression.text_eq hw' hw hformula⟩

/-- Blanks between the tokens of a text and the letter case of its variables change nothing: an
answer stays what it is, the text of the tree with it, and so does the cause of a refusal. -/
theorem evaluate_respaced (h : tokenize source = .ok ts) (hr : Respaced ts changed.toList) :
    (∀ r, evaluate source = .ok r → ∃ s, evaluate changed = .ok s ∧ r.SameReport s) ∧
    (∀ e, evaluate source = .error (.rejected e) →
      ∃ e', evaluate changed = .error (.rejected e') ∧ e'.cause = e.cause) ∧
    (evaluate source = .error .overflow → evaluate changed = .error .overflow) := by
  have hagree := agree_respaced h hr
  exact ⟨fun r hr => hagree.exists_of_ok hr, fun e he => hagree.exists_of_rejected he,
    hagree.eq_overflow⟩

/-- `2x=6` with blanks and the other letter, and an operator without its second operand. -/
theorem evaluate_respaced_cases :
    (∃ r s, evaluate "2x=6" = .ok r ∧ evaluate " 2 X= 6" = .ok s ∧ r.solution = .one 3 ∧
      r.SameReport s) ∧
    ∃ e', evaluate "2x+" = .error (.rejected ⟨.missingOperand .add, some 2⟩) ∧
      evaluate "2 x+ " = .error (.rejected e') ∧ e'.cause = .missingOperand .add := by
  have hblank : ∀ c ∈ [' '], Text.isBlank c = true := List.forall_mem_singleton.mpr (by decide)
  have hno : ∀ c ∈ ([] : List Char), Text.isBlank c = true := nofun
  constructor
  · have ht : tokenize "2x=6" = .ok
        [⟨.number 2, "2", 0⟩, ⟨.var, "x", 1⟩, ⟨.equals, "=", 2⟩, ⟨.number 6, "6", 3⟩] := by
      decide +kernel
    have hr : Respaced [⟨.number 2, "2", 0⟩, ⟨.var, "x", 1⟩, ⟨.equals, "=", 2⟩,
        ⟨.number 6, "6", 3⟩] " 2 X= 6".toList :=
      .token _ ['2'] hblank (.inl rfl) <| .token _ ['X'] hblank (.inr ⟨rfl, .inr rfl⟩) <|
        .token _ ['='] hno (.inl rfl) <| .token _ ['6'] hblank (.inl rfl) <| .nil hno
    have hsolved : (evaluate "2x=6").map (·.solution) = .ok (.one 3) := by decide +kernel
    obtain ⟨r, hr', hsolution⟩ := map_eq_ok.mp hsolved
    obtain ⟨s, hs, hsame⟩ := (evaluate_respaced ht hr).1 r hr'
    exact ⟨r, s, hr', hs, hsolution, hsame⟩
  · have ht : tokenize "2x+" = .ok
        [⟨.number 2, "2", 0⟩, ⟨.var, "x", 1⟩, ⟨.operator .add, "+", 2⟩] := by decide +kernel
    have hr : Respaced [⟨.number 2, "2", 0⟩, ⟨.var, "x", 1⟩, ⟨.operator .add, "+", 2⟩]
        "2 x+ ".toList :=
      .token _ ['2'] hno (.inl rfl) <| .token _ ['x'] hblank (.inl rfl) <|
        .token _ ['+'] hno (.inl rfl) <| .nil hblank
    have hrefused : (evaluate "2x+").map (·.solution) =
        .error (.rejected ⟨.missingOperand .add, some 2⟩) := by decide +kernel
    have he := map_eq_error.mp hrefused
    obtain ⟨e', he', hcause⟩ := (evaluate_respaced ht hr).2.1 _ he
    exact ⟨e', he, he', hcause⟩

end Quadratics
