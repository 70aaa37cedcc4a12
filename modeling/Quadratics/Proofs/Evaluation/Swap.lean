import Mathlib.Control.Monad.Basic
import Quadratics.Proofs.Evaluation.Stages
import Quadratics.Proofs.Expression.Places
import Quadratics.Proofs.Expression.Signs
import Quadratics.Proofs.Postfix.Sides
import Quadratics.Proofs.Solver.Opposite
import Quadratics.Proofs.Token.Joining
/-! The sides of an equation can change places: the coefficients change their signs, and the
solution stays what it is. -/
namespace Quadratics

open Token (Kind)

variable {left right : String} {ls rs : List Token}

theorem Postfix.ofString_sides (hl : '=' ∉ left.toList) (hr : '=' ∉ right.toList)
    (hls : ofString left = .ok ls) (hrs : ofString right = .ok rs) :
    ∃ tokens, ofString (left ++ " = " ++ right) = .ok tokens ∧
      tokens.map (·.kind) = ls.map (·.kind) ++ rs.map (·.kind) ++ [.operator .sub] := by
  have lexed {source : String} {out : List Token} (h : ofString source = .ok out) :
      ∃ ts : List Token, (Scanner.ofString source).items = ts.map .ok ∧
        Lexed source.toList (Infix.significant ts) := by
    obtain ⟨c, d, hc, -⟩ := convert_eq_ok_iff.mp h
    obtain ⟨ts, hts⟩ := Converter.run_ok hc
    exact ⟨ts, hts, Lexed.of_items hts⟩
  obtain ⟨us, hus, hlu⟩ := lexed hls
  obtain ⟨vs, hvs, hlv⟩ := lexed hrs
  obtain ⟨ts, hts, hsig⟩ := (hlu.equation hlv).scans 0
  have htext : (left ++ " = " ++ right).toList =
      left.toList ++ ' ' :: '=' :: ' ' :: right.toList := by simp
  rw [ofString, hus] at hls
  rw [ofString, hvs] at hrs
  rw [ofString, Scanner.ofString, htext, hts]
  exact convert_sides hls hrs (mt hlu.equals_mem hl) (mt hlv.equals_mem hr) hsig

theorem Expression.fold_swap {e e' : Expression} {f g : Formula} {p : Polynomial}
    (hw : e.Written) (hw' : e'.Written) (hf : e.formula = .binary .sub f g)
    (hf' : e'.formula = .binary .sub g f) (h : e.fold = .ok p) :
    ∃ a b : Polynomial, p = a.sub b ∧ e'.fold = .ok (b.sub a) := by
  cases e with
  | number | var | unary => cases hf
  | binary op l r position =>
    cases e' with
    | number | var | unary => cases hf'
    | binary op' r' l' position' =>
      cases hf
      injection hf' with hop hr hl
      subst hop
      obtain ⟨a, ha, h⟩ := bind_eq_ok.mp h
      obtain ⟨b, hb, h⟩ := bind_eq_ok.mp h
      cases h
      obtain ⟨_, ha', rfl⟩ := (agree_fold hw.1 hw'.2 hl.symm).exists_of_ok ha
      obtain ⟨_, hb', rfl⟩ := (agree_fold hw.2 hw'.1 hr.symm).exists_of_ok hb
      refine ⟨a, b, rfl, bind_eq_ok.mpr ⟨b, hb', bind_eq_ok.mpr ⟨a, ha', rfl⟩⟩⟩

namespace Evaluation

/-- What is known of an equation and of the same one with every coefficient negated. -/
structure Opposite (r s : Evaluation) : Prop where
  reduced : s.reduced = r.reduced.map fun t => ⟨t.power, -t.coefficient⟩
  degree : s.degree = r.degree
  discriminant : s.discriminant = r.discriminant
  solution : s.solution = r.solution

end Evaluation

theorem exists_opposite_of_evaluate {r : Evaluation} (hl : '=' ∉ left.toList)
    (hr : '=' ∉ right.toList) (hls : Postfix.ofString left = .ok ls)
    (hrs : Postfix.ofString right = .ok rs) (h : evaluate (left ++ " = " ++ right) = .ok r) :
    ∃ s, evaluate (right ++ " = " ++ left) = .ok s ∧ r.Opposite s := by
  obtain ⟨f, hf, hfk⟩ := Postfix.exists_formula_of_convert hls
  obtain ⟨g, hg, hgk⟩ := Postfix.exists_formula_of_convert hrs
  obtain ⟨ts, hts, hk⟩ := Postfix.ofString_sides hl hr hls hrs
  obtain ⟨us, hus, hk'⟩ := Postfix.ofString_sides hr hl hrs hls
  obtain ⟨p, solver, ht, hb, hp, hs, hreduced, hdegree, hdiscriminant⟩ := evaluate_eq_ok_iff.mp h
  cases ht.symm.trans hts
  rw [hfk, hgk] at hk hk'
  obtain ⟨hu, hformula⟩ := Expression.unmixed_of_build (f := .binary .sub f g) ⟨rfl, hf, hg⟩ hk hb
  obtain ⟨e, he, hformula', hw⟩ :=
    Expression.build_postorder (f := .binary .sub g f) ⟨rfl, hg, hf⟩ ⟨hu.2, hu.1⟩ hk'
  obtain ⟨a, b, rfl, hfold⟩ :=
    Expression.fold_swap (Expression.written_build hb) hw hformula hformula' hp
  obtain ⟨_, hsolve, rfl⟩ := (Solver.agree_solve _).exists_of_ok hs
  rw [← Solver.ofTerms_sub] at hsolve
  let s : Evaluation :=
    ⟨us, e, solver.neg.terms, solver.neg.degree, solver.neg.discriminant, r.solution⟩
  refine ⟨s, evaluate_eq_ok_iff.mpr ⟨_, _, hus, he, hfold, hsolve, rfl, rfl, rfl⟩, ?_, ?_, ?_, rfl⟩
  · rw [hreduced]
    rfl
  · rw [hdegree, ← Solver.degree_neg]
  · rw [hdiscriminant]
    rfl

/-- `L = R` is solved exactly if `R = L` is, with every coefficient negated, and with the same
degree, discriminant and solution. -/
theorem evaluate_swap (hl : '=' ∉ left.toList) (hr : '=' ∉ right.toList)
    (hls : Postfix.ofString left = .ok ls) (hrs : Postfix.ofString right = .ok rs) :
    ((∃ r, evaluate (left ++ " = " ++ right) = .ok r) ↔
        ∃ s, evaluate (right ++ " = " ++ left) = .ok s) ∧
      ∀ r s, evaluate (left ++ " = " ++ right) = .ok r →
        evaluate (right ++ " = " ++ left) = .ok s → r.Opposite s := by
  refine ⟨⟨?_, ?_⟩, ?_⟩
  · rintro ⟨r, h⟩
    obtain ⟨s, hs, -⟩ := exists_opposite_of_evaluate hl hr hls hrs h
    exact ⟨s, hs⟩
  · rintro ⟨s, h⟩
    obtain ⟨r, hr', -⟩ := exists_opposite_of_evaluate hr hl hrs hls h
    exact ⟨r, hr'⟩
  · intro r s h h'
    obtain ⟨s', hs, ho⟩ := exists_opposite_of_evaluate hl hr hls hrs h
    cases h'.symm.trans hs
    exact ho

/-- `x^2 = 3x - 2`, either way with the roots 1 and 2. -/
theorem evaluate_swap_quadratic :
    ∃ r s, evaluate ("x^2" ++ " = " ++ "3x - 2") = .ok r ∧
      evaluate ("3x - 2" ++ " = " ++ "x^2") = .ok s ∧ r.solution = .twoReal 1 2 ∧
      r.Opposite s := by
  have hleft : (Postfix.ofString "x^2").map List.length = .ok 3 := by decide +kernel
  have hright : (Postfix.ofString "3x - 2").map List.length = .ok 5 := by decide +kernel
  obtain ⟨ls, hls, -⟩ := map_eq_ok.mp hleft
  obtain ⟨rs, hrs, -⟩ := map_eq_ok.mp hright
  obtain ⟨hiff, hopposite⟩ := evaluate_swap (by decide) (by decide) hls hrs
  have hsolved : (evaluate ("x^2" ++ " = " ++ "3x - 2")).map (·.solution) =
      .ok (.twoReal 1 2) := by decide +kernel
  obtain ⟨r, h, hsolution⟩ := map_eq_ok.mp hsolved
  obtain ⟨s, h'⟩ := hiff.mp ⟨r, h⟩
  exact ⟨r, s, h, h', hsolution, hopposite r s h h'⟩

end Quadratics
