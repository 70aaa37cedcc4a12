import Quadratics.Proofs.Evaluation.Stages
import Quadratics.Proofs.Polynomial.Order
import Quadratics.Proofs.Postfix.Completeness
import Quadratics.Proofs.Report.Printing
/-! The reduced form of an equation is an equation with the same terms. -/
namespace Quadratics

open Token (Kind)
open Number (Decimal Nonzero)
open Quadratics.Polynomial (Descending)

namespace Number

theorem powerInto_one (n : Nat) : powerInto 1 1 n = 1 := by
  induction n using Nat.strong_induction_on with
  | _ n ih =>
    rw [powerInto]
    simp only [mul_one, ite_self]
    split
    · rfl
    · exact ih (n / 2) (by omega)

theorem power_one (n : Int) : power 1 n = 1 := by
  rw [power, powerInto_one]
  split <;> rfl

theorem isFinite_abs (x : Float) : x.abs.isFinite = x.isFinite := by
  change x.abs.toModel.unpack.isFinite = x.toModel.unpack.isFinite
  rw [unpack_abs]
  cases x.toModel.unpack <;> rfl

end Number

theorem power?_toInt (p : Int32) : power? p.toInt = some p := by
  rw [power?, if_pos ⟨p.minValue_le_toInt, p.toInt_le⟩, Int32.ofInt_toInt]

namespace Polynomial

theorem exponent_singleton {c : Float} {n : Int} (h : Number.toInt? c = some n)
    (hn : n.natAbs < 2 ^ 31) (position : Nat) :
    exponent ⟨[⟨0, c⟩]⟩ position = .ok n := by
  simp only [exponent, h, ne_eq, not_true_eq_false, if_false]
  rw [if_neg (by rw [Int32.toInt_maxValue]; omega)]

theorem pow_var {q : Polynomial} {p : Int32} {position : Nat}
    (h : q.exponent position = .ok p.toInt) : (var 1).pow q position = .ok ⟨[⟨p, 1⟩]⟩ := by
  have hone : ((1 : Float) == 0) = false := by decide
  have hfin : (1 : Float).isFinite = true := by decide
  rw [pow, h]
  simp [var, hone, power?_toInt, ensureFinite, Number.power_one, hfin, bind, Except.bind]

theorem mul_monomial {c : Float} {p : Int32} (h : c.isFinite = true) (position : Nat) :
    mul ⟨[⟨0, c⟩]⟩ ⟨[⟨p, 1⟩]⟩ position = .ok ⟨[⟨p, c⟩]⟩ := by
  simp [mul, scale, shifted, power?_toInt, Number.mul_one, ensureFinite, h, bind, Except.bind, pure,
    Except.pure]

theorem filter_merge_zero {ts : List Term} (h : ∀ t ∈ ts, Nonzero t.coefficient) :
    (merge ts [⟨0, -0⟩]).filter (fun t => t.coefficient != 0) = ts := by
  have hz : ((-0 : Float) != 0) = false := by decide
  induction ts with
  | nil => simp [merge, hz]
  | cons t ts ih =>
    obtain ⟨ht, hts⟩ := List.forall_mem_cons.mp h
    have hkeep : ts.filter (fun t => t.coefficient != 0) = ts :=
      List.filter_eq_self.mpr fun u hu => (hts u hu).ne_zero
    rw [merge]
    split
    · simp [ht.ne_zero, ih hts]
    · split
      · simp [hz, merge_nil, ht.ne_zero, hkeep]
      · simp [ht.add_neg_zero, merge_nil, ht.ne_zero, hkeep]

end Polynomial

namespace Report

open Formula (Folds)

variable {t : Term} {ts us : List Term}

theorem folds_exponent {k : Int} (hk : k.natAbs < 2 ^ 31) :
    ∃ q, Folds (exponentFormula k) q ∧ ∀ position, q.exponent position = .ok k := by
  have hint := Number.toInt?_toFloat (n := k.natAbs) (by omega)
  rw [exponentFormula]
  split
  · next hneg =>
    have hint := Number.toInt?_neg hint
    rw [show -(k.natAbs : Int) = k by omega] at hint
    exact ⟨_, .unary (.number _) fun position => rfl, Polynomial.exponent_singleton hint hk⟩
  · next hneg =>
    rw [show (k.natAbs : Int) = k by omega] at hint
    exact ⟨_, .number _, Polynomial.exponent_singleton hint hk⟩

theorem natAbs_lt_of_ne_minValue {p : Int32} (h : Int32.minValue < p) :
    p.toInt.natAbs < 2 ^ 31 := by
  have hlow : Int32.minValue.toInt < p.toInt := Int32.lt_iff_toInt_lt.mp h
  have hhigh := p.toInt_lt
  rw [Int32.toInt_minValue] at hlow
  omega

theorem folds_monomial {f : Formula} {c : Float} (ht : Int32.minValue < t.power)
    (hc : c.isFinite = true) (hf : Folds f ⟨[⟨0, c⟩]⟩) :
    Folds (monomialFormula f t) ⟨[⟨t.power, c⟩]⟩ := by
  obtain ⟨q, hq, hk⟩ := folds_exponent (natAbs_lt_of_ne_minValue ht)
  have hpow : Folds (.binary .pow .var (exponentFormula t.power.toInt)) ⟨[⟨t.power, 1⟩]⟩ :=
    .binary .var hq fun position => Polynomial.pow_var (hk position)
  exact .binary hf hpow fun position => Polynomial.mul_monomial hc position

theorem folds_firstTerm (ht : Int32.minValue < t.power) (hc : Nonzero t.coefficient) :
    Folds (firstFormula t) ⟨[t]⟩ := by
  refine folds_monomial ht hc.isFinite ?_
  split
  · next hneg =>
    have h : Folds (.unary .unaryMinus (.number t.coefficient.abs)) ⟨[⟨0, -t.coefficient.abs⟩]⟩ :=
      .unary (.number _) fun position => rfl
    rwa [hc.neg_abs_of_lt hneg] at h
  · next hpos =>
    rw [hc.abs_of_not_lt hpos]
    exact .number _

theorem folds_laterTerm {f : Formula} (ht : Int32.minValue < t.power) (hc : Nonzero t.coefficient)
    (hf : Folds f ⟨us⟩) (hus : ∀ u ∈ us, t.power < u.power) :
    Folds (laterFormula f t) ⟨us ++ [t]⟩ := by
  have habs : t.coefficient.abs.isFinite = true := (Number.isFinite_abs _).trans hc.isFinite
  have hm := folds_monomial (f := .number t.coefficient.abs) ht habs (.number _)
  refine .binary hf hm fun position => ?_
  rw [laterOperator, ← Polynomial.merge_singleton hus]
  split
  · next hneg =>
    simp only [Expression.applyBinary, Polynomial.sub, Polynomial.add, Polynomial.neg,
      List.map_cons, List.map_nil, hc.neg_abs_of_lt hneg]
  · next hpos =>
    simp only [Expression.applyBinary, Polynomial.add, hc.abs_of_not_lt hpos]

theorem folds_laterTerms {f : Formula} (ht : ∀ t ∈ ts, Int32.minValue < t.power)
    (hc : ∀ t ∈ ts, Nonzero t.coefficient) (hf : Folds f ⟨us⟩) (hd : Descending (us ++ ts)) :
    Folds (ts.foldl laterFormula f) ⟨us ++ ts⟩ := by
  induction ts generalizing f us with
  | nil => simpa using hf
  | cons t ts ih =>
    obtain ⟨ht, hts⟩ := List.forall_mem_cons.mp ht
    obtain ⟨hc, hcs⟩ := List.forall_mem_cons.mp hc
    have hus : ∀ u ∈ us, t.power < u.power := fun u hu =>
      (List.pairwise_append.mp hd).2.2 u hu t List.mem_cons_self
    have hnext := folds_laterTerm ht hc hf hus
    rw [List.append_cons] at hd ⊢
    exact ih hts hcs hnext hd

/-- The right side leaves a negative zero, which the solver drops. -/
theorem folds_equation (hd : Descending ts) (ht : ∀ t ∈ ts, Int32.minValue < t.power)
    (hc : ∀ t ∈ ts, Nonzero t.coefficient) :
    ∃ p, Folds (equationFormula ts) p ∧ (Solver.ofTerms p.terms).terms = ts := by
  cases ts with
  | nil =>
    refine ⟨_, .binary (.number 0) (.number 0) fun position => rfl, ?_⟩
    have hz : ((0 : Float) + -0 != 0) = false := by decide
    simp [Polynomial.sub, Polynomial.add, Polynomial.neg, Polynomial.constant, Polynomial.merge,
      Solver.ofTerms, hz]
  | cons t ts =>
    have hfirst := folds_firstTerm (ht t List.mem_cons_self) (hc t List.mem_cons_self)
    have hsum : Folds (sumFormula (t :: ts)) ⟨t :: ts⟩ :=
      folds_laterTerms (List.forall_mem_cons.mp ht).2 (List.forall_mem_cons.mp hc).2 hfirst hd
    refine ⟨_, .binary hsum (.number 0) fun position => rfl, ?_⟩
    exact Polynomial.filter_merge_zero hc

theorem fold_reducedForm (hd : Descending ts) (ht : ∀ t ∈ ts, Int32.minValue < t.power)
    (hc : ∀ t ∈ ts, Nonzero t.coefficient) :
    ∃ tokens e p, Postfix.ofString (reducedForm ts) = .ok tokens ∧
      Expression.build tokens = .ok e ∧ e.fold = .ok p ∧ (Solver.ofTerms p.terms).terms = ts := by
  obtain ⟨p, hp, hterms⟩ := folds_equation hd ht hc
  obtain ⟨all, hall, hk⟩ := scans_reducedForm hc 0
  have heq := equation_reducedForm ts
  rw [← hk] at heq
  obtain ⟨tokens, htokens, hpost⟩ :=
    Postfix.convert_of_map_kind heq (Postfix.map_kind_filter all)
  rw [(plain_equation ts).collapse] at hpost
  obtain ⟨e, he, hf, hw⟩ :=
    Expression.build_postorder heq.proper (plain_equation ts).unmixed hpost
  refine ⟨tokens, e, p, ?_, he, Expression.fold_of_folds hw (hf ▸ hp), hterms⟩
  rw [Postfix.ofString, Scanner.ofString, hall, Postfix.convert_blanks, htokens]

end Report

namespace Solver

theorem nonzero_of_validate {ts : List Term} (h : (ofTerms ts).validate = .ok ()) :
    ∀ t ∈ (ofTerms ts).terms, Nonzero t.coefficient ∧ Int32.minValue < t.power := by
  intro t ht
  obtain ⟨hf, hp⟩ := validate_ok h t ht
  have hz : (t.coefficient != 0) = true := (List.mem_filter.mp ht).2
  exact ⟨⟨hf, hz⟩, Int32.lt_of_lt_of_le (by decide) hp⟩

end Solver

/-- What an evaluation reports can be printed and evaluated again, with the same outcome. -/
theorem evaluate_reducedForm {source : String} {r : Evaluation} (h : evaluate source = .ok r) :
    ∃ r', evaluate (Report.reducedForm r.reduced) = .ok r' ∧ r'.reduced = r.reduced ∧
      r'.degree = r.degree ∧ r'.discriminant = r.discriminant ∧ r'.solution = r.solution := by
  obtain ⟨p, solver, -, -, hfold, hsolve, hr, hdeg, hdisc⟩ := evaluate_eq_ok_iff.mp h
  obtain ⟨hv, hterms⟩ := Solver.solve_ok hsolve
  have hnonzero := Solver.nonzero_of_validate hv
  rw [← hterms, ← hr] at hnonzero
  have hdesc : Descending r.reduced := by
    rw [hr, hterms]
    exact (Expression.descending_fold hfold).filter _
  obtain ⟨tokens, e, q, htokens, he, hq, hsame⟩ := Report.fold_reducedForm hdesc
    (fun t ht => (hnonzero t ht).2) fun t ht => (hnonzero t ht).1
  have hsolver : Solver.ofTerms q.terms = Solver.ofTerms p.terms := by
    rw [hr, hterms] at hsame
    exact congrArg (fun ts => ({ terms := ts } : Solver)) hsame
  refine ⟨{ r with tokens := tokens, tree := e }, ?_, rfl, rfl, rfl, rfl⟩
  exact evaluate_eq_ok_iff.mpr ⟨q, solver, htokens, he, hq, hsolver ▸ hsolve, hr, hdeg, hdisc⟩

/-- A reduced form is read as the terms that were printed, and the reduced form of an equation has
its solution. -/
theorem reducedForm_reads_back :
    (∀ ts : List Term, Descending ts →
      (∀ t ∈ ts, Int32.minValue < t.power ∧ t.coefficient.isFinite = true ∧
        (t.coefficient != 0) = true) →
      ∃ tokens e p, Postfix.ofString (Report.reducedForm ts) = .ok tokens ∧
        Expression.build tokens = .ok e ∧ e.fold = .ok p ∧
        (Solver.ofTerms p.terms).terms = ts) ∧
    ∀ (source : String) (r : Evaluation), evaluate source = .ok r →
      ∃ r', evaluate (Report.reducedForm r.reduced) = .ok r' ∧ r'.reduced = r.reduced ∧
        r'.degree = r.degree ∧ r'.discriminant = r.discriminant ∧ r'.solution = r.solution := by
  refine ⟨?_, fun source r h => evaluate_reducedForm h⟩
  intro ts hd h
  exact Report.fold_reducedForm hd (fun t ht => (h t ht).1) fun t ht => ⟨(h t ht).2.1, (h t ht).2.2⟩

/-- `-1.5 * X^2 + 4 * X^0 + 0.1 * X^-3 = 0`, and the form of `-2x^2 + 3 = x`. -/
theorem reducedForm_reads_back_cases :
    (∃ tokens e p,
      Postfix.ofString (Report.reducedForm [⟨2, -1.5⟩, ⟨0, 4⟩, ⟨-3, 0.1⟩]) = .ok tokens ∧
        Expression.build tokens = .ok e ∧ e.fold = .ok p ∧
        (Solver.ofTerms p.terms).terms = [⟨2, -1.5⟩, ⟨0, 4⟩, ⟨-3, 0.1⟩]) ∧
    ∃ r r', evaluate "-2x^2 + 3 = x" = .ok r ∧ r.reduced = [⟨2, -2⟩, ⟨1, -1⟩, ⟨0, 3⟩] ∧
      evaluate (Report.reducedForm r.reduced) = .ok r' ∧ r'.reduced = r.reduced ∧
      r'.degree = r.degree ∧ r'.discriminant = r.discriminant ∧ r'.solution = r.solution := by
  constructor
  · exact reducedForm_reads_back.1 _ (by decide +kernel) (by decide +kernel)
  · have hsome : (evaluate "-2x^2 + 3 = x").toOption.map (·.reduced) =
        some [⟨2, -2⟩, ⟨1, -1⟩, ⟨0, 3⟩] := by decide +kernel
    cases hr : evaluate "-2x^2 + 3 = x" with
    | error e => simp [hr, Except.toOption] at hsome
    | ok r =>
      simp only [hr, Except.toOption, Option.map_some, Option.some.injEq] at hsome
      obtain ⟨r', hr'⟩ := reducedForm_reads_back.2 _ r hr
      exact ⟨r, r', rfl, hsome, hr'⟩

end Quadratics
