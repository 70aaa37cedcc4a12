import Quadratics.Proofs.Solver.Distinct
import Quadratics.Report.Forms
/-! The remark on an equation that is solved. It looks at the discriminant once more, after the
solver has, and says of the roots what the solver found. -/
namespace Quadratics

inductive Evaluation.Settled (r : Evaluation) : Prop
  | empty (ht : r.reduced = []) (hd : r.degree = none) (hn : r.discriminant = none)
      (hs : r.solution = .allReals)
  | constant (hd : r.degree = some 0) (hn : r.discriminant = none) (hs : r.solution = .noSolution)
  | monomial {k : Int32} (hk : k = 1 ∨ k = 2) (ht : r.reduced.length = 1) (hd : r.degree = some k)
      (hn : r.discriminant = none) (hs : r.solution = .one 0)
  | linear {x : Float} (hd : r.degree = some 1) (hn : r.discriminant = none)
      (hs : r.solution = .one x)
  | quadratic {a b c : Float} (ht : 2 ≤ r.reduced.length) (hd : r.degree = some 2)
      (hn : r.discriminant = some (b * b - 4 * a * c)) (hs : r.solution = (quadraticRoots a b c).2)

theorem Evaluation.settled {source : String} {r : Evaluation} (h : evaluate source = .ok r) :
    r.Settled := by
  obtain ⟨p, solver, -, -, -, hsolve, ht, hd, hn⟩ := evaluate_eq_ok_iff.mp h
  obtain ⟨hv, shape, hs, hsolution, rfl⟩ := Solver.solve_eq_ok_iff.mp hsolve
  generalize Solver.ofTerms p.terms = s at *
  have hpower := fun t ht => (Solver.validate_eq_ok_iff.mp hv t ht).2
  simp only at ht hn
  replace hd : r.degree = s.degree := hd
  match hterms : s.terms with
  | [] =>
    simp only [Solver.shape, hterms, Except.ok.injEq] at hs
    rw [hterms] at ht
    refine .empty ht (by simp [hd, Solver.degree, hterms]) (by rw [hn, ← hs]; rfl) ?_
    rw [← hsolution, ← hs]
    rfl
  | [t] =>
    simp only [Solver.shape, hterms, Except.ok.injEq] at hs
    rw [hterms] at ht hpower
    have hdegree : r.degree = some t.power := by simp [hd, Solver.degree, hterms, Solver.highest]
    obtain ⟨hlow, hhigh⟩ := hpower t List.mem_cons_self
    rcases power_cases hlow hhigh with hk | hk | hk <;> rw [hk] at hs hdegree <;> subst hs
    · exact .monomial (.inr rfl) (by rw [ht]; rfl) hdegree hn hsolution.symm
    · exact .monomial (.inl rfl) (by rw [ht]; rfl) hdegree hn hsolution.symm
    · exact .constant hdegree hn hsolution.symm
  | t :: u :: us =>
    simp only [Solver.shape, hterms] at hs
    rw [hterms] at ht
    have hdegree : r.degree = some (Solver.highest t (u :: us)) := by
      simp [hd, Solver.degree, hterms]
    split at hs
    · next hk =>
      cases hs
      exact .linear (hk ▸ hdegree) hn hsolution.symm
    · split at hs
      · next hk =>
        cases hs
        rw [Solver.answer_quadratic] at hsolution hn
        exact .quadratic (by simp [ht]) (hk ▸ hdegree) hn hsolution.symm
      · cases hs

namespace Report

inductive Comment where
  | none | complex | double | real
deriving DecidableEq

def Comment.text : Comment → String
  | .none => ""
  | .complex => "\nDiscriminant is strictly negative, the two solutions are complex:"
  | .double => "\nDiscriminant is zero, the solution is:"
  | .real => "\nDiscriminant is strictly positive, the two solutions are:"

def remarkText (degree : Int) (c : Comment) : String :=
  s!"Polynomial degree: {degree}" ++ c.text

/-- An equation without terms counts as one of degree zero. -/
def degreeNumber (r : Evaluation) : Int := r.degree.elim 0 Int32.toInt

/-- Which comment is right for what was found. Nothing is said of the root of a linear equation, nor
of one that a single term has. -/
def Comment.Due (r : Evaluation) : Comment → Prop
  | .complex => ∃ z₁ z₂, r.solution = .twoComplex z₁ z₂
  | .real => ∃ x₁ x₂, r.solution = .twoReal x₁ x₂
  | .double => (∃ x, r.solution = .one x) ∧ r.degree = some 2 ∧ 2 ≤ r.reduced.length
  | .none => r.solution = .allReals ∨ r.solution = .noSolution ∨
      (∃ x, r.solution = .one x) ∧ (r.degree = some 1 ∨ r.reduced.length = 1)

variable {n : Int} {a b : Comment} {source : String} {r : Evaluation}

theorem remarkText_inj (h : remarkText n a = remarkText n b) : a = b := by
  have htext : a.text = b.text := (String.append_right_inj _).mp h
  revert htext
  cases a <;> cases b <;> decide +kernel

/-- The double root of a quadratic is told from the root of anything else by the degree and the
number of terms. -/
theorem not_due_none (hd : r.degree = some 2) (ht : 2 ≤ r.reduced.length) :
    ¬ (r.degree = some 1 ∨ r.reduced.length = 1) := by
  rintro (hlinear | hlone)
  · cases hd.symm.trans hlinear
  · omega

theorem Comment.Due.unique (ha : a.Due r) (hb : b.Due r) : a = b := by
  cases a with
  | complex =>
    obtain ⟨z₁, z₂, hs⟩ := ha
    cases b <;> simp [Due, hs] at hb ⊢
  | real =>
    obtain ⟨x₁, x₂, hs⟩ := ha
    cases b <;> simp [Due, hs] at hb ⊢
  | double =>
    obtain ⟨⟨x, hs⟩, hd, ht⟩ := ha
    have hnone := not_due_none hd ht
    cases b <;> simp [Due, hs, hnone] at hb ⊢
  | none =>
    obtain hs | hs | ⟨⟨x, hs⟩, hlone⟩ := ha
    · cases b <;> simp [Due, hs] at hb ⊢
    · cases b <;> simp [Due, hs] at hb ⊢
    · have hdouble : ¬ (r.degree = some 2 ∧ 2 ≤ r.reduced.length) := fun ⟨hd, ht⟩ =>
        not_due_none hd ht hlone
      cases b <;> simp [Due, hs, hdouble] at hb ⊢

theorem remark_of_discriminant_none (k : Int32) :
    remark (some k) none = remarkText k.toInt .none :=
  (String.append_empty (s := s!"Polynomial degree: {k.toInt}")).symm

theorem remark_quadratic (d : Float) :
    remark (some 2) (some d) =
      remarkText 2 (if d < 0 then .complex else if d == 0 then .double else .real) := by
  rw [apply_ite (remarkText 2), apply_ite (remarkText 2)]
  rfl

/-- The second look at the discriminant takes the branch that the first one took, also if it is no
number. -/
theorem due_quadratic {a b c d : Float} (ht : 2 ≤ r.reduced.length) (hd : r.degree = some 2)
    (hd' : b * b - 4 * a * c = d) (hs : r.solution = (quadraticRoots a b c).2) :
    Comment.Due r (if d < 0 then .complex else if d == 0 then .double else .real) := by
  split
  · next hlt => exact ⟨_, _, hs.trans (quadraticRoots_of_lt hd' hlt)⟩
  · next hlt =>
    split
    · next hz => exact ⟨⟨_, hs.trans (quadraticRoots_of_eq hd' hlt hz)⟩, hd, ht⟩
    · next hz => exact ⟨_, _, hs.trans (quadraticRoots_of_gt hd' hlt hz)⟩

theorem exists_due (h : r.Settled) :
    ∃ c : Comment, c.Due r ∧ remark r.degree r.discriminant = remarkText (degreeNumber r) c := by
  cases h with
  | empty ht hd hn hs =>
    refine ⟨.none, .inl hs, ?_⟩
    rw [degreeNumber, hd, hn]
    decide +kernel
  | constant hd hn hs =>
    refine ⟨.none, .inr (.inl hs), ?_⟩
    rw [degreeNumber, hd, hn, remark_of_discriminant_none]
    rfl
  | monomial hk ht hd hn hs =>
    refine ⟨.none, .inr (.inr ⟨⟨0, hs⟩, .inr ht⟩), ?_⟩
    rw [degreeNumber, hd, hn, remark_of_discriminant_none]
    rfl
  | @linear x hd hn hs =>
    refine ⟨.none, .inr (.inr ⟨⟨x, hs⟩, .inl hd⟩), ?_⟩
    rw [degreeNumber, hd, hn, remark_of_discriminant_none]
    rfl
  | quadratic ht hd hn hs =>
    refine ⟨_, due_quadratic ht hd rfl hs, ?_⟩
    rw [degreeNumber, hd, hn, remark_quadratic]
    rfl

theorem degreeNumber_eq_zero_iff (h : r.Settled) :
    degreeNumber r = 0 ↔ r.solution = .allReals ∨ r.solution = .noSolution := by
  cases h with
  | empty ht hd hn hs => simp [degreeNumber, hd, hs]
  | constant hd hn hs => simp [degreeNumber, hd, hs]
  | monomial hk ht hd hn hs => rcases hk with rfl | rfl <;> simp [degreeNumber, hd, hs]
  | linear hd hn hs => simp [degreeNumber, hd, hs]
  | @quadratic a b c ht hd hn hs =>
    refine iff_of_false (by simp [degreeNumber, hd]) fun hsolution => ?_
    have hnone : Comment.none.Due r := hsolution.elim .inl fun h => .inr (.inl h)
    have hcomment := (due_quadratic ht hd rfl hs).unique hnone
    split at hcomment
    · cases hcomment
    · split at hcomment <;> cases hcomment

/-- The remark on an equation that is solved gives its degree, zero exactly where every number or
none is a solution, and the comment on the roots that is due and no other. -/
theorem remark_eq_iff_due (h : evaluate source = .ok r) :
    (∃ c : Comment, c.Due r) ∧
    (∀ c : Comment,
      remark r.degree r.discriminant = remarkText (degreeNumber r) c ↔ c.Due r) ∧
    (degreeNumber r = 0 ↔ r.solution = .allReals ∨ r.solution = .noSolution) := by
  have hs := Evaluation.settled h
  obtain ⟨c, hdue, htext⟩ := exists_due hs
  refine ⟨⟨c, hdue⟩, fun b => ⟨fun hb => ?_, fun hb => ?_⟩, degreeNumber_eq_zero_iff hs⟩
  · exact remarkText_inj (htext.symm.trans hb) ▸ hdue
  · rw [htext, hdue.unique hb]

/-- With coefficients of `10^200` the discriminant is no number, and there are two roots all the
same. The root of `x^2` is found without a discriminant. -/
theorem remark_eq_iff_due_cases :
    (∃ r, evaluate "10^200 x^2 + 10^200 x + 10^200" = .ok r ∧
      (∃ d, r.discriminant = some d ∧ d.isNaN = true) ∧
      remark r.degree r.discriminant = remarkText 2 .real) ∧
    ∃ r, evaluate "x^2" = .ok r ∧ remark r.degree r.discriminant = remarkText 2 .none := by
  constructor
  · have h : (evaluate "10^200 x^2 + 10^200 x + 10^200").map
        (fun r => (r.degree, r.discriminant, r.solution)) =
        .ok (some 2, some (0 / 0), .twoReal (0 / 0) (0 / 0)) := by decide +kernel
    obtain ⟨r, hr, hparts⟩ := map_eq_ok.mp h
    obtain ⟨hd, hn, hs⟩ := Prod.mk.inj hparts |>.imp_right Prod.mk.inj
    have hdegree : degreeNumber r = 2 := by rw [degreeNumber, hd]; rfl
    refine ⟨r, hr, ⟨_, hn, by decide +kernel⟩, hdegree ▸ ?_⟩
    exact ((remark_eq_iff_due hr).2.1 .real).mpr ⟨_, _, hs⟩
  · have h : (evaluate "x^2").map (fun r => (r.degree, r.reduced.length, r.solution)) =
        .ok (some 2, 1, .one 0) := by decide +kernel
    obtain ⟨r, hr, hparts⟩ := map_eq_ok.mp h
    obtain ⟨hd, ht, hs⟩ := Prod.mk.inj hparts |>.imp_right Prod.mk.inj
    have hdegree : degreeNumber r = 2 := by rw [degreeNumber, hd]; rfl
    refine ⟨r, hr, hdegree ▸ ?_⟩
    exact ((remark_eq_iff_due hr).2.1 .none).mpr (.inr (.inr ⟨⟨_, hs⟩, .inr ht⟩))

end Report
end Quadratics
