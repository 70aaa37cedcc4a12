import Quadratics.Proofs.Postfix.Refusals
/-! The stages of an evaluation: it succeeds when all of them do, and else ends as the first one
that fails. -/
namespace Quadratics

theorem rejecting_eq_ok {α : Type} {x : Except EquationError α} {a : α} :
    rejecting x = .ok a ↔ x = .ok a := by
  cases x with
  | error e => exact ⟨nofun, nofun⟩
  | ok b =>
    constructor <;>
      · intro h
        cases h
        rfl

theorem rejecting_eq_error {α : Type} {x : Except EquationError α} {f : Failure} :
    rejecting x = .error f ↔ ∃ e, x = .error e ∧ f = .rejected e := by
  cases x with
  | error e =>
    constructor
    · intro h
      cases h
      exact ⟨e, rfl, rfl⟩
    · rintro ⟨e', he, rfl⟩
      cases he
      rfl
  | ok a => exact ⟨nofun, nofun⟩

theorem evaluate_eq_ok_iff {source : String} {r : Evaluation} :
    evaluate source = .ok r ↔
      ∃ p solver, Postfix.ofString source = .ok r.tokens ∧
        Expression.build r.tokens = .ok r.tree ∧ r.tree.fold = .ok p ∧
        (Solver.ofTerms p.terms).solve = .ok (r.solution, solver) ∧ r.reduced = solver.terms ∧
        r.degree = solver.degree ∧ r.discriminant = solver.discriminant := by
  constructor
  · intro h
    obtain ⟨tokens, htokens, h⟩ := bind_eq_ok.mp h
    obtain ⟨e, he, h⟩ := bind_eq_ok.mp h
    obtain ⟨p, hp, h⟩ := bind_eq_ok.mp h
    obtain ⟨⟨solution, solver⟩, hs, h⟩ := bind_eq_ok.mp h
    cases h
    exact ⟨p, solver, rejecting_eq_ok.mp htokens, rejecting_eq_ok.mp he, hp,
      rejecting_eq_ok.mp hs, rfl, rfl, rfl⟩
  · rintro ⟨p, solver, htokens, he, hp, hs, hr, hd, hdisc⟩
    refine bind_eq_ok.mpr ⟨_, rejecting_eq_ok.mpr htokens, ?_⟩
    refine bind_eq_ok.mpr ⟨_, rejecting_eq_ok.mpr he, ?_⟩
    refine bind_eq_ok.mpr ⟨_, hp, ?_⟩
    refine bind_eq_ok.mpr ⟨_, rejecting_eq_ok.mpr hs, ?_⟩
    cases r
    simp_all [pure, Except.pure]

inductive Cause.OfSolver : Cause → Prop where
  | infiniteCoefficient (power : Int32) : OfSolver (.infiniteCoefficient power)
  | powerOutOfRange (power : Int32) : OfSolver (.powerOutOfRange power)
  | unsolvableDegree (degree : Int32) : OfSolver (.unsolvableDegree degree)

theorem Cause.OfSolver.stage {cause : Cause} (h : cause.OfSolver) : cause.stage = .validation := by
  cases h <;> rfl

namespace Solver

theorem validate_ok {s : Solver} (h : s.validate = .ok ()) :
    ∀ t ∈ s.terms, t.coefficient.isFinite = true ∧ 0 ≤ t.power := by
  unfold validate at h
  split at h
  · cases h
  · next hfinite =>
    split at h
    · cases h
    · next hpower =>
      intro t ht
      have hf := List.find?_eq_none.mp hfinite t ht
      have hp := List.find?_eq_none.mp hpower t ht
      simp only [Bool.or_eq_true, decide_eq_true_eq, not_or] at hp
      exact ⟨by simpa using hf, Int32.not_lt.mp hp.1⟩

theorem solve_ok {s t : Solver} {solution : Solution} (h : s.solve = .ok (solution, t)) :
    s.validate = .ok () ∧ t.terms = s.terms := by
  obtain ⟨⟨⟩, hv, h⟩ := bind_eq_ok.mp h
  obtain ⟨shape, -, h⟩ := bind_eq_ok.mp h
  cases h
  exact ⟨hv, rfl⟩

variable {s : Solver} {e : EquationError}

theorem ofSolver_validate (h : s.validate = .error e) :
    e.position = none ∧ e.cause.OfSolver := by
  unfold validate at h
  split at h
  · cases h
    exact ⟨rfl, .infiniteCoefficient _⟩
  · split at h
    · cases h
      exact ⟨rfl, .powerOutOfRange _⟩
    · cases h

theorem ofSolver_shape (h : s.shape = .error e) : e.position = none ∧ e.cause.OfSolver := by
  unfold shape at h
  split at h
  · cases h
  · cases h
  · simp only at h
    split at h
    · cases h
    · split at h
      · cases h
      · cases h
        exact ⟨rfl, .unsolvableDegree _⟩

theorem ofSolver_solve (h : s.solve = .error e) : e.position = none ∧ e.cause.OfSolver := by
  rcases bind_eq_error.mp h with h | ⟨u, -, h⟩
  · exact ofSolver_validate h
  · rcases bind_eq_error.mp h with h | ⟨shape, -, h⟩
    · exact ofSolver_shape h
    · cases h

end Solver

theorem evaluate_eq_error_stage {source : String} {f : Failure}
    (h : evaluate source = .error f) :
    (∃ e, Postfix.ofString source = .error e ∧ f = .rejected e) ∨
      ∃ tokens, Postfix.ofString source = .ok tokens ∧
        ((∃ e, Expression.build tokens = .error e ∧ f = .rejected e) ∨
          ∃ tree, Expression.build tokens = .ok tree ∧
            (tree.fold = .error f ∨
              ∃ p e, tree.fold = .ok p ∧ (Solver.ofTerms p.terms).solve = .error e ∧
                f = .rejected e)) := by
  rcases bind_eq_error.mp h with h | ⟨tokens, htokens, h⟩
  · exact .inl (rejecting_eq_error.mp h)
  · refine .inr ⟨tokens, rejecting_eq_ok.mp htokens, ?_⟩
    rcases bind_eq_error.mp h with h | ⟨tree, htree, h⟩
    · exact .inl (rejecting_eq_error.mp h)
    · refine .inr ⟨tree, rejecting_eq_ok.mp htree, ?_⟩
      rcases bind_eq_error.mp h with h | ⟨p, hp, h⟩
      · exact .inl h
      · rcases bind_eq_error.mp h with h | ⟨result, -, h⟩
        · obtain ⟨e, he, rfl⟩ := rejecting_eq_error.mp h
          exact .inr ⟨p, e, hp, he, rfl⟩
        · cases h

theorem evaluate_eq_error {source : String} {f : Failure} (h : evaluate source = .error f) :
    (∃ e, f = .rejected e ∧ (e.cause.stage = .lexical ∨ e.cause.stage = .validation)) ∨
      ∃ tokens, Postfix.ofString source = .ok tokens ∧
        ((∃ e, Expression.build tokens = .error e ∧ f = .rejected e) ∨
          ∃ tree, Expression.build tokens = .ok tree ∧ tree.fold = .error f) := by
  rcases evaluate_eq_error_stage h with
    ⟨e, he, rfl⟩ | ⟨tokens, ht, hb | ⟨tree, hb, hf | ⟨p, e, -, he, rfl⟩⟩⟩
  · exact .inl ⟨e, rfl, Postfix.ofString_eq_error he⟩
  · exact .inr ⟨tokens, ht, .inl hb⟩
  · exact .inr ⟨tokens, ht, .inr ⟨tree, hb, hf⟩⟩
  · exact .inl ⟨e, rfl, .inr (Solver.ofSolver_solve he).2.stage⟩

theorem evaluate_of_fold_eq_error {source : String} {tokens : List Token} {tree : Expression}
    {f : Failure} (ht : Postfix.ofString source = .ok tokens)
    (hb : Expression.build tokens = .ok tree) (hf : tree.fold = .error f) :
    evaluate source = .error f := by
  refine bind_eq_error.mpr (.inr ⟨tokens, rejecting_eq_ok.mpr ht, ?_⟩)
  refine bind_eq_error.mpr (.inr ⟨tree, rejecting_eq_ok.mpr hb, ?_⟩)
  exact bind_eq_error.mpr (.inl hf)

end Quadratics
