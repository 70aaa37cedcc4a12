import Quadratics.Proofs.Evaluation.Marks
import Quadratics.Proofs.Solver.Equation
import Quadratics.Proofs.Solver.Kind
/-! Equations with one term for each power, in any order. They are refused for a coefficient or a
power of a term only, nothing is divided by zero, and the order does not matter. -/
namespace Quadratics

open Number

/-- No two terms have the same power. -/
def Distinct (ts : List Term) : Prop := ts.Pairwise fun t u => t.power ≠ u.power

instance (ts : List Term) : Decidable (Distinct ts) :=
  inferInstanceAs (Decidable (ts.Pairwise fun t u => t.power ≠ u.power))

/-- What is divided by on the way to the roots. -/
def Shape.divisors : Shape → List Float
  | .empty | .constant | .monomial => []
  | .linear b _ => [b]
  | .quadratic a _ _ => [2 * a, (2 * a).abs]

/-- The divisions on the way to the roots, each with its numerator. -/
def Shape.divisions : Shape → List (Float × Float)
  | .empty | .constant | .monomial => []
  | .linear b c => [(-c, b)]
  | .quadratic a b c =>
    let d := b * b - 4 * a * c
    if d < 0 then [(-b, 2 * a), ((-d).sqrt, (2 * a).abs)]
    else if d == 0 then [(-b, 2 * a)]
    else [(-b - d.sqrt, 2 * a), (-b + d.sqrt, 2 * a)]

/-- What comes of a division, but for its sign and that of a zero. -/
def Shape.IsQuotient (shape : Shape) (x : Float) : Prop :=
  ∃ n d, (n, d) ∈ shape.divisions ∧ d ∈ shape.divisors ∧
    (x = positiveZero (n / d) ∨ x = n / d ∨ x = -(n / d))

namespace Solver

/-- The solver after it was asked for the roots; a refusal leaves it as it was. -/
def solved (s : Solver) : Solver :=
  match s.solve with
  | .ok (_, t) => t
  | .error _ => s

/-- The solution with the discriminant, and nothing where the equation is refused. -/
def outcome (s : Solver) : Option (Solution × Option Float) :=
  match s.solve with
  | .ok (solution, t) => some (solution, t.discriminant)
  | .error _ => none

end Solver

variable {ts us : List Term} {t u : Term} {s s' : Solver} {shape : Shape}

namespace Distinct

theorem eq_of_power_eq (h : Distinct ts) (ht : t ∈ ts) (hu : u ∈ ts) (hp : t.power = u.power) :
    t = u :=
  List.inj_on_of_nodup_map (List.pairwise_map.mpr h) ht hu hp

theorem filter (h : Distinct ts) (p : Term → Bool) : Distinct (ts.filter p) :=
  List.Pairwise.filter p h

theorem of_descending (h : Polynomial.Descending ts) : Distinct ts :=
  h.imp fun hlt => (Int32.ne_of_lt hlt).symm

end Distinct

namespace Solver

theorem validate_eq_ok_iff :
    s.validate = .ok () ↔
      ∀ t ∈ s.terms, t.coefficient.isFinite = true ∧ 0 ≤ t.power ∧ t.power ≤ 2 := by
  constructor
  · intro h t ht
    obtain ⟨hfinite, hlow⟩ := validate_ok h t ht
    refine ⟨hfinite, hlow, Int32.not_lt.mp fun hhigh => ?_⟩
    unfold validate at h
    split at h
    · cases h
    · split at h
      · cases h
      · next hnone => exact List.find?_eq_none.mp hnone t ht (by simp [hhigh])
  · exact validate_eq_ok

theorem exists_shape_of_distinct (hd : Distinct s.terms) (hv : s.validate = .ok ()) :
    ∃ shape, s.shape = .ok shape := by
  have hpower := fun t ht => (validate_eq_ok_iff.mp hv t ht).2
  match hs : s.terms with
  | [] => exact ⟨.empty, by simp [Solver.shape, hs]⟩
  | [t] => exact ⟨_, by simp [Solver.shape, hs]; rfl⟩
  | t :: u :: us =>
    rw [hs] at hd hpower
    obtain ⟨v, hmem, hhigh⟩ := exists_power_eq_highest t (u :: us)
    have hle := power_le_highest t (u :: us)
    obtain ⟨hlow, htwo⟩ := hpower v hmem
    rw [hhigh] at hlow htwo
    simp only [Solver.shape, hs]
    rcases power_cases hlow htwo with hk | hk | hk <;> rw [hk]
    · exact ⟨_, rfl⟩
    · exact ⟨_, rfl⟩
    · have hzero : ∀ w ∈ t :: u :: us, w.power = 0 := fun w hw =>
        Int32.le_antisymm (hk ▸ hle w hw) (hpower w hw).1
      have hne := (List.pairwise_cons.mp hd).1 u List.mem_cons_self
      exact absurd ((hzero t (by simp)).trans (hzero u (by simp)).symm) hne

theorem solve_eq_error_iff {e : EquationError} (hd : Distinct s.terms) :
    s.solve = .error e ↔ s.validate = .error e := by
  constructor
  · intro h
    rcases bind_eq_error.mp h with h | ⟨⟨⟩, hv, h⟩
    · exact h
    · obtain ⟨shape, hs⟩ := exists_shape_of_distinct hd hv
      rw [hs] at h
      cases h
  · exact fun h => bind_eq_error.mpr (.inl h)

theorem cause_of_validate {e : EquationError} (h : s.validate = .error e) (degree : Int32) :
    e.cause ≠ .unsolvableDegree degree := by
  unfold validate at h
  split at h
  · cases h
    exact nofun
  · split at h
    · cases h
      exact nofun
    · cases h

theorem two_mul_ne_zero {a : Float} (h : (a != 0) = true) : (2 * a != 0) = true := by
  by_cases hf : (2 * a).isFinite = true
  · obtain ⟨p, hp⟩ := isFinite_iff.mp (isFinite_of_mul hf).2
    rw [bne_zero_iff, isZero_iff_value hp] at h
    rw [bne_zero_iff, isZero_iff_value (value?_two_mul hp hf)]
    exact mul_ne_zero two_ne_zero h
  · rw [bne_zero_iff]
    exact fun hz => hf (isFinite_of_beq_zero (isZero_iff.mpr hz))

theorem isZero_abs {x : Float} (h : IsZero x.abs) : IsZero x := by
  obtain ⟨s, hs⟩ := h
  rw [unpack_abs] at hs
  rw [IsZero]
  generalize x.toModel.unpack = v at *
  cases v with
  | zero t => exact ⟨t, rfl⟩
  | notANumber | infinity t | finite t m e hm => cases hs

theorem divisors_ne_zero (h : ∀ t ∈ s.terms, (t.coefficient != 0) = true)
    (hs : s.shape = .ok shape) : ∀ x ∈ shape.divisors, (x != 0) = true := by
  cases shape_of (P := fun x => (x != 0) = true) h hs with
  | empty | constant | monomial => exact nofun
  | linear hb hc => exact List.forall_mem_singleton.mpr hb
  | quadratic ha hb hc =>
    have htwice := two_mul_ne_zero ha
    have habs := mt isZero_abs (bne_zero_iff.mp htwice)
    exact List.forall_mem_cons.mpr ⟨htwice, List.forall_mem_singleton.mpr (bne_zero_iff.mpr habs)⟩

theorem isQuotient_positiveZero {n d : Float} (hf : (n, d) ∈ shape.divisions)
    (hd : d ∈ shape.divisors) : shape.IsQuotient (positiveZero (n / d)) :=
  ⟨n, d, hf, hd, .inl rfl⟩

theorem isQuotient_ofReals {x y d : Float} (hx : (x, d) ∈ shape.divisions)
    (hy : (y, d) ∈ shape.divisions) (hd : d ∈ shape.divisors) :
    ∀ z ∈ (Solution.ofReals (x / d) (y / d)).parts, shape.IsQuotient z := by
  have hfirst := isQuotient_positiveZero hx hd
  have hsecond := isQuotient_positiveZero hy hd
  simp only [Solution.ofReals, Solution.parts, List.forall_mem_cons]
  refine ⟨?_, ?_, List.forall_mem_nil _⟩
  · rcases lesser_eq_or (positiveZero (x / d)) (positiveZero (y / d)) with h | h <;> rwa [h]
  · rcases greater_eq_or (positiveZero (x / d)) (positiveZero (y / d)) with h | h <;> rwa [h]

theorem isQuotient_parts_quadratic (a b c : Float) :
    ∀ x ∈ (quadraticRoots a b c).2.parts, (Shape.quadratic a b c).IsQuotient x := by
  have hmem : 2 * a ∈ (Shape.quadratic a b c).divisors := List.mem_cons_self
  have habs : (2 * a).abs ∈ (Shape.quadratic a b c).divisors := by simp [Shape.divisors]
  by_cases hlt : b * b - 4 * a * c < 0
  · have hdivisions : (Shape.quadratic a b c).divisions =
        [(-b, 2 * a), ((-(b * b - 4 * a * c)).sqrt, (2 * a).abs)] := if_pos hlt
    have hre : (-b, 2 * a) ∈ (Shape.quadratic a b c).divisions := by simp [hdivisions]
    have him : ((-(b * b - 4 * a * c)).sqrt, (2 * a).abs) ∈ (Shape.quadratic a b c).divisions := by
      simp [hdivisions]
    rw [quadraticRoots_of_lt rfl hlt]
    simp only [Solution.parts, List.forall_mem_cons]
    exact ⟨isQuotient_positiveZero hre hmem, ⟨_, _, him, habs, .inr (.inr rfl)⟩,
      isQuotient_positiveZero hre hmem, ⟨_, _, him, habs, .inr (.inl rfl)⟩, List.forall_mem_nil _⟩
  · by_cases hz : (b * b - 4 * a * c == 0) = true
    · have hdivisions : (Shape.quadratic a b c).divisions = [(-b, 2 * a)] :=
        (if_neg hlt).trans (if_pos hz)
      rw [quadraticRoots_of_eq rfl hlt hz]
      exact List.forall_mem_singleton.mpr (isQuotient_positiveZero (by simp [hdivisions]) hmem)
    · have hdivisions : (Shape.quadratic a b c).divisions =
          [(-b - (b * b - 4 * a * c).sqrt, 2 * a), (-b + (b * b - 4 * a * c).sqrt, 2 * a)] :=
        (if_neg hlt).trans (if_neg hz)
      rw [quadraticRoots_of_gt rfl hlt hz]
      exact isQuotient_ofReals (by simp [hdivisions]) (by simp [hdivisions]) hmem

theorem isQuotient_parts (shape : Shape) :
    ∀ x ∈ (answer shape).2.parts, x = 0 ∨ shape.IsQuotient x := by
  cases shape with
  | empty | constant => exact nofun
  | monomial => exact List.forall_mem_singleton.mpr (.inl rfl)
  | linear b c =>
    exact List.forall_mem_singleton.mpr
      (.inr (isQuotient_positiveZero List.mem_cons_self List.mem_cons_self))
  | quadratic a b c =>
    rw [answer_quadratic]
    exact fun x hx => .inr (isQuotient_parts_quadratic a b c x hx)

theorem isSome_discriminant_iff (hd : Distinct s.terms) (hs : s.shape = .ok shape) :
    (answer shape).1.isSome ↔ (∃ t ∈ s.terms, t.power = 2) ∧ ∃ u ∈ s.terms, u.power ≠ 2 := by
  match hts : s.terms with
  | [] =>
    simp only [Solver.shape, hts, Except.ok.injEq] at hs
    simp [← hs, answer]
  | [t] =>
    simp only [Solver.shape, hts, Except.ok.injEq] at hs
    rw [← hs]
    split <;> simp [answer]
  | t :: u :: us =>
    rw [hts] at hd
    have hle := power_le_highest t (u :: us)
    simp only [Solver.shape, hts] at hs
    split at hs
    · next hone =>
      cases hs
      refine iff_of_false Bool.false_ne_true ?_
      rintro ⟨⟨v, hv, htwo⟩, -⟩
      have hlt := hle v hv
      rw [hone, htwo] at hlt
      exact absurd hlt (by decide)
    · split at hs
      · next htwo =>
        cases hs
        obtain ⟨v, hv, hpower⟩ := exists_power_eq_highest t (u :: us)
        refine iff_of_true (by simp [answer_quadratic]) ⟨⟨v, hv, hpower.trans htwo⟩, ?_⟩
        have hne := (List.pairwise_cons.mp hd).1 u List.mem_cons_self
        by_cases ht : t.power = 2
        · exact ⟨u, by simp, fun hu => hne (ht.trans hu.symm)⟩
        · exact ⟨t, by simp, ht⟩
      · cases hs

theorem highest_le_of_subset (h : t :: ts ⊆ u :: us) : highest t ts ≤ highest u us := by
  obtain ⟨v, hv, hpower⟩ := exists_power_eq_highest t ts
  exact hpower ▸ power_le_highest u us v (h hv)

theorem highest_perm (h : (t :: ts).Perm (u :: us)) : highest t ts = highest u us :=
  Int32.le_antisymm (highest_le_of_subset h.subset) (highest_le_of_subset h.symm.subset)

theorem coefficient_perm (hd : Distinct s.terms) (h : s.terms.Perm s'.terms) (k : Int32) :
    s.coefficient k = s'.coefficient k := by
  rcases s.coefficient_cases k with ⟨t, ht, rfl, hc⟩ | ⟨hnone, hc⟩
  · rw [hc, coefficient_eq (h.mem_iff.mp ht)]
    exact fun u hu hpower => hd.eq_of_power_eq (h.mem_iff.mpr hu) ht hpower
  · rw [hc, coefficient_eq_zero fun u hu => hnone u (h.mem_iff.mpr hu)]

theorem shape_perm (hd : Distinct s.terms) (h : s.terms.Perm s'.terms) : s.shape = s'.shape := by
  have hcoefficient := coefficient_perm hd h
  match hs : s.terms, hs' : s'.terms with
  | [], [] => simp only [Solver.shape, hs, hs']
  | [t], [u] =>
    rw [hs, hs', List.singleton_perm_singleton] at h
    simp only [Solver.shape, hs, hs', h]
  | t :: u :: us, v :: w :: ws =>
    rw [hs, hs'] at h
    simp only [Solver.shape, hs, hs', highest_perm h, hcoefficient]
  | [], _ :: _ | _ :: _, [] | [_], _ :: _ :: _ | _ :: _ :: _, [_] =>
    have hlength := h.length_eq
    simp [hs, hs'] at hlength

theorem validate_perm (h : s.terms.Perm s'.terms) :
    s.validate = .ok () ↔ s'.validate = .ok () := by
  simp only [validate_eq_ok_iff, h.mem_iff]

theorem outcome_of_shape (hv : s.validate = .ok ()) (hs : s.shape = .ok shape) :
    s.outcome = some ((answer shape).2, (answer shape).1) := by
  rw [outcome, solve_eq_ok_iff.mpr ⟨hv, shape, hs, rfl, rfl⟩]

theorem outcome_of_not_valid (hv : ¬ s.validate = .ok ()) : s.outcome = none := by
  cases hsolve : s.solve with
  | ok r => exact absurd (solve_ok hsolve).1 hv
  | error e => rw [outcome, hsolve]

theorem outcome_perm (hd : Distinct s.terms) (h : s.terms.Perm s'.terms) :
    s.outcome = s'.outcome := by
  by_cases hv : s.validate = .ok ()
  · obtain ⟨shape, hs⟩ := exists_shape_of_distinct hd hv
    rw [outcome_of_shape hv hs,
      outcome_of_shape ((validate_perm h).mp hv) ((shape_perm hd h).symm.trans hs)]
  · rw [outcome_of_not_valid hv, outcome_of_not_valid (mt (validate_perm h).mpr hv)]

theorem mem_ofTerms : t ∈ (ofTerms ts).terms ↔ t ∈ ts ∧ (t.coefficient != 0) = true :=
  List.mem_filter

theorem solve_ofTerms_eq_error_iff (h : Distinct ts) :
    (∃ e, (ofTerms ts).solve = .error e) ↔
      ∃ t ∈ ts, (t.coefficient != 0) = true ∧
        (t.coefficient.isFinite = false ∨ t.power < 0 ∨ 2 < t.power) := by
  have hd : Distinct (ofTerms ts).terms := h.filter _
  have hrefused : (∃ e, (ofTerms ts).validate = .error e) ↔ ¬ (ofTerms ts).validate = .ok () := by
    cases (ofTerms ts).validate <;> simp
  simp only [solve_eq_error_iff hd, hrefused, validate_eq_ok_iff, mem_ofTerms, not_forall,
    not_and_or, Bool.not_eq_true, Int32.not_le, and_assoc, exists_prop]

theorem discriminant_solved_iff (h : Distinct ts) :
    (ofTerms ts).solved.discriminant.isSome ↔
      (∃ r, (ofTerms ts).solve = .ok r) ∧
        (∃ t ∈ ts, (t.coefficient != 0) = true ∧ t.power = 2) ∧
        ∃ u ∈ ts, (u.coefficient != 0) = true ∧ u.power ≠ 2 := by
  rw [solved]
  split
  · next solution t hsolve =>
    obtain ⟨-, shape, hs, -, rfl⟩ := solve_eq_ok_iff.mp hsolve
    have hiff := isSome_discriminant_iff (h.filter _) hs
    simp only [mem_ofTerms, and_assoc] at hiff
    exact hiff.trans (and_iff_right ⟨_, hsolve⟩).symm
  · next e hsolve =>
    refine iff_of_false nofun ?_
    rintro ⟨⟨r, hr⟩, -⟩
    cases hsolve.symm.trans hr

end Solver

/-- The terms of a folded equation have different powers, and all other stages have causes of their
own. -/
theorem cause_ne_unsolvableDegree {source : String} {e : EquationError}
    (h : evaluate source = .error (.rejected e)) (degree : Int32) :
    e.cause ≠ .unsolvableDegree degree := by
  have hpoints (hp : Points source e) : e.cause ≠ .unsolvableDegree degree := by
    obtain ⟨p, -, hmarks⟩ := hp
    exact fun hc => hmarks.placed (.inr (hc ▸ .unsolvableDegree degree))
  rcases evaluate_eq_error_stage h with
    ⟨e', he, hf⟩ | ⟨tokens, ht, ⟨e', he, hf⟩ | ⟨tree, hb, hf | ⟨p, e', hp, he, hf⟩⟩⟩
  · cases hf
    rcases Postfix.points_ofString he with rfl | hpoint
    · exact nofun
    · exact hpoints hpoint
  · cases hf
    exact hpoints (points_build ht he)
  · exact hpoints (points_fold ht hb hf)
  · cases hf
    have hd := Distinct.of_descending (Expression.descending_fold hp)
    exact Solver.cause_of_validate ((Solver.solve_eq_error_iff (hd.filter _)).mp he) degree

namespace Solver

/-- Terms with different powers, in any order: the equation is refused exactly for a term that has a
coefficient which is not a number or a power that is not solved for, and never for its degree; the
roots are quotients by divisors that are not zero; there is a discriminant exactly where a square
and another term are left and the equation is solved; and the order does not matter. The terms of a
text are such terms. -/
theorem solve_distinct :
    (∀ ts, Distinct ts →
      ((∃ e, (ofTerms ts).solve = .error e) ↔
        ∃ t ∈ ts, (t.coefficient != 0) = true ∧
          (t.coefficient.isFinite = false ∨ t.power < 0 ∨ 2 < t.power)) ∧
      (∀ e degree, (ofTerms ts).solve = .error e → e.cause ≠ .unsolvableDegree degree) ∧
      (∀ shape, (ofTerms ts).shape = .ok shape →
        (∀ d ∈ shape.divisors, (d != 0) = true) ∧
          ∀ x ∈ (answer shape).2.parts, x = 0 ∨ shape.IsQuotient x) ∧
      ((ofTerms ts).solved.discriminant.isSome ↔
        (∃ r, (ofTerms ts).solve = .ok r) ∧
          (∃ t ∈ ts, (t.coefficient != 0) = true ∧ t.power = 2) ∧
          ∃ u ∈ ts, (u.coefficient != 0) = true ∧ u.power ≠ 2) ∧
      ∀ us, ts.Perm us → (ofTerms ts).outcome = (ofTerms us).outcome) ∧
    ∀ source e degree, evaluate source = .error (.rejected e) →
      e.cause ≠ .unsolvableDegree degree := by
  refine ⟨fun ts h => ?_, fun source e degree he => cause_ne_unsolvableDegree he degree⟩
  have hd : Distinct (ofTerms ts).terms := h.filter _
  refine ⟨solve_ofTerms_eq_error_iff h, fun e degree he => ?_, fun shape hs => ?_,
    discriminant_solved_iff h, fun us hperm => outcome_perm hd (hperm.filter _)⟩
  · exact cause_of_validate ((solve_eq_error_iff hd).mp he) degree
  · exact ⟨divisors_ne_zero (fun t ht => (mem_ofTerms.mp ht).2) hs, isQuotient_parts shape⟩

/-- `x ^ 2 - 3 x + 2` with its terms in two orders, `x ^ 3 + 1`, and the text of the latter. -/
theorem solve_distinct_cases :
    let ts : List Term := [⟨0, 2⟩, ⟨2, 1⟩, ⟨1, -3⟩]
    let us : List Term := [⟨2, 1⟩, ⟨1, -3⟩, ⟨0, 2⟩]
    Distinct ts ∧ Distinct [⟨3, 1⟩, ⟨0, 1⟩] ∧ (ofTerms us).outcome = some (.twoReal 1 2, some 1) ∧
      (ofTerms ts).outcome = some (.twoReal 1 2, some 1) ∧ (ofTerms ts).solved.discriminant.isSome ∧
      (∀ d ∈ (Shape.quadratic 1 (-3) 2).divisors, (d != 0) = true) ∧
      (∃ e, (ofTerms [⟨3, 1⟩, ⟨0, 1⟩]).solve = .error e ∧ e.cause ≠ .unsolvableDegree 3) ∧
      ∃ e, evaluate "x^3 + 1" = .error (.rejected e) ∧ e.cause ≠ .unsolvableDegree 3 := by
  intro ts us
  have hdistinct : Distinct ts := by decide
  have hcubic : Distinct [⟨3, 1⟩, ⟨0, 1⟩] := by decide
  obtain ⟨hterms, htexts⟩ := solve_distinct
  obtain ⟨-, -, hdivisors, hdiscriminant, horder⟩ := hterms ts hdistinct
  obtain ⟨hrefused, hcause, -⟩ := hterms _ hcubic
  have houtcome : (ofTerms us).outcome = some (.twoReal 1 2, some 1) := by decide +kernel
  have hperm : ts.Perm us := by decide +kernel
  have hroots : (ofTerms ts).solve.map Prod.fst = .ok (.twoReal 1 2) := by decide +kernel
  obtain ⟨r, hr, -⟩ := map_eq_ok.mp hroots
  obtain ⟨e, he⟩ := hrefused.mpr ⟨⟨3, 1⟩, by simp, by decide⟩
  have hcube : evaluate "x^3 + 1" = .error (.rejected ⟨.powerOutOfRange 3, none⟩) := by
    decide +kernel
  refine ⟨hdistinct, hcubic, houtcome, (horder us hperm).trans houtcome, ?_, ?_,
    ⟨e, he, hcause e 3 he⟩, _, hcube, htexts _ _ 3 hcube⟩
  · exact hdiscriminant.mpr ⟨⟨r, hr⟩, ⟨⟨2, 1⟩, by decide, by decide⟩, ⟨0, 2⟩, by decide, by decide⟩
  · exact (hdivisors _ rfl).1

end Solver
end Quadratics
