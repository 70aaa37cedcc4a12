import Quadratics.Proofs.Number.Exact
import Quadratics.Proofs.Solver.Equation
import Quadratics.Proofs.Solver.Finite
/-! The formulas for the roots where no operation rounds: every root that is reported is a solution,
and there is no other. -/
namespace Quadratics

open Number

section Field

variable {K : Type*} [Field K]

/-- A number that is an element of a field. -/
def Number.Denotes (r : Float) (x : K) : Prop := ∃ q : ℚ, value? r = some q ∧ x = q

/-- Complex roots are not in an ordered field. -/
def Solution.IsRoot (x : K) : Solution → Prop
  | .noSolution => False
  | .allReals => True
  | .one r => Denotes r x
  | .twoReal r₁ r₂ => Denotes r₁ x ∨ Denotes r₂ x
  | .twoComplex _ _ => False

theorem Number.denotes_iff {r : Float} {q : ℚ} {x : K} (h : value? r = some q) :
    Denotes r x ↔ x = q := by
  constructor
  · rintro ⟨p, hp, rfl⟩
    rw [Option.some.inj (h.symm.trans hp)]
  · exact fun hx => ⟨q, h, hx⟩

end Field

def Complex.Denotes (w : Complex) (z : ℂ) : Prop :=
  Number.Denotes w.re z.re ∧ Number.Denotes w.im z.im

def Solution.IsComplexRoot (z : ℂ) : Solution → Prop
  | .twoComplex z₁ z₂ => z₁.Denotes z ∨ z₂.Denotes z
  | s => s.IsRoot z

/-- Two roots stand in their order, and complex ones are conjugate. -/
def Solution.Ordered : Solution → Prop
  | .twoReal x₁ x₂ => x₁ < x₂
  | .twoComplex z₁ z₂ => z₁ = ⟨z₂.re, -z₂.im⟩ ∧ z₁.im < 0 ∧ 0 < z₂.im
  | _ => True

namespace Number

def quotientOperations (x y : Float) : List Operation := [.div x y, .add (x / y) 0.0]

def differenceOperations (x y : Float) : List Operation := [.neg y, .add x (-y)]

/-- The square root of a square. -/
def ExactRoot (x : Float) : Prop :=
  ∃ s, value? x.sqrt = some s ∧ 0 ≤ s ∧ value? x = some (s * s)

theorem exactRoot_iff (x : Float) :
    ExactRoot x ↔ (value? x.sqrt).any (0 ≤ ·) ∧
      value? x = (value? x.sqrt).map fun s => s * s := by
  constructor
  · rintro ⟨s, hs, hs0, hx⟩
    simp [hs, hs0, hx]
  · rintro ⟨hany, hx⟩
    cases hs : value? x.sqrt with
    | none => simp [hs] at hany
    | some s => exact ⟨s, hs, by simpa [hs] using hany, by simpa [hs] using hx⟩

instance (x : Float) : Decidable (ExactRoot x) := decidable_of_iff' _ (exactRoot_iff x)

end Number

namespace Shape

def discriminantOperations (a b c : Float) : List Operation :=
  [.mul b b, .mul 4 a, .mul (4 * a) c] ++ differenceOperations (b * b) (4 * a * c)

def operations : Shape → List Operation
  | .empty | .constant | .monomial => []
  | .linear b c => .neg c :: quotientOperations (-c) b
  | .quadratic a b c =>
    let d := b * b - 4 * a * c
    discriminantOperations a b c ++ .mul 2 a :: .neg b ::
      if d < 0 then
        quotientOperations (-b) (2 * a) ++
          [.neg d, .div (-d).sqrt (2 * a).abs, .neg ((-d).sqrt / (2 * a).abs)]
      else if d == 0 then quotientOperations (-b) (2 * a)
      else
        differenceOperations (-b) d.sqrt ++ quotientOperations (-b - d.sqrt) (2 * a) ++
          .add (-b) d.sqrt :: quotientOperations (-b + d.sqrt) (2 * a)

/-- The numbers whose square roots are taken. -/
def radicands : Shape → List Float
  | .quadratic a b c =>
    let d := b * b - 4 * a * c
    if d < 0 then [-d] else if d == 0 then [] else [d]
  | _ => []

/-- Nothing is rounded. -/
structure IsExact (shape : Shape) : Prop where
  operations : ∀ o ∈ shape.operations, o.Exact
  roots : ∀ x ∈ shape.radicands, ExactRoot x

instance (shape : Shape) : Decidable shape.IsExact :=
  decidable_of_iff ((∀ o ∈ shape.operations, o.Exact) ∧ ∀ x ∈ shape.radicands, ExactRoot x)
    ⟨fun h => ⟨h.1, h.2⟩, fun h => ⟨h.operations, h.roots⟩⟩

/-- A solution holds all that satisfies an equation, over ordered fields and over the complex
numbers. -/
structure SolvedBy (shape : Shape) (solution : Solution) : Prop where
  ordered : solution.Ordered
  real : ∀ {K : Type} [Field K] [LinearOrder K] [IsStrictOrderedRing K] (x : K),
    shape.Satisfied x ↔ solution.IsRoot x
  complex : ∀ z : ℂ, shape.Satisfied z ↔ solution.IsComplexRoot z

variable {shape : Shape} {solution : Solution}

/-- Without complex roots one argument serves all fields. -/
theorem solvedBy_of_field (ho : solution.Ordered)
    (hc : ∀ z : ℂ, solution.IsComplexRoot z ↔ solution.IsRoot z)
    (h : ∀ {K : Type} [Field K] [CharZero K] (x : K), shape.Satisfied x ↔ solution.IsRoot x) :
    shape.SolvedBy solution where
  ordered := ho
  real := fun x => h x
  complex := fun z => (h z).trans (hc z).symm

end Shape

section Formulas

variable {a b c x y : Float} {p q r : ℚ}

theorem value?_quotient (hx : value? x = some p) (hy : value? y = some q)
    (h : ∀ o ∈ quotientOperations x y, o.Exact) :
    value? (positiveZero (x / y)) = some (p / q) := by
  have hdiv : (Operation.div x y).Exact := h _ List.mem_cons_self
  rw [value?_positiveZero, hdiv.div hx hy]

theorem value?_difference (hx : value? x = some p) (hy : value? y = some q)
    (h : ∀ o ∈ differenceOperations x y, o.Exact) : value? (x - y) = some (p - q) := by
  have hadd : (Operation.add x (-y)).Exact := h _ (by simp [differenceOperations])
  rw [Number.sub_eq_add_neg, hadd.add hx (value?_neg hy)]
  congr 1
  ring

theorem value?_discriminant (ha : value? a = some p) (hb : value? b = some q)
    (hc : value? c = some r) (h : ∀ o ∈ Shape.discriminantOperations a b c, o.Exact) :
    value? (b * b - 4 * a * c) = some (discrim p q r) := by
  have hsquare : (Operation.mul b b).Exact := h _ (by simp [Shape.discriminantOperations])
  have hfour : (Operation.mul 4 a).Exact := h _ (by simp [Shape.discriminantOperations])
  have hproduct : (Operation.mul (4 * a) c).Exact := h _ (by simp [Shape.discriminantOperations])
  have hsub := value?_difference (hsquare.mul hb hb) (hproduct.mul (hfour.mul value?_four ha) hc)
    fun o ho => h o (List.mem_append_right _ ho)
  rw [hsub, discrim, pow_two]

theorem satisfied_quadratic {K : Type*} [Field K] {z : K} (ha : value? a = some p)
    (hb : value? b = some q) (hc : value? c = some r) :
    (Shape.quadratic a b c).Satisfied z ↔ p * (z * z) + q * z + r = 0 := by
  constructor
  · rintro ⟨p', q', r', ⟨hp, hq, hr⟩, he⟩
    rwa [Option.some.inj (ha.symm.trans hp), Option.some.inj (hb.symm.trans hq),
      Option.some.inj (hc.symm.trans hr)]
  · exact fun he => ⟨p, q, r, ⟨ha, hb, hc⟩, he⟩

theorem satisfied_linear {K : Type*} [Field K] {z : K} (hb : value? b = some q)
    (hc : value? c = some r) : (Shape.linear b c).Satisfied z ↔ q * z + r = 0 := by
  constructor
  · rintro ⟨q', r', hq, hr, he⟩
    rwa [Option.some.inj (hb.symm.trans hq), Option.some.inj (hc.symm.trans hr)]
  · exact fun he => ⟨q, r, hb, hc, he⟩

theorem ordered_ofReals (hx : value? (positiveZero x) = some p)
    (hy : value? (positiveZero y) = some q) (hne : p ≠ q) : (Solution.ofReals x y).Ordered := by
  have hnx := (rounds_value hx).isNaN_eq_false
  have hny := (rounds_value hy).isNaN_eq_false
  simp only [Solution.ofReals, Solution.Ordered, lesser, greater, hnx, hny, lt_iff_value_lt hx hy,
    lt_iff_value_lt hy hx]
  rcases hne.lt_or_gt with hlt | hlt
  · simp [hlt, hlt.not_gt, lt_iff_value_lt hx hy]
  · simp [hlt, hlt.not_gt, lt_iff_value_lt hy hx]

theorem isRoot_ofReals {K : Type*} [Field K] {z : K} (hx : value? (positiveZero x) = some p)
    (hy : value? (positiveZero y) = some q) :
    (Solution.ofReals x y).IsRoot z ↔ z = q ∨ z = p := by
  rcases Solution.ofReals_cases (rounds_value hx).isNaN_eq_false
    (rounds_value hy).isNaN_eq_false with h | h <;>
    rw [h, Solution.IsRoot, denotes_iff hx, denotes_iff hy]
  exact or_comm

theorem cast_discrim {K : Type} [Field K] [CharZero K] {s : ℚ} (h : discrim p q r = s * s) :
    discrim (p : K) q r = s * s := by
  have hcast := congrArg (Rat.cast : ℚ → K) h
  rw [discrim] at hcast
  push_cast at hcast
  rw [discrim, hcast]

theorem eq_complex_iff {z : ℂ} {s : ℚ} :
    z = (-q + s * Complex.I) / (2 * p) ↔
      z.re = ((-q / (2 * p) : ℚ) : ℝ) ∧ z.im = ((s / (2 * p) : ℚ) : ℝ) := by
  have hsplit : (-(q : ℂ) + s * Complex.I) / (2 * p) =
      ⟨((-q / (2 * p) : ℚ) : ℝ), ((s / (2 * p) : ℚ) : ℝ)⟩ := by
    rw [Complex.mk_eq_add_mul_I]
    push_cast
    ring
  rw [hsplit, Complex.ext_iff]

section Quadratic

variable (ha : value? a = some p) (hp : p ≠ 0) (hb : value? b = some q) (hc : value? c = some r)
  (h : (Shape.quadratic a b c).IsExact)

include ha hp hb hc h

omit hp in
theorem value?_discriminant_of_isExact :
    value? (b * b - 4 * a * c) = some (discrim p q r) ∧ value? (2 * a) = some (2 * p) := by
  have htwice : (Operation.mul 2 a).Exact := h.operations _ (by simp [Shape.operations])
  refine ⟨value?_discriminant ha hb hc fun o ho => ?_, htwice.mul value?_two ha⟩
  exact h.operations o (List.mem_append_left _ ho)

theorem real_roots (hd : 0 < discrim p q r) :
    (Shape.quadratic a b c).SolvedBy (quadraticRoots a b c).2 := by
  obtain ⟨hvalue, htwice⟩ := value?_discriminant_of_isExact ha hb hc h
  have hlt : ¬ b * b - 4 * a * c < 0 := mt (lt_iff_value_lt hvalue value?_zero).mp hd.not_gt
  have hz : ¬ (b * b - 4 * a * c == 0) = true := mt (beq_zero_iff hvalue).mp hd.ne'
  obtain ⟨hops, hroot⟩ := h
  simp only [Shape.operations, Shape.radicands, hlt, hz, if_false, Bool.false_eq_true]
    at hops hroot
  obtain ⟨s, hs, hs0, hsq⟩ := hroot _ List.mem_cons_self
  have hsq' : discrim p q r = s * s := Option.some.inj (hvalue.symm.trans hsq)
  have hfirst : value? (positiveZero ((-b - (b * b - 4 * a * c).sqrt) / (2 * a))) =
      some ((-q - s) / (2 * p)) := by
    have hsub := value?_difference (value?_neg hb) hs fun o ho => hops o (by simp [ho])
    exact value?_quotient hsub htwice fun o ho => hops o (by simp [ho])
  have hsecond : value? (positiveZero ((-b + (b * b - 4 * a * c).sqrt) / (2 * a))) =
      some ((-q + s) / (2 * p)) := by
    have hadd : (Operation.add (-b) (b * b - 4 * a * c).sqrt).Exact := hops _ (by simp)
    refine value?_quotient (hadd.add (value?_neg hb) hs) htwice fun o ho => ?_
    exact hops o (by simp [ho])
  have hs0' : s ≠ 0 := left_ne_zero_of_mul (hsq' ▸ hd.ne')
  have hne : (-q - s) / (2 * p) ≠ (-q + s) / (2 * p) := by
    rw [Ne, div_left_inj' (mul_ne_zero two_ne_zero hp)]
    intro he
    exact hs0' (by linarith)
  rw [quadraticRoots_of_gt rfl hlt hz]
  refine Shape.solvedBy_of_field (ordered_ofReals hfirst hsecond hne) (fun z => .rfl)
    fun {K} _ _ z => ?_
  rw [satisfied_quadratic ha hb hc, isRoot_ofReals hfirst hsecond,
    quadratic_eq_zero_iff (Rat.cast_ne_zero.mpr hp) (cast_discrim hsq')]
  push_cast
  exact Iff.rfl

theorem double_root (hd : discrim p q r = 0) :
    (Shape.quadratic a b c).SolvedBy (quadraticRoots a b c).2 := by
  obtain ⟨hvalue, htwice⟩ := value?_discriminant_of_isExact ha hb hc h
  have hlt : ¬ b * b - 4 * a * c < 0 := mt (lt_iff_value_lt hvalue value?_zero).mp hd.not_lt
  have hz : (b * b - 4 * a * c == 0) = true := (beq_zero_iff hvalue).mpr hd
  obtain ⟨hops, -⟩ := h
  simp only [Shape.operations, hlt, hz, if_false, if_true] at hops
  have hmiddle : value? (positiveZero (-b / (2 * a))) = some (-q / (2 * p)) := by
    refine value?_quotient (value?_neg hb) htwice fun o ho => ?_
    exact hops o (by simp [ho])
  rw [quadraticRoots_of_eq rfl hlt hz]
  refine Shape.solvedBy_of_field trivial (fun z => .rfl) fun {K} _ _ z => ?_
  have hzero : discrim (p : K) q r = 0 := by simpa using cast_discrim (K := K) (s := 0) (by simpa)
  rw [satisfied_quadratic ha hb hc, Solution.IsRoot, denotes_iff hmiddle,
    quadratic_eq_zero_iff_of_discrim_eq_zero (Rat.cast_ne_zero.mpr hp) hzero]
  push_cast
  exact Iff.rfl

theorem complex_roots (hd : discrim p q r < 0) :
    (Shape.quadratic a b c).SolvedBy (quadraticRoots a b c).2 := by
  obtain ⟨hvalue, htwice⟩ := value?_discriminant_of_isExact ha hb hc h
  have hlt : b * b - 4 * a * c < 0 := (lt_iff_value_lt hvalue value?_zero).mpr hd
  obtain ⟨hops, hroot⟩ := h
  simp only [Shape.operations, Shape.radicands, hlt, if_true] at hops hroot
  obtain ⟨s, hs, hs0, hsq⟩ := hroot _ List.mem_cons_self
  have hsq' : -discrim p q r = s * s := Option.some.inj ((value?_neg hvalue).symm.trans hsq)
  have hpos : 0 < s := hs0.lt_of_ne' (left_ne_zero_of_mul (hsq' ▸ (neg_pos.mpr hd).ne'))
  have hmiddle : value? (positiveZero (-b / (2 * a))) = some (-q / (2 * p)) := by
    refine value?_quotient (value?_neg hb) htwice fun o ho => ?_
    exact hops o (by simp [ho])
  have him : value? ((-(b * b - 4 * a * c)).sqrt / (2 * a).abs) = some (s / |2 * p|) := by
    have hdiv : (Operation.div (-(b * b - 4 * a * c)).sqrt (2 * a).abs).Exact := hops _ (by simp)
    exact hdiv.div hs (value?_abs htwice)
  have hup : 0 < s / |2 * p| := div_pos hpos (abs_pos.mpr (mul_ne_zero two_ne_zero hp))
  rw [quadraticRoots_of_lt rfl hlt]
  refine ⟨⟨rfl, ?_, ?_⟩, fun {K} _ _ _ z => ?_, fun z => ?_⟩
  · exact (lt_iff_value_lt (value?_neg him) value?_zero).mpr (neg_lt_zero.mpr hup)
  · exact (lt_iff_value_lt value?_zero him).mpr hup
  · rw [satisfied_quadratic ha hb hc]
    refine iff_of_false (quadratic_ne_zero_of_discrim_ne_sq (fun t ht => ?_) z) id
    have hneg : ((discrim p q r : ℚ) : K) < 0 := by exact_mod_cast hd
    rw [discrim] at ht hneg
    push_cast at hneg
    rw [ht] at hneg
    exact absurd hneg (sq_nonneg t).not_gt
  · have hroot : discrim (p : ℂ) q r = (s * Complex.I) * (s * Complex.I) := by
      have hcast := congrArg (Rat.cast : ℚ → ℂ) hsq'
      rw [discrim] at hcast ⊢
      push_cast at hcast
      linear_combination -hcast - s * s * Complex.I_mul_I
    have hdown : -(q : ℂ) - s * Complex.I = -q + (-s : ℚ) * Complex.I := by
      push_cast
      ring
    rw [satisfied_quadratic ha hb hc, quadratic_eq_zero_iff (Rat.cast_ne_zero.mpr hp) hroot, hdown,
      eq_complex_iff, eq_complex_iff]
    simp only [Solution.IsComplexRoot, Complex.Denotes, denotes_iff hmiddle, denotes_iff him,
      denotes_iff (value?_neg him), neg_div']
    -- the root that stands first has the positive sign under a negative denominator
    rcases hp.lt_or_gt with hneg | hpos
    · rw [abs_of_neg (by linarith), neg_div_neg_eq, div_neg_eq_neg_div, neg_div']
    · rw [abs_of_pos (by linarith)]
      exact or_comm

end Quadratic

theorem linear_root (hb : value? b = some q) (hq : q ≠ 0) (hc : value? c = some r)
    (h : (Shape.linear b c).IsExact) :
    (Shape.linear b c).SolvedBy (.one (linearRoot b c)) := by
  have hroot : value? (linearRoot b c) = some (-r / q) :=
    value?_quotient (value?_neg hc) hb fun o ho => h.operations o (List.mem_cons_of_mem _ ho)
  refine Shape.solvedBy_of_field trivial (fun z => .rfl) fun {K} _ _ x => ?_
  rw [satisfied_linear hb hc, Solution.IsRoot, denotes_iff hroot]
  push_cast
  rw [eq_div_iff (Rat.cast_ne_zero.mpr hq)]
  constructor <;> intro he <;> linear_combination he

end Formulas

theorem Shape.IsExact.solvedBy {shape : Shape} (h : shape.IsExact) (hof : shape.Of IsCoefficient) :
    shape.SolvedBy (Solver.answer shape).2 := by
  cases hof with
  | empty => exact solvedBy_of_field trivial (fun z => .rfl) fun x => .rfl
  | constant => exact solvedBy_of_field trivial (fun z => .rfl) fun x => .rfl
  | monomial =>
    refine solvedBy_of_field trivial (fun z => .rfl) fun x => ?_
    rw [Solver.answer, Solution.IsRoot, denotes_iff value?_zero, Rat.cast_zero, Satisfied]
  | linear hb hc =>
    obtain ⟨q, hq, hne⟩ := hb
    obtain ⟨r, hr⟩ := exists_value_of_isCoefficient_or hc
    exact linear_root hq hne hr h
  | quadratic ha hb hc =>
    obtain ⟨p, hp, hne⟩ := ha
    obtain ⟨q, hq⟩ := exists_value_of_isCoefficient_or hb
    obtain ⟨r, hr⟩ := exists_value_of_isCoefficient_or hc
    rw [Solver.answer_quadratic]
    rcases lt_trichotomy (discrim p q r) 0 with hd | hd | hd
    · exact complex_roots hp hne hq hr h hd
    · exact double_root hp hne hq hr h hd
    · exact real_roots hp hne hq hr h hd

namespace Solver

/-- Every solvable equation has an answer, and if nothing is rounded it is what solves the
equation: in order, and over every ordered field and the complex numbers the roots are the
solutions. -/
theorem solve_exact {ts : List Term} (h : IsEquation ts)
    (hx : ∀ shape, (ofTerms ts).shape = .ok shape → shape.IsExact) :
    ∃ solution s, (ofTerms ts).solve = .ok (solution, s) ∧ solution.Ordered ∧
      (∀ {K : Type} [Field K] [LinearOrder K] [IsStrictOrderedRing K] (x : K),
        sumIn? x ts = some 0 ↔ solution.IsRoot x) ∧
      ∀ z : ℂ, sumIn? z ts = some 0 ↔ solution.IsComplexRoot z := by
  have hleft : IsEquation (ofTerms ts).terms := h.filter _
  have hvalid := validate_eq_ok fun t ht => ⟨hleft.isFinite t ht, hleft.power t ht⟩
  have hvalue := fun t ht => (forall_value_ofTerms hvalid t ht).2
  obtain ⟨shape, hs⟩ := exists_shape hleft
  obtain ⟨hordered, hreal, hcomplex⟩ := (hx shape hs).solvedBy (shape_of hvalue hs)
  refine ⟨_, _, solve_eq_ok_iff.mpr ⟨hvalid, shape, hs, rfl, rfl⟩, hordered, ?_, fun z => ?_⟩
  · intro K _ _ _ x
    rw [← sumIn?_filter h.isFinite, ← hreal]
    exact sumIn?_eq_zero_iff hleft hvalue hs
  · rw [← sumIn?_filter h.isFinite, ← hcomplex]
    exact sumIn?_eq_zero_iff hleft hvalue hs

/-- `2 x ^ 2 - 2 x - 12` and `x ^ 2 + 2 x + 5`. -/
theorem solve_exact_integers :
    (∃ s, (ofTerms [⟨2, 2⟩, ⟨1, -2⟩, ⟨0, -12⟩]).solve = .ok (.twoReal (-2) 3, s) ∧
      ∀ x : ℚ, sumIn? x [⟨2, 2⟩, ⟨1, -2⟩, ⟨0, -12⟩] = some 0 ↔
        (Solution.twoReal (-2) 3).IsRoot x) ∧
      ∃ s, (ofTerms [⟨2, 1⟩, ⟨1, 2⟩, ⟨0, 5⟩]).solve =
        .ok (.twoComplex ⟨-1, -2⟩ ⟨-1, 2⟩, s) ∧
      ∀ z : ℂ, sumIn? z [⟨2, 1⟩, ⟨1, 2⟩, ⟨0, 5⟩] = some 0 ↔
        (Solution.twoComplex ⟨-1, -2⟩ ⟨-1, 2⟩).IsComplexRoot z := by
  constructor
  · have hshape : (ofTerms [⟨2, 2⟩, ⟨1, -2⟩, ⟨0, -12⟩]).shape = .ok (.quadratic 2 (-2) (-12)) := rfl
    have hfst : (ofTerms [⟨2, 2⟩, ⟨1, -2⟩, ⟨0, -12⟩]).solve.map Prod.fst =
        .ok (.twoReal (-2) 3) := by decide +kernel
    have h : IsEquation [⟨2, 2⟩, ⟨1, -2⟩, ⟨0, -12⟩] := ⟨by decide, by decide, by decide⟩
    obtain ⟨solution, s, hs, -, hroot, -⟩ := solve_exact h fun shape hs => by
      rw [← Except.ok.inj (hshape.symm.trans hs)]
      decide +kernel
    rw [hs] at hfst
    obtain rfl : solution = .twoReal (-2) 3 := Except.ok.inj hfst
    exact ⟨s, hs, fun x => hroot x⟩
  · have hshape : (ofTerms [⟨2, 1⟩, ⟨1, 2⟩, ⟨0, 5⟩]).shape = .ok (.quadratic 1 2 5) := rfl
    have hfst : (ofTerms [⟨2, 1⟩, ⟨1, 2⟩, ⟨0, 5⟩]).solve.map Prod.fst =
        .ok (.twoComplex ⟨-1, -2⟩ ⟨-1, 2⟩) := by decide +kernel
    have h : IsEquation [⟨2, 1⟩, ⟨1, 2⟩, ⟨0, 5⟩] := ⟨by decide, by decide, by decide⟩
    obtain ⟨solution, s, hs, -, -, hroot⟩ := solve_exact h fun shape hs => by
      rw [← Except.ok.inj (hshape.symm.trans hs)]
      decide +kernel
    rw [hs] at hfst
    obtain rfl : solution = .twoComplex ⟨-1, -2⟩ ⟨-1, 2⟩ := Except.ok.inj hfst
    exact ⟨s, hs, hroot⟩

end Solver

end Quadratics
