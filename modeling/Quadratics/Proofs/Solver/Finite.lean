import Quadratics.Proofs.Solver.Shape
/-! When the roots are finite. The numerators and denominators are as soon as the discriminant is,
and then only a quotient can be out of range; a discriminant that is not finite leaves no root that
is. -/
namespace Quadratics

namespace Number

variable {v : ℝ} {x y : Float} {a b d : Float} {p q : ℚ}

theorem value?_two : value? 2 = some 2 := value?_of_toInt? (n := 2) (by decide)

theorem value?_four : value? 4 = some 4 := value?_of_toInt? (n := 4) (by decide)

theorem isFinite_of_value? (h : value? x = some p) : x.isFinite = true := isFinite_iff.mpr ⟨p, h⟩

theorem isFinite_of_sub (h : (x - y).isFinite = true) : x.isFinite = true ∧ y.isFinite = true := by
  rw [sub_eq_add_neg] at h
  rw [← isFinite_neg y]
  exact isFinite_of_add h

theorem value?_positiveZero (x : Float) : value? (positiveZero x) = value? x :=
  SameValue.value?_eq (.add_of_isZero ⟨.positive, rfl⟩)

theorem isFinite_positiveZero (x : Float) : (positiveZero x).isFinite = x.isFinite := by
  rw [Bool.eq_iff_iff, isFinite_iff, isFinite_iff, value?_positiveZero]

theorem value?_two_pow_mul {t : Float} {n : ℕ} (ht : value? t = some (2 ^ n))
    (ha : value? a = some p) (h : (t * a).isFinite = true) :
    value? (t * a) = some (2 ^ n * p) := by
  obtain ⟨w, hw, hnear⟩ := (rounds_mul ht ha).exists_value h
  have hfits : Fits (((2 ^ n : ℚ) : ℝ) * p) := by
    simpa using (fits_of_value? ha).mul_two_pow n
  rw [hw]
  exact congrArg some (by exact_mod_cast hnear.eq_of_fits hfits)

theorem value?_two_mul (ha : value? a = some p) (h : (2 * a).isFinite = true) :
    value? (2 * a) = some (2 * p) := by
  simpa using value?_two_pow_mul (n := 1) (by simpa using value?_two) ha h

theorem value?_four_mul (ha : value? a = some p) (h : (4 * a).isFinite = true) :
    value? (4 * a) = some (4 * p) := by
  have hpow : (4 : ℚ) = 2 ^ 2 := by norm_num
  rw [hpow]
  exact value?_two_pow_mul (by rw [value?_four, hpow]) ha h

theorem isFinite_two_mul (ha : value? a = some p) (h : (4 * a).isFinite = true) :
    (2 * a).isFinite = true := by
  have hlt := abs_lt_of_value? (value?_four_mul ha h)
  have hfits : Fits (((2 : ℚ) : ℝ) * p) := by simpa using (fits_of_value? ha).mul_two_pow 1
  have hle : |((2 : ℚ) : ℝ) * p| ≤ |((4 * p : ℚ) : ℝ)| := by
    rw [Rat.cast_mul, abs_mul, abs_mul]
    gcongr
    norm_num
  obtain ⟨q, hq, -⟩ := (rounds_mul value?_two ha).value_of_fits hfits (hle.trans_lt hlt)
  exact isFinite_of_value? hq

theorem value?_sqrt_le (hd : value? d = some p) (hp : 0 ≤ p) :
    ∃ r, value? d.sqrt = some r ∧ IsNearest √p r ∧ |r| ≤ 2 ^ (512 : ℤ) := by
  have hlt := abs_lt_of_value? hd
  have hsqrt : |√(p : ℝ)| ≤ 2 ^ (512 : ℤ) := by
    rw [abs_of_nonneg (Real.sqrt_nonneg _), Real.sqrt_le_left (by positivity), ← zpow_natCast,
      ← zpow_mul]
    exact (le_abs_self _).trans hlt.le
  exact (rounds_sqrt hd hp).value_of_abs_le_zpow (by decide) (by decide) hsqrt

theorem abs_le_of_isFinite_mul_self (hb : value? b = some p) (h : (b * b).isFinite = true) :
    |p| ≤ 2 ^ (512 : ℤ) := by
  have hlt := (rounds_mul hb hb).abs_lt_of_isFinite h
  have hsq : (2 : ℝ) ^ (1024 : ℤ) = (2 ^ (512 : ℤ)) ^ 2 := by
    rw [← zpow_natCast, ← zpow_mul]
    rfl
  rw [← pow_two, abs_of_nonneg (sq_nonneg _), hsq] at hlt
  exact abs_cast_le_zpow.mp (abs_le_of_sq_le_sq hlt.le (by positivity))

theorem value?_add_le {k : ℤ} (hx : value? x = some p) (hy : value? y = some q)
    (hp : |p| ≤ 2 ^ k) (hq : |q| ≤ 2 ^ k) (hk : -1074 ≤ k) (hk' : k < 1023) :
    ∃ r, value? (x + y) = some r ∧ IsNearest (p + q) r ∧ |r| ≤ 2 ^ (k + 1) := by
  have hsum : |p + q| ≤ 2 ^ (k + 1) :=
    calc
      |p + q| ≤ |p| + |q| := abs_add_le p q
      _ ≤ 2 ^ k + 2 ^ k := add_le_add hp hq
      _ = 2 ^ (k + 1) := by
        rw [zpow_add_one₀ two_ne_zero]
        ring
  rw [← abs_cast_le_zpow, Rat.cast_add] at hsum
  exact (rounds_add hx hy).value_of_abs_le_zpow (by omega) (by omega) hsum

theorem value?_sub_le {k : ℤ} (hx : value? x = some p) (hy : value? y = some q)
    (hp : |p| ≤ 2 ^ k) (hq : |q| ≤ 2 ^ k) (hk : -1074 ≤ k) (hk' : k < 1023) :
    ∃ r, value? (x - y) = some r ∧ IsNearest (p - q) r ∧ |r| ≤ 2 ^ (k + 1) := by
  have hvalue : (p : ℝ) - q = p + ((-q : ℚ) : ℝ) := by
    push_cast
    ring
  rw [sub_eq_add_neg x, hvalue]
  exact value?_add_le hx (value?_neg hy) hp (by simpa using hq) hk hk'

theorem value?_mul_le {i j : ℤ} (hx : value? x = some p) (hy : value? y = some q)
    (hp : |p| ≤ 2 ^ i) (hq : |q| ≤ 2 ^ j) (hk : -1074 ≤ i + j) (hk' : i + j < 1024) :
    ∃ r, value? (x * y) = some r ∧ IsNearest (p * q) r ∧ |r| ≤ 2 ^ (i + j) := by
  have hproduct : |p * q| ≤ 2 ^ (i + j) := by
    rw [abs_mul, zpow_add₀ two_ne_zero]
    gcongr
  rw [← abs_cast_le_zpow, Rat.cast_mul] at hproduct
  exact (rounds_mul hx hy).value_of_abs_le_zpow hk hk' hproduct

theorem value?_abs (hx : value? x = some p) : value? x.abs = some |p| := by
  have hu := unpack_abs x
  rcases unpack_of_value? hx with ⟨s, h, rfl⟩ | ⟨s, m, e, hm, h, -, -, hp⟩ <;> rw [h] at hu
  · rw [abs_zero]
    exact value?_of_zero hu
  · obtain ⟨q, hq, hvalue⟩ := value?_of_finite hu
    rw [hq]
    refine congrArg some ?_
    rw [← Rat.cast_inj (α := ℝ), hvalue, Rat.cast_abs, hp, abs_underSign,
      abs_of_nonneg (by positivity)]
    rfl

theorem isFinite_of_sqrt (h : x.sqrt.isFinite = true) : x.isFinite = true := by
  rw [sqrt_eq] at h
  have hu := isFinite_of_pack h
  change x.toModel.unpack.isFinite = true
  rcases hx : x.toModel.unpack with (_ | _) | _ | _ | _ <;> rw [hx] at hu <;>
    first | rfl | cases hu

theorem Rounds.isNaN_eq_false (h : Rounds v x) : x.isNaN = false := by
  cases h with
  | number value nearest =>
    rcases unpack_of_value? value with ⟨s, hu, -⟩ | ⟨s, m, e, hm, hu, -⟩
    · change x.toModel.unpack.isNaN = false
      rw [hu]
      rfl
    · change x.toModel.unpack.isNaN = false
      rw [hu]
      rfl
  | infinity unpack high nearest =>
    change x.toModel.unpack.isNaN = false
    rw [unpack]
    rfl

theorem Rounds.positiveZero (h : Rounds v x) : Rounds v (positiveZero x) := by
  cases h with
  | number value nearest => exact .number (by rw [value?_positiveZero, value]) nearest
  | infinity unpack high nearest =>
    refine .infinity ?_ high nearest
    rw [positiveZero_of_not_isZero, unpack]
    rintro ⟨t, ht⟩
    rw [unpack] at ht
    cases ht

theorem lesser_eq_or (x y : Float) : lesser x y = x ∨ lesser x y = y := by
  unfold lesser
  repeat' split
  all_goals simp

theorem greater_eq_or (x y : Float) : greater x y = x ∨ greater x y = y := by
  unfold greater
  repeat' split
  all_goals simp

theorem lesser_greater_cases (hx : x.toModel.unpack ≠ .zero .negative)
    (hy : y.toModel.unpack ≠ .zero .negative) (hnx : x.isNaN = false) (hny : y.isNaN = false) :
    lesser x y = x ∧ greater x y = y ∨ lesser x y = y ∧ greater x y = x := by
  unfold lesser greater
  rcases order_cases hx hy with rfl | h | ⟨-, -, ⟨h, h'⟩ | ⟨h, h'⟩⟩
  · simp
  · exact absurd (hnx.trans hny.symm) h
  · simp only [hnx, hny, h, h', if_true, if_false, Bool.false_eq_true, and_self, true_or]
  · simp only [hnx, hny, h, h', if_true, if_false, Bool.false_eq_true, and_self, or_true]

end Number

open Number

theorem Solution.ofReals_cases (hx : (positiveZero x).isNaN = false)
    (hy : (positiveZero y).isNaN = false) :
    ofReals x y = .twoReal (positiveZero x) (positiveZero y) ∨
      ofReals x y = .twoReal (positiveZero y) (positiveZero x) := by
  rcases lesser_greater_cases (unpack_positiveZero_ne x) (unpack_positiveZero_ne y) hx hy with
    ⟨hl, hg⟩ | ⟨hl, hg⟩
  · exact .inl (by rw [ofReals, hl, hg])
  · exact .inr (by rw [ofReals, hl, hg])

def Solution.parts : Solution → List Float
  | .noSolution | .allReals => []
  | .one x => [x]
  | .twoReal x₁ x₂ => [x₁, x₂]
  | .twoComplex z₁ z₂ => [z₁.re, z₁.im, z₂.re, z₂.im]

/-- Numerator and denominator of each part of a root. -/
def Shape.fractions : Shape → List (Float × Float)
  | .empty | .constant | .monomial => []
  | .linear b c => [(-c, b)]
  | .quadratic a b c =>
    let d := b * b - 4 * a * c
    if d < 0 then [(-b, 2 * a), ((-d).sqrt, 2 * a)]
    else if d == 0 then [(-b, 2 * a)]
    else [(-b - d.sqrt, 2 * a), (-b + d.sqrt, 2 * a)]

section Quadratic

variable {a b c : Float} {p q r : ℚ}

structure FiniteDiscriminant (a b c : Float) (p q : ℚ) : Prop where
  twice : value? (2 * a) = some (2 * p)
  square : |q| ≤ 2 ^ (512 : ℤ)
  discriminant : ∃ d, value? (b * b - 4 * a * c) = some d

theorem finiteDiscriminant (ha : value? a = some p) (hb : value? b = some q)
    (h : (b * b - 4 * a * c).isFinite = true) : FiniteDiscriminant a b c p q where
  twice := value?_two_mul ha (isFinite_two_mul ha (isFinite_of_mul (isFinite_of_sub h).2).1)
  square := abs_le_of_isFinite_mul_self hb (isFinite_of_sub h).1
  discriminant := isFinite_iff.mp h

/-- The numerators are far from the end of the range. -/
theorem exists_value_fractions (ha : value? a = some p) (hb : value? b = some q)
    (h : (b * b - 4 * a * c).isFinite = true) :
    ∀ f ∈ (Shape.quadratic a b c).fractions,
      (∃ r, value? f.1 = some r ∧ |r| ≤ 2 ^ (513 : ℤ)) ∧ value? f.2 = some (2 * p) := by
  obtain ⟨htwice, hsquare, d, hd⟩ := finiteDiscriminant ha hb h
  have hneg : |(-q)| ≤ 2 ^ (512 : ℤ) := by simpa using hsquare
  have hwide {r : ℚ} (hr : |r| ≤ 2 ^ (512 : ℤ)) : |r| ≤ 2 ^ (513 : ℤ) :=
    hr.trans (zpow_le_zpow_right₀ one_le_two (by decide))
  simp only [Shape.fractions]
  generalize b * b - 4 * a * c = x at hd
  have hlt := lt_iff_value_lt hd value?_zero
  split
  · next hneg' =>
    obtain ⟨r, hr, -, hle⟩ := value?_sqrt_le (value?_neg hd) (by linarith [hlt.mp hneg'])
    simp only [List.forall_mem_cons]
    exact ⟨⟨⟨-q, value?_neg hb, hwide hneg⟩, htwice⟩, ⟨⟨r, hr, hwide hle⟩, htwice⟩, nofun⟩
  · next hpos =>
    split
    · simp only [List.forall_mem_cons]
      exact ⟨⟨⟨-q, value?_neg hb, hwide hneg⟩, htwice⟩, nofun⟩
    · obtain ⟨r, hr, -, hle⟩ := value?_sqrt_le hd (not_lt.mp (mt hlt.mpr hpos))
      obtain ⟨m, hm, -, hm'⟩ := value?_sub_le (value?_neg hb) hr hneg hle (by decide) (by decide)
      obtain ⟨n, hn, -, hn'⟩ := value?_add_le (value?_neg hb) hr hneg hle (by decide) (by decide)
      simp only [List.forall_mem_cons]
      exact ⟨⟨⟨m, hm, hm'⟩, htwice⟩, ⟨⟨n, hn, hn'⟩, htwice⟩, nofun⟩

theorem isFinite_div_abs {x y : Float} {p q : ℚ} (hx : value? x = some p) (hy : value? y = some q)
    (hq : q ≠ 0) : (x / y.abs).isFinite = (x / y).isFinite := by
  rw [Bool.eq_iff_iff, isFinite_div_iff hx hy hq,
    isFinite_div_iff hx (value?_abs hy) (abs_ne_zero.mpr hq)]
  simp

theorem quadratic_parts_isFinite_iff (ha : value? a = some p) (hp : p ≠ 0) (hb : value? b = some q)
    (h : (b * b - 4 * a * c).isFinite = true) :
    (∀ x ∈ (quadraticRoots a b c).2.parts, x.isFinite = true) ↔
      ∀ f ∈ (Shape.quadratic a b c).fractions, (f.1 / f.2).isFinite = true := by
  have hvalues := exists_value_fractions ha hb h
  have htwice : 2 * p ≠ 0 := mul_ne_zero two_ne_zero hp
  simp only [Shape.fractions] at hvalues ⊢
  generalize hd : b * b - 4 * a * c = d at *
  split at hvalues
  · next hlt =>
    simp only [List.forall_mem_cons] at hvalues
    obtain ⟨-, ⟨⟨r, hr, -⟩, hden⟩, -⟩ := hvalues
    have him := isFinite_div_abs hr hden htwice
    simp only [quadraticRoots_of_lt hd hlt, hlt, if_true, Solution.parts, List.forall_mem_cons,
      isFinite_positiveZero, isFinite_neg, him]
    tauto
  · next hlt =>
    split at hvalues
    · next hz =>
      simp [quadraticRoots_of_eq hd hlt hz, hlt, hz, Solution.parts, isFinite_positiveZero]
    · next hz =>
      simp only [List.forall_mem_cons] at hvalues
      obtain ⟨⟨⟨r, hr, -⟩, hden⟩, ⟨⟨r', hr', -⟩, -⟩, -⟩ := hvalues
      have hfirst := (rounds_div hr hden htwice).positiveZero.isNaN_eq_false
      have hsecond := (rounds_div hr' hden htwice).positiveZero.isNaN_eq_false
      rw [quadraticRoots_of_gt hd hlt hz]
      rcases Solution.ofReals_cases hfirst hsecond with hroots | hroots <;>
        simp [hroots, hlt, hz, Solution.parts, isFinite_positiveZero, and_comm]

/-- A root of something that is not finite is not finite. -/
theorem exists_part_not_isFinite (h : ¬ (b * b - 4 * a * c).isFinite = true) :
    ∃ x ∈ (quadraticRoots a b c).2.parts, ¬ x.isFinite = true := by
  generalize hd : b * b - 4 * a * c = d at *
  by_cases hlt : d < 0
  · rw [quadraticRoots_of_lt hd hlt]
    refine ⟨(-d).sqrt / (2 * a).abs, by simp [Solution.parts], fun him => h ?_⟩
    rw [← isFinite_neg d]
    exact isFinite_of_sqrt (isFinite_of_div him).1
  · by_cases hz : (d == 0) = true
    · exact absurd (isFinite_of_beq_zero hz) h
    · rw [quadraticRoots_of_gt hd hlt hz]
      have hroot : ¬ d.sqrt.isFinite = true := mt isFinite_of_sqrt h
      have hfirst : ¬ (positiveZero ((-b - d.sqrt) / (2 * a))).isFinite = true := by
        rw [isFinite_positiveZero]
        exact fun hf => hroot (isFinite_of_sub (isFinite_of_div hf).1).2
      have hsecond : ¬ (positiveZero ((-b + d.sqrt) / (2 * a))).isFinite = true := by
        rw [isFinite_positiveZero]
        exact fun hf => hroot (isFinite_of_add (isFinite_of_div hf).1).2
      refine ⟨_, List.mem_cons_self, ?_⟩
      rcases lesser_eq_or (positiveZero ((-b - d.sqrt) / (2 * a)))
        (positiveZero ((-b + d.sqrt) / (2 * a))) with hl | hl <;> rw [hl] <;> assumption

end Quadratic

/-- A finite number other than zero. -/
def IsCoefficient (x : Float) : Prop := ∃ q, value? x = some q ∧ q ≠ 0

/-- A coefficient far from both ends of the range. -/
def IsModerate (x : Float) : Prop :=
  ∃ q, value? x = some q ∧ 2 ^ (-510 : ℤ) ≤ |q| ∧ |q| ≤ 2 ^ (510 : ℤ)

/-- The real quotient is in range. -/
def InRange (f : Float × Float) : Prop :=
  ∃ p q, value? f.1 = some p ∧ value? f.2 = some q ∧ |p| < rangeEnd * |q|

theorem exists_value_of_isCoefficient_or {c : Float} (h : IsCoefficient c ∨ c = 0) :
    ∃ q, value? c = some q := by
  rcases h with ⟨q, hq, -⟩ | rfl
  · exact ⟨q, hq⟩
  · exact ⟨0, value?_zero⟩

theorem inRange_iff {f : Float × Float} {p q : ℚ} (hp : value? f.1 = some p)
    (hq : value? f.2 = some q) (hne : q ≠ 0) : InRange f ↔ (f.1 / f.2).isFinite = true := by
  rw [isFinite_div_iff hp hq hne]
  constructor
  · rintro ⟨p', q', hp', hq', h⟩
    obtain rfl : p = p' := Option.some.inj (hp.symm.trans hp')
    obtain rfl : q = q' := Option.some.inj (hq.symm.trans hq')
    exact h
  · exact fun h => ⟨p, q, hp, hq, h⟩

variable {shape : Shape}

theorem Shape.Of.fractions_value (h : shape.Of IsCoefficient)
    (hd : ∀ d, (Solver.answer shape).1 = some d → d.isFinite = true) :
    ∀ f ∈ shape.fractions, ∃ p q, value? f.1 = some p ∧ value? f.2 = some q ∧ q ≠ 0 := by
  cases h with
  | empty | constant | monomial => exact nofun
  | linear hb hc =>
    obtain ⟨q, hq, hne⟩ := hb
    obtain ⟨p, hp⟩ := exists_value_of_isCoefficient_or hc
    simp only [Shape.fractions, List.forall_mem_cons]
    exact ⟨⟨-p, q, value?_neg hp, hq, hne⟩, nofun⟩
  | quadratic ha hb hc =>
    obtain ⟨p, hp, hne⟩ := ha
    obtain ⟨q, hq⟩ := exists_value_of_isCoefficient_or hb
    intro f hf
    rw [Solver.answer_quadratic] at hd
    obtain ⟨⟨r, hr, -⟩, htwice⟩ := exists_value_fractions hp hq (hd _ rfl) f hf
    exact ⟨r, 2 * p, hr, htwice, mul_ne_zero two_ne_zero hne⟩

/-- The discriminant has to be finite, and every quotient in range. -/
theorem Shape.Of.parts_isFinite_iff (h : shape.Of IsCoefficient) :
    (∀ x ∈ (Solver.answer shape).2.parts, x.isFinite = true) ↔
      (∀ d, (Solver.answer shape).1 = some d → d.isFinite = true) ∧
        ∀ f ∈ shape.fractions, InRange f := by
  have hrange (hd : ∀ d, (Solver.answer shape).1 = some d → d.isFinite = true) :
      (∀ f ∈ shape.fractions, InRange f) ↔
        ∀ f ∈ shape.fractions, (f.1 / f.2).isFinite = true := by
    refine forall₂_congr fun f hf => ?_
    obtain ⟨p, q, hp, hq, hne⟩ := h.fractions_value hd f hf
    exact inRange_iff hp hq hne
  cases h with
  | empty | constant => simp [Solver.answer, Solution.parts, Shape.fractions]
  | monomial => simp [Solver.answer, Solution.parts, Shape.fractions]; decide
  | linear hb hc =>
    rw [hrange (by simp [Solver.answer])]
    simp [Solver.answer, Solution.parts, Shape.fractions, linearRoot, isFinite_positiveZero]
  | @quadratic a b c ha hb hc =>
    obtain ⟨p, hp, hne⟩ := ha
    obtain ⟨q, hq⟩ := exists_value_of_isCoefficient_or hb
    rw [Solver.answer_quadratic] at hrange ⊢
    by_cases hd : (b * b - 4 * a * c).isFinite = true
    · have hdisc : ∀ d, some (b * b - 4 * a * c) = some d → d.isFinite = true := by
        rintro d ⟨⟩
        exact hd
      rw [hrange hdisc, and_iff_right hdisc]
      exact quadratic_parts_isFinite_iff hp hne hq hd
    · obtain ⟨x, hx, hnot⟩ := exists_part_not_isFinite hd
      exact iff_of_false (fun hall => hnot (hall x hx)) fun hall => hd (hall.1 _ rfl)

theorem lt_rangeEnd_mul {p q : ℚ} (hp : |p| ≤ 2 ^ (513 : ℤ)) (hq : 2 ^ (-510 : ℤ) ≤ |q|) :
    |p| < rangeEnd * |q| := by
  have hpos : (0 : ℚ) < 2 ^ (-510 : ℤ) := by positivity
  have hend : (2 : ℚ) ^ (1023 : ℤ) < rangeEnd := by
    rw [two_zpow_eq_mul (show (53 + 970 : ℤ) = 1023 from rfl), rangeEnd]
    gcongr
    norm_num
  calc
    |p| ≤ 2 ^ (513 : ℤ) := hp
    _ = 2 ^ (1023 : ℤ) * 2 ^ (-510 : ℤ) := two_zpow_eq_mul rfl
    _ < rangeEnd * 2 ^ (-510 : ℤ) := mul_lt_mul_of_pos_right hend hpos
    _ ≤ rangeEnd * |q| := mul_le_mul_of_nonneg_left hq (hend.le.trans' (by positivity))

theorem IsModerate.value {x : Float} (h : IsModerate x) : IsCoefficient x := by
  obtain ⟨q, hq, hlow, -⟩ := h
  refine ⟨q, hq, fun hz => ?_⟩
  have hpos : (0 : ℚ) < 2 ^ (-510 : ℤ) := by positivity
  rw [hz, abs_zero] at hlow
  linarith

theorem abs_le_of_isModerate_or {c : Float} (h : IsModerate c ∨ c = 0) :
    ∃ q, value? c = some q ∧ |q| ≤ 2 ^ (510 : ℤ) := by
  rcases h with ⟨q, hq, -, hle⟩ | rfl
  · exact ⟨q, hq, hle⟩
  · exact ⟨0, value?_zero, by rw [abs_zero]; positivity⟩

theorem Shape.Of.isFinite_parts (h : shape.Of IsModerate) :
    ∀ x ∈ (Solver.answer shape).2.parts, x.isFinite = true := by
  have hwide : (2 : ℚ) ^ (510 : ℤ) ≤ 2 ^ (513 : ℤ) := zpow_le_zpow_right₀ one_le_two (by decide)
  have hof : shape.Of IsCoefficient := h.imp fun x hx => hx.value
  rw [hof.parts_isFinite_iff]
  cases h with
  | empty | constant | monomial => exact ⟨nofun, nofun⟩
  | linear hb hc =>
    obtain ⟨q, hq, hlow, -⟩ := hb
    obtain ⟨p, hp, hle⟩ := abs_le_of_isModerate_or hc
    simp only [Shape.fractions, List.forall_mem_cons]
    have hneg : |(-p)| ≤ 2 ^ (513 : ℤ) := by simpa using hle.trans hwide
    exact ⟨nofun, ⟨-p, q, value?_neg hp, hq, lt_rangeEnd_mul hneg hlow⟩, nofun⟩
  | @quadratic a b c ha hb hc =>
    obtain ⟨p, hp, hlow, hhigh⟩ := ha
    obtain ⟨q, hq, hle⟩ := abs_le_of_isModerate_or hb
    obtain ⟨r, hr, hle'⟩ := abs_le_of_isModerate_or hc
    have hfour : |(4 : ℚ)| ≤ 2 ^ (2 : ℤ) := by norm_num
    have hdisc : (b * b - 4 * a * c).isFinite = true := by
      obtain ⟨u, hu, -, hu'⟩ := value?_mul_le hq hq hle hle (by decide) (by decide)
      obtain ⟨v, hv, -, hv'⟩ := value?_mul_le value?_four hp hfour hhigh (by decide) (by decide)
      obtain ⟨w, hw, -, hw'⟩ := value?_mul_le hv hr hv' hle' (by decide) (by decide)
      have hsquare : |u| ≤ 2 ^ (1022 : ℤ) := hu'.trans (zpow_le_zpow_right₀ one_le_two (by decide))
      obtain ⟨d, hd, -⟩ := value?_sub_le hu hw hsquare hw' (by decide) (by decide)
      exact isFinite_of_value? hd
    rw [Solver.answer_quadratic]
    refine ⟨?_, fun f hf => ?_⟩
    · rintro d ⟨⟩
      exact hdisc
    · obtain ⟨⟨n, hn, hn'⟩, htwice⟩ := exists_value_fractions hp hq hdisc f hf
      refine ⟨n, 2 * p, hn, htwice, lt_rangeEnd_mul hn' ?_⟩
      rw [abs_mul, abs_of_pos two_pos]
      linarith [abs_nonneg p]

namespace Solver

variable {ts : List Term} {solution : Solution} {s : Solver}

/-- The roots are finite exactly when the discriminant is finite and no quotient is out of range,
and always for coefficients between `2 ^ -510` and `2 ^ 510`. -/
theorem parts_isFinite (h : (ofTerms ts).solve = .ok (solution, s)) :
    ∃ shape, (ofTerms ts).shape = .ok shape ∧
      ((∀ x ∈ solution.parts, x.isFinite = true) ↔
        (∀ d, s.discriminant = some d → d.isFinite = true) ∧ ∀ f ∈ shape.fractions, InRange f) ∧
      ((∀ d, s.discriminant = some d → d.isFinite = true) →
        ∀ f ∈ shape.fractions, f.1.isFinite = true ∧ f.2.isFinite = true) ∧
      ((∀ t ∈ ts, (t.coefficient != 0) = true → IsModerate t.coefficient) →
        ∀ x ∈ solution.parts, x.isFinite = true) := by
  obtain ⟨hv, shape, hs, rfl, rfl⟩ := solve_eq_ok_iff.mp h
  have hof : shape.Of IsCoefficient := shape_of (fun t ht => (forall_value_ofTerms hv t ht).2) hs
  refine ⟨shape, hs, hof.parts_isFinite_iff, fun hd f hf => ?_, fun hmoderate => ?_⟩
  · obtain ⟨p, q, hp, hq, -⟩ := hof.fractions_value hd f hf
    exact ⟨isFinite_of_value? hp, isFinite_of_value? hq⟩
  · refine Shape.Of.isFinite_parts (shape_of (fun t ht => ?_) hs)
    obtain ⟨hmem, hz⟩ := List.mem_filter.mp ht
    exact hmoderate t hmem hz

theorem isModerate_of_toInt? {x : Float} {n : ℤ} (h : toInt? x = some n) (hn : n ≠ 0)
    (hle : |n| ≤ 2 ^ 53) : IsModerate x := by
  refine ⟨n, value?_of_toInt? h, ?_, ?_⟩
  · have hone : (1 : ℚ) ≤ |(n : ℚ)| := by exact_mod_cast Int.one_le_abs hn
    exact (zpow_le_one_of_nonpos₀ one_le_two (by decide)).trans hone
  · have hbits : |(n : ℚ)| ≤ 2 ^ (53 : ℤ) := by exact_mod_cast hle
    exact hbits.trans (zpow_le_zpow_right₀ one_le_two (by decide))

/-- `x ^ 2 - 3 x + 2` has moderate coefficients. -/
theorem parts_isFinite_integers :
    (∃ s, (ofTerms [⟨2, 1⟩, ⟨1, -3⟩, ⟨0, 2⟩]).solve = .ok (.twoReal 1 2, s)) ∧
      ∀ x ∈ (Solution.twoReal 1 2).parts, x.isFinite = true := by
  have h : (ofTerms [⟨2, 1⟩, ⟨1, -3⟩, ⟨0, 2⟩]).solve.map Prod.fst = .ok (.twoReal 1 2) := by
    decide +kernel
  obtain ⟨⟨_, s⟩, hs, rfl⟩ := map_eq_ok.mp h
  refine ⟨⟨s, hs⟩, ?_⟩
  obtain ⟨-, -, -, -, hmoderate⟩ := parts_isFinite hs
  refine hmoderate fun t ht _ => ?_
  simp only [List.mem_cons, List.not_mem_nil, or_false] at ht
  rcases ht with rfl | rfl | rfl
  · exact isModerate_of_toInt? (n := 1) (by decide) (by decide) (by decide)
  · exact isModerate_of_toInt? (n := -3) (by decide) (by decide) (by decide)
  · exact isModerate_of_toInt? (n := 2) (by decide) (by decide) (by decide)

/-- The roots of `x ^ 2 + 10 ^ 200 x + 1` are numbers, but the square of its middle coefficient is
infinite. -/
theorem solve_infinite_roots :
    ([⟨2, 1⟩, ⟨1, 1e200⟩, ⟨0, 1⟩] : List Term).Pairwise (fun t u => t.power ≠ u.power) ∧
      ∃ s, (ofTerms [⟨2, 1⟩, ⟨1, 1e200⟩, ⟨0, 1⟩]).solve = .ok (.twoReal (-1 / 0) (1 / 0), s) ∧
        (1 / 0 : Float).isFinite = false := by
  refine ⟨by decide, ?_⟩
  have h : (ofTerms [⟨2, 1⟩, ⟨1, 1e200⟩, ⟨0, 1⟩]).solve.map Prod.fst =
      .ok (.twoReal (-1 / 0) (1 / 0)) := by decide +kernel
  obtain ⟨⟨_, s⟩, hs, rfl⟩ := map_eq_ok.mp h
  exact ⟨s, hs, by decide +kernel⟩

end Solver

end Quadratics
