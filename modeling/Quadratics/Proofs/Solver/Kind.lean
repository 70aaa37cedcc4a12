import Quadratics.Proofs.Number.Sides
import Quadratics.Proofs.Number.Square
import Quadratics.Proofs.Solver.Finite
/-! The kind of the answer to a quadratic and the signs of its coefficients. They agree unless twice
the leading coefficient is infinite or the product of the outer coefficients vanishes. -/
namespace Quadratics

open Number Float.Model.UnpackedFloat

/-- Two real roots with zero between them. -/
def Solution.Straddles : Solution → Prop
  | .twoReal x₁ x₂ => x₁ ≤ 0 ∧ 0 ≤ x₂
  | _ => False

def Solution.IsComplex : Solution → Prop
  | .twoComplex _ _ => True
  | _ => False

section Quotients

variable {x y z : Float} {p q r : ℚ}

theorem straddles_of_numerators (hx : value? x = some p) (hy : value? y = some q)
    (hz : value? z = some r) (hp : p ≤ 0) (hq : 0 ≤ q) (hr : r ≠ 0) :
    (Solution.ofReals (x / z) (y / z)).Straddles := by
  have hfirst := (rounds_div hx hz hr).positiveZero
  have hsecond := (rounds_div hy hz hr).positiveZero
  have hp' : (p : ℝ) ≤ 0 := by exact_mod_cast hp
  have hq' : (0 : ℝ) ≤ q := by exact_mod_cast hq
  rcases hr.lt_or_gt with hneg | hpos
  · have hr' : (r : ℝ) ≤ 0 := by exact_mod_cast hneg.le
    exact (lesser_greater_sides (hsecond.le_zero (div_nonpos_of_nonneg_of_nonpos hq' hr'))
      (hfirst.zero_le (div_nonneg_of_nonpos hp' hr'))).2
  · have hr' : (0 : ℝ) ≤ r := by exact_mod_cast hpos.le
    exact (lesser_greater_sides (hfirst.le_zero (div_nonpos_of_nonpos_of_nonneg hp' hr'))
      (hsecond.zero_le (div_nonneg hq' hr'))).1

/-- Division by at most one does not bring a number nearer to zero. -/
theorem div_far {u v w : ℝ} (hu : 0 ≤ u) (hw : |w| ≤ 1) (hv : u ≤ v) :
    (0 < w → u ≤ v / w) ∧ (w < 0 → v / w ≤ -u) := by
  obtain ⟨hlow, hhigh⟩ := abs_le.mp hw
  constructor
  · intro hpos
    rw [le_div_iff₀ hpos]
    exact (mul_le_of_le_one_right hu hhigh).trans hv
  · intro hneg
    rw [div_le_iff_of_neg hneg]
    nlinarith

theorem not_straddles_of_numerators (hx : value? x = some p) (hy : value? y = some q)
    (hz : value? z = some r) (hr : r ≠ 0) (hle : |r| ≤ 1)
    (h : 2 ^ (-1074 : ℤ) ≤ (p : ℝ) ∧ 2 ^ (-1074 : ℤ) ≤ (q : ℝ) ∨
      2 ^ (-1074 : ℤ) ≤ -(p : ℝ) ∧ 2 ^ (-1074 : ℤ) ≤ -(q : ℝ)) :
    ¬ (Solution.ofReals (x / z) (y / z)).Straddles := by
  have hfirst := (rounds_div hx hz hr).positiveZero
  have hsecond := (rounds_div hy hz hr).positiveZero
  have hstep : (0 : ℝ) ≤ 2 ^ (-1074 : ℤ) := by positivity
  have hone : |(r : ℝ)| ≤ 1 := by exact_mod_cast hle
  have far {v : ℝ} (hv : 2 ^ (-1074 : ℤ) ≤ v) := div_far hstep hone hv
  have hsame : 2 ^ (-1074 : ℤ) ≤ (p : ℝ) / r ∧ 2 ^ (-1074 : ℤ) ≤ (q : ℝ) / r ∨
      (p : ℝ) / r ≤ -2 ^ (-1074 : ℤ) ∧ (q : ℝ) / r ≤ -2 ^ (-1074 : ℤ) := by
    rcases hr.lt_or_gt with hneg | hpos
    · have hneg' : (r : ℝ) < 0 := by exact_mod_cast hneg
      rcases h with ⟨hp, hq⟩ | ⟨hp, hq⟩
      · exact .inr ⟨(far hp).2 hneg', (far hq).2 hneg'⟩
      · have hp' := (far hp).2 hneg'
        have hq' := (far hq).2 hneg'
        exact .inl ⟨by linarith [neg_div' (r : ℝ) p], by linarith [neg_div' (r : ℝ) q]⟩
    · have hpos' : (0 : ℝ) < r := by exact_mod_cast hpos
      rcases h with ⟨hp, hq⟩ | ⟨hp, hq⟩
      · exact .inl ⟨(far hp).1 hpos', (far hq).1 hpos'⟩
      · have hp' := (far hp).1 hpos'
        have hq' := (far hq).1 hpos'
        exact .inr ⟨by linarith [neg_div' (r : ℝ) p], by linarith [neg_div' (r : ℝ) q]⟩
  rintro ⟨hlow, hhigh⟩
  rcases hsame with ⟨h₁, h₂⟩ | ⟨h₁, h₂⟩
  · rcases lesser_eq_or (positiveZero (x / z)) (positiveZero (y / z)) with hl | hl <;>
      rw [hl] at hlow
    · exact hfirst.not_le_zero h₁ hlow
    · exact hsecond.not_le_zero h₂ hlow
  · rcases greater_eq_or (positiveZero (x / z)) (positiveZero (y / z)) with hg | hg <;>
      rw [hg] at hhigh
    · exact hfirst.not_zero_le h₁ hhigh
    · exact hsecond.not_zero_le h₂ hhigh

end Quotients

section Quadratic

variable {a b c : Float} {p q r : ℚ}

theorem exists_finite_of_ne_zero (hc : value? c = some r) (hr : r ≠ 0) :
    ∃ s m e hm, c.toModel.unpack = .finite s m e hm ∧ (r < 0 ↔ s = .negative) := by
  rcases unpack_of_value? hc with ⟨s, -, rfl⟩ | ⟨s, m, e, hm, hu, -⟩
  · exact absurd rfl hr
  · exact ⟨s, m, e, hm, hu, by rw [← Number.lt_zero_iff hu, lt_iff_value_lt hc value?_zero]⟩

theorem isInfinity_four_mul (ha : value? a = some p) (h : ¬ (4 * a).isFinite = true) :
    (p ≤ 0 → IsInfinity .negative (4 * a)) ∧ (0 ≤ p → IsInfinity .positive (4 * a)) := by
  have hrounds := rounds_mul value?_four ha
  constructor
  · intro hp
    have hp' : ((4 : ℚ) : ℝ) * p ≤ 0 := by exact_mod_cast (by linarith : 4 * p ≤ 0)
    exact isInfinity_of_le_zero (hrounds.le_zero hp') h
  · intro hp
    have hp' : 0 ≤ ((4 : ℚ) : ℝ) * p := by exact_mod_cast (by linarith : 0 ≤ 4 * p)
    exact isInfinity_of_zero_le (hrounds.zero_le hp') h

theorem outer_product_le_zero (ha : value? a = some p) (hc : value? c = some r) (h : p * r < 0) :
    4 * a * c ≤ 0 ∧ (¬ (4 * a).isFinite = true → IsInfinity .negative (4 * a * c)) := by
  have hr : r ≠ 0 := right_ne_zero_of_mul h.ne
  have hinf (hfour : ¬ (4 * a).isFinite = true) : IsInfinity .negative (4 * a * c) := by
    obtain ⟨hneg, hpos⟩ := isInfinity_four_mul ha hfour
    obtain ⟨t, n, k, hn, hu, ht⟩ := exists_finite_of_ne_zero hc hr
    rcases mul_neg_iff.mp h with ⟨hp, hr'⟩ | ⟨hp, hr'⟩
    · obtain rfl := ht.mp hr'
      exact (hpos hp.le).mul hu
    · cases t with
      | negative => exact absurd (ht.mpr rfl) hr'.not_gt
      | positive => exact (hneg hp.le).mul hu
  refine ⟨?_, hinf⟩
  by_cases hfour : (4 * a).isFinite = true
  · obtain ⟨w, hw, hneg, hpos⟩ := (rounds_mul value?_four ha).side_of_isFinite hfour
    refine (rounds_mul hw hc).le_zero ?_
    rcases mul_neg_iff.mp h with ⟨hp, hr'⟩ | ⟨hp, hr'⟩
    · have hw' := hpos (by exact_mod_cast (by linarith : 0 ≤ 4 * p))
      exact_mod_cast mul_nonpos_of_nonneg_of_nonpos hw' hr'.le
    · have hw' := hneg (by exact_mod_cast (by linarith : 4 * p ≤ 0))
      exact_mod_cast mul_nonpos_of_nonpos_of_nonneg hw' hr'.le
  · exact (hinf hfour).le_zero

theorem quadraticRoots_of_isInfinity (hd : IsInfinity .positive (b * b - 4 * a * c)) :
    (quadraticRoots a b c).2 =
      .ofReals ((-b - (b * b - 4 * a * c).sqrt) / (2 * a))
        ((-b + (b * b - 4 * a * c).sqrt) / (2 * a)) := by
  refine quadraticRoots_of_gt rfl ?_ fun hz => hd.not_isFinite (isFinite_of_beq_zero hz)
  exact not_lt_of_sides (le_zero_of_isZero ⟨.positive, rfl⟩) hd.zero_le

theorem numerators_of_isInfinity (hb : b.isFinite = true) {d : Float}
    (hd : IsInfinity .positive d) :
    IsInfinity .negative (-b - d.sqrt) ∧ IsInfinity .positive (-b + d.sqrt) := by
  have hneg : (-b).isFinite = true := by rwa [isFinite_neg]
  exact ⟨IsInfinity.sub_of_isFinite hneg hd.sqrt, IsInfinity.add_of_isFinite hneg hd.sqrt⟩

theorem straddles_of_isInfinity (htwice : value? (2 * a) = some p) (hp : p ≠ 0)
    (hb : b.isFinite = true) (hd : IsInfinity .positive (b * b - 4 * a * c)) :
    (quadraticRoots a b c).2.Straddles := by
  obtain ⟨hfirst, hsecond⟩ := numerators_of_isInfinity hb hd
  obtain ⟨s, m, e, hm, hu, -⟩ := exists_finite_of_ne_zero htwice hp
  have hlow := (hfirst.div hu).positiveZero
  have hhigh := (hsecond.div hu).positiveZero
  rw [quadraticRoots_of_isInfinity hd]
  cases s with
  | positive => exact (lesser_greater_sides hlow.le_zero hhigh.zero_le).1
  | negative => exact (lesser_greater_sides hhigh.le_zero hlow.zero_le).2

theorem not_straddles_of_isInfinity {s : Sign} (htwice : IsInfinity s (2 * a))
    (hb : b.isFinite = true) (hd : IsInfinity .positive (b * b - 4 * a * c)) :
    ¬ (quadraticRoots a b c).2.Straddles := by
  obtain ⟨hfirst, hsecond⟩ := numerators_of_isInfinity hb hd
  have nan {x : Float} (hx : x.isNaN = true) : (positiveZero x).isNaN = true := by
    rwa [positiveZero_of_not_isZero]
    rintro ⟨t, ht⟩
    rw [Number.isNaN_iff, ht] at hx
    cases hx
  rw [quadraticRoots_of_isInfinity hd]
  rintro ⟨hlow, -⟩
  have hnot := isNaN_of_le_zero hlow
  rcases lesser_eq_or (positiveZero ((-b - (b * b - 4 * a * c).sqrt) / (2 * a)))
    (positiveZero ((-b + (b * b - 4 * a * c).sqrt) / (2 * a))) with hl | hl <;> rw [hl] at hnot
  · rw [nan (hfirst.isNaN_div htwice)] at hnot
    cases hnot
  · rw [nan (hsecond.isNaN_div htwice)] at hnot
    cases hnot

theorem abs_le_sqrt {u w d v : ℝ} (hb : value? b = some q) (hu : IsNearest (q * q) u)
    (hw : Fits w) (hneg : w < 0) (hd : IsNearest (u - w) d) (hv : IsNearest √d v) :
    |(q : ℝ)| ≤ v := by
  have hstep : (0 : ℝ) < 2 ^ (-1074 : ℤ) := by positivity
  have hsquare : (q : ℝ) * q = |(q : ℝ)| * |(q : ℝ)| := (abs_mul_abs_self _).symm
  have hfits : Fits |(q : ℝ)| := (fits_of_value? hb).abs
  have hle : u ≤ d := hd.le_of_le hu.fits (by linarith)
  rw [hsquare] at hu
  rcases unpack_of_value? hb with ⟨s, -, rfl⟩ | ⟨s, m, e, hm, -, ⟨hhigh, -, hnormal⟩, -, hvalue⟩
  · rw [Rat.cast_zero, abs_zero]
    exact hv.le_of_le fits_zero (Real.sqrt_nonneg d)
  · have habs : |(q : ℝ)| = m * 2 ^ e := by
      rw [hvalue, abs_underSign, abs_of_nonneg (by positivity)]
    rcases le_or_gt (-563) e with he | he
    · rw [habs] at hu ⊢
      exact le_sqrt_of_long_square (hnormal.resolve_right (by omega)) hhigh he hu hle hv
    · -- the square may have lost bits, but the product is at least one of them
      have hlt : |(q : ℝ)| * |(q : ℝ)| < 2 ^ (-1022 : ℤ) := by
        have hsmall : |(q : ℝ)| < 2 ^ (-511 : ℤ) := by
          have hm' : (m : ℝ) < 2 ^ (53 : ℤ) := by exact_mod_cast hhigh
          rw [habs, two_zpow_eq_mul (show (53 + -564 : ℤ) = -511 from rfl)]
          exact mul_lt_mul hm' (zpow_le_zpow_right₀ one_le_two (by omega)) (by positivity)
            (by positivity)
        rw [two_zpow_eq_mul (show (-511 + -511 : ℤ) = -1022 from rfl)]
        exact mul_lt_mul'' hsmall hsmall (abs_nonneg _) (abs_nonneg _)
      refine le_sqrt_of_short_square hfits hlt hu ?_ hv
      obtain ⟨n, hn⟩ := hu.fits.exists_multiple
      have hsum : Fits (u + 2 ^ (-1074 : ℤ)) := by
        have hlow := hu.le_of_le fits_zero (mul_self_nonneg _)
        have hhigh := hu.le_of_ge (fits_two_zpow (k := -1022) (by decide)) hlt.le
        rw [two_zpow_eq_mul (show (52 + -1074 : ℤ) = -1022 from rfl), hn] at hhigh
        rw [hn] at hlow
        have hn0 : 0 ≤ n := by exact_mod_cast nonneg_of_mul_nonneg_left hlow hstep
        have hn52 : n ≤ 2 ^ 52 := by
          rw [zpow_ofNat] at hhigh
          exact_mod_cast le_of_mul_le_mul_right hhigh hstep
        refine ⟨n + 1, -1074, by rw [abs_of_nonneg (by omega)]; omega, le_rfl, ?_⟩
        rw [hn]
        push_cast
        ring
      refine hd.le_of_le hsum ?_
      obtain ⟨k, hk⟩ := hw.exists_multiple
      have hlow := le_abs_of_multiple hk hneg.ne
      rw [abs_of_neg hneg] at hlow
      linarith

theorem discriminant_sameValue (h : IsZero (4 * a * c)) :
    SameValue (b * b - 4 * a * c) (b * b) := by
  rw [sub_eq_add_neg]
  exact SameValue.add_of_isZero (isZero_neg.mpr h)

theorem abs_le_one_of_isZero (ha : value? a = some p) (hc : value? c = some r) (hr : r ≠ 0)
    (hfour : (4 * a).isFinite = true) (h : IsZero (4 * a * c)) : |2 * p| ≤ 1 := by
  have hstep : (0 : ℝ) < 2 ^ (-1074 : ℤ) := by positivity
  obtain ⟨s, hs⟩ := h
  have hz := value?_of_zero hs
  obtain ⟨z, hz', hproduct⟩ :=
    (rounds_mul (value?_four_mul ha hfour) hc).exists_value (isFinite_of_value? hz)
  obtain rfl : 0 = z := Option.some.inj (hz.symm.trans hz')
  obtain ⟨n, hn⟩ := (fits_of_value? hc).exists_multiple
  have hlow := le_abs_of_multiple hn (by exact_mod_cast hr)
  by_contra! hgt
  have hgt' : 1 ≤ |((4 * p : ℚ) : ℝ)| := by
    rw [abs_mul, abs_of_pos two_pos] at hgt
    have hle : 1 ≤ |4 * p| := by
      rw [abs_mul, abs_of_pos four_pos]
      linarith [abs_nonneg p]
    exact_mod_cast hle
  have hfar : 2 ^ (-1074 : ℤ) ≤ |((4 * p : ℚ) : ℝ) * r| := by
    rw [abs_mul]
    exact hlow.trans (le_mul_of_one_le_left (abs_nonneg _) hgt')
  have hzero := hproduct.abs.le_of_le (fits_two_zpow (by decide)) hfar
  rw [Rat.cast_zero, abs_zero] at hzero
  linarith

section Finite

variable {d v : ℚ}

theorem exists_numerators {x y : Float} (hx : value? x = some q) (hy : value? y = some v)
    (hq : |q| ≤ 2 ^ (512 : ℤ)) (hv : |v| ≤ 2 ^ (512 : ℤ)) :
    ∃ m n, (value? (-x - y) = some m ∧ IsNearest (-q - v) m) ∧
      value? (-x + y) = some n ∧ IsNearest (-q + v) n := by
  have hneg : |(-q)| ≤ 2 ^ (512 : ℤ) := by simpa using hq
  obtain ⟨m, hm, hnear, -⟩ := value?_sub_le (value?_neg hx) hy hneg hv (by decide) (by decide)
  obtain ⟨n, hn, hnear', -⟩ := value?_add_le (value?_neg hx) hy hneg hv (by decide) (by decide)
  rw [Rat.cast_neg] at hnear hnear'
  exact ⟨m, n, ⟨hm, hnear⟩, hn, hnear'⟩

theorem straddles_iff_le_sqrt (ha : value? a = some p) (hp : p ≠ 0) (hb : value? b = some q)
    (hd : value? (b * b - 4 * a * c) = some d) (hpos : 0 < d)
    (hv : value? (b * b - 4 * a * c).sqrt = some v) (hv' : |v| ≤ 2 ^ (512 : ℤ)) :
    (|q| ≤ v → (quadraticRoots a b c).2.Straddles) ∧
      (|2 * p| ≤ 1 → 0 ≤ v → (quadraticRoots a b c).2.Straddles → |q| ≤ v) := by
  obtain ⟨htwice, hsquare, -⟩ := finiteDiscriminant ha hb (isFinite_of_value? hd)
  have hne : 2 * p ≠ 0 := mul_ne_zero two_ne_zero hp
  obtain ⟨m, n, ⟨hm, hm'⟩, hn, hn'⟩ := exists_numerators hb hv hsquare hv'
  have hlt : ¬ b * b - 4 * a * c < 0 := mt (lt_iff_value_lt hd value?_zero).mp hpos.not_gt
  have hz : ¬ (b * b - 4 * a * c == 0) = true := mt (beq_zero_iff hd).mp hpos.ne'
  rw [quadraticRoots_of_gt rfl hlt hz]
  constructor
  · intro hle
    obtain ⟨hlow, hhigh⟩ := abs_le.mp hle
    have hm0 := hm'.le_of_ge fits_zero (by exact_mod_cast (by linarith : -q - v ≤ 0))
    have hn0 := hn'.le_of_le fits_zero (by exact_mod_cast (by linarith : 0 ≤ -q + v))
    exact straddles_of_numerators hm hn htwice (by exact_mod_cast hm0) (by exact_mod_cast hn0) hne
  · intro hone hv0 hstraddles
    by_contra! hgt
    refine not_straddles_of_numerators hm hn htwice hne hone ?_ hstraddles
    -- both numerators are on the side of the middle coefficient, by a multiple of the least number
    obtain ⟨i, hi⟩ := (fits_of_value? hb).exists_multiple
    obtain ⟨j, hj⟩ := (fits_of_value? hv).exists_multiple
    have hstep : Fits (2 ^ (-1074 : ℤ)) := fits_two_zpow le_rfl
    have hsub : -(q : ℝ) - v = ((-i - j : ℤ) : ℝ) * 2 ^ (-1074 : ℤ) := by
      rw [hi, hj]
      push_cast
      ring
    have hadd : -(q : ℝ) + v = ((-i + j : ℤ) : ℝ) * 2 ^ (-1074 : ℤ) := by
      rw [hi, hj]
      push_cast
      ring
    have hv0' : (0 : ℝ) ≤ v := by exact_mod_cast hv0
    have hgt' : (v : ℝ) < |(q : ℝ)| := by exact_mod_cast hgt
    rcases lt_abs.mp hgt' with hq | hq
    · have hfar := le_abs_of_multiple hsub (by linarith)
      have hfar' := le_abs_of_multiple hadd (by linarith)
      rw [abs_of_neg (by linarith)] at hfar hfar'
      exact .inr ⟨le_neg.mpr (hm'.le_of_ge hstep.neg (by linarith)),
        le_neg.mpr (hn'.le_of_ge hstep.neg (by linarith))⟩
    · have hfar := le_abs_of_multiple hsub (by linarith)
      have hfar' := le_abs_of_multiple hadd (by linarith)
      rw [abs_of_pos (by linarith)] at hfar hfar'
      exact .inl ⟨hm'.le_of_le hstep hfar, hn'.le_of_le hstep hfar'⟩

end Finite

theorem isZero_iff_value {x : Float} {v : ℚ} (h : value? x = some v) : IsZero x ↔ v = 0 := by
  rw [← isZero_iff, beq_zero_iff h]

theorem isZero_mul_self (hb : IsZero b) : IsZero (b * b) := by
  obtain ⟨s, hs⟩ := hb
  rw [mul_eq, hs]
  exact isZero_ofModel_pack (s * s)

theorem zero_le_mul_self (hb : value? b = some q) : 0 ≤ b * b :=
  zero_le_of_hasSign (rounds_mul hb hb).isNaN_eq_false (hasSign_mul_self b)

theorem straddles_of_product (ha : value? a = some p) (hb : value? b = some q)
    (hc : value? c = some r) (h : p * r < 0) (hz : ¬ IsZero (4 * a * c))
    (hfinite : (b * b - 4 * a * c).isFinite = true) : (quadraticRoots a b c).2.Straddles := by
  have hp : p ≠ 0 := left_ne_zero_of_mul h.ne
  obtain ⟨hsq, hproduct⟩ := isFinite_of_sub hfinite
  obtain ⟨u, hu, hu'⟩ := (rounds_mul hb hb).exists_value hsq
  obtain ⟨w, hw⟩ := isFinite_iff.mp hproduct
  obtain ⟨d, hd, hd'⟩ := (rounds_sub hu hw).exists_value hfinite
  have hw0 : w < 0 := by
    refine lt_of_le_of_ne ((le_zero_iff_value hw).mp (outer_product_le_zero ha hc h).1) ?_
    exact mt (isZero_iff_value hw).mpr hz
  have hw0' : (w : ℝ) < 0 := by exact_mod_cast hw0
  have hu0 := hu'.le_of_le fits_zero (mul_self_nonneg _)
  have hstep : (0 : ℝ) < 2 ^ (-1074 : ℤ) := by positivity
  have hpos : 0 < d := by
    obtain ⟨k, hk⟩ := (fits_of_value? hw).exists_multiple
    have hlow := le_abs_of_multiple hk hw0'.ne
    rw [abs_of_neg hw0'] at hlow
    have hle := hd'.le_of_le (fits_two_zpow (k := -1074) le_rfl) (by linarith)
    exact_mod_cast hstep.trans_le hle
  obtain ⟨v, hv, hv', hbound⟩ := value?_sqrt_le hd hpos.le
  have hle := abs_le_sqrt hb hu' (fits_of_value? hw) hw0' hd' hv'
  exact (straddles_iff_le_sqrt ha hp hb hd hpos hv hbound).1 (by exact_mod_cast hle)

/-- When the product vanishes the discriminant is the square, and its root may be too small. -/
theorem straddles_iff_of_isZero (ha : value? a = some p) (hp : p ≠ 0) (hb : value? b = some q)
    (hc : value? c = some r) (hr : r ≠ 0) (hz : IsZero (4 * a * c))
    (hfinite : (b * b - 4 * a * c).isFinite = true) :
    (quadraticRoots a b c).2.Straddles ↔ (b != 0) = true ∧ ¬ (b * b).sqrt < b.abs := by
  obtain ⟨hsq, hproduct⟩ := isFinite_of_sub hfinite
  obtain ⟨u, hu, hu'⟩ := (rounds_mul hb hb).exists_value hsq
  have hu0 : 0 ≤ u := by exact_mod_cast hu'.le_of_le fits_zero (mul_self_nonneg _)
  have hsame := discriminant_sameValue (b := b) hz
  obtain ⟨v, hv, hv', hbound⟩ := value?_sqrt_le hu hu0
  have hlt : (b * b).sqrt < b.abs ↔ v < |q| := lt_iff_value_lt hv (value?_abs hb)
  rw [hlt, not_lt, bne_zero_iff, isZero_iff_value hb]
  rcases hu0.eq_or_lt with rfl | hpos
  · -- a double root, and no number is small enough for a square root of zero
    have hzero : IsZero (b * b - 4 * a * c) :=
      hsame.isZero_iff.mpr ((isZero_iff_value hu).mpr rfl)
    have hnot : ¬ b * b - 4 * a * c < 0 :=
      not_lt_of_sides (le_zero_of_isZero ⟨.positive, rfl⟩) (zero_le_of_isZero hzero)
    rw [Rat.cast_zero, Real.sqrt_zero] at hv'
    have hv0 : (v : ℝ) = 0 := hv'.eq_of_fits fits_zero
    rw [quadraticRoots_of_eq rfl hnot (Number.isZero_iff.mpr hzero)]
    refine iff_of_false id fun hle => hle.1 ?_
    exact abs_nonpos_iff.mp (hle.2.trans (by exact_mod_cast hv0.le))
  · have hne : ¬ IsZero (b * b - 4 * a * c) := by
      rw [hsame.isZero_iff, isZero_iff_value hu]
      exact hpos.ne'
    have heq := hsame.eq_of_not_isZero hne
    have hq : q ≠ 0 := by
      rintro rfl
      rw [Rat.cast_zero, MulZeroClass.mul_zero] at hu'
      exact hpos.ne' (by exact_mod_cast hu'.eq_of_fits fits_zero)
    obtain ⟨hto, hfrom⟩ := straddles_iff_le_sqrt (c := c) ha hp hb (by rw [heq, hu]) hpos
      (by rw [heq, hv]) hbound
    have hv0 : 0 ≤ v := by exact_mod_cast hv'.le_of_le fits_zero (Real.sqrt_nonneg _)
    have hfour := (isFinite_of_mul hproduct).1
    exact ⟨fun h => ⟨hq, hfrom (abs_le_one_of_isZero ha hc hr hfour hz) hv0 h⟩, fun h => hto h.2⟩

theorem straddles_iff (ha : value? a = some p) (hb : value? b = some q) (hc : value? c = some r)
    (h : p * r < 0) :
    (quadraticRoots a b c).2.Straddles ↔
      (2 * a).isFinite = true ∧
        ((4 * a * c != 0) = true ∨ (b != 0) = true ∧ ¬ (b * b).sqrt < b.abs) := by
  have hp : p ≠ 0 := left_ne_zero_of_mul h.ne
  have hr : r ≠ 0 := right_ne_zero_of_mul h.ne
  have hbfin := isFinite_of_value? hb
  obtain ⟨hside, hover⟩ := outer_product_le_zero ha hc h
  have hnonneg : 0 ≤ b * b - 4 * a * c := zero_le_sub (zero_le_mul_self hb) hside
  rw [bne_zero_iff]
  by_cases htwice : (2 * a).isFinite = true
  · by_cases hd : (b * b - 4 * a * c).isFinite = true
    · by_cases hz : IsZero (4 * a * c)
      · rw [straddles_iff_of_isZero ha hp hb hc hr hz hd]
        rw [and_iff_right htwice, or_iff_right (not_not.mpr hz)]
      · exact iff_of_true (straddles_of_product ha hb hc h hz hd) ⟨htwice, .inl hz⟩
    · have hinf := isInfinity_of_zero_le hnonneg hd
      have hne : 2 * p ≠ 0 := mul_ne_zero two_ne_zero hp
      refine iff_of_true
        (straddles_of_isInfinity (value?_two_mul ha htwice) hne hbfin hinf) ⟨htwice, ?_⟩
      by_cases hz : IsZero (4 * a * c)
      · have hsq : ¬ (b * b).isFinite = true := by
          intro hfinite
          obtain ⟨u, hu⟩ := isFinite_iff.mp hfinite
          exact hd (isFinite_of_value? ((discriminant_sameValue hz).value?_eq.trans hu))
        refine .inr ⟨?_, ?_⟩
        · rw [bne_zero_iff]
          exact fun hzero => hsq (isFinite_of_beq_zero (isZero_iff.mpr (isZero_mul_self hzero)))
        · exact (isInfinity_of_zero_le (zero_le_mul_self hb) hsq).sqrt.not_lt _
      · exact .inl hz
  · obtain ⟨s, hs⟩ := (rounds_mul value?_two ha).exists_isInfinity htwice
    have hfour : ¬ (4 * a).isFinite = true :=
      fun hf => htwice (isFinite_two_mul ha hf)
    have hd : ¬ (b * b - 4 * a * c).isFinite = true :=
      fun hf => (hover hfour).not_isFinite (isFinite_of_sub hf).2
    exact iff_of_false (not_straddles_of_isInfinity hs hbfin (isInfinity_of_zero_le hnonneg hd))
      fun hall => htwice hall.1

theorem isComplex_iff_lt :
    (quadraticRoots a b c).2.IsComplex ↔ b * b - 4 * a * c < 0 := by
  by_cases hlt : b * b - 4 * a * c < 0
  · rw [quadraticRoots_of_lt rfl hlt]
    exact iff_of_true trivial hlt
  · by_cases hz : (b * b - 4 * a * c == 0) = true
    · rw [quadraticRoots_of_eq rfl hlt hz]
      exact iff_of_false id hlt
    · rw [quadraticRoots_of_gt rfl hlt hz]
      exact iff_of_false id hlt

theorem isComplex_iff (ha : value? a = some p) (hb : IsZero b) (hc : value? c = some r)
    (h : 0 < p * r) : (quadraticRoots a b c).2.IsComplex ↔ (4 * a * c != 0) = true := by
  have hside : -(4 * a * c) ≤ 0 := by
    rw [← Number.mul_neg]
    exact (outer_product_le_zero ha (value?_neg hc) (by linarith [MulZeroClass.mul_zero p])).1
  have hsquare := isZero_mul_self hb
  have hsame : SameValue (b * b - 4 * a * c) (-(4 * a * c)) := by
    rw [Number.sub_eq_add_neg, Number.add_comm]
    exact SameValue.add_of_isZero hsquare
  have hle : b * b - 4 * a * c ≤ 0 := by
    rcases hsame with heq | ⟨hz, -⟩
    · rwa [heq]
    · exact le_zero_of_isZero hz
  rw [isComplex_iff_lt, lt_zero_iff_of_le_zero hle, hsame.isZero_iff, isZero_neg, bne_zero_iff]

end Quadratic

/-- The terms of `a * x ^ 2 + b * x + c` in any order; a zero in the middle may be missing. -/
def IsQuadratic (ts : List Term) (a b c : Float) : Prop :=
  ts.Perm [⟨2, a⟩, ⟨1, b⟩, ⟨0, c⟩] ∨ (b == 0) = true ∧ ts.Perm [⟨2, a⟩, ⟨0, c⟩]

namespace Solver

variable {s : Solver} {ts : List Term} {a b c : Float}

theorem shape_quadratic (h2 : ⟨2, a⟩ ∈ s.terms) (h0 : ⟨0, c⟩ ∈ s.terms)
    (hle : ∀ t ∈ s.terms, t.power ≤ 2) :
    s.shape = .ok (.quadratic (s.coefficient 2) (s.coefficient 1) (s.coefficient 0)) := by
  unfold shape
  split
  · next hs =>
    rw [hs] at h2
    cases h2
  · next t hs =>
    rw [hs, List.mem_singleton] at h2 h0
    cases h2.trans h0.symm
  · next t ts _ hs =>
    rw [hs] at h2 hle
    obtain ⟨u, hu, hpower⟩ := exists_power_eq_highest t ts
    have hhigh : highest t ts = 2 :=
      Int32.le_antisymm (hpower ▸ hle u hu) (power_le_highest t ts _ h2)
    simp only [hhigh]
    rfl

theorem quadraticRoots_congr {b' : Float} (h : SameValue b b') :
    quadraticRoots a b' c = quadraticRoots a b c := by
  have hneg := quadraticRoots_opposite (a := a) (SameValue.refl (-b)) (SameValue.refl (-c))
  have hb : SameValue (- -b) b' := by rwa [Number.neg_neg]
  have hc : SameValue (- -c) c := by
    rw [Number.neg_neg]
    exact .refl c
  have hback := quadraticRoots_opposite (a := -a) hb hc
  rw [Number.neg_neg] at hback
  exact hback.trans hneg

theorem perm_ofTerms (h : IsQuadratic ts a b c) (ha : Nonzero a) (hc : Nonzero c) :
    (ofTerms ts).terms.Perm [⟨2, a⟩, ⟨1, b⟩, ⟨0, c⟩] ∨
      IsZero b ∧ (ofTerms ts).terms.Perm [⟨2, a⟩, ⟨0, c⟩] := by
  have hfilter {us : List Term} (hus : ts.Perm us) :
      (ofTerms ts).terms.Perm (us.filter fun t => t.coefficient != 0) := hus.filter _
  rcases h with h | ⟨hb, h⟩
  · have hterms := hfilter h
    by_cases hb : (b != 0) = true
    · rw [List.filter_eq_self.mpr (by simp [ha.ne_zero, hb, hc.ne_zero])] at hterms
      exact .inl hterms
    · have hzero : IsZero b := not_not.mp (mt bne_zero_iff.mpr hb)
      simp only [List.filter, ha.ne_zero, hb, hc.ne_zero] at hterms
      exact .inr ⟨hzero, hterms⟩
  · have hterms := hfilter h
    rw [List.filter_eq_self.mpr (by simp [ha.ne_zero, hc.ne_zero])] at hterms
    exact .inr ⟨isZero_iff.mp hb, hterms⟩

theorem coefficient_eq {t : Term} (ht : t ∈ s.terms)
    (h : ∀ u ∈ s.terms, u.power = t.power → u = t) : s.coefficient t.power = t.coefficient := by
  rcases s.coefficient_cases t.power with ⟨u, hu, hpower, hc⟩ | ⟨hnone, -⟩
  · rw [hc, h u hu hpower]
  · exact absurd rfl (hnone t ht)

/-- The middle coefficient is as it was given, but for the sign of a zero. -/
theorem solve_quadratic (h : IsQuadratic ts a b c) (ha : Nonzero a) (hb : b.isFinite = true)
    (hc : Nonzero c) : ∃ s, (ofTerms ts).solve = .ok ((quadraticRoots a b c).2, s) := by
  have hperm := perm_ofTerms h ha hc
  have hmem : ∀ t ∈ (ofTerms ts).terms, t = ⟨2, a⟩ ∨ t = ⟨1, b⟩ ∨ t = ⟨0, c⟩ := by
    intro t ht
    rcases hperm with hp | ⟨-, hp⟩
    · simpa using hp.mem_iff.mp ht
    · exact (List.mem_pair.mp (hp.mem_iff.mp ht)).imp_right .inr
  have h2 : ⟨2, a⟩ ∈ (ofTerms ts).terms := by
    rcases hperm with hp | ⟨-, hp⟩ <;> simp [hp.mem_iff]
  have h0 : ⟨0, c⟩ ∈ (ofTerms ts).terms := by
    rcases hperm with hp | ⟨-, hp⟩ <;> simp [hp.mem_iff]
  have hfinite : ∀ t ∈ (ofTerms ts).terms, t.coefficient.isFinite = true := by
    intro t ht
    rcases hmem t ht with rfl | rfl | rfl
    · exact ha.isFinite
    · exact hb
    · exact hc.isFinite
  have hpower : ∀ t ∈ (ofTerms ts).terms, 0 ≤ t.power ∧ t.power ≤ 2 := by
    intro t ht
    have hcases : t.power = 2 ∨ t.power = 1 ∨ t.power = 0 :=
      (hmem t ht).imp (congrArg _) (Or.imp (congrArg _) (congrArg _))
    rcases hcases with h | h | h <;> rw [h] <;> decide
  have hvalid : (ofTerms ts).validate = .ok () :=
    validate_eq_ok fun t ht => ⟨hfinite t ht, hpower t ht⟩
  have hunique {t : Term} (ht : t = ⟨2, a⟩ ∨ t = ⟨1, b⟩ ∨ t = ⟨0, c⟩) :
      ∀ u ∈ (ofTerms ts).terms, u.power = t.power → u = t := by
    intro u hu hpower
    rcases hmem u hu with rfl | rfl | rfl <;> rcases ht with rfl | rfl | rfl <;>
      first | rfl | cases hpower
  have hlead := coefficient_eq h2 (hunique (.inl rfl))
  have hlast := coefficient_eq h0 (hunique (.inr (.inr rfl)))
  have hmiddle : SameValue b ((ofTerms ts).coefficient 1) := by
    rcases hperm with hp | ⟨hzero, hp⟩
    · exact .inl (coefficient_eq (hp.mem_iff.mpr (by simp)) (hunique (.inr (.inl rfl)))).symm
    · rcases (ofTerms ts).coefficient_cases 1 with ⟨t, ht, hpower, -⟩ | ⟨-, hnone⟩
      · rcases List.mem_pair.mp (hp.mem_iff.mp ht) with rfl | rfl <;> cases hpower
      · rw [hnone]
        exact .inr ⟨hzero, ⟨.positive, rfl⟩⟩
  have hshape := shape_quadratic h2 h0 fun t ht => (hpower t ht).2
  rw [hlead, hlast] at hshape
  refine ⟨_, solve_eq_ok_iff.mpr ⟨hvalid, _, hshape, ?_, rfl⟩⟩
  rw [answer_quadratic, quadraticRoots_congr hmiddle]

/-- Coefficients with opposite signs give two real roots around zero, and coefficients with the
same sign and nothing in the middle two complex ones, unless twice the first is infinite or the
product is zero. -/
theorem solve_kind (h : IsQuadratic ts a b c) (ha : Nonzero a) (hb : b.isFinite = true)
    (hc : Nonzero c) :
    ∃ solution s, (ofTerms ts).solve = .ok (solution, s) ∧
      (a < 0 ∧ 0 < c ∨ 0 < a ∧ c < 0 →
        (solution.Straddles ↔ (2 * a).isFinite = true ∧
          ((4 * a * c != 0) = true ∨ (b != 0) = true ∧ ¬ (b * b).sqrt < b.abs))) ∧
      (a < 0 ∧ c < 0 ∨ 0 < a ∧ 0 < c → (b == 0) = true →
        (solution.IsComplex ↔ (4 * a * c != 0) = true)) := by
  obtain ⟨s, hs⟩ := solve_quadratic h ha hb hc
  obtain ⟨p, hp, -⟩ := exists_value_of_bne_zero ha.isFinite ha.ne_zero
  obtain ⟨q, hq⟩ := isFinite_iff.mp hb
  obtain ⟨r, hr, -⟩ := exists_value_of_bne_zero hc.isFinite hc.ne_zero
  refine ⟨_, s, hs, ?_, ?_⟩
  · rw [lt_iff_value_lt hp value?_zero, lt_iff_value_lt value?_zero hr,
      lt_iff_value_lt value?_zero hp, lt_iff_value_lt hr value?_zero]
    exact fun hsigns => straddles_iff hp hq hr (mul_neg_iff.mpr hsigns.symm)
  · rw [lt_iff_value_lt hp value?_zero, lt_iff_value_lt value?_zero hr,
      lt_iff_value_lt value?_zero hp, lt_iff_value_lt hr value?_zero]
    exact fun hsigns hz => isComplex_iff hp (isZero_iff.mp hz) hr (mul_pos_iff.mpr hsigns.symm)

theorem nonzero_of_toInt? {x : Float} {n : ℤ} (h : toInt? x = some n) (hn : n ≠ 0) :
    Nonzero x where
  isFinite := isFinite_of_value? (value?_of_toInt? h)
  ne_zero := by
    rw [bne_zero_iff, isZero_iff_value (value?_of_toInt? h)]
    exact_mod_cast hn

/-- `x ^ 2 - 3 x - 4` and `x ^ 2 + 4`. -/
theorem solve_kind_integers :
    (∃ solution s, (ofTerms [⟨0, -4⟩, ⟨2, 1⟩, ⟨1, -3⟩]).solve = .ok (solution, s) ∧
      solution.Straddles) ∧
      ∃ solution s, (ofTerms [⟨2, 1⟩, ⟨0, 4⟩]).solve = .ok (solution, s) ∧ solution.IsComplex := by
  have hone : Nonzero 1 := nonzero_of_toInt? (n := 1) (by decide) (by decide)
  have hfour : Nonzero 4 := nonzero_of_toInt? (n := 4) (by decide) (by decide)
  have hneg : Nonzero (-4) := nonzero_of_toInt? (n := -4) (by decide) (by decide)
  constructor
  · have hperm : IsQuadratic [⟨0, -4⟩, ⟨2, 1⟩, ⟨1, -3⟩] 1 (-3) (-4) := .inl (by decide +kernel)
    obtain ⟨solution, s, hs, hopposite, -⟩ := solve_kind hperm hone (by decide) hneg
    refine ⟨solution, s, hs, (hopposite (.inr ⟨?_, ?_⟩)).mpr ⟨?_, .inl ?_⟩⟩ <;> decide +kernel
  · obtain ⟨solution, s, hs, -, hsame⟩ :=
      solve_kind (b := 0) (.inr ⟨by decide, .refl _⟩) hone (by decide) hfour
    refine ⟨solution, s, hs, (hsame (.inr ⟨?_, ?_⟩) ?_).mpr ?_⟩ <;> decide +kernel

/-- The product of the coefficients of `10 ^ -200 x ^ 2 ± 10 ^ -200` is zero, and so is the
root. -/
theorem solve_vanishing_product :
    (∃ s, (ofTerms [⟨2, 1e-200⟩, ⟨0, 1e-200⟩]).solve = .ok (.one 0, s)) ∧
      ∃ s, (ofTerms [⟨2, 1e-200⟩, ⟨0, -1e-200⟩]).solve = .ok (.one 0, s) := by
  have hsame : (ofTerms [⟨2, 1e-200⟩, ⟨0, 1e-200⟩]).solve.map Prod.fst = .ok (.one 0) := by
    decide +kernel
  have hopposite : (ofTerms [⟨2, 1e-200⟩, ⟨0, -1e-200⟩]).solve.map Prod.fst = .ok (.one 0) := by
    decide +kernel
  obtain ⟨⟨_, s⟩, hs, rfl⟩ := map_eq_ok.mp hsame
  obtain ⟨⟨_, t⟩, ht, rfl⟩ := map_eq_ok.mp hopposite
  exact ⟨⟨s, hs⟩, t, ht⟩

end Solver

end Quadratics
