import Quadratics.Proofs.Number.Bounds
/-! On which side of zero a number is, infinities included, and infinities as operands. -/
namespace Quadratics.Number

open Float.Model Float.Model.UnpackedFloat

variable {s t : Sign} {v : ℝ} {x y : Float}

theorem le_iff : x ≤ y ↔ (x.toModel.unpack.compare y.toModel.unpack).any (·.isLE) = true := by
  change decide ((x.toModel.unpack.compare y.toModel.unpack).any (·.isLE) = true) = true ↔ _
  rw [decide_eq_true_iff]

/-- Not above zero: a zero, a negative number or the negative infinity. -/
inductive NotAbove : UnpackedFloat → Prop
  | infinity : NotAbove (.infinity .negative)
  | zero (s : Sign) : NotAbove (.zero s)
  | finite (m : ℕ) (e : ℤ) (hm : 0 < m) : NotAbove (.finite .negative m e hm)

inductive NotBelow : UnpackedFloat → Prop
  | infinity : NotBelow (.infinity .positive)
  | zero (s : Sign) : NotBelow (.zero s)
  | finite (m : ℕ) (e : ℤ) (hm : 0 < m) : NotBelow (.finite .positive m e hm)

theorem le_zero_iff : x ≤ 0 ↔ NotAbove x.toModel.unpack := by
  rw [le_iff, unpack_zero]
  generalize x.toModel.unpack = u
  constructor
  · intro h
    rcases u with (_ | _) | _ | s | ⟨_ | _, m, e, hm⟩
    · exact .infinity
    · cases h
    · cases h
    · exact .zero s
    · exact .finite m e hm
    · cases h
  · rintro (_ | _ | _) <;> rfl

theorem zero_le_iff : 0 ≤ x ↔ NotBelow x.toModel.unpack := by
  rw [le_iff, unpack_zero]
  generalize x.toModel.unpack = u
  constructor
  · intro h
    rcases u with (_ | _) | _ | s | ⟨_ | _, m, e, hm⟩
    · cases h
    · exact .infinity
    · cases h
    · exact .zero s
    · cases h
    · exact .finite m e hm
  · rintro (_ | _ | _) <;> rfl

theorem not_lt_of_sides (hx : x ≤ 0) (hy : 0 ≤ y) : ¬ y < x := by
  rw [le_zero_iff] at hx
  rw [zero_le_iff] at hy
  rw [lt_iff]
  generalize x.toModel.unpack = u at *
  generalize y.toModel.unpack = w at *
  cases hx <;> cases hy <;> simp [UnpackedFloat.compare]

theorem isZero_of_not_lt (hx : x ≤ 0) (hy : 0 ≤ y) (h : ¬ x < y) : IsZero x ∧ IsZero y := by
  rw [le_zero_iff] at hx
  rw [zero_le_iff] at hy
  rw [lt_iff] at h
  rw [IsZero, IsZero]
  generalize x.toModel.unpack = u at *
  generalize y.toModel.unpack = w at *
  cases hx <;> cases hy <;> simp [UnpackedFloat.compare] at h ⊢
  exact h (by decide)

theorem lt_zero_iff_of_le_zero (h : x ≤ 0) : x < 0 ↔ ¬ IsZero x := by
  rw [le_zero_iff] at h
  rw [lt_iff, unpack_zero, IsZero]
  generalize x.toModel.unpack = u at *
  cases h <;> simp [UnpackedFloat.compare]

theorem isNaN_of_le_zero (h : x ≤ 0) : x.isNaN = false := by
  rw [le_zero_iff] at h
  change x.toModel.unpack.isNaN = false
  generalize x.toModel.unpack = u at *
  cases h <;> rfl

theorem isNaN_of_zero_le (h : 0 ≤ x) : x.isNaN = false := by
  rw [zero_le_iff] at h
  change x.toModel.unpack.isNaN = false
  generalize x.toModel.unpack = u at *
  cases h <;> rfl

theorem neg_le_zero_iff : -x ≤ 0 ↔ 0 ≤ x := by
  rw [le_zero_iff, zero_le_iff, unpack_neg]
  generalize x.toModel.unpack = u
  constructor
  · intro h
    rcases u with (_ | _) | _ | s | ⟨_ | _, m, e, hm⟩ <;> cases h
    · exact .infinity
    · exact .zero s
    · exact .finite m e hm
  · rintro (_ | s | ⟨m, e, hm⟩)
    · exact .infinity
    · exact .zero (-s)
    · exact .finite m e hm

theorem zero_le_of_isZero (h : IsZero x) : 0 ≤ x := by
  obtain ⟨s, hs⟩ := h
  rw [zero_le_iff, hs]
  exact .zero s

theorem le_zero_of_isZero (h : IsZero x) : x ≤ 0 := by
  obtain ⟨s, hs⟩ := h
  rw [le_zero_iff, hs]
  exact .zero s

theorem lesser_greater_sides (hx : x ≤ 0) (hy : 0 ≤ y) :
    (lesser x y ≤ 0 ∧ 0 ≤ greater x y) ∧ lesser y x ≤ 0 ∧ 0 ≤ greater y x := by
  have hnx := isNaN_of_le_zero hx
  have hny := isNaN_of_zero_le hy
  have hlt := not_lt_of_sides hx hy
  by_cases h : x < y
  · simp only [lesser, greater, hnx, hny, h, hlt, if_true, if_false, Bool.false_eq_true]
    exact ⟨⟨hx, hy⟩, hx, hy⟩
  · obtain ⟨hzx, hzy⟩ := isZero_of_not_lt hx hy h
    simp only [lesser, greater, hnx, hny, h, hlt, if_false, Bool.false_eq_true]
    exact ⟨⟨hx, zero_le_of_isZero hzx⟩, le_zero_of_isZero hzy, hy⟩

def IsInfinity (s : Sign) (x : Float) : Prop := x.toModel.unpack = .infinity s

theorem isInfinity_ofModel_pack (s : Sign) : IsInfinity s (.ofModel (.pack (.infinity s))) :=
  unpack_ofModel_pack (u := .infinity s) trivial

namespace IsInfinity

theorem not_isFinite (h : IsInfinity s x) : ¬ x.isFinite = true := by
  change ¬ x.toModel.unpack.isFinite = true
  rw [h]
  exact Bool.false_ne_true

theorem neg (h : IsInfinity s x) : IsInfinity (-s) (-x) := by
  rw [IsInfinity, unpack_neg, h]
  rfl

theorem add_of_isFinite (hx : x.isFinite = true) (hy : IsInfinity s y) : IsInfinity s (x + y) := by
  change x.toModel.unpack.isFinite = true at hx
  rw [add_eq, hy]
  generalize x.toModel.unpack = u at *
  cases u with
  | infinity t => cases hx
  | notANumber => cases hx
  | zero t => exact isInfinity_ofModel_pack s
  | finite t m e hm => exact isInfinity_ofModel_pack s

theorem sub_of_isFinite (hx : x.isFinite = true) (hy : IsInfinity s y) :
    IsInfinity (-s) (x - y) := by
  rw [sub_eq_add_neg]
  exact add_of_isFinite hx hy.neg

theorem sqrt (h : IsInfinity .positive x) : IsInfinity .positive x.sqrt := by
  rw [sqrt_eq, h]
  exact isInfinity_ofModel_pack .positive

theorem positiveZero (h : IsInfinity s x) : IsInfinity s (positiveZero x) := by
  rw [positiveZero_of_not_isZero]
  · exact h
  · rintro ⟨t, ht⟩
    cases h.symm.trans ht

theorem not_lt (h : IsInfinity .positive x) (y : Float) : ¬ x < y := by
  rw [lt_iff, h]
  rcases y.toModel.unpack with (_ | _) | _ | _ | _ <;> simp [UnpackedFloat.compare]

theorem le_zero (h : IsInfinity .negative x) : x ≤ 0 := by
  rw [le_zero_iff, h]
  exact .infinity

theorem zero_le (h : IsInfinity .positive x) : 0 ≤ x := by
  rw [zero_le_iff, h]
  exact .infinity

end IsInfinity

theorem IsInfinity.mul (hx : IsInfinity s x) {m : ℕ} {e : ℤ} {hm : 0 < m}
    (hy : y.toModel.unpack = .finite t m e hm) : IsInfinity (s * t) (x * y) := by
  rw [mul_eq, hx, hy]
  exact isInfinity_ofModel_pack (s * t)

theorem IsInfinity.div (hx : IsInfinity s x) {m : ℕ} {e : ℤ} {hm : 0 < m}
    (hy : y.toModel.unpack = .finite t m e hm) : IsInfinity (s / t) (x / y) := by
  rw [div_eq, hx, hy]
  exact isInfinity_ofModel_pack (s / t)

theorem IsInfinity.isNaN_div (hx : IsInfinity s x) (hy : IsInfinity t y) :
    (x / y).isNaN = true := by
  rw [div_eq, hx, hy]
  exact Number.isNaN_iff.mpr (unpack_ofModel_pack (u := .notANumber) trivial)

theorem isInfinity_of_zero_le (h : 0 ≤ x) (hx : ¬ x.isFinite = true) : IsInfinity .positive x := by
  rw [zero_le_iff] at h
  change ¬ x.toModel.unpack.isFinite = true at hx
  rw [IsInfinity]
  generalize x.toModel.unpack = u at *
  cases h with
  | infinity => rfl
  | zero t => exact absurd rfl hx
  | finite m e hm => exact absurd rfl hx

theorem isInfinity_of_le_zero (h : x ≤ 0) (hx : ¬ x.isFinite = true) : IsInfinity .negative x := by
  rw [le_zero_iff] at h
  change ¬ x.toModel.unpack.isFinite = true at hx
  rw [IsInfinity]
  generalize x.toModel.unpack = u at *
  cases h with
  | infinity => rfl
  | zero t => exact absurd rfl hx
  | finite m e hm => exact absurd rfl hx

theorem zero_le_of_hasSign (hn : x.isNaN = false) (hs : HasSign .positive x.toModel.unpack) :
    0 ≤ x := by
  rw [zero_le_iff]
  change x.toModel.unpack.isNaN = false at hn
  generalize x.toModel.unpack = u at *
  cases u with
  | infinity t =>
    cases hs
    exact .infinity
  | notANumber => cases hn
  | zero t => exact .zero t
  | finite t m e hm =>
    cases hs
    exact .finite m e hm

namespace Rounds

theorem le_zero (h : Rounds v x) (hv : v ≤ 0) : x ≤ 0 := by
  rw [le_zero_iff]
  cases h with
  | number value nearest =>
    have hq := nearest.le_of_ge fits_zero hv
    rcases unpack_of_value? value with ⟨s, hu, -⟩ | ⟨s, m, e, hm, hu, -, -, hvalue⟩ <;> rw [hu]
    · exact .zero s
    · cases s with
      | negative => exact .finite m e hm
      | positive =>
        have hpos : (0 : ℝ) < m * 2 ^ e := by positivity
        rw [hvalue, underSign_positive] at hq
        linarith
  | @infinity s w unpack high nearest =>
    rw [unpack]
    have hw := nearest.le_of_ge fits_zero hv
    cases s with
    | negative => exact .infinity
    | positive =>
      have hpos : (0 : ℝ) < 2 ^ (1024 : ℤ) := by positivity
      exact absurd (hpos.trans_le high) (not_lt.mpr hw)

theorem neg (h : Rounds v x) : Rounds (-v) (-x) := by
  cases h with
  | number value nearest => exact .number (value?_neg value) (by simpa using nearest.neg)
  | @infinity s w unpack high nearest =>
    refine .infinity (IsInfinity.neg unpack) high ?_
    cases s with
    | positive => exact nearest.neg
    | negative =>
      change IsNearest (-v) w
      simpa using nearest.neg

theorem zero_le (h : Rounds v x) (hv : 0 ≤ v) : 0 ≤ x :=
  neg_le_zero_iff.mp (h.neg.le_zero (by linarith))

theorem not_le_zero (h : Rounds v x) (hv : 2 ^ (-1074 : ℤ) ≤ v) : ¬ x ≤ 0 := by
  have hpos : (0 : ℝ) < 2 ^ (-1074 : ℤ) := by positivity
  intro hx
  rw [le_zero_iff] at hx
  cases h with
  | number value nearest =>
    have hq := nearest.le_of_le (fits_two_zpow (by decide)) hv
    rcases unpack_of_value? value with ⟨s, -, hzero⟩ | ⟨s, m, e, hm, hu, -, -, hvalue⟩
    · rw [hzero, Rat.cast_zero] at hq
      linarith
    · rw [hu] at hx
      cases hx
      have hmagnitude : (0 : ℝ) < m * 2 ^ e := by positivity
      rw [hvalue, underSign_negative] at hq
      linarith
  | @infinity s w unpack high nearest =>
    have hw := nearest.le_of_le (fits_two_zpow (by decide)) hv
    rw [unpack] at hx
    cases hx
    have htop : (0 : ℝ) < 2 ^ (1024 : ℤ) := by positivity
    exact absurd (neg_pos.mp (hpos.trans_le hw)) (not_lt.mpr (htop.le.trans high))

theorem not_zero_le (h : Rounds v x) (hv : v ≤ -2 ^ (-1074 : ℤ)) : ¬ 0 ≤ x := by
  rw [← neg_le_zero_iff]
  exact h.neg.not_le_zero (by linarith)

end Rounds

theorem le_zero_iff_value {q : ℚ} (hx : value? x = some q) : x ≤ 0 ↔ q ≤ 0 := by
  constructor
  · intro h
    by_contra! hq
    have hpos := (lt_iff_value_lt value?_zero hx).mpr hq
    exact not_lt_of_sides h (zero_le_of_isZero ⟨.positive, rfl⟩) hpos
  · exact fun hq => (rounds_value hx).le_zero (by exact_mod_cast hq)

theorem zero_le_iff_value {q : ℚ} (hx : value? x = some q) : 0 ≤ x ↔ 0 ≤ q := by
  rw [← neg_le_zero_iff, le_zero_iff_value (value?_neg hx)]
  exact neg_nonpos

/-- A finite result is on the side of zero where the real one is. -/
theorem Rounds.side_of_isFinite (h : Rounds v x) (hx : x.isFinite = true) :
    ∃ w, value? x = some w ∧ (v ≤ 0 → w ≤ 0) ∧ (0 ≤ v → 0 ≤ w) := by
  obtain ⟨w, hw⟩ := isFinite_iff.mp hx
  exact ⟨w, hw, fun hv => (le_zero_iff_value hw).mp (h.le_zero hv),
    fun hv => (zero_le_iff_value hw).mp (h.zero_le hv)⟩

theorem Rounds.exists_isInfinity (h : Rounds v x) (hx : ¬ x.isFinite = true) :
    ∃ s, IsInfinity s x := by
  cases h with
  | number value nearest => exact absurd (isFinite_iff.mpr ⟨_, value⟩) hx
  | infinity unpack high nearest => exact ⟨_, unpack⟩

theorem zero_le_sub (hx : 0 ≤ x) (hy : y ≤ 0) : 0 ≤ x - y := by
  by_cases hfx : x.isFinite = true
  · by_cases hfy : y.isFinite = true
    · obtain ⟨p, hp⟩ := isFinite_iff.mp hfx
      obtain ⟨q, hq⟩ := isFinite_iff.mp hfy
      have hp0 := (zero_le_iff_value hp).mp hx
      have hq0 := (le_zero_iff_value hq).mp hy
      exact (rounds_sub hp hq).zero_le (by exact_mod_cast sub_nonneg.mpr (hq0.trans hp0))
    · exact (IsInfinity.sub_of_isFinite hfx (isInfinity_of_le_zero hy hfy)).zero_le
  · rw [zero_le_iff] at hx
    rw [le_zero_iff] at hy
    change ¬ x.toModel.unpack.isFinite = true at hfx
    have hinf : IsInfinity .positive (x - y) := by
      rw [sub_eq]
      generalize x.toModel.unpack = u at *
      generalize y.toModel.unpack = w at *
      cases hx with
      | infinity => cases hy <;> exact isInfinity_ofModel_pack .positive
      | zero t => exact absurd rfl hfx
      | finite m e hm => exact absurd rfl hfx
    exact hinf.zero_le

end Quadratics.Number
