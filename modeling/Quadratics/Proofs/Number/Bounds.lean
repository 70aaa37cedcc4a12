import Mathlib
import Quadratics.Proofs.Number.Operations
import Quadratics.Proofs.Number.Range
/-! What follows from a result being a nearest number: bounds that are numbers are kept, a real
result that is a number is the result, and one of at least `2 ^ 1024` is never finite. -/
namespace Quadratics.Number

open Float.Model Float.Model.UnpackedFloat

variable {v w r : ℝ} {x y : Float} {a b : ℚ} {k : ℤ}

theorem abs_underSign (s : Sign) (w : ℝ) : |underSign s w| = |w| := by cases s <;> simp

theorem fits_two_zpow (h : -1074 ≤ k) : Fits (2 ^ k) := ⟨1, k, by norm_num, h, by simp⟩

theorem Fits.abs (h : Fits r) : Fits |r| := by
  rcases abs_choice r with ha | ha <;> rw [ha]
  · exact h
  · exact h.neg

theorem Fits.mul_two_pow (h : Fits r) (n : ℕ) : Fits (2 ^ n * r) := by
  obtain ⟨m, e, hm, he, rfl⟩ := h
  refine ⟨m, e + n, hm, by omega, ?_⟩
  rw [zpow_add₀ two_ne_zero, zpow_natCast]
  ring

namespace IsNearest

theorem le_of_le (h : IsNearest v w) (hr : Fits r) (hle : r ≤ v) : r ≤ w := by
  by_contra hlt
  have hnear := h.le_of_fits r hr
  rw [abs_of_nonneg (by linarith), abs_of_nonneg (by linarith)] at hnear
  linarith

theorem le_of_ge (h : IsNearest v w) (hr : Fits r) (hle : v ≤ r) : w ≤ r := by
  have hneg := h.neg.le_of_le hr.neg (neg_le_neg hle)
  linarith

theorem abs (h : IsNearest v w) : IsNearest |v| |w| := by
  rcases le_total 0 v with hv | hv
  · rwa [abs_of_nonneg hv, abs_of_nonneg (h.le_of_le fits_zero hv)]
  · rw [abs_of_nonpos hv, abs_of_nonpos (h.le_of_ge fits_zero hv)]
    exact h.neg

theorem eq_of_fits (h : IsNearest v w) (hv : Fits v) : w = v :=
  le_antisymm (h.le_of_ge hv le_rfl) (h.le_of_le hv le_rfl)

end IsNearest

theorem value?_zero : value? 0 = some 0 := value?_of_zero (s := .positive) rfl

theorem abs_le_largest (h : value? x = some a) : |(a : ℝ)| ≤ largest := by
  rcases unpack_of_value? h with ⟨s, hu, rfl⟩ | ⟨s, m, e, hm, hu, ⟨hhigh, -, -⟩, he, ha⟩
  · have hpos : 0 ≤ largest := mul_nonneg (by norm_num) (by positivity)
    simpa using hpos
  · have habs : |(a : ℝ)| = m * 2 ^ e := by
      rw [ha]
      cases s <;> simp [abs_of_nonneg]
    have hm' : (m : ℝ) ≤ 2 ^ 53 - 1 := by
      have hle : m + 1 ≤ 2 ^ 53 := hhigh
      have hcast : (m : ℝ) + 1 ≤ 2 ^ 53 := by exact_mod_cast hle
      linarith
    rw [habs, largest]
    gcongr
    exact one_le_two

theorem largest_lt : largest < 2 ^ (1024 : ℤ) := by
  rw [two_zpow_eq_mul (show (53 + 971 : ℤ) = 1024 from rfl), zpow_ofNat, largest]
  gcongr
  linarith

theorem abs_lt_of_value? (h : value? x = some a) : |(a : ℝ)| < 2 ^ (1024 : ℤ) :=
  (abs_le_largest h).trans_lt largest_lt

theorem abs_cast_le_zpow : |(a : ℝ)| ≤ 2 ^ k ↔ |a| ≤ 2 ^ k := by
  rw [← Rat.cast_abs, ← Rat.cast_le (K := ℝ), Rat.cast_zpow, Rat.cast_ofNat]

namespace Rounds

theorem exists_value (h : Rounds v x) (hx : x.isFinite = true) :
    ∃ q, value? x = some q ∧ IsNearest v q := by
  cases h with
  | number value nearest => exact ⟨_, value, nearest⟩
  | infinity unpack high nearest =>
    have hinf : x.isInf = true := by
      change x.toModel.unpack.isInf = true
      rw [unpack]
      rfl
    exact absurd hx (not_isFinite_of_isInf hinf)

theorem value_of_abs_le (h : Rounds v x) (hr : Fits r) (hlt : r < 2 ^ (1024 : ℤ)) (hv : |v| ≤ r) :
    ∃ q, value? x = some q ∧ IsNearest v q ∧ |(q : ℝ)| ≤ r := by
  have bound {w : ℝ} (hw : IsNearest v w) : |w| ≤ r :=
    abs_le.mpr ⟨hw.le_of_le hr.neg (neg_le_of_abs_le hv), hw.le_of_ge hr (le_of_abs_le hv)⟩
  cases h with
  | number value nearest => exact ⟨_, value, nearest, bound nearest⟩
  | @infinity s w unpack high nearest =>
    have hw := bound nearest
    rw [abs_underSign] at hw
    exact absurd ((high.trans (le_abs_self w)).trans hw) (not_le.mpr hlt)

theorem value_of_abs_le_zpow (h : Rounds v x) (hk : -1074 ≤ k) (hk' : k < 1024)
    (hv : |v| ≤ 2 ^ k) : ∃ q, value? x = some q ∧ IsNearest v q ∧ |q| ≤ 2 ^ k := by
  obtain ⟨q, hq, hnear, hle⟩ := h.value_of_abs_le (fits_two_zpow hk)
    (zpow_lt_zpow_right₀ one_lt_two hk') hv
  exact ⟨q, hq, hnear, abs_cast_le_zpow.mp hle⟩

theorem value_of_fits (h : Rounds v x) (hv : Fits v) (hlt : |v| < 2 ^ (1024 : ℤ)) :
    ∃ q, value? x = some q ∧ (q : ℝ) = v := by
  obtain ⟨q, hq, hnear, -⟩ := h.value_of_abs_le hv.abs hlt le_rfl
  exact ⟨q, hq, hnear.eq_of_fits hv⟩

theorem abs_lt_of_isFinite (h : Rounds v x) (hx : x.isFinite = true) : |v| < 2 ^ (1024 : ℤ) := by
  obtain ⟨q, hq, hnear⟩ := h.exists_value hx
  have hlt := abs_lt.mp (abs_lt_of_value? hq)
  have hfits : Fits (2 ^ (1024 : ℤ)) := fits_two_zpow (by decide)
  by_contra hge
  rcases le_abs.mp (not_lt.mp hge) with hle | hle
  · exact absurd (hnear.le_of_le hfits hle) (not_le.mpr hlt.2)
  · have hneg := hnear.neg.le_of_le hfits hle
    linarith

end Rounds

theorem mul_two_zpow_lt {m n : ℕ} {e k : ℤ} (hm : Canonical m e) (hn : Canonical n k)
    (h : e < k) : (m : ℝ) * 2 ^ e < n * 2 ^ k := by
  obtain ⟨hhigh, he, -⟩ := hm
  obtain ⟨-, -, hnormal⟩ := hn
  have hm' : (m : ℝ) < 2 ^ 53 := by exact_mod_cast hhigh
  have hn' : (2 : ℝ) ^ 52 ≤ n := by exact_mod_cast hnormal.resolve_right (by omega)
  calc
    (m : ℝ) * 2 ^ e < 2 ^ 53 * 2 ^ e := by gcongr
    _ = 2 ^ 52 * 2 ^ (e + 1) := by
      rw [zpow_add₀ two_ne_zero]
      ring
    _ ≤ n * 2 ^ k := by
      gcongr
      · exact one_le_two
      · omega

theorem mul_two_zpow_lt_iff {m n : ℕ} {e k : ℤ} (hm : Canonical m e) (hn : Canonical n k) :
    (m : ℝ) * 2 ^ e < n * 2 ^ k ↔ (compare e k).then (compare m n) = .lt := by
  rw [Ordering.then_eq_lt, Int.compare_eq_lt, Int.compare_eq_eq, Nat.compare_eq_lt]
  rcases lt_trichotomy e k with h | rfl | h
  · simp [h, mul_two_zpow_lt hm hn h]
  · have hpos : (0 : ℝ) < 2 ^ e := by positivity
    rw [mul_lt_mul_iff_left₀ hpos]
    simp
  · have hlt := mul_two_zpow_lt hn hm h
    simp [hlt.not_gt, h.not_gt, h.ne']

theorem lt_iff_value_lt (hx : value? x = some a) (hy : value? y = some b) : x < y ↔ a < b := by
  rw [lt_iff, ← Rat.cast_lt (K := ℝ)]
  rcases unpack_of_value? hx with ⟨s, hu, rfl⟩ | ⟨s, m, e, hm, hu, hc, -, ha⟩ <;>
    rcases unpack_of_value? hy with ⟨t, hv, rfl⟩ | ⟨t, n, k, hn, hv, hd, -, hb⟩ <;>
    rw [hu, hv]
  · simp [UnpackedFloat.compare]
  · have hpos : (0 : ℝ) < n * 2 ^ k := by positivity
    rw [hb]
    cases t
    · simp [UnpackedFloat.compare, hpos.le]
    · simp [UnpackedFloat.compare, hpos]
  · have hpos : (0 : ℝ) < m * 2 ^ e := by positivity
    rw [ha]
    cases s
    · simp [UnpackedFloat.compare, hpos]
    · simp [UnpackedFloat.compare, hpos.le]
  · have hpos : (0 : ℝ) < m * 2 ^ e := by positivity
    have hpos' : (0 : ℝ) < n * 2 ^ k := by positivity
    rw [ha, hb]
    cases s <;> cases t
    · rw [underSign_negative, underSign_negative, neg_lt_neg_iff, mul_two_zpow_lt_iff hd hc]
      simp only [UnpackedFloat.compare, Ordering.swap_then, Int.compare_swap, Nat.compare_swap,
        Option.some.injEq]
    · rw [underSign_negative, underSign_positive]
      exact iff_of_true rfl (by linarith)
    · rw [underSign_negative, underSign_positive]
      exact iff_of_false (by simp [UnpackedFloat.compare]) (by linarith)
    · rw [underSign_positive, underSign_positive, mul_two_zpow_lt_iff hc hd]
      simp only [UnpackedFloat.compare, Option.some.injEq]

/-- Half a step above the highest number: from here on a result is infinite. -/
def rangeEnd : ℚ := (2 ^ 54 - 1) * 2 ^ (970 : ℤ)

theorem cast_rangeEnd : (rangeEnd : ℝ) = (2 ^ 54 - 1) * 2 ^ (970 : ℤ) := by
  simp only [rangeEnd, Rat.cast_mul, Rat.cast_sub, Rat.cast_pow, Rat.cast_zpow, Rat.cast_ofNat,
    Rat.cast_one]

theorem rangeEnd_eq_half : (rangeEnd : ℝ) = (largest + 2 ^ (1024 : ℤ)) / 2 := by
  have hhigh : (2 : ℝ) ^ (1024 : ℤ) = 2 ^ (54 : ℤ) * 2 ^ (970 : ℤ) := two_zpow_eq_mul rfl
  have hlow : (2 : ℝ) ^ (971 : ℤ) = 2 ^ (1 : ℤ) * 2 ^ (970 : ℤ) := two_zpow_eq_mul rfl
  rw [cast_rangeEnd, largest, hhigh, hlow, zpow_one, zpow_ofNat _ 54]
  generalize (2 : ℝ) ^ (970 : ℤ) = z
  ring

/-- The quotient of two numbers never lies half way between two others, as it would need more bits
for that. -/
theorem abs_ne_rangeEnd_mul (hx : value? x = some a) (hy : value? y = some b) (hb : b ≠ 0) :
    |(a : ℝ)| ≠ rangeEnd * |(b : ℝ)| := by
  have hstep : (0 : ℝ) < 2 ^ (970 : ℤ) := by positivity
  intro h
  rw [cast_rangeEnd] at h
  rcases unpack_of_value? hy with ⟨t, -, rfl⟩ | ⟨t, n, k, hn, -, ⟨-, hk, -⟩, -, hb'⟩
  · exact hb rfl
  rcases unpack_of_value? hx with ⟨s, -, rfl⟩ | ⟨s, m, e, hm, -, ⟨hhigh, he, -⟩, -, ha⟩
  · have hpos : 0 < (2 ^ 54 - 1) * 2 ^ (970 : ℤ) * |(b : ℝ)| :=
      mul_pos (mul_pos (by norm_num) hstep) (abs_pos.mpr (by exact_mod_cast hb))
    rw [← h] at hpos
    simp at hpos
  · rw [ha, hb', abs_underSign, abs_underSign, abs_of_nonneg (by positivity),
      abs_of_nonneg (by positivity)] at h
    -- both sides as whole numbers of steps
    have hnat : m * 2 ^ (e + 1074).toNat = (2 ^ 54 - 1) * (n * 2 ^ (k + 2044).toNat) := by
      have he' : ((e + 1074).toNat : ℤ) = e + 1074 := by omega
      have hk' : ((k + 2044).toNat : ℤ) = k + 970 + 1074 := by omega
      have hsub : ((2 ^ 54 - 1 : ℕ) : ℝ) = 2 ^ 54 - 1 := by norm_num
      rw [← Nat.cast_inj (R := ℝ), Nat.cast_mul, Nat.cast_mul, hsub]
      simp only [Nat.cast_mul, Nat.cast_pow, Nat.cast_ofNat]
      rw [← zpow_natCast _ (e + 1074).toNat, ← zpow_natCast _ (k + 2044).toNat, he', hk',
        zpow_add₀ two_ne_zero, ← mul_assoc, h, zpow_add₀ two_ne_zero, zpow_add₀ two_ne_zero]
      generalize (2 : ℝ) ^ (970 : ℤ) = z
      ring
    have hdvd : 2 ^ 54 - 1 ∣ m := by
      have hcoprime : Nat.Coprime (2 ^ 54 - 1) (2 ^ (e + 1074).toNat) :=
        Nat.Coprime.pow_right _ (by decide)
      exact hcoprime.dvd_of_dvd_mul_right ⟨_, hnat⟩
    have hle := Nat.le_of_dvd hm hdvd
    omega

theorem fits_largest : Fits largest :=
  ⟨2 ^ 53 - 1, 971, by decide, by decide, by rw [largest]; norm_num⟩

theorem isFinite_div_iff (hx : value? x = some a) (hy : value? y = some b) (hb : b ≠ 0) :
    (x / y).isFinite = true ↔ |a| < rangeEnd * |b| := by
  have hpos : 0 < |(b : ℝ)| := abs_pos.mpr (by exact_mod_cast hb)
  have hcast : |a| < rangeEnd * |b| ↔ |(a : ℝ) / b| < rangeEnd := by
    rw [abs_div, div_lt_iff₀ hpos]
    exact_mod_cast Iff.rfl
  have hrounds := rounds_div hx hy hb
  have htop : Fits (2 ^ (1024 : ℤ)) := fits_two_zpow (by decide)
  rw [hcast]
  constructor
  · intro hfinite
    obtain ⟨q, hq, hnear⟩ := hrounds.exists_value hfinite
    have hlt := hrounds.abs_lt_of_isFinite hfinite
    have hle := abs_le_largest hq
    have hhalf := hnear.abs.le_of_fits _ htop
    have hne : |(a : ℝ) / b| ≠ rangeEnd := by
      rw [abs_div, Ne, div_eq_iff hpos.ne']
      exact abs_ne_rangeEnd_mul hx hy hb
    rw [abs_of_nonpos (by linarith : |(a : ℝ) / b| - 2 ^ (1024 : ℤ) ≤ 0)] at hhalf
    have hself := le_abs_self (|(a : ℝ) / b| - |(q : ℝ)|)
    refine lt_of_le_of_ne ?_ hne
    rw [rangeEnd_eq_half]
    linarith
  · intro hlt
    cases hrounds with
    | number value nearest => exact isFinite_iff.mpr ⟨_, value⟩
    | @infinity s w unpack high nearest =>
      have hhalf := nearest.abs.le_of_fits _ fits_largest
      rw [abs_underSign, abs_of_nonneg (high.trans' (by positivity))] at hhalf
      rw [rangeEnd_eq_half] at hlt
      have hgap := largest_lt
      have hself := neg_le_abs (|(a : ℝ) / b| - w)
      exfalso
      rcases abs_cases (|(a : ℝ) / b| - largest) with ⟨habs, -⟩ | ⟨habs, -⟩ <;>
        rw [habs] at hhalf <;> linarith

end Quadratics.Number
