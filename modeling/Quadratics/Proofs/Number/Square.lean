import Quadratics.Proofs.Number.Bounds
/-! The error of a rounded result, and the root of a rounded square. Such a root is not below the
number that was squared, unless the square is so small that it loses bits. -/
namespace Quadratics.Number

variable {v w r b p d : ℝ} {m : ℕ} {e t : ℤ}

theorem Fits.exists_multiple (h : Fits r) : ∃ n : ℤ, r = n * 2 ^ (-1074 : ℤ) := by
  have hpos : (0 : ℝ) < 2 ^ (-1074 : ℤ) := by positivity
  rcases h.div_two_zpow_le (t := -1074) with ⟨n, hn⟩ | ⟨hlt, -⟩
  · exact ⟨n, (div_eq_iff hpos.ne').mp hn⟩
  · exact absurd hlt (lt_irrefl _)

theorem le_abs_of_multiple {n : ℤ} (hr : r = n * 2 ^ (-1074 : ℤ)) (hne : r ≠ 0) :
    2 ^ (-1074 : ℤ) ≤ |r| := by
  have hn : n ≠ 0 := by
    rintro rfl
    simp [hr] at hne
  have hone : (1 : ℝ) ≤ |(n : ℝ)| := by exact_mod_cast Int.one_le_abs hn
  rw [hr, abs_mul, abs_of_pos (by positivity : (0 : ℝ) < 2 ^ (-1074 : ℤ))]
  exact le_mul_of_one_le_left (by positivity) hone

theorem IsNearest.abs_sub_le (h : IsNearest v w) (ht : -1074 ≤ t) (hv : 0 ≤ v)
    (hlt : v < 2 ^ 53 * 2 ^ t) : |v - w| ≤ 2 ^ t / 2 := by
  have hpos : (0 : ℝ) < 2 ^ t := by positivity
  obtain ⟨n, hn⟩ : ∃ n : ℕ, n = ⌊v / 2 ^ t⌋₊ := ⟨_, rfl⟩
  have hlow : n * 2 ^ t ≤ v := by
    rw [← le_div_iff₀ hpos, hn]
    exact Nat.floor_le (by positivity)
  have hhigh : v < (n + 1) * 2 ^ t := by
    rw [← div_lt_iff₀ hpos, hn]
    exact Nat.lt_floor_add_one _
  have hbits : n < 2 ^ 53 := by
    rw [hn, Nat.floor_lt (by positivity), div_lt_iff₀ hpos]
    exact_mod_cast hlt
  have hbelow := h.le_of_fits _ ⟨n, t, by rw [Nat.abs_cast]; omega, ht, rfl⟩
  have habove := h.le_of_fits _ ⟨n + 1, t, by rw [abs_of_nonneg (by omega)]; omega, ht, rfl⟩
  push_cast at hbelow habove
  rw [abs_of_nonneg (by linarith : 0 ≤ v - n * 2 ^ t)] at hbelow
  rw [abs_of_nonpos (by linarith : v - (n + 1) * 2 ^ t ≤ 0)] at habove
  linarith

theorem Fits.le_pred (h : Fits r) (hm : 2 ^ 52 < m) (hlt : r < m * 2 ^ e) :
    r ≤ (m - 1) * 2 ^ e := by
  have hpos : (0 : ℝ) < 2 ^ e := by positivity
  have hm' : (2 : ℝ) ^ 52 ≤ m - 1 := by
    have hcast : (2 : ℝ) ^ 52 + 1 ≤ m := by exact_mod_cast hm
    linarith
  rw [← div_lt_iff₀ hpos] at hlt
  rw [← div_le_iff₀ hpos]
  rcases h.div_two_zpow_le (t := e) with ⟨n, hn⟩ | ⟨-, hle⟩
  · rw [hn] at hlt ⊢
    have hnat : n ≤ m - 1 := by
      have hcast : n < m := by exact_mod_cast hlt
      omega
    exact_mod_cast hnat
  · exact hle.trans hm'

theorem le_sqrt (hb : Fits b) (hd : b * b ≤ d) (hr : IsNearest √d r) : b ≤ r := by
  refine hr.le_of_le hb ?_
  exact Real.le_sqrt_of_sq_le (by rwa [pow_two])

theorem le_sqrt_of_long_square (hm : 2 ^ 52 ≤ m) (hm' : m < 2 ^ 53) (he : -563 ≤ e)
    (hp : IsNearest (m * 2 ^ e * (m * 2 ^ e)) p) (hd : p ≤ d) (hr : IsNearest √d r) :
    m * 2 ^ e ≤ r := by
  have hpos : (0 : ℝ) < 2 ^ e := by positivity
  have hfits : Fits (m * 2 ^ e) := ⟨m, e, by rw [Nat.abs_cast]; omega, by omega, rfl⟩
  have hsq : (2 : ℝ) ^ (2 * e) = 2 ^ e * 2 ^ e := two_zpow_eq_mul (by ring)
  rcases hm.lt_or_eq with hgt | rfl
  · by_contra! hlt
    have hpred := hr.fits.le_pred hgt hlt
    have hnear := hr.le_of_fits _ hfits
    have hcast : (2 : ℝ) ^ 52 + 1 ≤ m := by exact_mod_cast hgt
    have hcast' : (m : ℝ) < 2 ^ 53 := by exact_mod_cast hm'
    -- the root is at most half way to the number
    have hhalf : √d ≤ (m - 1 / 2) * 2 ^ e := by
      by_contra! hfar
      rw [abs_of_nonneg (by linarith)] at hnear
      rcases abs_cases (√d - m * 2 ^ e) with ⟨habs, -⟩ | ⟨habs, -⟩ <;> rw [habs] at hnear <;>
        linarith
    have hsquare : d ≤ ((m - 1 / 2) * 2 ^ e) ^ 2 := by
      refine (Real.sqrt_le_left ?_).mp hhalf
      exact mul_nonneg (by linarith) hpos.le
    -- and that is further from the square than rounding goes
    have hbit : (2 : ℝ) ^ (2 * e + 53) = 2 ^ (2 * e) * 2 ^ (53 : ℤ) := two_zpow_eq_mul rfl
    have herror := hp.abs_sub_le (t := 2 * e + 53) (by omega) (by positivity) (by
      rw [hbit, hsq, zpow_ofNat]
      calc
        (m : ℝ) * 2 ^ e * (m * 2 ^ e) = m * m * (2 ^ e * 2 ^ e) := by ring
        _ < 2 ^ 53 * 2 ^ 53 * (2 ^ e * 2 ^ e) := by gcongr
        _ = 2 ^ 53 * (2 ^ e * 2 ^ e * 2 ^ 53) := by ring)
    have hlow := (abs_le.mp herror).2
    rw [hbit, hsq, zpow_ofNat] at hlow
    have hle : (m * m - 2 ^ 52) * (2 ^ e * 2 ^ e) ≤
        (m * m - m + 1 / 4 : ℝ) * (2 ^ e * 2 ^ e) := by
      linarith
    have hbits := le_of_mul_le_mul_right hle (by positivity)
    linarith
  · have hpow : ((2 ^ 52 : ℕ) : ℝ) * 2 ^ e = 2 ^ (52 + e) := by
      rw [two_zpow_eq_mul (show 52 + e = 52 + e from rfl), zpow_ofNat]
      norm_num
    have hexact : Fits (((2 ^ 52 : ℕ) : ℝ) * 2 ^ e * (((2 ^ 52 : ℕ) : ℝ) * 2 ^ e)) := by
      rw [hpow, ← zpow_add₀ two_ne_zero]
      exact fits_two_zpow (by omega)
    rw [hp.eq_of_fits hexact] at hd
    exact le_sqrt hfits hd hr

theorem le_sqrt_of_short_square (hb : Fits b) (hlt : b * b < 2 ^ (-1022 : ℤ))
    (hp : IsNearest (b * b) p) (hd : p + 2 ^ (-1074 : ℤ) ≤ d) (hr : IsNearest √d r) : b ≤ r := by
  have hbits : (2 : ℝ) ^ (-1022 : ℤ) = 2 ^ (52 : ℤ) * 2 ^ (-1074 : ℤ) := two_zpow_eq_mul rfl
  have hstep : (0 : ℝ) < 2 ^ (-1074 : ℤ) := by positivity
  have herror := hp.abs_sub_le (t := -1074) le_rfl (mul_self_nonneg b) (by
    refine hlt.trans_le ?_
    rw [hbits, zpow_ofNat]
    gcongr <;> norm_num)
  have hlow := (abs_le.mp herror).2
  exact le_sqrt hb (by linarith) hr

end Quadratics.Number
