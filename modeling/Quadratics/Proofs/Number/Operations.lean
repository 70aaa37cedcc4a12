import Quadratics.Proofs.Number.Arithmetic
import Quadratics.Proofs.Number.Nearest
/-! Sums, products, quotients and square roots of numbers are the real ones, rounded. -/
namespace Quadratics.Number

open Float.Model Float.Model.UnpackedFloat

variable {m n : ℕ} {e k : ℤ} {x y : Float} {a b : ℚ}

theorem underSign_mul (s t : Sign) (v w : ℝ) :
    underSign s v * underSign t w = underSign (s * t) (v * w) := by
  cases s <;> cases t
  · change -v * -w = v * w
    ring
  · change -v * w = -(v * w)
    ring
  · change v * -w = -(v * w)
    ring
  · rfl

theorem underSign_div (s t : Sign) (v w : ℝ) :
    underSign s v / underSign t w = underSign (s / t) (v / w) := by
  cases s <;> cases t
  · change -v / -w = v / w
    ring
  · change -v / w = -(v / w)
    ring
  · change v / -w = -(v / w)
    ring
  · rfl

theorem rounds_of_isZero {v : ℝ} (h : IsZero x) (hv : v = 0) : Rounds v x := by
  obtain ⟨s, hs⟩ := h
  rw [hv]
  exact rounds_of_zero hs

theorem rounds_mul (hx : value? x = some a) (hy : value? y = some b) :
    Rounds (a * b) (x * y) := by
  rw [mul_eq]
  rcases unpack_of_value? hx with ⟨s, hu, rfl⟩ | ⟨s, m, e, hm, hu, ⟨-, he, hnormal⟩, -, ha⟩ <;>
    rcases unpack_of_value? hy with ⟨t, hv, rfl⟩ | ⟨t, n, k, hn, hv, ⟨-, hk, hnormal'⟩, -, hb⟩ <;>
    rw [hu, hv]
  · exact rounds_of_isZero (isZero_ofModel_pack (s * t)) (by simp)
  · exact rounds_of_isZero (isZero_ofModel_pack (s * t)) (by simp)
  · exact rounds_of_isZero (isZero_ofModel_pack (s * t)) (by simp)
  · rw [ha, hb, underSign_mul]
    refine rounds_roundWithAccuracy (s * t) ?_ ?_
    · have hvalue : (m : ℝ) * 2 ^ e * (n * 2 ^ k) = ((m * n : ℕ) : ℝ) * 2 ^ (e + k) := by
        rw [zpow_add₀ two_ne_zero]
        push_cast
        ring
      rw [hvalue]
      exact represents_exact (m * n) (e + k)
    · rcases hnormal with h | rfl
      · exact .inr (h.trans (Nat.le_mul_of_pos_right m hn))
      · rcases hnormal' with h | rfl
        · exact .inr (h.trans (Nat.le_mul_of_pos_left n hm))
        · exact .inl (by decide)

theorem shiftLeft_mul_two_zpow (m k : ℕ) (e : ℤ) :
    ((m <<< k : ℕ) : ℝ) * 2 ^ (e - k) = m * 2 ^ e := by
  rw [Nat.shiftLeft_eq, zpow_sub₀ two_ne_zero, zpow_natCast]
  push_cast
  field_simp

theorem rounds_round (s : Sign) (hm : 0 < m) (e : ℤ) :
    Rounds (underSign s (m * 2 ^ e))
      (.ofModel (.pack (UnpackedFloat.round Format.binary64 s m e))) := by
  simp only [UnpackedFloat.round, decreaseExponent]
  generalize htarget : Format.binary64.targetExponent (totalExponent m e) = t
  rw [targetExponent_eq, totalExponent] at htarget
  refine rounds_roundWithAccuracy s ?_ ?_
  · rw [← shiftLeft_mul_two_zpow m (e - t).toNat e]
    exact represents_exact _ _
  · have hlog := log2_mul_two_pow hm (e - t).toNat
    have hpos : m * 2 ^ (e - t).toNat ≠ 0 := (Nat.mul_pos hm (Nat.two_pow_pos _)).ne'
    rw [Nat.shiftLeft_eq, ← Nat.le_log2 hpos, hlog]
    omega

theorem rounds_normalize (n : ℤ) (e : ℤ) :
    Rounds (n * 2 ^ e)
      (.ofModel (.pack (UnpackedFloat.normalize Format.binary64 n e .positive))) := by
  rcases lt_trichotomy n 0 with h | rfl | h
  · have hcmp : compare n 0 = .lt := Int.compare_eq_lt.mpr h
    have hcast : (((-n).toNat : ℤ) : ℝ) = -n := by exact_mod_cast Int.toNat_of_nonneg (by omega)
    have hround := rounds_round .negative (m := (-n).toNat) (by omega) e
    simp only [UnpackedFloat.normalize, hcmp]
    rw [Int.cast_natCast] at hcast
    simpa [hcast] using hround
  · exact rounds_of_isZero (isZero_ofModel_pack .positive) (by simp)
  · have hcmp : compare n 0 = .gt := Int.compare_eq_gt.mpr h
    have hcast : ((n.toNat : ℤ) : ℝ) = n := by exact_mod_cast Int.toNat_of_nonneg h.le
    have hround := rounds_round .positive (m := n.toNat) (by omega) e
    simp only [UnpackedFloat.normalize, hcmp]
    rw [Int.cast_natCast] at hcast
    simpa [hcast] using hround

theorem SameValue.value?_eq (h : SameValue x y) : value? x = value? y := by
  rcases h with rfl | ⟨⟨s, hs⟩, ⟨t, ht⟩⟩
  · rfl
  · rw [value?_of_zero hs, value?_of_zero ht]

theorem cast_apply (s : Sign) (n : ℕ) : ((s.apply n : ℤ) : ℝ) = underSign s n := by
  cases s <;> simp [Sign.apply]

theorem apply_shiftLeft_mul (s : Sign) {m : ℕ} {e t : ℤ} (h : t ≤ e) :
    ((s.apply ((m <<< (e - t).toNat : ℕ) : ℤ) : ℤ) : ℝ) * 2 ^ t = underSign s (m * 2 ^ e) := by
  have hexp : e - ((e - t).toNat : ℤ) = t := by omega
  have hvalue := shiftLeft_mul_two_zpow m (e - t).toNat e
  rw [hexp] at hvalue
  rw [cast_apply, ← hvalue]
  cases s <;> simp

theorem rounds_add_zero (hx : value? x = some a) (hy : IsZero y) : Rounds a (x + y) := by
  refine rounds_value ?_
  rw [(SameValue.add_of_isZero hy).value?_eq, hx]

theorem rounds_add (hx : value? x = some a) (hy : value? y = some b) :
    Rounds (a + b) (x + y) := by
  rcases unpack_of_value? hx with ⟨s, hu, rfl⟩ | ⟨s, m, e, hm, hu, -, -, ha⟩
  · rw [add_comm x]
    simpa using rounds_add_zero hy ⟨s, hu⟩
  · rcases unpack_of_value? hy with ⟨t, hv, rfl⟩ | ⟨t, n, k, hn, hv, -, -, hb⟩
    · simpa using rounds_add_zero hx ⟨t, hv⟩
    · rw [add_eq, hu, hv, ha, hb]
      have hsum := rounds_normalize (s.apply ((m <<< (e - min e k).toNat : ℕ) : ℤ) +
        t.apply ((n <<< (k - min e k).toNat : ℕ) : ℤ)) (min e k)
      rw [Int.cast_add, add_mul, apply_shiftLeft_mul s (min_le_left _ _),
        apply_shiftLeft_mul t (min_le_right _ _)] at hsum
      exact hsum

theorem value?_neg (hx : value? x = some a) : value? (-x) = some (-a) := by
  rw [value?, dyadic?] at hx ⊢
  rw [unpack_neg]
  cases hu : x.toModel.unpack with
  | notANumber => simp [hu] at hx
  | infinity s => simp [hu] at hx
  | zero s =>
    simp only [hu, Option.map_some, Option.some.injEq, UnpackedFloat.neg] at hx ⊢
    rw [← hx, (Dyadic.value_eq_zero_iff _).mpr rfl, (Dyadic.value_eq_zero_iff _).mpr rfl, neg_zero]
  | finite s m e hm =>
    simp only [hu, Option.map_some, Option.some.injEq, UnpackedFloat.neg] at hx ⊢
    rw [← hx]
    cases s
    · change Dyadic.value ⟨false, m, e⟩ = -Dyadic.value ⟨true, m, e⟩
      simp [Dyadic.value, Dyadic.sign]
    · change Dyadic.value ⟨true, m, e⟩ = -Dyadic.value ⟨false, m, e⟩
      simp [Dyadic.value, Dyadic.sign]

theorem rounds_sub (hx : value? x = some a) (hy : value? y = some b) :
    Rounds (a - b) (x - y) := by
  have hvalue : (a : ℝ) - b = a + ((-b : ℚ) : ℝ) := by
    push_cast
    ring
  rw [sub_eq_add_neg, hvalue]
  exact rounds_add hx (value?_neg hy)

theorem represents_accuracyOfFraction (m : ℕ) (hn : 0 < n) :
    Represents (.ofMantissaAndAccuracy (m / n) (accuracyOfFraction (m % n) n)) ((m : ℝ) / n) := by
  have hpos : (0 : ℝ) < n := by exact_mod_cast hn
  have hmod : (m : ℝ) = (m / n : ℕ) * n + (m % n : ℕ) := by
    exact_mod_cast (Nat.div_add_mod' m n).symm
  have hlt : ((m % n : ℕ) : ℝ) < n := by exact_mod_cast Nat.mod_lt m hn
  have hsplit : (m : ℝ) / n = (m / n : ℕ) + (m % n : ℕ) / n := by
    rw [hmod]
    field_simp
  rw [hsplit, accuracyOfFraction]
  split
  · next hz => simp [Represents, ExtendedMantissa.ofMantissaAndAccuracy, hz]
  · next hz =>
    have hrest : (0 : ℝ) < (m % n : ℕ) / n :=
      div_pos (by exact_mod_cast Nat.pos_of_ne_zero hz) hpos
    have hone : ((m % n : ℕ) : ℝ) / n < 1 := (div_lt_one hpos).mpr hlt
    rcases lt_trichotomy (2 * (m % n)) n with h | h | h
    · have hhalf : ((m % n : ℕ) : ℝ) / n < 1 / 2 := by
        rw [div_lt_div_iff₀ hpos two_pos]
        exact_mod_cast (by omega : m % n * 2 < 1 * n)
      rw [Nat.compare_eq_lt.mpr h]
      exact represents_lt (by linarith) (by linarith)
    · have hhalf : ((m % n : ℕ) : ℝ) / n = 1 / 2 := by
        rw [div_eq_div_iff hpos.ne' two_ne_zero]
        exact_mod_cast (by omega : m % n * 2 = 1 * n)
      rw [Nat.compare_eq_eq.mpr h, hhalf]
      rfl
    · have hhalf : 1 / 2 < ((m % n : ℕ) : ℝ) / n := by
        rw [div_lt_div_iff₀ two_pos hpos]
        exact_mod_cast (by omega : 1 * n < m % n * 2)
      rw [Nat.compare_eq_gt.mpr h]
      exact represents_gt (by linarith) (by linarith)

/-- The quotient has enough bits, or the lowest exponent there is. -/
theorem divCore_long (hm : 0 < m) (hn : 0 < n) {t : ℤ}
    (ht : t =
      min (e - k) (Format.binary64.targetExponent (totalExponent m e - totalExponent n k))) :
    t ≤ -1074 ∨ 2 ^ 52 ≤ m * 2 ^ (e - k - t).toNat / n := by
  by_cases hlow : t ≤ -1074
  · exact .inl hlow
  · right
    rw [targetExponent_eq, totalExponent, totalExponent] at ht
    have hmlow : 2 ^ m.log2 ≤ m := Nat.log2_self_le hm.ne'
    have hnhigh : n ≤ 2 ^ (n.log2 + 1) := Nat.lt_log2_self.le
    rw [Nat.le_div_iff_mul_le hn]
    calc
      2 ^ 52 * n ≤ 2 ^ 52 * 2 ^ (n.log2 + 1) := Nat.mul_le_mul_left _ hnhigh
      _ = 2 ^ (52 + (n.log2 + 1)) := (Nat.pow_add ..).symm
      _ ≤ 2 ^ (m.log2 + (e - k - t).toNat) := Nat.pow_le_pow_right (by decide) (by omega)
      _ = 2 ^ m.log2 * 2 ^ (e - k - t).toNat := Nat.pow_add ..
      _ ≤ m * 2 ^ (e - k - t).toNat := Nat.mul_le_mul_right _ hmlow

theorem rounds_div (hx : value? x = some a) (hy : value? y = some b) (hb : b ≠ 0) :
    Rounds (a / b) (x / y) := by
  rw [div_eq]
  rcases unpack_of_value? hy with ⟨t, hv, rfl⟩ | ⟨t, n, k, hn, hv, -, -, hb'⟩
  · exact absurd rfl hb
  rcases unpack_of_value? hx with ⟨s, hu, rfl⟩ | ⟨s, m, e, hm, hu, -, -, ha⟩ <;> rw [hu, hv]
  · exact rounds_of_isZero (isZero_ofModel_pack (s / t)) (by simp)
  · rw [ha, hb', underSign_div]
    simp only [UnpackedFloat.div, divCore, Nat.shiftLeft_eq]
    generalize ht : min (e - k) (Format.binary64.targetExponent
      (totalExponent m e - totalExponent n k)) = t
    have hle : t ≤ e - k := by omega
    refine rounds_roundWithAccuracy _ ?_ (divCore_long hm hn ht.symm)
    have hvalue : (m : ℝ) * 2 ^ e / (n * 2 ^ k) / 2 ^ t =
        ((m * 2 ^ (e - k - t).toNat : ℕ) : ℝ) / n := by
      have hexp : ((e - k - t).toNat : ℤ) = e - k - t := by omega
      push_cast
      rw [← zpow_natCast, hexp, zpow_sub₀ two_ne_zero, zpow_sub₀ two_ne_zero]
      field_simp
    rw [hvalue]
    exact represents_accuracyOfFraction _ hn

theorem sqrt_eq (x : Float) :
    x.sqrt = .ofModel (.pack (.sqrt Format.binary64 x.toModel.unpack)) := rfl

/-- A square root is never half way between two whole numbers. -/
theorem represents_sqrt (m : ℕ) :
    Represents (.ofMantissaAndAccuracy (Nat.sqrt m)
      (if m - Nat.sqrt m * Nat.sqrt m = 0 then .exact
      else .inexact (if m - Nat.sqrt m * Nat.sqrt m ≤ Nat.sqrt m then .lt else .gt))) (√m) := by
  have hlow := Nat.sqrt_le m
  have hhigh := Nat.lt_succ_sqrt m
  generalize Nat.sqrt m = r at *
  have hr : (0 : ℝ) ≤ r := Nat.cast_nonneg r
  split
  · next hz =>
    have hm : (m : ℝ) = r * r := by exact_mod_cast (by omega : m = r * r)
    rw [hm, Real.sqrt_mul_self hr]
    rfl
  · next hz =>
    split
    · next h =>
      have hm : (r : ℝ) * r < m := by exact_mod_cast (by omega : r * r < m)
      have hm' : (m : ℝ) ≤ r * r + r := by exact_mod_cast (by omega : m ≤ r * r + r)
      refine represents_lt ?_ ?_
      · exact Real.lt_sqrt_of_sq_lt (by linarith)
      · rw [Real.sqrt_lt' (by linarith)]
        linarith
    · next h =>
      have hm : (r : ℝ) * r + r + 1 ≤ m := by exact_mod_cast (by omega : r * r + r + 1 ≤ m)
      have hm' : (m : ℝ) < (r + 1) * (r + 1) := by exact_mod_cast hhigh
      refine represents_gt ?_ ?_
      · exact Real.lt_sqrt_of_sq_lt (by linarith)
      · rw [Real.sqrt_lt' (by linarith)]
        linarith

theorem sqrtCore_long (hm : 0 < m) {t : ℤ}
    (ht : t = min (e / 2) (Format.binary64.targetExponent ((totalExponent m e + 1) / 2))) :
    t ≤ -1074 ∨ 2 ^ 52 ≤ Nat.sqrt (m * 2 ^ (e - 2 * t).toNat) := by
  by_cases hlow : t ≤ -1074
  · exact .inl hlow
  · right
    rw [targetExponent_eq, totalExponent] at ht
    have hmlow : 2 ^ m.log2 ≤ m := Nat.log2_self_le hm.ne'
    rw [Nat.le_sqrt]
    calc
      2 ^ 52 * 2 ^ 52 = 2 ^ 104 := by norm_num
      _ ≤ 2 ^ (m.log2 + (e - 2 * t).toNat) := Nat.pow_le_pow_right (by decide) (by omega)
      _ = 2 ^ m.log2 * 2 ^ (e - 2 * t).toNat := Nat.pow_add ..
      _ ≤ m * 2 ^ (e - 2 * t).toNat := Nat.mul_le_mul_right _ hmlow

theorem rounds_sqrt (hx : value? x = some a) (ha : 0 ≤ a) : Rounds (√a) x.sqrt := by
  rw [sqrt_eq]
  rcases unpack_of_value? hx with ⟨s, hu, rfl⟩ | ⟨s, m, e, hm, hu, -, -, ha'⟩ <;> rw [hu]
  · exact rounds_of_isZero (isZero_ofModel_pack s) (by simp)
  · have hpos : (0 : ℝ) < m * 2 ^ e := by positivity
    obtain rfl : s = .positive := by
      cases s with
      | positive => rfl
      | negative =>
        have hnonneg : (0 : ℝ) ≤ a := by exact_mod_cast ha
        rw [ha', underSign_negative] at hnonneg
        linarith
    rw [ha', underSign_positive]
    simp only [UnpackedFloat.sqrt, sqrtCore, Nat.shiftLeft_eq]
    have hdiv (n : ℤ) : n.ediv 2 = n / 2 := rfl
    rw [hdiv, hdiv]
    generalize ht : min (e / 2) (Format.binary64.targetExponent
      ((totalExponent m e + 1) / 2)) = t
    have hle : 2 * t ≤ e := by omega
    refine rounds_roundWithAccuracy .positive ?_ (sqrtCore_long hm ht.symm)
    have hvalue : √(m * 2 ^ e) / 2 ^ t = √((m * 2 ^ (e - 2 * t).toNat : ℕ) : ℝ) := by
      have hexp : ((e - 2 * t).toNat : ℤ) = e - 2 * t := by omega
      have hsq : (m : ℝ) * 2 ^ e = ((m * 2 ^ (e - 2 * t).toNat : ℕ) : ℝ) * (2 ^ t) ^ 2 := by
        push_cast
        rw [← zpow_natCast, hexp, ← zpow_natCast, ← zpow_mul, mul_assoc, ← zpow_add₀ two_ne_zero]
        congr 2
        push_cast
        ring
      rw [hsq, Real.sqrt_mul (Nat.cast_nonneg _), Real.sqrt_sq (by positivity)]
      field_simp
    rw [hvalue]
    exact represents_sqrt _

end Quadratics.Number
