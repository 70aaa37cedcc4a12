import Mathlib
import Quadratics.Proofs.Number.Rounding
import Quadratics.Proofs.Number.Value
/-! Operations on numbers and on their real values. A result is a number nearest to the real one,
among the numbers with 53 bits and an exponent as high as need be; it becomes an infinity when that
exponent is out of range. -/
namespace Quadratics.Number

open Float.Model Float.Model.UnpackedFloat

theorem two_zpow_eq_mul {K : Type*} [Field K] [CharZero K] {i j k : ℤ} (h : i + j = k) :
    (2 : K) ^ k = 2 ^ i * 2 ^ j := by
  rw [← h, zpow_add₀ two_ne_zero]

/-- A real number as its whole part, with the round bit and the sticky bit for what is behind the
point. -/
def Represents (em : ExtendedMantissa) (v : ℝ) : Prop :=
  match em.roundBit, em.stickyBit with
  | false, false => v = em.mantissa
  | false, true => em.mantissa < v ∧ v < em.mantissa + 1 / 2
  | true, false => v = em.mantissa + 1 / 2
  | true, true => em.mantissa + 1 / 2 < v ∧ v < em.mantissa + 1

namespace Represents

variable {em : ExtendedMantissa} {v : ℝ}

theorem shiftRightOne (h : Represents em v) : Represents em.shiftRightOne (v / 2) := by
  obtain ⟨m, r, s⟩ := em
  have hm : ((m % 2 : ℕ) : ℝ) + 2 * ((m / 2 : ℕ) : ℝ) = m := by exact_mod_cast Nat.mod_add_div m 2
  have hodd : ((1 : ℕ) != 0) = true := rfl
  rcases Nat.mod_two_eq_zero_or_one m with hr | hr <;> rw [hr] at hm <;> cases r <;> cases s <;>
    simp only [Represents, ExtendedMantissa.shiftRightOne, hr, hodd, bne_self_eq_false,
      Bool.or_false, Bool.or_true, Nat.cast_zero, Nat.cast_one] at h hm ⊢ <;>
    first | linarith | exact ⟨by linarith, by linarith⟩

theorem shiftRight (h : Represents em v) (k : ℕ) : Represents (em >>> k) (v / 2 ^ k) := by
  change Represents (k.repeat ExtendedMantissa.shiftRightOne em) _
  induction k with
  | zero => simpa [Nat.repeat] using h
  | succ k ih =>
    rw [Nat.repeat, pow_succ, ← div_div]
    exact ih.shiftRightOne

theorem mantissa_le (h : Represents em v) : (em.mantissa : ℝ) ≤ v := by
  obtain ⟨m, r, s⟩ := em
  cases r <;> cases s <;> simp only [Represents] at h ⊢ <;> linarith

theorem lt_mantissa_add_one (h : Represents em v) : v < em.mantissa + 1 := by
  obtain ⟨m, r, s⟩ := em
  cases r <;> cases s <;> simp only [Represents] at h ⊢ <;> linarith

theorem abs_sub_roundedMantissa_le (h : Represents em v) : |v - em.roundedMantissa| ≤ 1 / 2 := by
  obtain ⟨m, r, s⟩ := em
  have hm : ((m % 2 : ℕ) : ℝ) = 0 ∨ ((m % 2 : ℕ) : ℝ) = 1 := by
    rcases Nat.mod_two_eq_zero_or_one m with hr | hr <;> simp [hr]
  rw [abs_le]
  cases r <;> cases s <;>
    simp only [Represents, ExtendedMantissa.roundedMantissa, ExtendedMantissa.accuracy,
      Accuracy.roundToNearestEven, Nat.cast_add, Nat.cast_one] at h ⊢ <;>
    first
    | exact ⟨by linarith, by linarith⟩
    | rcases hm with hm | hm <;> rw [hm] <;> exact ⟨by linarith, by linarith⟩

end Represents

/-- A real number with 53 bits, however high its exponent is. -/
def Fits (r : ℝ) : Prop := ∃ m e : ℤ, |m| ≤ 2 ^ 53 ∧ -1074 ≤ e ∧ r = m * 2 ^ e

noncomputable def largest : ℝ := (2 ^ 53 - 1) * 2 ^ (971 : ℤ)

/-- Where two numbers are equally near this is so for both. -/
structure IsNearest (v w : ℝ) : Prop where
  fits : Fits w
  le_of_fits : ∀ r, Fits r → |v - w| ≤ |v - r|

theorem abs_sub_le_abs_sub_of_le_half {y : ℝ} {r : ℤ} (h : |y - r| ≤ 1 / 2) (n : ℤ) :
    |y - r| ≤ |y - n| := by
  rcases eq_or_ne n r with rfl | hne
  · exact le_rfl
  · have hone : (1 : ℝ) ≤ |(n : ℝ) - r| := by
      exact_mod_cast Int.one_le_abs (sub_ne_zero.mpr hne)
    have htri : |(n : ℝ) - r| ≤ |y - r| + |y - n| := by
      have heq : (n : ℝ) - r = (y - r) - (y - n) := by ring
      rw [heq]
      exact abs_sub _ _
    linarith

theorem Fits.div_two_zpow_le {r : ℝ} {t : ℤ} (h : Fits r) :
    (∃ n : ℤ, r / 2 ^ t = n) ∨ -1074 < t ∧ r / 2 ^ t ≤ 2 ^ 52 := by
  obtain ⟨m, e, hm, he, rfl⟩ := h
  rcases le_or_gt t e with hte | hte
  · left
    refine ⟨m * 2 ^ (e - t).toNat, ?_⟩
    have hexp : ((e - t).toNat : ℤ) = e - t := by omega
    rw [mul_div_assoc, ← zpow_sub₀ two_ne_zero, ← hexp]
    push_cast
    rfl
  · right
    refine ⟨by omega, ?_⟩
    have hle : (m : ℝ) ≤ 2 ^ 53 := by exact_mod_cast (le_abs_self m).trans hm
    calc
      (m : ℝ) * 2 ^ e / 2 ^ t = m * 2 ^ (e - t) := by rw [mul_div_assoc, ← zpow_sub₀ two_ne_zero]
      _ ≤ 2 ^ 53 * 2 ^ (-1 : ℤ) := by
        gcongr
        · norm_num
        · omega
      _ = 2 ^ 52 := by norm_num

theorem isNearest_of_scaled {v : ℝ} {r t : ℤ} (hr : |r| ≤ 2 ^ 53) (ht : -1074 ≤ t)
    (hv : -1074 < t → 2 ^ 52 ≤ v / 2 ^ t) (h : |v / 2 ^ t - r| ≤ 1 / 2) :
    IsNearest v (r * 2 ^ t) := by
  have hpos : (0 : ℝ) < 2 ^ t := by positivity
  have scale (x : ℝ) : |v - x| = 2 ^ t * |v / 2 ^ t - x / 2 ^ t| := by
    rw [← abs_of_pos hpos, ← abs_mul, abs_of_pos hpos]
    congr 1
    field_simp
  refine ⟨⟨r, t, hr, ht, rfl⟩, fun x hx => ?_⟩
  rw [scale, scale, mul_div_cancel_right₀ _ hpos.ne']
  gcongr 2 ^ t * ?_
  rcases hx.div_two_zpow_le (t := t) with ⟨n, hn⟩ | ⟨hlow, hle⟩
  · rw [hn]
    exact abs_sub_le_abs_sub_of_le_half h n
  · have hbit := abs_sub_le_abs_sub_of_le_half h (2 ^ 52)
    have hcast : ((2 ^ 52 : ℤ) : ℝ) = 2 ^ 52 := by norm_num
    rw [hcast] at hbit
    calc
      |v / 2 ^ t - r| ≤ |v / 2 ^ t - 2 ^ 52| := hbit
      _ = v / 2 ^ t - 2 ^ 52 := abs_of_nonneg (sub_nonneg.mpr (hv hlow))
      _ ≤ v / 2 ^ t - x / 2 ^ t := sub_le_sub_left hle _
      _ ≤ |v / 2 ^ t - x / 2 ^ t| := le_abs_self _

variable {s : Sign} {m : ℕ} {e : ℤ}

/-- The mantissa has 53 bits, fewer only at the lowest exponent. -/
def Canonical (m : ℕ) (e : ℤ) : Prop := m < 2 ^ 53 ∧ -1074 ≤ e ∧ (2 ^ 52 ≤ m ∨ e = -1074)

def Holds (s : Sign) (w : ℝ) : UnpackedFloat → Prop
  | .zero t => t = s ∧ w = 0
  | .finite t m e _ => t = s ∧ Canonical m e ∧ w = m * 2 ^ e
  | .infinity _ | .notANumber => False

theorem shiftToExponent_of_le {m : ℕ} {e t : ℤ} (a : Accuracy) (h : e ≤ t) :
    shiftToExponent m e a t =
      (ExtendedMantissa.ofMantissaAndAccuracy m a >>> (t - e).toNat, t) := by
  have ht : e + ((t - e).toNat : ℤ) = t := by omega
  rw [shiftToExponent, ht]

theorem shiftToTargetExponent_rounded {r : ℕ} {t : ℤ} (hr : r ≤ 2 ^ 53) (ht : -1074 ≤ t)
    (hlow : 2 ^ 52 ≤ r ∨ t = -1074) :
    ∃ n k, shiftToTargetExponent Format.binary64 r t .exact = (⟨n, false, false⟩, k) ∧
      Canonical n k ∧ (r : ℝ) * 2 ^ t = n * 2 ^ k := by
  rcases hr.lt_or_eq with hlt | rfl
  · have hlog : r.log2 ≤ 52 := by
      rcases Nat.eq_zero_or_pos r with rfl | hpos
      · decide
      · exact Nat.lt_succ_iff.mp ((Nat.log2_lt hpos.ne').mpr hlt)
    have htarget : Format.binary64.targetExponent (totalExponent r t) = t := by
      rw [targetExponent_eq, totalExponent]
      rcases hlow with h | rfl
      · have hlog' := (Nat.le_log2 (by omega)).mpr h
        omega
      · omega
    refine ⟨r, t, ?_, ⟨hlt, ht, hlow⟩, rfl⟩
    rw [shiftToTargetExponent, htarget, shiftToExponent_of_le _ le_rfl, Int.sub_self]
    rfl
  · have hlog : (2 ^ 53).log2 = 53 := Nat.log2_two_pow
    have htarget : Format.binary64.targetExponent (totalExponent (2 ^ 53) t) = t + 1 := by
      rw [targetExponent_eq, totalExponent, hlog]
      omega
    have hone : (t + 1 - t).toNat = 1 := by omega
    refine ⟨2 ^ 52, t + 1, ?_, ⟨by norm_num, by omega, .inl le_rfl⟩, ?_⟩
    · rw [shiftToTargetExponent, htarget, shiftToExponent_of_le _ (by omega), hone]
      rfl
    · rw [zpow_add₀ two_ne_zero]
      push_cast
      ring

theorem Represents.roundedMantissa_le (em : ExtendedMantissa) :
    em.mantissa ≤ em.roundedMantissa ∧ em.roundedMantissa ≤ em.mantissa + 1 := by
  obtain ⟨m, r, s⟩ := em
  cases r <;> cases s <;>
    simp only [ExtendedMantissa.roundedMantissa, ExtendedMantissa.accuracy,
      Accuracy.roundToNearestEven] <;> omega

theorem Represents.bounds {a : Accuracy} {v : ℝ}
    (h : Represents (.ofMantissaAndAccuracy m a) v) : (m : ℝ) ≤ v ∧ v < m + 1 := by
  have hm : (ExtendedMantissa.ofMantissaAndAccuracy m a).mantissa = m := by
    unfold ExtendedMantissa.ofMantissaAndAccuracy
    split <;> rfl
  have hle := h.mantissa_le
  have hlt := h.lt_mantissa_add_one
  rw [hm] at hle hlt
  exact ⟨hle, hlt⟩

/-- No bits are missing as long as the mantissa is long or the exponent low to begin with. -/
theorem exists_holds_roundWithAccuracy (s : Sign) {a : Accuracy} {v : ℝ}
    (h : Represents (.ofMantissaAndAccuracy m a) (v / 2 ^ e)) (he : e ≤ -1074 ∨ 2 ^ 52 ≤ m) :
    ∃ w, IsNearest v w ∧ Holds s w (roundWithAccuracy Format.binary64 s m e a) := by
  generalize htarget : Format.binary64.targetExponent (totalExponent m e) = t
  have hlong : 2 ^ 52 ≤ m → 52 ≤ m.log2 := fun hm => (Nat.le_log2 (by omega)).mpr hm
  have het : e ≤ t := by
    rw [← htarget, targetExponent_eq, totalExponent]
    omega
  have hfirst : shiftToTargetExponent Format.binary64 m e a =
      (ExtendedMantissa.ofMantissaAndAccuracy m a >>> (t - e).toNat, t) := by
    rw [shiftToTargetExponent, htarget, shiftToExponent_of_le a het]
  rw [targetExponent_eq, totalExponent] at htarget
  have hscaled : v / 2 ^ e / 2 ^ (t - e).toNat = v / 2 ^ t := by
    have hexp : ((t - e).toNat : ℤ) = t - e := by omega
    rw [div_div, ← zpow_natCast, hexp, ← zpow_add₀ two_ne_zero]
    congr 2
    omega
  obtain ⟨hlow, hhigh⟩ := h.bounds
  have hem := h.shiftRight (t - e).toNat
  rw [hscaled] at hem
  -- the bits of the mantissa are those of the value
  have hlog' : (m : ℝ) + 1 ≤ 2 ^ (m.log2 + 1) := by exact_mod_cast Nat.lt_log2_self
  have hpos : (0 : ℝ) < 2 ^ (t - e).toNat := by positivity
  have hnormal : -1074 < t → 2 ^ 52 ≤ v / 2 ^ t := by
    intro hgt
    have hm : m ≠ 0 := by
      rintro rfl
      rw [Nat.log2_zero] at htarget
      omega
    have hlog : ((2 : ℝ) ^ m.log2) ≤ m := by exact_mod_cast Nat.log2_self_le hm
    have hbits : m.log2 = 52 + (t - e).toNat := by omega
    rw [hbits, pow_add] at hlog
    rw [← hscaled, le_div_iff₀ hpos]
    exact hlog.trans hlow
  have hlt : v / 2 ^ t < 2 ^ 53 := by
    rw [← hscaled, div_lt_iff₀ hpos, ← pow_add]
    refine hhigh.trans_le (hlog'.trans (pow_le_pow_right₀ one_le_two ?_))
    omega
  generalize hr : ExtendedMantissa.ofMantissaAndAccuracy m a >>> (t - e).toNat = em at *
  obtain ⟨hle, hle'⟩ := Represents.roundedMantissa_le em
  have hmantissa : em.mantissa < 2 ^ 53 := by exact_mod_cast hem.mantissa_le.trans_lt hlt
  have hbit : 2 ^ 52 ≤ em.roundedMantissa ∨ t = -1074 := by
    by_cases hgt : -1074 < t
    · have hone : (2 ^ 52 : ℕ) < em.mantissa + 1 := by
        exact_mod_cast (hnormal hgt).trans_lt hem.lt_mantissa_add_one
      exact .inl (by omega)
    · exact .inr (by omega)
  obtain ⟨n, k, hsecond, hcanonical, hvalue⟩ :=
    shiftToTargetExponent_rounded (t := t) (by omega) (by omega) hbit
  refine ⟨em.roundedMantissa * 2 ^ t, ?_, ?_⟩
  · have hhalf := hem.abs_sub_roundedMantissa_le
    exact isNearest_of_scaled (r := em.roundedMantissa) (by rw [Nat.abs_cast]; omega) (by omega)
      hnormal (by exact_mod_cast hhalf)
  · simp only [roundWithAccuracy, hfirst, hsecond, hvalue]
    split
    · next hz => exact ⟨rfl, by rw [hz, Nat.cast_zero, zero_mul]⟩
    · exact ⟨rfl, hcanonical, rfl⟩

def underSign : Sign → ℝ → ℝ
  | .negative, w => -w
  | .positive, w => w

@[simp] theorem underSign_negative (w : ℝ) : underSign .negative w = -w := rfl

@[simp] theorem underSign_positive (w : ℝ) : underSign .positive w = w := rfl

@[simp] theorem underSign_zero (s : Sign) : underSign s 0 = 0 := by cases s <;> simp

theorem Fits.neg {r : ℝ} (h : Fits r) : Fits (-r) := by
  obtain ⟨m, e, hm, he, rfl⟩ := h
  exact ⟨-m, e, by simpa using hm, he, by push_cast; ring⟩

theorem IsNearest.neg {v w : ℝ} (h : IsNearest v w) : IsNearest (-v) (-w) := by
  refine ⟨h.fits.neg, fun r hr => ?_⟩
  have hle := h.le_of_fits (-r) hr.neg
  calc
    |-v - -w| = |v - w| := by rw [neg_sub_neg, abs_sub_comm]
    _ ≤ |v - -r| := hle
    _ = |-v - r| := by
      rw [abs_sub_comm]
      congr 1
      ring

theorem IsNearest.underSign {v w : ℝ} (h : IsNearest v w) (s : Sign) :
    IsNearest (underSign s v) (underSign s w) := by
  cases s with
  | positive => exact h
  | negative => exact h.neg

variable {x : Float} {a : ℚ}

theorem value?_of_zero (h : x.toModel.unpack = .zero s) : value? x = some 0 := by
  rw [value?, dyadic?, h, Option.map_some, (Dyadic.value_eq_zero_iff _).mpr rfl]

theorem value?_of_finite {hm : 0 < m} (h : x.toModel.unpack = .finite s m e hm) :
    ∃ q : ℚ, value? x = some q ∧ (q : ℝ) = underSign s (m * 2 ^ e) := by
  refine ⟨_, by rw [value?, dyadic?, h, Option.map_some], ?_⟩
  cases s <;> simp [Dyadic.value, Dyadic.sign]

theorem unpack_of_value? (h : value? x = some a) :
    (∃ s, x.toModel.unpack = .zero s ∧ a = 0) ∨
      ∃ s m e hm, x.toModel.unpack = .finite s m e hm ∧ Canonical m e ∧ e ≤ 971 ∧
        (a : ℝ) = underSign s (m * 2 ^ e) := by
  cases hu : x.toModel.unpack with
  | notANumber => simp [value?, dyadic?, hu] at h
  | infinity s => simp [value?, dyadic?, hu] at h
  | zero s =>
    rw [value?_of_zero hu, Option.some.injEq] at h
    exact .inl ⟨s, rfl, h.symm⟩
  | finite s m e hm =>
    obtain ⟨q, hq, hvalue⟩ := value?_of_finite hu
    obtain rfl : q = a := Option.some.inj (hq.symm.trans h)
    have hr := representable x
    rw [hu] at hr
    obtain ⟨hhigh, he, he', hnormal⟩ := hr
    exact .inr ⟨s, m, e, hm, rfl, ⟨hhigh, he, hnormal⟩, he', hvalue⟩

/-- A number nearest to `v`, or an infinity in place of one that is out of range. -/
inductive Rounds (v : ℝ) (x : Float) : Prop
  | number {q : ℚ} (value : value? x = some q) (nearest : IsNearest v q)
  | infinity {s : Sign} {w : ℝ} (unpack : x.toModel.unpack = .infinity s)
      (high : 2 ^ (1024 : ℤ) ≤ w) (nearest : IsNearest v (underSign s w))

theorem pack_out_of_range (hm : 0 < m) (he : 971 < e) :
    UnpackedFloat.pack Format.binary64 (.finite s m e hm) =
      UnpackedFloat.pack Format.binary64 (.infinity s) := by
  have hb : (e + (Format.binary64.exponentBias : Int) +
      (Format.binary64.mantissaBitsWithoutImplicit : Int)).toNat = (e + 1075).toNat := by
    simp [Format.exponentBias, Int.add_assoc]
  simp only [UnpackedFloat.pack, hb]
  rw [if_pos]
  change 2048 ≤ (e + 1075).toNat + 1
  omega

theorem fits_zero : Fits 0 := ⟨0, 0, by norm_num, by norm_num, by norm_num⟩

theorem IsNearest.self {v : ℝ} (h : Fits v) : IsNearest v v := ⟨h, fun r _ => by simp⟩

theorem fits_of_value? (h : value? x = some a) : Fits a := by
  rcases unpack_of_value? h with ⟨s, hu, rfl⟩ | ⟨s, m, e, hm, hu, ⟨hhigh, he, -⟩, -, ha⟩
  · simpa using fits_zero
  · have hfits : Fits (m * 2 ^ e) := ⟨m, e, by rw [Nat.abs_cast]; omega, he, by push_cast; rfl⟩
    rw [ha]
    cases s with
    | positive => exact hfits
    | negative => exact hfits.neg

theorem rounds_of_zero (h : x.toModel.unpack = .zero s) : Rounds 0 x :=
  .number (value?_of_zero h) (by simpa using IsNearest.self fits_zero)

theorem rounds_value (h : value? x = some a) : Rounds a x := .number h (.self (fits_of_value? h))

theorem Holds.rounds {v w : ℝ} {u : UnpackedFloat} (h : Holds s w u) (hv : IsNearest v w) :
    Rounds (underSign s v) (.ofModel (.pack u)) := by
  have hnearest := hv.underSign s
  cases u with
  | notANumber => exact h.elim
  | infinity t => exact h.elim
  | zero t =>
    obtain ⟨rfl, rfl⟩ := h
    have hu : (Float.ofModel (.pack (.zero t))).toModel.unpack = .zero t :=
      unpack_ofModel_pack (u := .zero t) trivial
    exact .number (value?_of_zero hu) (by simpa using hnearest)
  | finite t m e hm =>
    obtain ⟨rfl, ⟨hhigh, he, hnormal⟩, rfl⟩ := h
    rcases le_or_gt e 971 with he' | he'
    · have hu : (Float.ofModel (.pack (.finite t m e hm))).toModel.unpack = .finite t m e hm :=
        unpack_ofModel_pack (u := .finite t m e hm) ⟨hhigh, he, he', hnormal⟩
      obtain ⟨q, hq, hvalue⟩ := value?_of_finite hu
      exact .number hq (by rwa [hvalue])
    · have hu : (Float.ofModel (.pack (.finite t m e hm))).toModel.unpack = .infinity t := by
        have hpack : Float.Model.pack (.finite t m e hm) = Float.Model.pack (.infinity t) := by
          simp only [Float.Model.pack, pack_out_of_range hm he']
        rw [hpack]
        exact unpack_ofModel_pack (u := .infinity t) trivial
      refine .infinity hu ?_ hnearest
      have hlow : (2 : ℝ) ^ 52 ≤ m := by exact_mod_cast hnormal.resolve_right (by omega)
      calc
        (2 : ℝ) ^ (1024 : ℤ) = 2 ^ (52 : ℤ) * 2 ^ (972 : ℤ) := two_zpow_eq_mul rfl
        _ = 2 ^ 52 * 2 ^ (972 : ℤ) := by rw [zpow_ofNat]
        _ ≤ (m : ℝ) * 2 ^ e := by
          gcongr
          · norm_num
          · omega

/-- The result of an operation, rounded from all the bits it needs. -/
theorem rounds_roundWithAccuracy (s : Sign) {a : Accuracy} {v : ℝ}
    (h : Represents (.ofMantissaAndAccuracy m a) (v / 2 ^ e)) (he : e ≤ -1074 ∨ 2 ^ 52 ≤ m) :
    Rounds (underSign s v) (.ofModel (.pack (roundWithAccuracy Format.binary64 s m e a))) := by
  obtain ⟨w, hw, hholds⟩ := exists_holds_roundWithAccuracy s h he
  exact hholds.rounds hw

theorem represents_lt {v : ℝ} (h : m < v) (h' : v < m + 1 / 2) :
    Represents (.ofMantissaAndAccuracy m (.inexact .lt)) v := ⟨h, h'⟩

theorem represents_gt {v : ℝ} (h : m + 1 / 2 < v) (h' : v < m + 1) :
    Represents (.ofMantissaAndAccuracy m (.inexact .gt)) v := ⟨h, h'⟩

theorem represents_exact (m : ℕ) (e : ℤ) :
    Represents (.ofMantissaAndAccuracy m .exact) (m * 2 ^ e / 2 ^ e) := by
  rw [mul_div_cancel_right₀ _ (by positivity)]
  rfl

end Quadratics.Number
