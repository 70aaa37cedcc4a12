import Mathlib
import Quadratics.Number.Binary
/-! The exact value of a number as a rational number. -/
namespace Quadratics.Number

namespace Dyadic

def value (d : Dyadic) : ℚ := d.sign d.mantissa * 2 ^ d.exponent

theorem sign_mul (d : Dyadic) (m n : Nat) : d.sign (m * n) = d.sign m * n := by
  cases hn : d.negative <;> simp [sign, hn]

theorem sign_eq_zero_iff (d : Dyadic) (n : Nat) : d.sign n = 0 ↔ n = 0 := by
  cases hn : d.negative <;> simp [sign, hn]

theorem value_eq_zero_iff (d : Dyadic) : d.value = 0 ↔ d.mantissa = 0 := by
  have hp : (2 : ℚ) ^ d.exponent ≠ 0 := zpow_ne_zero _ two_ne_zero
  rw [value, mul_eq_zero_iff_right hp, Int.cast_eq_zero, sign_eq_zero_iff]

theorem two_zpow (e : Int) : (2 : ℚ) ^ e = 2 ^ e.toNat / 2 ^ (-e).toNat := by
  rcases Int.le_total 0 e with h | h
  · obtain ⟨n, rfl⟩ := Int.eq_ofNat_of_zero_le h
    simp
  · obtain ⟨n, hn⟩ := Int.eq_ofNat_of_zero_le (Int.neg_nonneg_of_nonpos h)
    obtain rfl : e = -n := by omega
    simp

theorem value_eq_div (d : Dyadic) : d.value = d.sign d.num / d.den := by
  rw [value, two_zpow, num, den, sign_mul, Nat.pow_eq, Nat.pow_eq]
  push_cast
  ring

theorem value_of_dvd {d : Dyadic} (h : d.num % d.den = 0) :
    d.value = d.sign (d.num / d.den) := by
  obtain ⟨q, hq⟩ := Nat.dvd_of_mod_eq_zero h
  have hden : (d.den : ℚ) ≠ 0 := Nat.cast_ne_zero.mpr d.den_pos.ne'
  rw [value_eq_div, hq, Nat.mul_div_cancel_left q d.den_pos, Nat.mul_comm, sign_mul]
  push_cast
  field_simp

end Dyadic

/-- Infinities and NaN have no value. -/
def value? (x : Float) : Option ℚ := (dyadic? x).map Dyadic.value

theorem isFinite_iff {x : Float} : x.isFinite = true ↔ ∃ a, value? x = some a := by
  rw [Float.isFinite, Float.Model.isFinite, value?, dyadic?]
  cases x.toModel.unpack <;> simp [Float.Model.UnpackedFloat.isFinite]

theorem value?_one : value? 1 = some 1 := by
  have h : dyadic? 1 = some ⟨false, 2 ^ 52, -52⟩ := by decide
  rw [value?, h]
  norm_num [Dyadic.value, Dyadic.sign]

theorem value?_of_toInt? {x : Float} {n : Int} (h : toInt? x = some n) :
    value? x = some (n : ℚ) := by
  unfold toInt? at h
  cases hd : dyadic? x with
  | none => simp [hd] at h
  | some d =>
    simp only [hd] at h
    split at h
    · next hm =>
      cases h
      rw [value?, hd, Option.map_some, Dyadic.value_of_dvd hm]
    · cases h

theorem beq_zero_iff {x : Float} {a : ℚ} (h : value? x = some a) : (x == 0) = true ↔ a = 0 := by
  have hz : (0 : Float).toModel.unpack = .zero .positive := rfl
  change (x.toModel.unpack.compare (0 : Float).toModel.unpack == some .eq) = true ↔ _
  rw [hz]
  rw [value?, dyadic?] at h
  cases hu : x.toModel.unpack with
  | notANumber => simp [hu] at h
  | infinity s => simp [hu] at h
  | zero s =>
    simp only [hu, Option.map_some, Option.some.injEq] at h
    simp [← h, Dyadic.value_eq_zero_iff, Float.Model.UnpackedFloat.compare]
  | finite s m e hm =>
    simp only [hu, Option.map_some, Option.some.injEq] at h
    rw [← h, Dyadic.value_eq_zero_iff]
    cases s <;> simp [Float.Model.UnpackedFloat.compare, hm.ne']

end Quadratics.Number
