import Mathlib.Tactic.Positivity
import Mathlib.Tactic.Ring
import Quadratics.Number.Decimal
import Quadratics.Proofs.Number.Packing
/-! Rounding does nothing to a value that is a binary64 number: operations with such a result give
exactly that result. -/
namespace Quadratics.Number

open Float.Model Float.Model.UnpackedFloat

variable {s : Sign} {m : Nat} {e : Int}

theorem targetExponent_eq (t : Int) : Format.binary64.targetExponent t = max (t - 53) (-1074) := rfl

theorem log2_mul_two_pow (hm : 0 < m) (k : Nat) : (m * 2 ^ k).log2 = m.log2 + k := by
  induction k with
  | zero => simp
  | succ k ih =>
    have hne : m * 2 ^ k ≠ 0 := (Nat.mul_pos hm (Nat.two_pow_pos k)).ne'
    rw [Nat.pow_succ, ← Nat.mul_assoc, Nat.mul_comm _ 2, Nat.log2_two_mul hne, ih, Nat.add_assoc]

theorem totalExponent_mul_two_pow (hm : 0 < m) (k : Nat) :
    totalExponent (m * 2 ^ k) (e - k) = totalExponent m e := by
  rw [totalExponent, totalExponent, log2_mul_two_pow hm]
  omega

theorem targetExponent_totalExponent (hm : 0 < m) (h : Representable (.finite s m e hm)) :
    Format.binary64.targetExponent (totalExponent m e) = e := by
  obtain ⟨hhigh, he, -, hnormal⟩ := h
  have hlog : m.log2 ≤ 52 := Nat.lt_succ_iff.mp ((Nat.log2_lt hm.ne').mpr hhigh)
  rw [targetExponent_eq, totalExponent]
  rcases hnormal with hlow | rfl
  · have hlog' := (Nat.le_log2 hm.ne').mpr hlow
    omega
  · omega

theorem shiftRight_mul_two_pow (m k : Nat) :
    (⟨m * 2 ^ k, false, false⟩ : ExtendedMantissa) >>> k = ⟨m, false, false⟩ := by
  change k.repeat ExtendedMantissa.shiftRightOne _ = _
  have one (m : Nat) :
      ExtendedMantissa.shiftRightOne ⟨m * 2, false, false⟩ = ⟨m, false, false⟩ := by
    simp [ExtendedMantissa.shiftRightOne]
  induction k generalizing m with
  | zero => simp [Nat.repeat]
  | succ k ih =>
    rw [Nat.repeat, Nat.pow_succ', ← Nat.mul_assoc, ih, one]

theorem shiftToTargetExponent_eq (hm : 0 < m) (h : Representable (.finite s m e hm)) (k : Nat) :
    shiftToTargetExponent Format.binary64 (m * 2 ^ k) (e - k) .exact =
      (⟨m, false, false⟩, e) := by
  rw [shiftToTargetExponent, totalExponent_mul_two_pow hm, targetExponent_totalExponent hm h,
    shiftToExponent, ExtendedMantissa.ofMantissaAndAccuracy]
  have hk : (e - (e - k)).toNat = k := by omega
  simp only [hk, shiftRight_mul_two_pow]
  congr 1
  omega

/-- A value that is a number rounds to it. -/
theorem roundWithAccuracy_eq (hm : 0 < m) (h : Representable (.finite s m e hm)) (k : Nat) :
    roundWithAccuracy Format.binary64 s (m * 2 ^ k) (e - k) .exact = .finite s m e hm := by
  have hfirst := shiftToTargetExponent_eq hm h k
  have hsecond : shiftToTargetExponent Format.binary64 m e .exact = (⟨m, false, false⟩, e) := by
    simpa using shiftToTargetExponent_eq hm h 0
  have hround : (⟨m, false, false⟩ : ExtendedMantissa).roundedMantissa = m := rfl
  simp only [roundWithAccuracy, hfirst, hround, hsecond, dif_neg hm.ne']

theorem sign_mul_positive (s : Sign) : s * .positive = s := by cases s <;> rfl

theorem mul_one (x : Float) : x * 1 = x := by
  have h := representable x
  have hone : (1 : Float).toModel.unpack = .finite .positive (2 ^ 52) (-52) (by decide) := rfl
  have hmul : UnpackedFloat.mul Format.binary64 x.toModel.unpack (1 : Float).toModel.unpack =
      x.toModel.unpack := by
    rw [hone]
    cases hu : x.toModel.unpack with
    | notANumber => rfl
    | infinity s => simp [UnpackedFloat.mul, sign_mul_positive]
    | zero s => simp [UnpackedFloat.mul, sign_mul_positive]
    | finite s m e hm =>
      rw [hu] at h
      simp only [UnpackedFloat.mul, sign_mul_positive]
      exact roundWithAccuracy_eq hm h 52
  exact ofModel_pack_of_eq hmul

theorem log2_mul_le {a b : Nat} (ha : 0 < a) (hb : 0 < b) :
    (a * b).log2 ≤ a.log2 + b.log2 + 1 := by
  have hlt : a * b < 2 ^ (a.log2 + 1) * 2 ^ (b.log2 + 1) :=
    Nat.mul_lt_mul'' Nat.lt_log2_self Nat.lt_log2_self
  rw [← Nat.pow_add] at hlt
  have hlog := (Nat.log2_lt (Nat.mul_pos ha hb).ne').mpr hlt
  omega

def HasValue (digits places m : Nat) (e : Int) : Prop :=
  digits * 2 ^ (-e).toNat = m * 2 ^ e.toNat * 10 ^ places

variable {digits places : Nat}

theorem HasValue.digits_pos (hv : HasValue digits places m e) (hm : 0 < m) : 0 < digits := by
  have hpos : 0 < digits * 2 ^ (-e).toNat := by
    rw [hv]
    positivity
  exact Nat.pos_of_mul_pos_right hpos

theorem HasValue.places_le (hv : HasValue digits places m e) (hm : 0 < m) {n : Nat}
    (he : -n ≤ e) : places ≤ digits.log2 + n := by
  have hd := hv.digits_pos hm
  rw [← log2_mul_two_pow hd, Nat.le_log2 (by positivity)]
  calc
    2 ^ places ≤ 10 ^ places := Nat.pow_le_pow_left (by decide) _
    _ ≤ m * 2 ^ e.toNat * 10 ^ places := Nat.le_mul_of_pos_left _ (by positivity)
    _ = digits * 2 ^ (-e).toNat := hv.symm
    _ ≤ digits * 2 ^ n :=
      Nat.mul_le_mul_left _ (Nat.pow_le_pow_right (by decide) (by omega))

theorem HasValue.mul_two_pow (hv : HasValue digits 0 m e) (hm : m < 2 ^ 53) (hm' : 0 < m) :
    -53 ≤ e ∧ digits * 2 ^ 53 = m * 2 ^ (e + 53).toNat := by
  have hd := hv.digits_pos hm'
  rw [HasValue, Nat.pow_zero, Nat.mul_one] at hv
  rcases Int.le_total 0 e with he | he
  · have hneg : (-e).toNat = 0 := by omega
    have hsum : (e + 53).toNat = e.toNat + 53 := by omega
    rw [hneg, Nat.pow_zero, Nat.mul_one] at hv
    exact ⟨by omega, by rw [hv, hsum, Nat.pow_add, Nat.mul_assoc]⟩
  · have hpos : e.toNat = 0 := by omega
    rw [hpos, Nat.pow_zero, Nat.mul_one] at hv
    have hlt : 2 ^ (-e).toNat < 2 ^ 53 :=
      Nat.lt_of_le_of_lt (Nat.le_mul_of_pos_left _ hd) (hv ▸ hm)
    have hexp : (-e).toNat < 53 := (Nat.pow_lt_pow_iff_right (by decide)).mp hlt
    have hsum : 53 = (-e).toNat + (e + 53).toNat := by omega
    refine ⟨by omega, ?_⟩
    rw [← hv, Nat.mul_assoc, ← Nat.pow_add, ← hsum]

theorem HasValue.totalExponent_le (hv : HasValue digits places m e) (hm : 0 < m) (he : e ≤ 0) :
    totalExponent digits 0 - totalExponent (10 ^ places) 0 ≤ totalExponent m e := by
  have hd := hv.digits_pos hm
  have hpos : e.toNat = 0 := by omega
  rw [HasValue, hpos, Nat.pow_zero, Nat.mul_one] at hv
  have hlog := congrArg Nat.log2 hv
  have hle := log2_mul_le hm (Nat.pow_pos (n := places) (show 0 < 10 by decide))
  rw [log2_mul_two_pow hd] at hlog
  simp only [totalExponent]
  omega

theorem HasValue.divCore_eq (hv : HasValue digits places m e) (hm : 0 < m)
    (h : Representable (.finite .positive m e hm)) :
    ∃ k : Nat, divCore Format.binary64 digits 0 (10 ^ places) 0 = (m * 2 ^ k, e - k, .exact) := by
  let t := min (0 - 0) (Format.binary64.targetExponent
    (totalExponent digits 0 - totalExponent (10 ^ places) 0))
  have hte : t ≤ e := by
    rcases Int.le_total 0 e with he | he
    · exact Int.le_trans (Int.min_le_left _ _) he
    · have hle := hv.totalExponent_le hm he
      have htarget := targetExponent_totalExponent hm h
      rw [targetExponent_eq] at htarget
      simp only [t, targetExponent_eq]
      omega
  have ht : t ≤ 0 := Int.min_le_left _ _
  have hsum : (e - t).toNat + (-e).toNat = e.toNat + (0 - 0 - t).toNat := by omega
  have hm2 : digits * 2 ^ (0 - 0 - t).toNat = m * 2 ^ (e - t).toNat * 10 ^ places := by
    apply Nat.eq_of_mul_eq_mul_right (Nat.two_pow_pos (-e).toNat)
    calc
      digits * 2 ^ (0 - 0 - t).toNat * 2 ^ (-e).toNat
          = digits * 2 ^ (-e).toNat * 2 ^ (0 - 0 - t).toNat := Nat.mul_right_comm _ _ _
      _ = m * 10 ^ places * 2 ^ (e.toNat + (0 - 0 - t).toNat) := by
        rw [hv, Nat.pow_add]
        ring
      _ = m * 2 ^ (e - t).toNat * 10 ^ places * 2 ^ (-e).toNat := by
        rw [← hsum, Nat.pow_add]
        ring
  refine ⟨(e - t).toNat, ?_⟩
  have hdiv : digits * 2 ^ (0 - 0 - t).toNat / 10 ^ places = m * 2 ^ (e - t).toNat := by
    rw [hm2, Nat.mul_div_cancel _ (by positivity)]
  have hmod : digits * 2 ^ (0 - 0 - t).toNat % 10 ^ places = 0 := by
    rw [hm2, Nat.mul_mod_left]
  have hexp : t = e - ((e - t).toNat : Int) := by omega
  rw [divCore]
  simp only [Nat.shiftLeft_eq]
  change (digits * 2 ^ (0 - 0 - t).toNat / 10 ^ places, t,
    accuracyOfFraction (digits * 2 ^ (0 - 0 - t).toNat % 10 ^ places) (10 ^ places)) = _
  rw [hdiv, hmod, ← hexp]
  rfl

theorem HasValue.ofScientific_eq (hv : HasValue digits places m e) (hm : 0 < m)
    (h : Representable (.finite .positive m e hm)) :
    UnpackedFloat.ofScientific Format.binary64 digits (-places) = .finite .positive m e hm := by
  have hd := hv.digits_pos hm
  have hplaces : places ≤ digits.log2 + 1074 := hv.places_le hm h.2.1
  rw [UnpackedFloat.ofScientific, dif_neg hd.ne', if_neg (by norm_num),
    if_neg (by norm_num; omega)]
  cases places with
  | zero =>
    obtain ⟨he, hw⟩ := hv.mul_two_pow h.1 hm
    have hk : (-53 : Int) = e - ((e + 53).toNat : Int) := by omega
    have hround := roundWithAccuracy_eq hm h (e + 53).toNat
    rw [← hw, ← hk] at hround
    simpa [UnpackedFloat.mul, Nat.shiftLeft_eq, Format.mantissaBits, sign_mul_positive] using hround
  | succ places =>
    obtain ⟨k, hk⟩ := hv.divCore_eq hm h
    rw [if_neg (by omega)]
    have hneg : (-(-((places + 1 : Nat) : Int))).toNat = places + 1 := by omega
    simp only [UnpackedFloat.div, hneg, hk]
    exact roundWithAccuracy_eq hm h k

end Quadratics.Number
