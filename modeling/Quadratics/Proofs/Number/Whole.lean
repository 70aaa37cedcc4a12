import Quadratics.Number.Layout
import Quadratics.Proofs.Number.Bounds
/-! Whole numbers and their digits. What is rounded to a whole number is one, the shortest decimal
of a whole number has no places, and the digits of a number are zeros only if it is zero. -/
namespace Quadratics.Number

open Float.Model Float.Model.UnpackedFloat

variable {x : Float} {d : Dyadic} {n : ℕ}

theorem rounds_ofNat (hn : n < 2 ^ 53) : Rounds n (Float.ofNat n) := by
  have hmodel : Float.ofNat n = .ofModel (.pack (.normalize Format.binary64 n 0 .positive)) := by
    change Float.ofScientific n false 0 = _
    rw [Float.ofScientific, dif_pos ⟨hn, by decide⟩]
    change n.toUInt64.toFloat * 1 = _
    rw [mul_one]
    change Float.ofModel (.pack (.normalize Format.binary64 n.toUInt64.toNat 0 .positive)) = _
    rw [show n.toUInt64.toNat = n from Nat.mod_eq_of_lt (hn.trans (by decide))]
  rw [hmodel]
  simpa using rounds_normalize n 0

theorem value?_ofNat (hn : n < 2 ^ 53) : value? (Float.ofNat n) = some (n : ℚ) := by
  have hlt : (n : ℝ) < 2 ^ (1024 : ℤ) := by
    refine (show (n : ℝ) < 2 ^ (53 : ℤ) by exact_mod_cast hn).trans ?_
    exact zpow_lt_zpow_right₀ one_lt_two (by decide)
  obtain ⟨q, hq, hvalue⟩ := (rounds_ofNat hn).value_of_fits
    ⟨n, 0, by rw [Nat.abs_cast]; omega, by decide, by simp⟩ (by rwa [Nat.abs_cast])
  rw [hq, show q = n by exact_mod_cast hvalue]

theorem ofNat_eq_toFloat (hn : ¬ n < 2 ^ 53) : Float.ofNat n = (⟨n, 0⟩ : Decimal).toFloat := by
  change Float.ofScientific n false 0 = _
  rw [Float.ofScientific, dif_neg fun h => hn h.1]
  rfl

theorem abs_eq_or (x : Float) : x.abs = x ∨ x.abs = -x := by
  have hcases : x.toModel.unpack.abs = x.toModel.unpack ∨
      x.toModel.unpack.abs = x.toModel.unpack.neg := by
    rcases x.toModel.unpack with (_ | _) | _ | (_ | _) | ⟨_ | _, m, e, hm⟩ <;>
      first | exact .inl rfl | exact .inr rfl
  exact hcases.imp (fun h => eq_of_unpack (by rw [unpack_abs, h]))
    fun h => eq_of_unpack (by rw [unpack_abs, unpack_neg, h])

theorem mantissa_lt (hx : dyadic? x = some d) : d.mantissa < 2 ^ 53 := by
  have hr := representable x
  rw [dyadic?] at hx
  cases hu : x.toModel.unpack with
  | notANumber => simp [hu] at hx
  | infinity s => simp [hu] at hx
  | zero s =>
    simp only [hu, Option.some.injEq] at hx
    subst hx
    exact Nat.two_pow_pos 53
  | finite s m e hm =>
    rw [hu] at hr
    simp only [hu, Option.some.injEq] at hx
    subst hx
    exact hr.1

theorem exists_dyadic? (hx : x.isFinite = true) : ∃ d, dyadic? x = some d := by
  obtain ⟨a, ha⟩ := isFinite_iff.mp hx
  obtain ⟨d, hd, -⟩ := Option.map_eq_some_iff.mp ha
  exact ⟨d, hd⟩

theorem dyadic?_eq_none (h : ¬ x.isFinite = true) : dyadic? x = none := by
  cases hd : dyadic? x with
  | none => rfl
  | some d => exact absurd (isFinite_iff.mpr ⟨d.value, by rw [value?, hd]; rfl⟩) h

theorem Dyadic.abs_value (d : Dyadic) : |d.value| = d.num / d.den := by
  rw [value_eq_div, abs_div, Nat.abs_cast]
  congr 1
  cases hn : d.negative <;> simp [sign, hn]

theorem isWhole_of_value?_zero (h : value? x = some 0) : isWhole x = true := by
  obtain ⟨d, hd, hvalue⟩ := Option.map_eq_some_iff.mp h
  have hzero := d.value_eq_zero_iff.mp hvalue
  simp [isWhole, toInt?, hd, Dyadic.num, hzero]

theorem den_eq_one (hd : dyadic? x = some d)
    (h : ¬ (2 * d.num + d.den) / (2 * d.den) < 2 ^ 53) : d.den = 1 := by
  have hpos := d.den_pos
  have hm := mantissa_lt hd
  have hexp : 0 ≤ d.exponent := by
    by_contra hneg
    have hnum : d.num = d.mantissa := by
      rw [Dyadic.num, show d.exponent.toNat = 0 by omega, Nat.pow_eq, pow_zero, Nat.mul_one]
    refine h ((Nat.div_lt_iff_lt_mul (by omega)).mpr ?_)
    omega
  rw [Dyadic.den, show (-d.exponent).toNat = 0 by omega, Nat.pow_eq, pow_zero]

/-- From `2 ^ 53` on a number is whole and stays as it is. -/
theorem exists_value?_roundAway (hx : x.isFinite = true) :
    ∃ n : ℤ, value? (roundAway x) = some (n : ℚ) := by
  obtain ⟨d, hd⟩ := exists_dyadic? hx
  obtain ⟨n, hn⟩ : ∃ n : ℤ,
      value? (Float.ofNat ((2 * d.num + d.den) / (2 * d.den))) = some (n : ℚ) := by
    by_cases hlt : (2 * d.num + d.den) / (2 * d.den) < 2 ^ 53
    · exact ⟨_, by rw [Int.cast_natCast]; exact value?_ofNat hlt⟩
    · have hden := den_eq_one hd hlt
      have hself : (2 * d.num + d.den) / (2 * d.den) = d.num := by
        rw [hden]
        omega
      have hvalue : value? x = some ((d.sign d.num : ℤ) : ℚ) := by
        rw [value?, hd, Option.map_some, Dyadic.value_eq_div, hden]
        simp
      rw [hself] at hlt ⊢
      rw [ofNat_eq_toFloat hlt, Decimal.toFloat_eq_abs hd (by simp [hden])]
      rcases abs_eq_or x with habs | habs <;> rw [habs]
      · exact ⟨_, hvalue⟩
      · exact ⟨-d.sign d.num, by simpa using value?_neg hvalue⟩
  simp only [roundAway, hd, signed]
  split
  · exact ⟨-n, by simpa using value?_neg hn⟩
  · exact ⟨n, hn⟩

namespace Decimal

theorem trim_mul_pow (n places : ℕ) : trim (n * 10 ^ places) places = ⟨n, 0⟩ := by
  induction places with
  | zero => simp [trim]
  | succ places ih =>
    have hten : n * 10 ^ (places + 1) = n * 10 ^ places * 10 := by ring
    rw [trim, hten, if_pos (Nat.mul_mod_left _ _), Nat.mul_div_cancel _ (by decide), ih]

theorem places_of_mem_around {num den : ℕ} {step : ℤ} {c : Decimal} (hs : 0 ≤ step)
    (hc : c ∈ around num den step) : c.places = 0 := by
  have hplaces (count : ℕ) : (multiple step count).places = 0 := by
    rw [multiple, show (-step).toNat = 0 by omega, trim]
  simp only [around] at hc
  split at hc <;> simp only [List.mem_cons, List.not_mem_nil, or_false] at hc <;>
    rcases hc with rfl | rfl <;> exact hplaces _

theorem leading_nonneg {num den : ℕ} (h : num % den = 0) : 0 ≤ leading num den := by
  have hlen (n : ℕ) : 0 < (Nat.toDigits 10 n).length :=
    List.length_pos_of_ne_nil Nat.toDigits_ne_nil
  rw [leading]
  split
  · have := hlen (num / den)
    omega
  · next hlt =>
    rw [Nat.mod_eq_of_lt (by omega)] at h
    simp [h]

theorem find?_around_ne_none (hx : dyadic? x = some d) (hw : d.num % d.den = 0) :
    (around d.num d.den 0).find? (fun c => c.toFloat = x.abs) ≠ none := by
  have hself : (multiple 0 (d.num / d.den)).toFloat = x.abs := by
    refine toFloat_eq_abs hx ?_
    simp [multiple, trim, Nat.div_mul_cancel (Nat.dvd_of_mod_eq_zero hw)]
  have hpos := d.den_pos
  simp [around, hw, hpos, hself]

theorem places_ofDyadic (hw : d.num % d.den = 0) : (ofDyadic d).places = 0 := by
  obtain ⟨n, hn⟩ := Nat.dvd_of_mod_eq_zero hw
  have hten : d.num * 5 ^ (-d.exponent).toNat = n * 10 ^ (-d.exponent).toNat := by
    rw [hn, Dyadic.den, Nat.pow_eq, show (10 : ℕ) = 2 * 5 from rfl, Nat.mul_pow]
    ring
  rw [ofDyadic, Nat.pow_eq, hten, trim_mul_pow]

theorem zero_mem_before {first step : ℤ} {before after : List ℤ} (hfirst : 0 ≤ first)
    (hsteps : (List.range n).map (fun i : ℕ => first - i) = before ++ step :: after)
    (hs : step < 0) : 0 ∈ before := by
  have hdown : (before ++ step :: after).Pairwise (· > ·) := by
    rw [← hsteps, List.pairwise_map]
    exact List.pairwise_lt_range.imp fun h => by omega
  have hafter := (List.pairwise_cons.mp (List.pairwise_append.mp hdown).2.1).1
  have hstep : step ∈ before ++ step :: after := by simp
  have hzero : (0 : ℤ) ∈ before ++ step :: after := by
    rw [← hsteps] at hstep ⊢
    simp only [List.mem_map, List.mem_range] at hstep ⊢
    obtain ⟨i, hi, rfl⟩ := hstep
    exact ⟨first.toNat, by omega, by omega⟩
  rw [List.mem_append, List.mem_cons] at hzero
  rcases hzero with h | rfl | h
  · exact h
  · exact absurd hs (lt_irrefl _)
  · exact absurd (hafter 0 h) (by omega)

/-- The search ends at the whole numbers at the latest. -/
theorem places_shortest (hx : dyadic? x = some d) (hw : d.num % d.den = 0) :
    (shortest x d).places = 0 := by
  unfold shortest
  simp only
  cases hf : List.findSome? _ _ with
  | none => exact places_ofDyadic hw
  | some c =>
    obtain ⟨before, step, after, hsteps, hc, hbefore⟩ := List.findSome?_eq_some_iff.mp hf
    by_cases hs : 0 ≤ step
    · exact places_of_mem_around hs (List.mem_of_find?_eq_some hc)
    · have hmem := zero_mem_before (leading_nonneg hw) hsteps (by omega)
      exact absurd (hbefore 0 hmem) (find?_around_ne_none hx hw)

theorem digits_shortest_ne_zero (hd : dyadic? x = some d) (hm : d.mantissa ≠ 0) :
    (shortest x d).digits ≠ 0 := by
  intro hz
  have habs := toFloat_shortest hd
  have hzero (D : Decimal) (h : D.digits = 0) : D.toFloat.toModel.unpack = .zero .positive := by
    rw [toFloat, h]
    exact unpack_ofModel_pack (u := .zero .positive) trivial
  have hunpack := unpack_abs x
  rw [← habs, hzero _ hz] at hunpack
  rw [dyadic?] at hd
  cases hu : x.toModel.unpack <;> rw [hu] at hd hunpack <;> cases hunpack
  cases hd
  exact hm rfl

theorem roundEven_ne_zero {num den : ℕ} (h : den < 2 * num) : roundEven num den ≠ 0 := by
  have hsplit := Nat.div_add_mod num den
  simp only [roundEven]
  generalize num / den = below at hsplit ⊢
  rcases Nat.eq_zero_or_pos below with rfl | hpos
  · rw [Nat.mul_zero, Nat.zero_add] at hsplit
    rw [hsplit, if_neg (by omega), if_pos h]
    omega
  · split
    · omega
    · split <;> omega

end Decimal

end Quadratics.Number
