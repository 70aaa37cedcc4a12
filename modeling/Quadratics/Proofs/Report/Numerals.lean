import Quadratics.Proofs.Number.Power
import Quadratics.Proofs.Number.Whole
import Quadratics.Proofs.Solver.Finite
import Quadratics.Proofs.Token.Numerals
import Quadratics.Report.Roots
/-! Roots as numerals. A root is printed as one as long as its product with the scale is in range;
an infinity or NaN is printed by name otherwise. -/
namespace Quadratics.Report

open Number (Decimal value? dyadic? dyadic?_eq_none)

/-- Digits with a minus in front or not, then nothing more or a point and exactly `places` digits.
The minus does not stand in front of a zero. -/
structure Numeral (places : ℕ) where
  negative : Bool
  whole : List Char
  fraction : Option (List Char)
  whole_ne_nil : whole ≠ []
  isDigit_whole : ∀ c ∈ whole, c.isDigit = true
  isDigit_fraction : ∀ cs ∈ fraction, ∀ c ∈ cs, c.isDigit = true
  length_fraction : ∀ cs ∈ fraction, cs.length = places
  ne_zero : negative = true → ∃ c ∈ whole ++ fraction.getD [], c ≠ '0'

variable {x y : Float} {p places : ℕ} {d : Number.Dyadic} {q : ℚ}

namespace Numeral

def chars (m : Numeral places) : List Char :=
  (if m.negative then ['-'] else []) ++ (m.whole ++ (m.fraction.map ('.' :: ·)).getD [])

theorem not_exists_of_name {text : String} (h : text.toList.any Char.isDigit = false) :
    ¬ ∃ m : Numeral places, text.toList = m.chars := by
  rintro ⟨m, hm⟩
  obtain ⟨c, cs, hc⟩ := List.exists_cons_of_ne_nil m.whole_ne_nil
  have hdigit := m.isDigit_whole c (by simp [hc])
  simp [hm, chars, hc, hdigit] at h

end Numeral

theorem exists_digit_ne_zero {D : Decimal} (h : D.digits ≠ 0) :
    ∃ c ∈ D.chars, c.isDigit = true ∧ c ≠ '0' := by
  by_contra! hzero
  have hall : D.chars.filter Char.isDigit =
      List.replicate (D.chars.filter Char.isDigit).length '0' := by
    rw [List.eq_replicate_iff]
    refine ⟨rfl, fun c hc => ?_⟩
    obtain ⟨hmem, hdigit⟩ := List.mem_filter.mp hc
    exact hzero c hmem hdigit
  have hdigits : D.digits = Nat.ofDigitChars 10 (D.chars.filter Char.isDigit) 0 :=
    congrArg Decimal.digits (Lexeme.decimal_chars D).symm
  rw [hall, Nat.ofDigitChars_replicate_zero, Nat.mul_zero] at hdigits
  exact h hdigits

theorem exists_numeral {D : Decimal} {negative : Bool} (hp : D.places = 0 ∨ D.places = places)
    (hn : negative = true → D.digits ≠ 0) :
    ∃ m : Numeral places, (if negative then ['-'] else []) ++ D.chars = m.chars := by
  by_cases hz : D.places = 0
  · have hchars : D.chars = Nat.toDigits 10 D.digits := by rw [Decimal.chars, if_pos hz]
    refine ⟨⟨negative, Nat.toDigits 10 D.digits, none, Nat.toDigits_ne_nil,
      Lexeme.all_isDigit_toDigits _, by simp, by simp, fun h => ?_⟩, ?_⟩
    · obtain ⟨c, hc, -, hne⟩ := exists_digit_ne_zero (hn h)
      exact ⟨c, by simpa [hchars] using hc, hne⟩
    · simp [Numeral.chars, hchars]
  · obtain rfl := hp.resolve_left hz
    have hchars : D.chars = Nat.toDigits 10 (D.digits / 10 ^ D.places) ++
        '.' :: Number.fraction D.places (D.digits % 10 ^ D.places) := by
      rw [Decimal.chars, if_neg hz, Nat.pow_eq]
    have hlen := Lexeme.length_fraction (Nat.pos_of_ne_zero hz)
      (Nat.mod_lt D.digits (show 0 < 10 ^ D.places by positivity))
    refine ⟨⟨negative, Nat.toDigits 10 (D.digits / 10 ^ D.places),
      some (Number.fraction D.places (D.digits % 10 ^ D.places)), Nat.toDigits_ne_nil,
      Lexeme.all_isDigit_toDigits _, ?_, ?_, fun h => ?_⟩, ?_⟩
    · rintro _ ⟨⟩
      exact Lexeme.all_isDigit_fraction _ _
    · rintro _ ⟨⟩
      exact hlen
    · obtain ⟨c, hc, hdigit, hne⟩ := exists_digit_ne_zero (hn h)
      rw [hchars, List.mem_append, List.mem_cons] at hc
      refine ⟨c, List.mem_append.mpr (hc.imp_right fun h => h.resolve_left ?_), hne⟩
      rintro rfl
      exact absurd hdigit (by decide)
    · simp [Numeral.chars, hchars]

theorem scale_eq (hp : p ≤ mostPlaces) : scale p = Number.powerInto 1 10 p := by
  have hlow : (p : ℤ).bmod Int32.size = p := by
    rw [mostPlaces] at hp
    change (p : ℤ).bmod 4294967296 = p
    rw [Int.bmod_def]
    omega
  rw [scale, hlow, Number.power, if_neg (by omega), Int.natAbs_natCast]

theorem value?_ten : value? 10 = some 10 := Number.value?_of_toInt? (n := 10) (by decide)

theorem ten_pow_le_largest (hp : p ≤ 308) : 4 / 3 * 10 ^ p ≤ Number.largest := by
  have hten : (10 : ℝ) ^ p ≤ 10 ^ 308 := pow_le_pow_right₀ (by norm_num) hp
  have hsplit : (10 : ℝ) ^ 308 = (10 ^ 77) ^ 4 := by rw [← pow_mul]
  have htwo : (2 : ℝ) ^ (971 : ℤ) = (2 ^ 194) ^ 5 * 2 := by
    rw [zpow_ofNat, ← pow_mul, ← pow_succ]
  rw [Number.largest, htwo]
  rw [hsplit] at hten
  linarith

/-- A scale that is finite is close to the power of ten, and it is up to 308 places. -/
theorem within_scale (hp : p ≤ mostPlaces) (h : (scale p).isFinite = true ∨ p ≤ 308) :
    Number.Within (4 / 3 * 10 ^ p) (scale p) := by
  have hone : Number.Within 1 1 := ⟨1, Number.value?_one, le_rfl, by norm_num⟩
  have hten : Number.Within 10 10 := ⟨10, value?_ten, by norm_num, by norm_num⟩
  have hle : 1 * 10 ^ p * (Number.excess : ℝ) ^ (2 * p) ≤ 4 / 3 * 10 ^ p := by
    rw [mostPlaces] at hp
    have hexcess := Number.excess_pow_le (n := 2 * p) (by omega)
    rw [one_mul, mul_comm]
    gcongr
  rw [scale_eq hp] at h ⊢
  exact (hone.powerInto hten (h.imp_right fun h => hle.trans (ten_pow_le_largest h))).mono hle

theorem isFinite_of_rounded (h : (rounded x p).isFinite = true) :
    (x * scale p).isFinite = true := by
  rw [rounded, Number.isFinite_positiveZero] at h
  have hround := (Number.isFinite_of_div h).1
  by_contra hy
  rw [Number.roundAway, dyadic?_eq_none hy] at hround
  exact hy hround

theorem number_of_not_isFinite (h : ¬ (x * scale p).isFinite = true) :
    number x p ∈ ["NaN", "inf", "-inf"] := by
  have hnone : dyadic? (rounded x p) = none := dyadic?_eq_none fun hr => h (isFinite_of_rounded hr)
  have hwhole : Number.isWhole (rounded x p) = false := by
    rw [Number.isWhole, Number.toInt?, hnone]
    rfl
  simp only [number, hwhole, Bool.false_eq_true, if_false, Number.toPlaces, Number.layout, hnone]
  split
  · simp
  · split <;> simp

theorem mantissa_ne_zero_of_negative (hd : dyadic? (Number.positiveZero y) = some d)
    (hn : d.negative = true) : d.mantissa ≠ 0 := by
  have hzero := Number.unpack_positiveZero_ne y
  rw [dyadic?] at hd
  cases hu : (Number.positiveZero y).toModel.unpack with
  | notANumber => simp [hu] at hd
  | infinity s => simp [hu] at hd
  | zero s =>
    simp only [hu, Option.some.injEq] at hd
    subst hd
    cases s <;> simp_all
  | finite s m e hm =>
    simp only [hu, Option.some.injEq] at hd
    subst hd
    exact hm.ne'

theorem exists_numeral_plain (hw : Number.isWhole (Number.positiveZero y) = true) :
    ∃ m : Numeral places, (Number.plain (Number.positiveZero y)).toList = m.chars := by
  obtain ⟨n, hn⟩ := Option.isSome_iff_exists.mp hw
  unfold Number.toInt? at hn
  split at hn
  · next d hd =>
    split at hn
    · next hdvd =>
      have hchars : ∃ m : Numeral places,
          (if d.negative then ['-'] else []) ++ (Decimal.shortest _ d).chars = m.chars :=
        exists_numeral (.inl (Decimal.places_shortest hd hdvd)) fun h =>
          Decimal.digits_shortest_ne_zero hd (mantissa_ne_zero_of_negative hd h)
      simpa [Number.plain, Number.plainChars, Number.layout, hd] using hchars
    · cases hn
  · cases hn

/-- More than half of the last place does not round to zero. -/
theorem exists_numeral_toPlaces (hd : dyadic? x = some d)
    (hlow : d.den < 2 * (d.num * 10 ^ places)) :
    ∃ m : Numeral places, (Number.toPlaces places x).toList = m.chars := by
  have hdigits : (Decimal.fixed places d).digits ≠ 0 :=
    Decimal.roundEven_ne_zero hlow
  have hchars : ∃ m : Numeral places,
      (if d.negative then ['-'] else []) ++ (Decimal.fixed places d).chars = m.chars :=
    exists_numeral (.inr rfl) fun _ => hdigits
  simpa [Number.toPlaces, Number.layout, hd] using hchars

theorem one_lt_of_isNearest {n : ℤ} {s w : ℝ} (hn : n ≠ 0) (hs : 1 ≤ s) (hs' : s ≤ 4 / 3 * 10 ^ p)
    (hrange : s < 2 ^ (1024 : ℤ)) (h : Number.IsNearest (n / s) w) : 1 < 2 * (|w| * 10 ^ p) := by
  have hpos : 0 < s := by linarith
  have hvalue : 1 / s ≤ |(n : ℝ) / s| := by
    rw [abs_div, abs_of_pos hpos]
    gcongr
    exact_mod_cast Int.one_le_abs hn
  have hbits : (2 : ℝ) ^ (((51 : ℕ) : ℤ) - 1075) ≤ |(n : ℝ) / s| := by
    refine le_trans ?_ hvalue
    rw [show ((51 : ℕ) : ℤ) - 1075 = -1024 by norm_num, zpow_neg, ← one_div]
    exact one_div_le_one_div_of_le hpos hrange.le
  have hplace : 3 / 4 ≤ |(n : ℝ) / s| * 10 ^ p := by
    calc
      (3 : ℝ) / 4 ≤ 1 / s * 10 ^ p := by
        rw [one_div_mul_eq_div, le_div_iff₀ hpos]
        linarith
      _ ≤ |(n : ℝ) / s| * 10 ^ p := by gcongr
  have herror := (abs_le.mp (h.abs.abs_sub_le_div (i := 51) (by norm_num) hbits)).2
  calc
    (1 : ℝ) < 2 * (3 / 4 * (1 - 1 / 2 ^ 51)) := by norm_num
    _ ≤ 2 * (|(n : ℝ) / s| * 10 ^ p * (1 - 1 / 2 ^ 51)) := by gcongr
    _ = 2 * ((|(n : ℝ) / s| - |(n : ℝ) / s| / 2 ^ 51) * 10 ^ p) := by ring
    _ ≤ 2 * (|w| * 10 ^ p) := by
      gcongr
      linarith

theorem exists_numeral_of_isFinite (hp : p ≤ mostPlaces) (h : (x * scale p).isFinite = true) :
    ∃ m : Numeral p, (number x p).toList = m.chars := by
  obtain ⟨s, hs, hlow, hhigh⟩ := within_scale hp (.inl (Number.isFinite_of_mul h).2)
  obtain ⟨n, hn⟩ := Number.exists_value?_roundAway h
  have hone : (1 : ℝ) ≤ s := by exact_mod_cast hlow
  have hrange := (le_abs_self (s : ℝ)).trans_lt (Number.abs_lt_of_value? hs)
  -- the scale is one at least, so that the quotient is not larger than the whole number
  obtain ⟨q, hq, hnear, -⟩ := (Number.rounds_div hn hs (by linarith)).value_of_abs_le
    (Number.fits_of_value? hn).abs (Number.abs_lt_of_value? hn) (by
      rw [abs_div, abs_of_pos (by linarith : (0 : ℝ) < s)]
      exact div_le_self (abs_nonneg _) hone)
  rw [Rat.cast_intCast] at hnear
  have hvalue : value? (rounded x p) = some q := by
    rw [rounded, Number.value?_positiveZero, hq]
  obtain ⟨d, hd, rfl⟩ := Option.map_eq_some_iff.mp hvalue
  simp only [number]
  split
  · next hw => exact exists_numeral_plain hw
  · next hw =>
    rw [Nat.min_eq_left hp]
    refine exists_numeral_toPlaces hd ?_
    have hne : n ≠ 0 := by
      rintro rfl
      rw [Int.cast_zero, zero_div] at hnear
      have hzero : d.value = 0 := by exact_mod_cast hnear.eq_of_fits Number.fits_zero
      exact hw (Number.isWhole_of_value?_zero (hvalue.trans (congrArg some hzero)))
    have hplace := one_lt_of_isNearest hne hone hhigh hrange hnear
    have hcast : |(d.value : ℝ)| = (d.num : ℝ) / d.den := by
      rw [← Rat.cast_abs, Number.Dyadic.abs_value]
      push_cast
      rfl
    have hden : (0 : ℝ) < d.den := by exact_mod_cast d.den_pos
    rw [hcast, div_mul_eq_mul_div, ← mul_div_assoc, lt_div_iff₀ hden, one_mul] at hplace
    exact_mod_cast hplace

theorem isFinite_of_abs_le (hx : value? x = some q) (hp : p ≤ 308)
    (hq : |q| * 10 ^ p ≤ 2 ^ (1023 : ℤ)) : (x * scale p).isFinite = true := by
  obtain ⟨s, hs, hlow, hhigh⟩ := within_scale (by rw [mostPlaces]; omega) (.inr hp)
  have hbound : |(q : ℝ)| * 10 ^ p ≤ 2 * 2 ^ (1022 : ℤ) := by
    rw [← zpow_one_add₀ two_ne_zero]
    have hcast := (Rat.cast_le (K := ℝ)).mpr hq
    rwa [Rat.cast_mul, Rat.cast_abs, Rat.cast_pow, Rat.cast_zpow, Rat.cast_ofNat,
      Rat.cast_ofNat] at hcast
  have hpos : (0 : ℝ) ≤ s := by exact_mod_cast zero_le_one.trans hlow
  have htop : Number.Fits (3 * 2 ^ (1022 : ℤ)) := ⟨3, 1022, by norm_num, by norm_num, by norm_num⟩
  have hlt : (3 : ℝ) * 2 ^ (1022 : ℤ) < 2 ^ (1024 : ℤ) := by
    rw [Number.two_zpow_eq_mul (show (2 + 1022 : ℤ) = 1024 from rfl), zpow_ofNat _ 2]
    gcongr
    norm_num
  obtain ⟨w, hw, -⟩ := (Number.rounds_mul hx hs).value_of_abs_le htop hlt (by
    rw [abs_mul, abs_of_nonneg hpos]
    calc
      |(q : ℝ)| * s ≤ |(q : ℝ)| * (4 / 3 * 10 ^ p) := by gcongr
      _ = 4 / 3 * (|(q : ℝ)| * 10 ^ p) := by ring
      _ ≤ 4 / 3 * (2 * 2 ^ (1022 : ℤ)) := by gcongr
      _ = 8 / 3 * 2 ^ (1022 : ℤ) := by ring
      _ ≤ 3 * 2 ^ (1022 : ℤ) := by
        gcongr
        norm_num)
  exact Number.isFinite_of_value? hw

/-- A name is not a numeral, so that the scaled number decides. -/
theorem number_numeral_iff (hp : p ≤ mostPlaces) :
    ((∃ m : Numeral p, (number x p).toList = m.chars) ↔ (x * scale p).isFinite = true) ∧
      (¬ (x * scale p).isFinite = true → number x p ∈ ["NaN", "inf", "-inf"]) ∧
      ∀ q, value? x = some q → p ≤ 308 → |q| * 10 ^ p ≤ 2 ^ (1023 : ℤ) →
        ∃ m : Numeral p, (number x p).toList = m.chars := by
  have hnames : ∀ text ∈ ["NaN", "inf", "-inf"], text.toList.any Char.isDigit = false := by decide
  refine ⟨⟨fun hm => ?_, exists_numeral_of_isFinite hp⟩, number_of_not_isFinite,
    fun q hx hp' hq => exists_numeral_of_isFinite hp (isFinite_of_abs_le hx hp' hq)⟩
  by_contra h
  exact Numeral.not_exists_of_name (hnames _ (number_of_not_isFinite h)) hm

theorem number_numeral_cases :
    (∃ m : Numeral 2, (number (-0.5) 2).toList = m.chars) ∧
      number (-1e307) 2 ∈ ["NaN", "inf", "-inf"] := by
  have hvalue : value? (-0.5) = some (-1 / 2) := by
    have hd : dyadic? (-0.5) = some ⟨true, 2 ^ 52, -53⟩ := by decide +kernel
    rw [value?, hd]
    norm_num [Number.Dyadic.value, Number.Dyadic.sign]
  have hbound : |(-1 / 2 : ℚ)| * 10 ^ 2 ≤ 2 ^ (1023 : ℤ) := by
    refine le_trans ?_ (zpow_le_zpow_right₀ one_le_two (show (6 : ℤ) ≤ 1023 by decide))
    norm_num
  exact ⟨(number_numeral_iff (by decide)).2.2 _ hvalue (by decide) hbound,
    (number_numeral_iff (by decide)).2.1 (by decide +kernel)⟩

/-- The product of a high number and the scale is out of range, as is the scale itself after 308
places. -/
theorem number_out_of_range :
    (1e307 : Float).isFinite = true ∧ number 1e307 defaultPrecision = "inf" ∧
      (¬ ∃ m : Numeral defaultPrecision, (number 1e307 defaultPrecision).toList = m.chars) ∧
      number 1 309 = "NaN" ∧ ¬ ∃ m : Numeral 309, (number 1 309).toList = m.chars := by
  have hinf : number 1e307 defaultPrecision = "inf" := by decide +kernel
  have hnan : number 1 309 = "NaN" := by decide +kernel
  refine ⟨by decide +kernel, hinf, ?_, hnan, ?_⟩
  · exact Numeral.not_exists_of_name (by rw [hinf]; decide)
  · exact Numeral.not_exists_of_name (by rw [hnan]; decide)

end Quadratics.Report
