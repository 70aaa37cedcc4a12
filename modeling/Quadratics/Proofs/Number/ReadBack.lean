import Quadratics.Number.Layout
import Quadratics.Proofs.Number.Rounding
/-! The shortest decimal of a number reads back as its magnitude, and the sign in front of it gives
the number again. -/
namespace Quadratics.Number

open Float.Model Float.Model.UnpackedFloat

variable {x : Float} {d : Dyadic}

theorem unpack_neg (x : Float) : (-x).toModel.unpack = x.toModel.unpack.neg := by
  refine unpack_ofModel_pack (u := x.toModel.unpack.neg) ?_
  have h := representable x
  cases hu : x.toModel.unpack with
  | finite s m e hm =>
    rw [hu] at h
    exact h
  | notANumber | infinity s | zero s => trivial

theorem unpack_abs (x : Float) : x.abs.toModel.unpack = x.toModel.unpack.abs := by
  refine unpack_ofModel_pack (u := x.toModel.unpack.abs) ?_
  have h := representable x
  cases hu : x.toModel.unpack with
  | finite s m e hm =>
    rw [hu] at h
    exact h
  | notANumber | infinity s | zero s => trivial

theorem eq_of_unpack {x y : Float} (h : x.toModel.unpack = y.toModel.unpack) : x = y := by
  rw [← ofModel_pack_unpack x, h, ofModel_pack_unpack]

theorem abs_abs (x : Float) : x.abs.abs = x.abs := by
  apply eq_of_unpack
  rw [unpack_abs, unpack_abs]
  cases x.toModel.unpack <;> rfl

structure Nonzero (x : Float) : Prop where
  isFinite : x.isFinite = true
  ne_zero : (x != 0) = true

theorem unpack_zero : (0 : Float).toModel.unpack = .zero .positive := rfl

theorem Nonzero.unpack (h : Nonzero x) : ∃ s m e hm, x.toModel.unpack = .finite s m e hm := by
  have hf : x.toModel.unpack.isFinite = true := h.isFinite
  have hz : (!(x.toModel.unpack.compare (0 : Float).toModel.unpack == some .eq)) = true := h.ne_zero
  rw [unpack_zero] at hz
  cases hu : x.toModel.unpack with
  | notANumber => simp [hu, UnpackedFloat.isFinite] at hf
  | infinity s => simp [hu, UnpackedFloat.isFinite] at hf
  | zero s => simp [hu, UnpackedFloat.compare] at hz
  | finite s m e hm => exact ⟨s, m, e, hm, rfl⟩

theorem lt_zero_iff {s : Sign} {m : Nat} {e : Int} {hm : 0 < m}
    (h : x.toModel.unpack = .finite s m e hm) : x < 0 ↔ s = .negative := by
  change decide ((x.toModel.unpack.compare (.zero .positive) == some .lt) = true) = true ↔ _
  rw [decide_eq_true_iff, h]
  cases s <;> simp [UnpackedFloat.compare]

theorem Nonzero.abs_of_not_lt (h : Nonzero x) (hx : ¬ x < 0) : x.abs = x := by
  obtain ⟨s, m, e, hm, hu⟩ := h.unpack
  apply eq_of_unpack
  rw [unpack_abs, hu]
  cases s with
  | positive => rfl
  | negative => exact absurd ((lt_zero_iff hu).mpr rfl) hx

theorem Nonzero.neg_abs_of_lt (h : Nonzero x) (hx : x < 0) : -x.abs = x := by
  obtain ⟨s, m, e, hm, hu⟩ := h.unpack
  apply eq_of_unpack
  rw [unpack_neg, unpack_abs, hu, (lt_zero_iff hu).mp hx]
  rfl

/-- The negative zero that is left of `= 0` changes nothing. -/
theorem Nonzero.add_neg_zero (h : Nonzero x) : x + -0 = x := by
  obtain ⟨s, m, e, hm, hu⟩ := h.unpack
  have hz : (-0 : Float).toModel.unpack = .zero .negative := rfl
  have hadd : UnpackedFloat.add Format.binary64 x.toModel.unpack (-0 : Float).toModel.unpack =
      x.toModel.unpack := by
    rw [hz, hu]
    rfl
  exact ofModel_pack_of_eq hadd

namespace Decimal

theorem toFloat_eq_abs (hx : dyadic? x = some d) {D : Decimal}
    (hv : D.digits * d.den = d.num * 10 ^ D.places) : D.toFloat = x.abs := by
  have h := representable x
  rw [dyadic?] at hx
  apply congrArg Float.ofModel
  apply congrArg Float.Model.pack
  cases hu : x.toModel.unpack with
  | notANumber => simp [hu] at hx
  | infinity s => simp [hu] at hx
  | zero s =>
    simp only [hu, Option.some.injEq] at hx
    subst hx
    have hd : D.digits = 0 := by simpa [Dyadic.num, Dyadic.den] using hv
    rw [hd]
    rfl
  | finite s m e hm =>
    rw [hu] at h
    simp only [hu, Option.some.injEq] at hx
    subst hx
    exact HasValue.ofScientific_eq hv hm h

theorem trim_value (digits places : Nat) :
    (trim digits places).digits * 10 ^ places = digits * 10 ^ (trim digits places).places := by
  induction places generalizing digits with
  | zero => rfl
  | succ places ih =>
    rw [trim]
    split
    · next h =>
      have hd : digits / 10 * 10 = digits := by omega
      rw [Nat.pow_succ, ← Nat.mul_assoc, ih, Nat.mul_right_comm, hd]
    · rfl

theorem ofDyadic_value (d : Dyadic) :
    (ofDyadic d).digits * d.den = d.num * 10 ^ (ofDyadic d).places := by
  have htrim := trim_value (d.num * 5 ^ (-d.exponent).toNat) (-d.exponent).toNat
  have hten : (10 : Nat) ^ (-d.exponent).toNat = d.den * 5 ^ (-d.exponent).toNat := by
    rw [Dyadic.den, Nat.pow_eq, ← Nat.mul_pow]
  apply Nat.eq_of_mul_eq_mul_right (Nat.pow_pos (n := (-d.exponent).toNat) (show 0 < 5 by decide))
  rw [Nat.mul_assoc, ← hten, ofDyadic, Nat.pow_eq, htrim]
  ring

/-- The sign is left out, and nothing else is lost. -/
theorem toFloat_shortest (hx : dyadic? x = some d) : (shortest x d).toFloat = x.abs := by
  unfold shortest
  simp only
  cases hf : List.findSome? _ _ with
  | none => exact toFloat_eq_abs hx (ofDyadic_value d)
  | some c =>
    obtain ⟨step, -, hc⟩ := List.exists_of_findSome?_eq_some hf
    simpa using List.find?_some hc

end Decimal

theorem dyadic?_of_unpack {s : Sign} {m : Nat} {e : Int} {hm : 0 < m}
    (h : x.toModel.unpack = .finite s m e hm) : dyadic? x = some ⟨s == .negative, m, e⟩ := by
  simp [dyadic?, h]

theorem dyadic?_abs (h : x.isFinite = true) :
    ∃ d, dyadic? x.abs = some d ∧ d.negative = false := by
  have hf : x.toModel.unpack.isFinite = true := h
  have ha := unpack_abs x
  cases hu : x.toModel.unpack with
  | notANumber => simp [hu, UnpackedFloat.isFinite] at hf
  | infinity s => simp [hu, UnpackedFloat.isFinite] at hf
  | zero s =>
    rw [hu] at ha
    exact ⟨⟨false, 0, 0⟩, by rw [dyadic?, ha]; rfl, rfl⟩
  | finite s m e hm =>
    rw [hu] at ha
    exact ⟨⟨false, m, e⟩, dyadic?_of_unpack ha, rfl⟩

theorem plainChars_abs (h : x.isFinite = true) :
    ∃ d : Decimal, plainChars x.abs = d.chars ∧ d.toFloat = x.abs := by
  obtain ⟨d, hd, hn⟩ := dyadic?_abs h
  refine ⟨Decimal.shortest x.abs d, ?_, ?_⟩
  · simp [plainChars, layout, hd, hn]
  · rw [Decimal.toFloat_shortest hd, abs_abs]

theorem dyadic?_toFloat {n : Nat} (hn : 0 < n) (hn' : n < 2 ^ 53) :
    dyadic? (⟨n, 0⟩ : Decimal).toFloat =
      some ⟨false, n * 2 ^ (52 - n.log2), -(52 - n.log2 : Nat)⟩ := by
  have hlog : n.log2 < 53 := (Nat.log2_lt hn.ne').mpr hn'
  have hm : 0 < n * 2 ^ (52 - n.log2) := Nat.mul_pos hn (Nat.two_pow_pos _)
  have hl : (n * 2 ^ (52 - n.log2)).log2 = 52 := by
    rw [log2_mul_two_pow hn]
    omega
  have hr : Representable
      (.finite .positive (n * 2 ^ (52 - n.log2)) (-(52 - n.log2 : Nat)) hm) := by
    refine ⟨?_, by omega, by omega, .inl ?_⟩
    · rw [← Nat.log2_lt hm.ne', hl]
      decide
    · rw [← Nat.le_log2 hm.ne', hl]
  have hv : HasValue n 0 (n * 2 ^ (52 - n.log2)) (-(52 - n.log2 : Nat)) := by
    simp [HasValue]
  have hu : (⟨n, 0⟩ : Decimal).toFloat.toModel.unpack =
      .finite .positive (n * 2 ^ (52 - n.log2)) (-(52 - n.log2 : Nat)) hm := by
    rw [← unpack_ofModel_pack hr, ← hv.ofScientific_eq hm hr]
    rfl
  exact dyadic?_of_unpack hu

theorem toInt?_toFloat {n : Nat} (hn : n < 2 ^ 53) :
    toInt? (⟨n, 0⟩ : Decimal).toFloat = some (n : Int) := by
  rcases Nat.eq_zero_or_pos n with rfl | hpos
  · rfl
  · simp [toInt?, dyadic?_toFloat hpos hn, Dyadic.num, Dyadic.den, Dyadic.sign]

theorem dyadic?_neg (x : Float) :
    dyadic? (-x) = (dyadic? x).map fun d => { d with negative := !d.negative } := by
  rw [dyadic?, dyadic?, unpack_neg]
  cases x.toModel.unpack with
  | notANumber => rfl
  | infinity s => rfl
  | zero s => cases s <;> rfl
  | finite s m e hm => cases s <;> rfl

theorem toInt?_neg {n : Int} (h : toInt? x = some n) : toInt? (-x) = some (-n) := by
  unfold toInt? at h ⊢
  rw [dyadic?_neg]
  cases hd : dyadic? x with
  | none => simp [hd] at h
  | some d =>
    simp only [hd] at h
    split at h
    · next hm =>
      cases h
      have hnum : ({ d with negative := !d.negative } : Dyadic).num = d.num := rfl
      have hden : ({ d with negative := !d.negative } : Dyadic).den = d.den := rfl
      simp only [Option.map_some, hnum, hden, hm, if_true, Dyadic.sign]
      cases d.negative <;> simp
    · cases h

end Quadratics.Number
