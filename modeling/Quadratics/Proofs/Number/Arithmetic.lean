import Quadratics.Number.Binary
import Quadratics.Proofs.Number.Sign
/-! What negating its operands does to an operation. A sum is negated but for the sign of a zero, so
that values are compared up to it. -/
namespace Quadratics.Number

open Float.Model Float.Model.UnpackedFloat

section Unpacked

variable (s t : Sign) (u v : UnpackedFloat)

theorem neg_sign_mul : -s * t = -(s * t) := by cases s <;> cases t <;> rfl

theorem neg_sign_div : -s / t = -(s / t) := by cases s <;> cases t <;> rfl

theorem sign_div_neg : s / -t = -(s / t) := by cases s <;> cases t <;> rfl

theorem sign_mul_comm : s * t = t * s := by cases s <;> cases t <;> rfl

theorem apply_neg (n : Int) : (-s).apply n = -s.apply n := by
  cases s with
  | negative => exact (Int.neg_neg n).symm
  | positive => rfl

theorem neg_roundWithAccuracy (m : Nat) (e : Int) (a : Accuracy) :
    roundWithAccuracy Format.binary64 (-s) m e a =
      (roundWithAccuracy Format.binary64 s m e a).neg := by
  simp only [roundWithAccuracy]
  split <;> rfl

theorem neg_neg_unpacked : u.neg.neg = u := by
  cases u <;> simp [UnpackedFloat.neg, sign_neg_neg]

theorem neg_mul_unpacked :
    UnpackedFloat.mul Format.binary64 u.neg v = (UnpackedFloat.mul Format.binary64 u v).neg := by
  cases u <;> cases v <;>
    simp [UnpackedFloat.mul, UnpackedFloat.neg, neg_sign_mul, neg_roundWithAccuracy]

theorem mul_comm_unpacked :
    UnpackedFloat.mul Format.binary64 u v = UnpackedFloat.mul Format.binary64 v u := by
  cases u <;> cases v <;>
    simp [UnpackedFloat.mul, sign_mul_comm, Nat.mul_comm, Int.add_comm]

theorem neg_div_unpacked :
    UnpackedFloat.div Format.binary64 u.neg v = (UnpackedFloat.div Format.binary64 u v).neg := by
  cases u <;> cases v <;>
    simp [UnpackedFloat.div, UnpackedFloat.neg, neg_sign_div, neg_roundWithAccuracy]

theorem div_neg_unpacked :
    UnpackedFloat.div Format.binary64 u v.neg = (UnpackedFloat.div Format.binary64 u v).neg := by
  cases u <;> cases v <;>
    simp [UnpackedFloat.div, UnpackedFloat.neg, sign_div_neg, neg_roundWithAccuracy]

theorem add_comm_unpacked :
    UnpackedFloat.add Format.binary64 u v = UnpackedFloat.add Format.binary64 v u := by
  cases u with
  | infinity s =>
    cases v with
    | infinity t => cases s <;> cases t <;> rfl
    | notANumber | zero | finite => rfl
  | zero s =>
    cases v with
    | zero t => cases s <;> cases t <;> rfl
    | notANumber | infinity | finite => rfl
  | notANumber => cases v <;> rfl
  | finite s m e hm =>
    cases v with
    | finite t n k hn => simp only [UnpackedFloat.add, Int.min_comm, Int.add_comm]
    | notANumber | infinity | zero => rfl

theorem sub_eq_add_neg_unpacked :
    UnpackedFloat.sub Format.binary64 u v = UnpackedFloat.add Format.binary64 u v.neg := by
  cases u <;> cases v <;>
    simp [UnpackedFloat.sub, UnpackedFloat.add, UnpackedFloat.neg, apply_neg, Int.sub_eq_add_neg]

theorem neg_normalize {n : Int} (hn : n ≠ 0) (e : Int) :
    UnpackedFloat.normalize Format.binary64 (-n) e .positive =
      (UnpackedFloat.normalize Format.binary64 n e .positive).neg := by
  rcases Int.lt_or_gt_of_ne hn with h | h
  · have hlt : compare n 0 = .lt := Int.compare_eq_lt.mpr h
    have hgt : compare (-n) 0 = .gt := Int.compare_eq_gt.mpr (by omega)
    simp only [UnpackedFloat.normalize, hlt, hgt]
    exact neg_roundWithAccuracy .negative _ _ _
  · have hgt : compare n 0 = .gt := Int.compare_eq_gt.mpr h
    have hlt : compare (-n) 0 = .lt := Int.compare_eq_lt.mpr (by omega)
    simp only [UnpackedFloat.normalize, hlt, hgt, Int.neg_neg]
    exact neg_roundWithAccuracy .positive _ _ _

/-- A sum that cancels is a positive zero, whatever the signs. -/
theorem neg_add_unpacked :
    UnpackedFloat.add Format.binary64 u.neg v.neg =
        (UnpackedFloat.add Format.binary64 u v).neg ∨
      UnpackedFloat.add Format.binary64 u.neg v.neg = .zero .positive ∧
        UnpackedFloat.add Format.binary64 u v = .zero .positive := by
  cases u with
  | infinity s =>
    cases v with
    | infinity t => cases s <;> cases t <;> exact .inl rfl
    | notANumber | zero | finite => exact .inl rfl
  | zero s =>
    cases v with
    | zero t => cases s <;> cases t <;> first | exact .inl rfl | exact .inr ⟨rfl, rfl⟩
    | notANumber | infinity | finite => exact .inl rfl
  | notANumber => cases v <;> exact .inl rfl
  | finite s m e hm =>
    cases v with
    | finite t n k hn =>
      simp only [UnpackedFloat.add, UnpackedFloat.neg, apply_neg, ← Int.neg_add]
      generalize s.apply _ + t.apply _ = sum
      by_cases h : sum = 0
      · subst h
        exact .inr ⟨rfl, rfl⟩
      · exact .inl (neg_normalize h _)
    | notANumber | infinity | zero => exact .inl rfl

end Unpacked

section Laws

variable (x y : Float)

theorem mul_eq : x * y =
    .ofModel (.pack (.mul Format.binary64 x.toModel.unpack y.toModel.unpack)) := rfl

theorem div_eq : x / y =
    .ofModel (.pack (.div Format.binary64 x.toModel.unpack y.toModel.unpack)) := rfl

theorem add_eq : x + y =
    .ofModel (.pack (.add Format.binary64 x.toModel.unpack y.toModel.unpack)) := rfl

theorem sub_eq : x - y =
    .ofModel (.pack (.sub Format.binary64 x.toModel.unpack y.toModel.unpack)) := rfl

theorem neg_neg : - -x = x := by
  apply eq_of_unpack
  rw [unpack_neg, unpack_neg, neg_neg_unpacked]

theorem mul_comm : x * y = y * x :=
  congrArg (fun u => Float.ofModel (.pack u)) (mul_comm_unpacked _ _)

theorem neg_mul : -x * y = -(x * y) := by
  rw [mul_eq, unpack_neg, neg_mul_unpacked, ofModel_pack_neg, ← mul_eq]

theorem mul_neg : x * -y = -(x * y) := by
  rw [mul_comm, neg_mul, mul_comm]

theorem neg_div : -x / y = -(x / y) := by
  rw [div_eq, unpack_neg, neg_div_unpacked, ofModel_pack_neg, ← div_eq]

theorem div_neg : x / -y = -(x / y) := by
  rw [div_eq, unpack_neg, div_neg_unpacked, ofModel_pack_neg, ← div_eq]

theorem add_comm : x + y = y + x :=
  congrArg (fun u => Float.ofModel (.pack u)) (add_comm_unpacked _ _)

theorem sub_eq_add_neg : x - y = x + -y := by
  rw [add_eq, unpack_neg, ← sub_eq_add_neg_unpacked, ← sub_eq]

theorem abs_neg : (-x).abs = x.abs := by
  apply eq_of_unpack
  rw [unpack_abs, unpack_abs, unpack_neg]
  cases x.toModel.unpack <;> rfl

theorem isFinite_neg : (-x).isFinite = x.isFinite := by
  have h : (-x).toModel.unpack.isFinite = x.toModel.unpack.isFinite := by
    rw [unpack_neg]
    cases x.toModel.unpack <;> rfl
  exact h

end Laws

def IsZero (x : Float) : Prop := ∃ s, x.toModel.unpack = .zero s

def SameValue (x y : Float) : Prop := x = y ∨ IsZero x ∧ IsZero y

variable {x x' y y' z : Float}

theorem isZero_iff : (x == 0) = true ↔ IsZero x := by
  change (x.toModel.unpack.compare (.zero .positive) == some .eq) = true ↔ _
  rw [IsZero]
  cases x.toModel.unpack with
  | notANumber => simp [UnpackedFloat.compare]
  | infinity s => cases s <;> simp [UnpackedFloat.compare]
  | zero s => simp [UnpackedFloat.compare]
  | finite s m e hm => cases s <;> simp [UnpackedFloat.compare]

theorem bne_zero_iff : (x != 0) = true ↔ ¬ IsZero x := by
  rw [← isZero_iff, bne, Bool.not_eq_true', Bool.not_eq_true]

theorem isZero_neg : IsZero (-x) ↔ IsZero x := by
  have neg {x : Float} (h : IsZero x) : IsZero (-x) := by
    obtain ⟨s, hs⟩ := h
    exact ⟨-s, by rw [unpack_neg, hs]; rfl⟩
  exact ⟨fun h => neg_neg x ▸ neg h, neg⟩

theorem isZero_ofModel_pack (s : Sign) : IsZero (Float.ofModel (.pack (.zero s))) :=
  ⟨s, unpack_ofModel_pack (u := .zero s) trivial⟩

namespace SameValue

theorem refl (x : Float) : SameValue x x := .inl rfl

theorem symm (h : SameValue x y) : SameValue y x := by
  rcases h with rfl | ⟨hx, hy⟩
  · exact .refl _
  · exact .inr ⟨hy, hx⟩

theorem trans (h : SameValue x y) (h' : SameValue y z) : SameValue x z := by
  rcases h with rfl | ⟨hx, hy⟩
  · exact h'
  · rcases h' with rfl | ⟨-, hz⟩
    · exact .inr ⟨hx, hy⟩
    · exact .inr ⟨hx, hz⟩

theorem isZero_iff (h : SameValue x y) : IsZero x ↔ IsZero y := by
  rcases h with rfl | ⟨hx, hy⟩
  · exact Iff.rfl
  · exact ⟨fun _ => hy, fun _ => hx⟩

theorem eq_of_not_isZero (h : SameValue x y) (hx : ¬ IsZero x) : x = y :=
  h.resolve_right fun hz => hx hz.1

theorem neg (h : SameValue x y) : SameValue (-x) (-y) := by
  rcases h with rfl | ⟨hx, hy⟩
  · exact .refl _
  · exact .inr ⟨isZero_neg.mpr hx, isZero_neg.mpr hy⟩

theorem mul_left (z : Float) (h : SameValue x y) : SameValue (z * x) (z * y) := by
  rcases h with rfl | ⟨⟨s, hs⟩, ⟨t, ht⟩⟩
  · exact .refl _
  · rw [mul_eq, mul_eq, hs, ht]
    cases z.toModel.unpack with
    | notANumber | infinity => exact .refl _
    | zero | finite => exact .inr ⟨isZero_ofModel_pack _, isZero_ofModel_pack _⟩

theorem mul (h : SameValue x x') (h' : SameValue y y') : SameValue (x * y) (x' * y') := by
  have hx := h.mul_left y
  rw [mul_comm y, mul_comm y] at hx
  exact hx.trans (h'.mul_left x')

theorem div_right (z : Float) (h : SameValue x y) : SameValue (x / z) (y / z) := by
  rcases h with rfl | ⟨⟨s, hs⟩, ⟨t, ht⟩⟩
  · exact .refl _
  · rw [div_eq, div_eq, hs, ht]
    cases z.toModel.unpack with
    | notANumber | zero => exact .refl _
    | infinity | finite => exact .inr ⟨isZero_ofModel_pack _, isZero_ofModel_pack _⟩

theorem add_of_isZero (h : IsZero y) : SameValue (x + y) x := by
  obtain ⟨s, hs⟩ := h
  rw [add_eq, hs]
  cases hu : x.toModel.unpack with
  | zero t =>
    refine .inr ⟨?_, t, hu⟩
    simp only [UnpackedFloat.add]
    split <;> exact isZero_ofModel_pack _
  | notANumber | infinity | finite => exact .inl (ofModel_pack_of_eq hu.symm)

theorem add (h : SameValue x x') (h' : SameValue y y') : SameValue (x + y) (x' + y') := by
  have add_left {x y y' : Float} (h : SameValue y y') : SameValue (x + y) (x + y') := by
    rcases h with rfl | ⟨hy, hy'⟩
    · exact .refl _
    · exact (add_of_isZero hy).trans (add_of_isZero hy').symm
  have hx : SameValue (y + x) (y + x') := add_left h
  rw [add_comm y, add_comm y] at hx
  exact hx.trans (add_left h')

theorem neg_add (x y : Float) : SameValue (-x + -y) (-(x + y)) := by
  rw [add_eq, unpack_neg, unpack_neg]
  rcases neg_add_unpacked x.toModel.unpack y.toModel.unpack with h | ⟨h, h'⟩
  · rw [h, ofModel_pack_neg]
    exact .refl _
  · have hzero : x + y = Float.ofModel (.pack (.zero .positive)) := by rw [add_eq, h']
    rw [h, hzero]
    exact .inr ⟨isZero_ofModel_pack _, isZero_ofModel_pack .negative⟩

theorem eq_of_hasSign {s : Sign} (h : SameValue x y) (hx : HasSign s x.toModel.unpack)
    (hy : HasSign s y.toModel.unpack) : x = y := by
  rcases h with rfl | ⟨⟨t, ht⟩, ⟨r, hr⟩⟩
  · rfl
  · apply eq_of_unpack
    rw [ht] at hx ⊢
    rw [hr] at hy ⊢
    rw [show t = s from hx, show r = s from hy]

end SameValue

theorem unpack_positiveZero_of_isZero (h : IsZero x) :
    (positiveZero x).toModel.unpack = .zero .positive := by
  obtain ⟨s, hs⟩ := h
  have hz : (0.0 : Float).toModel.unpack = .zero .positive := rfl
  rw [positiveZero, add_eq, hs, hz]
  cases s <;> rfl

theorem positiveZero_congr (h : SameValue x y) : positiveZero x = positiveZero y := by
  rcases h with rfl | ⟨hx, hy⟩
  · rfl
  · apply eq_of_unpack
    rw [unpack_positiveZero_of_isZero hx, unpack_positiveZero_of_isZero hy]

theorem positiveZero_of_not_isZero (h : ¬ IsZero x) : positiveZero x = x := by
  have hz : (0.0 : Float).toModel.unpack = .zero .positive := rfl
  rw [positiveZero, add_eq, hz]
  cases hu : x.toModel.unpack with
  | zero s => exact absurd ⟨s, hu⟩ h
  | notANumber | infinity | finite => exact ofModel_pack_of_eq hu.symm

theorem unpack_positiveZero_ne (x : Float) :
    (positiveZero x).toModel.unpack ≠ .zero .negative := by
  by_cases h : IsZero x
  · rw [unpack_positiveZero_of_isZero h]
    simp
  · rw [positiveZero_of_not_isZero h]
    exact fun hx => h ⟨_, hx⟩

theorem hasSign_mul_self (x : Float) : HasSign .positive (x * x).toModel.unpack := by
  obtain ⟨s, hs⟩ := exists_hasSign x.toModel.unpack
  have hmul := hasSign_unpack_pack (hasSign_mul hs hs)
  have hpos : s * s = .positive := by cases s <;> rfl
  rwa [hpos] at hmul

theorem sub_congr_right (hx : HasSign .positive x.toModel.unpack) (h : SameValue y z) :
    x - y = x - z := by
  rcases h with rfl | ⟨⟨s, hs⟩, ⟨t, ht⟩⟩
  · rfl
  · rw [sub_eq, sub_eq, hs, ht]
    cases hu : x.toModel.unpack with
    | zero r =>
      rw [hu] at hx
      cases hx
      cases s <;> cases t <;> rfl
    | notANumber | infinity | finite => rfl

end Quadratics.Number
