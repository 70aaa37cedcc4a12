import Quadratics.Number.Power
import Quadratics.Proofs.Number.Arithmetic
import Quadratics.Proofs.Number.Order
/-! Infinities and NaN as operands. The result of an operation is not finite then, unless a number
is divided by an infinity, or a power makes no use of its base. -/
namespace Quadratics.Number

open Float.Model Float.Model.UnpackedFloat

section Unpacked

variable {u v : UnpackedFloat}

theorem isFinite_add_unpacked (h : (UnpackedFloat.add Format.binary64 u v).isFinite = true) :
    u.isFinite = true ∧ v.isFinite = true := by
  rcases u with (_ | _) | _ | _ | _ <;> rcases v with (_ | _) | _ | _ | _ <;>
    first | exact ⟨rfl, rfl⟩ | cases h

theorem isFinite_mul_unpacked (h : (UnpackedFloat.mul Format.binary64 u v).isFinite = true) :
    u.isFinite = true ∧ v.isFinite = true := by
  cases u <;> cases v <;> first | exact ⟨rfl, rfl⟩ | cases h

theorem isFinite_div_unpacked (h : (UnpackedFloat.div Format.binary64 u v).isFinite = true) :
    u.isFinite = true ∧ (v.isFinite = true ∨ v.isInf = true) := by
  cases u <;> cases v <;> first | exact ⟨rfl, .inl rfl⟩ | exact ⟨rfl, .inr rfl⟩ | cases h

theorem isFinite_of_pack (h : (Float.ofModel (.pack u)).isFinite = true) : u.isFinite = true := by
  have hpack : (UnpackedFloat.unpack Format.binary64
      (UnpackedFloat.pack Format.binary64 u)).isFinite = true := h
  cases u with
  | zero s => rfl
  | finite s m e hm => rfl
  | infinity s =>
    rw [unpack_pack (u := .infinity s) trivial] at hpack
    cases hpack
  | notANumber =>
    rw [unpack_pack (u := .notANumber) trivial] at hpack
    cases hpack

end Unpacked

variable {x y base product : Float} {n : Nat}

theorem isFinite_of_add (h : (x + y).isFinite = true) : x.isFinite = true ∧ y.isFinite = true :=
  isFinite_add_unpacked (isFinite_of_pack h)

theorem isFinite_of_mul (h : (x * y).isFinite = true) : x.isFinite = true ∧ y.isFinite = true :=
  isFinite_mul_unpacked (isFinite_of_pack h)

theorem isFinite_of_div (h : (x / y).isFinite = true) :
    x.isFinite = true ∧ (y.isFinite = true ∨ y.isInf = true) :=
  isFinite_div_unpacked (isFinite_of_pack h)

theorem not_isFinite_of_isInf (h : x.isInf = true) : ¬ x.isFinite = true := by
  change x.toModel.unpack.isInf = true at h
  change ¬ x.toModel.unpack.isFinite = true
  generalize x.toModel.unpack = u at h ⊢
  cases u <;> cases h
  exact Bool.false_ne_true

theorem isFinite_of_beq_zero (h : (x == 0) = true) : x.isFinite = true := by
  obtain ⟨s, hs⟩ := isZero_iff.mp h
  change x.toModel.unpack.isFinite = true
  rw [hs]
  rfl

theorem isFinite_of_powerInto (hn : n ≠ 0) (h : (powerInto product base n).isFinite = true) :
    base.isFinite = true := by
  induction n using Nat.strong_induction_on generalizing product base with
  | _ n ih =>
    rw [powerInto] at h
    split at h
    · next hz =>
      have hodd : n % 2 = 1 := by omega
      rw [if_pos hodd] at h
      exact (isFinite_of_mul h).2
    · next hz => exact (isFinite_of_mul (ih (n / 2) (by omega) hz h)).1

theorem isNaN_mul (x : Float) (hy : y.isNaN = true) : (x * y).isNaN = true := by
  rw [Number.isNaN_iff] at hy ⊢
  have hmul : UnpackedFloat.mul Format.binary64 x.toModel.unpack .notANumber = .notANumber := by
    cases x.toModel.unpack <;> rfl
  rw [mul_eq, hy, hmul]
  exact unpack_ofModel_pack (u := .notANumber) trivial

theorem isNaN_powerInto (product : Float) (hn : n ≠ 0) (hb : base.isNaN = true) :
    (powerInto product base n).isNaN = true := by
  induction n using Nat.strong_induction_on generalizing product base with
  | _ n ih =>
    rw [powerInto]
    split
    · next hz =>
      have hodd : n % 2 = 1 := by omega
      rw [if_pos hodd]
      exact isNaN_mul product hb
    · next hz => exact ih (n / 2) (by omega) _ hz (isNaN_mul base hb)

theorem isFinite_or_isInf_of_not_isNaN (h : x.isNaN = false) :
    x.isFinite = true ∨ x.isInf = true := by
  change x.toModel.unpack.isFinite = true ∨ x.toModel.unpack.isInf = true
  change x.toModel.unpack.isNaN = false at h
  cases hu : x.toModel.unpack with
  | notANumber => simp [hu, UnpackedFloat.isNaN] at h
  | infinity s => exact .inr rfl
  | zero s => exact .inl rfl
  | finite s m e hm => exact .inl rfl

theorem isFinite_of_power {n : Int} (h : (power base n).isFinite = true) :
    base.isFinite = true ∨ n = 0 ∨ n < 0 ∧ base.isInf = true := by
  by_cases hz : n = 0
  · exact .inr (.inl hz)
  have hn : n.natAbs ≠ 0 := Int.natAbs_ne_zero.mpr hz
  simp only [power] at h
  split at h
  · next hneg =>
    have hnan : base.isNaN = false := by
      rw [← Bool.not_eq_true]
      intro hb
      -- the reciprocal of NaN is not finite
      have hpositive := Number.isNaN_iff.mp (isNaN_powerInto 1 hn hb)
      rw [div_eq, hpositive] at h
      cases isFinite_of_pack h
    exact (isFinite_or_isInf_of_not_isNaN hnan).imp_right fun hinf => .inr ⟨hneg, hinf⟩
  · exact .inl (isFinite_of_powerInto hn h)

end Quadratics.Number
