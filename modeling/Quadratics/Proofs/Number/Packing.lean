import Mathlib
import Quadratics.Number.Binary
/-! The words of binary64 numbers and what they stand for. A number is known by its sign, mantissa
and exponent, and every mantissa and exponent in range make a number. -/
namespace Quadratics.Number

open Float.Model Float.Model.UnpackedFloat

/-- What a word can stand for. Mantissas have 53 bits, fewer only at the lowest exponent. -/
def Representable : UnpackedFloat → Prop
  | .finite _ m e _ => m < 2 ^ 53 ∧ -1074 ≤ e ∧ e ≤ 971 ∧ (2 ^ 52 ≤ m ∨ e = -1074)
  | .infinity _ | .notANumber | .zero _ => True

theorem toNat_one_append (m : BitVec 52) : (1#1 ++ m).toNat = 2 ^ 52 + m.toNat := by
  rw [BitVec.toNat_append, ← Nat.shiftLeft_add_eq_or_of_lt m.isLt]
  rfl

variable {s : Sign} {m : Nat} {e : Int}

theorem log2_add_one_eq_53_iff (hm : 0 < m) : m.log2 + 1 = 53 ↔ 2 ^ 52 ≤ m ∧ m < 2 ^ 53 := by
  rw [← Nat.le_log2 hm.ne', ← Nat.log2_lt hm.ne']
  omega

theorem pack_normal (hm : 0 < m) (hlow : 2 ^ 52 ≤ m) (hhigh : m < 2 ^ 53) (he : -1074 ≤ e)
    (he' : e ≤ 971) :
    UnpackedFloat.pack Format.binary64 (.finite s m e hm) =
      packComponents Format.binary64 s (BitVec.ofNat 11 (e + 1075).toNat) (BitVec.ofNat 52 m) := by
  have hb : (e + (Format.binary64.exponentBias : Int) +
      (Format.binary64.mantissaBitsWithoutImplicit : Int)).toNat = (e + 1075).toNat := by
    simp [Format.exponentBias, Int.add_assoc]
  have hlog : m.log2 + 1 = Format.binary64.mantissaBits :=
    (log2_add_one_eq_53_iff hm).mpr ⟨hlow, hhigh⟩
  simp only [UnpackedFloat.pack, hb, hlog, if_true]
  rw [if_neg (by simp only [not_le]; omega)]

theorem pack_subnormal (hm : 0 < m) (hhigh : m < 2 ^ 52) :
    UnpackedFloat.pack Format.binary64 (.finite s m (-1074) hm) =
      packComponents Format.binary64 s 0#_ (BitVec.ofNat 52 m) := by
  have hlog : ¬ m.log2 + 1 = Format.binary64.mantissaBits := by
    intro h
    have hlow := ((log2_add_one_eq_53_iff hm).mp h).1
    omega
  simp only [UnpackedFloat.pack, hlog, if_false]
  rw [if_neg (by decide)]

theorem unpack_packComponents (e : BitVec 11) (m : BitVec 52) :
    UnpackedFloat.unpack Format.binary64 (packComponents Format.binary64 s e m) =
      if e = -1#11 then if m = 0#52 then .infinity s else .notANumber
      else if e = 0#11 then
        if h : m = 0#52 then .zero s
        else .finite s m.toNat (-1074) (by simpa [BitVec.toNat_pos, BitVec.pos_iff_ne_zero])
      else .finite s (1#1 ++ m).toNat (e.toNat - 1075) (by rw [toNat_one_append]; omega) := by
  simp only [UnpackedFloat.unpack, unpackMantissa_packComponents, unpackExponent_packComponents,
    unpackSign_packComponents, Sign.ofBitVec_toBitVec]
  split
  · rfl
  · split
    · next he =>
      rw [he]
      rfl
    · rfl

theorem unpack_pack {u : UnpackedFloat} (h : Representable u) :
    UnpackedFloat.unpack Format.binary64 (UnpackedFloat.pack Format.binary64 u) = u := by
  cases u with
  | infinity s => simp [UnpackedFloat.pack, packedInfinity, unpack_packComponents]
  | notANumber => rfl
  | zero s => simp [UnpackedFloat.pack, packedZero, unpack_packComponents]
  | finite s m e hm =>
    obtain ⟨hhigh, he, he', hnormal⟩ := h
    by_cases hlow : 2 ^ 52 ≤ m
    · have hmod : (e + 1075).toNat % 2 ^ 11 = (e + 1075).toNat := Nat.mod_eq_of_lt (by omega)
      have hne (v : BitVec 11) (hv : (e + 1075).toNat ≠ v.toNat) :
          BitVec.ofNat 11 (e + 1075).toNat ≠ v := by
        rintro rfl
        exact hv (by rw [BitVec.toNat_ofNat, hmod])
      rw [pack_normal hm hlow hhigh he he', unpack_packComponents,
        if_neg (hne (-1#11) (by rw [show (-1#11).toNat = 2047 from rfl]; omega)),
        if_neg (hne 0#11 (by rw [show (0#11).toNat = 0 from rfl]; omega))]
      congr 1
      · rw [toNat_one_append, BitVec.toNat_ofNat]
        omega
      · rw [BitVec.toNat_ofNat, hmod]
        omega
    · obtain rfl := hnormal.resolve_left hlow
      have hmod : (BitVec.ofNat 52 m).toNat = m := by
        rw [BitVec.toNat_ofNat, Nat.mod_eq_of_lt (by omega)]
      have hne : BitVec.ofNat 52 m ≠ 0#52 := by
        intro h
        rw [h] at hmod
        simp at hmod
        omega
      rw [pack_subnormal hm (by omega), unpack_packComponents, if_neg (by decide), if_pos rfl,
        dif_neg hne]
      congr 1

theorem exists_packComponents (b : BitVec Format.binary64.numBits) :
    ∃ (s : Sign) (e : BitVec 11) (m : BitVec 52), b = packComponents Format.binary64 s e m :=
  ⟨_, _, _, (packComponents_unpackSign_unpackExponent_unpackMantissa b).symm⟩

theorem toNat_pos_of_ne_zero {n : Nat} {v : BitVec n} (h : v ≠ 0#n) : 0 < v.toNat := by
  simpa [BitVec.toNat_pos, BitVec.pos_iff_ne_zero] using h

theorem toNat_lt_of_ne_allOnes {v : BitVec 11} (h : v ≠ -1#11) : v.toNat < 2047 := by
  have hlt := v.isLt
  have hne : v.toNat ≠ 2047 := fun he => h (BitVec.eq_of_toNat_eq he)
  omega

theorem representable_unpack (b : BitVec Format.binary64.numBits) :
    Representable (UnpackedFloat.unpack Format.binary64 b) := by
  obtain ⟨s, e, m, rfl⟩ := exists_packComponents b
  have hm := m.isLt
  rw [unpack_packComponents]
  split
  · split <;> trivial
  · next hmax =>
    have he := toNat_lt_of_ne_allOnes hmax
    split
    · split
      · trivial
      · exact ⟨by omega, by omega, by omega, .inr rfl⟩
    · next hz =>
      have hpos := toNat_pos_of_ne_zero hz
      simp only [Representable, toNat_one_append]
      omega

theorem ofModel_pack_unpack (x : Float) : Float.ofModel (.pack x.toModel.unpack) = x := by
  obtain ⟨⟨bits, hv⟩⟩ := x
  simp only [Float.Model.pack, Float.Model.unpack, pack_unpack_of_valid hv]

theorem ofModel_pack_of_eq {x : Float} {u : UnpackedFloat} (h : u = x.toModel.unpack) :
    Float.ofModel (.pack u) = x := by
  rw [h, ofModel_pack_unpack]

theorem unpack_ofModel_pack {u : UnpackedFloat} (h : Representable u) :
    (Float.ofModel (.pack u)).toModel.unpack = u := unpack_pack h

theorem representable (x : Float) : Representable x.toModel.unpack := representable_unpack _

end Quadratics.Number
