import Quadratics.Proofs.Number.ReadBack
/-! The sign of a number: packing keeps it, so that a negated operand negates the result of an
operation, and a written decimal has none. -/
namespace Quadratics.Number

open Float.Model Float.Model.UnpackedFloat

variable {s : Sign} {u v : UnpackedFloat} {x y : Float}

/-- NaN has either sign. -/
def HasSign (s : Sign) : UnpackedFloat → Prop
  | .notANumber => True
  | .infinity t | .zero t | .finite t _ _ _ => t = s

theorem sign_neg_neg (s : Sign) : - -s = s := by cases s <;> rfl

theorem pack_eq_packComponents (h : HasSign s u) (hn : u ≠ .notANumber) :
    ∃ e m, UnpackedFloat.pack Format.binary64 u = packComponents Format.binary64 s e m ∧
      UnpackedFloat.pack Format.binary64 u.neg = packComponents Format.binary64 (-s) e m := by
  cases u with
  | notANumber => exact absurd rfl hn
  | infinity t =>
    cases h
    exact ⟨-1#_, 0, rfl, rfl⟩
  | zero t =>
    cases h
    exact ⟨0, 0, rfl, rfl⟩
  | finite t m e hm =>
    cases h
    simp only [UnpackedFloat.pack, UnpackedFloat.neg]
    split
    · exact ⟨-1#_, 0, rfl, rfl⟩
    · split <;> exact ⟨_, _, rfl, rfl⟩

theorem hasSign_packComponents (s : Sign) (e : BitVec 11) (m : BitVec 52) :
    HasSign s (UnpackedFloat.unpack Format.binary64 (packComponents Format.binary64 s e m)) := by
  rw [unpack_packComponents]
  split
  · split
    · rfl
    · trivial
  · split
    · split <;> rfl
    · rfl

theorem unpack_packComponents_neg (s : Sign) (e : BitVec 11) (m : BitVec 52) :
    UnpackedFloat.unpack Format.binary64 (packComponents Format.binary64 (-s) e m) =
      (UnpackedFloat.unpack Format.binary64 (packComponents Format.binary64 s e m)).neg := by
  rw [unpack_packComponents, unpack_packComponents]
  split
  · split <;> rfl
  · split
    · split <;> rfl
    · rfl

theorem hasSign_unpack_pack (h : HasSign s u) :
    HasSign s (UnpackedFloat.unpack Format.binary64 (UnpackedFloat.pack Format.binary64 u)) := by
  by_cases hn : u = .notANumber
  · rw [hn]
    trivial
  · obtain ⟨e, m, he, -⟩ := pack_eq_packComponents h hn
    rw [he]
    exact hasSign_packComponents s e m

theorem exists_hasSign (u : UnpackedFloat) : ∃ s, HasSign s u := by
  cases u with
  | notANumber => exact ⟨.positive, trivial⟩
  | infinity t | zero t | finite t _ _ _ => exact ⟨t, rfl⟩

theorem unpack_pack_neg (u : UnpackedFloat) :
    UnpackedFloat.unpack Format.binary64 (UnpackedFloat.pack Format.binary64 u.neg) =
      (UnpackedFloat.unpack Format.binary64 (UnpackedFloat.pack Format.binary64 u)).neg := by
  by_cases hn : u = .notANumber
  · rw [hn]
    rfl
  · obtain ⟨s, hs⟩ := exists_hasSign u
    obtain ⟨e, m, he, hneg⟩ := pack_eq_packComponents hs hn
    rw [he, hneg, unpack_packComponents_neg]

theorem ofModel_pack_neg (u : UnpackedFloat) :
    Float.ofModel (.pack u.neg) = -Float.ofModel (.pack u) := by
  apply eq_of_unpack
  rw [unpack_neg]
  exact unpack_pack_neg u

theorem hasSign_roundWithAccuracy (s : Sign) (m : Nat) (e : Int) (a : Accuracy) :
    HasSign s (roundWithAccuracy Format.binary64 s m e a) := by
  simp only [roundWithAccuracy]
  split <;> rfl

theorem hasSign_mul {t : Sign} (hu : HasSign s u) (hv : HasSign t v) :
    HasSign (s * t) (UnpackedFloat.mul Format.binary64 u v) := by
  cases u <;> cases v <;> cases hu <;> cases hv <;>
    first | trivial | exact hasSign_roundWithAccuracy _ _ _ _

theorem hasSign_div {t : Sign} (hu : HasSign s u) (hv : HasSign t v) :
    HasSign (s / t) (UnpackedFloat.div Format.binary64 u v) := by
  cases u <;> cases v <;> cases hu <;> cases hv <;>
    first | trivial | exact hasSign_roundWithAccuracy _ _ _ _

theorem hasSign_ofScientific (m : Nat) (e : Int) :
    HasSign .positive (UnpackedFloat.ofScientific Format.binary64 m e) := by
  unfold UnpackedFloat.ofScientific
  split
  · rfl
  · split
    · rfl
    · split
      · rfl
      · split
        · exact hasSign_mul (s := .positive) (t := .positive) rfl rfl
        · exact hasSign_div (s := .positive) (t := .positive) rfl rfl

theorem abs_toFloat (d : Decimal) : d.toFloat.abs = d.toFloat := by
  have h : HasSign .positive d.toFloat.toModel.unpack :=
    hasSign_unpack_pack (hasSign_ofScientific d.digits (-d.places))
  apply eq_of_unpack
  rw [unpack_abs]
  cases hu : d.toFloat.toModel.unpack <;> rw [hu] at h <;> cases h <;> rfl

end Quadratics.Number
