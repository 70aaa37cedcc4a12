import Quadratics.Proofs.Number.ReadBack
/-! The order of numbers. Two numbers that are not NaN are in order one way or the other, or they
are equal but for the sign of a zero. -/
namespace Quadratics.Number

open Float.Model Float.Model.UnpackedFloat

variable {x y : Float}

theorem compare_swap (u v : UnpackedFloat) : v.compare u = (u.compare v).map Ordering.swap := by
  rcases u with (_ | _) | _ | _ | ⟨_ | _, m, e, hm⟩ <;>
    rcases v with (_ | _) | _ | _ | ⟨_ | _, n, k, hn⟩ <;>
    first
    | rfl
    | simp only [UnpackedFloat.compare, Option.map_some, Ordering.swap_then,
        ← Int.compare_swap e k, ← Nat.compare_swap m n]

theorem compare_eq_none {u v : UnpackedFloat} :
    u.compare v = none ↔ u = .notANumber ∨ v = .notANumber := by
  rcases u with (_ | _) | _ | _ | ⟨_ | _, m, e, hm⟩ <;>
    rcases v with (_ | _) | _ | _ | ⟨_ | _, n, k, hn⟩ <;>
    simp [UnpackedFloat.compare]

theorem lt_iff : x < y ↔ x.toModel.unpack.compare y.toModel.unpack = some .lt := by
  change decide ((x.toModel.unpack.compare y.toModel.unpack == some .lt) = true) = true ↔ _
  rw [decide_eq_true_iff, beq_iff_eq]

theorem isNaN_iff : x.isNaN = true ↔ x.toModel.unpack = .notANumber :=
  UnpackedFloat.isNaN_iff

theorem not_lt_of_lt (h : x < y) : ¬ y < x := by
  rw [lt_iff] at h ⊢
  rw [compare_swap, h]
  simp

theorem order_cases (hx : x.toModel.unpack ≠ .zero .negative)
    (hy : y.toModel.unpack ≠ .zero .negative) :
    x = y ∨ x.isNaN ≠ y.isNaN ∨
      x.isNaN = false ∧ y.isNaN = false ∧ (x < y ∧ ¬ y < x ∨ y < x ∧ ¬ x < y) := by
  cases hc : x.toModel.unpack.compare y.toModel.unpack with
  | none =>
    by_cases hn : x.isNaN = y.isNaN
    · have hboth : x.toModel.unpack = .notANumber ∧ y.toModel.unpack = .notANumber := by
        rw [← isNaN_iff, ← isNaN_iff, ← hn, and_self, isNaN_iff]
        rcases compare_eq_none.mp hc with h | h
        · exact h
        · rwa [← isNaN_iff, hn, isNaN_iff]
      exact .inl (eq_of_unpack (hboth.1.trans hboth.2.symm))
    · exact .inr (.inl hn)
  | some o =>
    have hnan : x.isNaN = false ∧ y.isNaN = false := by
      rw [← Bool.not_eq_true, ← Bool.not_eq_true, isNaN_iff, isNaN_iff, ← not_or, ← compare_eq_none,
        hc]
      simp
    cases o with
    | lt =>
      have h := lt_iff.mpr hc
      exact .inr (.inr ⟨hnan.1, hnan.2, .inl ⟨h, not_lt_of_lt h⟩⟩)
    | gt =>
      have h : y < x := lt_iff.mpr (by rw [compare_swap, hc]; rfl)
      exact .inr (.inr ⟨hnan.1, hnan.2, .inr ⟨h, not_lt_of_lt h⟩⟩)
    | eq =>
      have hb : x.toModel.unpack.beq y.toModel.unpack = true := by simp [UnpackedFloat.beq, hc]
      obtain ⟨-, -, h | ⟨-, h⟩ | ⟨h, -⟩⟩ := (beq_iff_ne_notANumber_and_eq _ _).mp hb
      · exact .inl (eq_of_unpack h)
      · exact absurd h hy
      · exact absurd h hx

theorem lesser_comm (hx : x.toModel.unpack ≠ .zero .negative)
    (hy : y.toModel.unpack ≠ .zero .negative) : lesser x y = lesser y x := by
  unfold lesser
  rcases order_cases hx hy with rfl | h | ⟨hnx, hny, ⟨h, h'⟩ | ⟨h, h'⟩⟩
  · rfl
  · cases hn : x.isNaN <;> cases hm : y.isNaN <;> simp_all
  · simp only [hnx, hny, h, h', if_true, if_false, Bool.false_eq_true]
  · simp only [hnx, hny, h, h', if_true, if_false, Bool.false_eq_true]

theorem greater_comm (hx : x.toModel.unpack ≠ .zero .negative)
    (hy : y.toModel.unpack ≠ .zero .negative) : greater x y = greater y x := by
  unfold greater
  rcases order_cases hx hy with rfl | h | ⟨hnx, hny, ⟨h, h'⟩ | ⟨h, h'⟩⟩
  · rfl
  · cases hn : x.isNaN <;> cases hm : y.isNaN <;> simp_all
  · simp only [hnx, hny, h, h', if_true, if_false, Bool.false_eq_true]
  · simp only [hnx, hny, h, h', if_true, if_false, Bool.false_eq_true]

end Quadratics.Number
