import Quadratics.Proofs.Number.Range
import Quadratics.Proofs.Number.Value
import Quadratics.Proofs.Polynomial.Powers
/-! Coefficients that are infinite or NaN. The result of an operation has one if an operand has one,
but for the few cases in which the operand leaves no trace. -/
namespace Quadratics.Polynomial

def Finite (p : Polynomial) : Prop := ∀ t ∈ p.terms, t.coefficient.isFinite = true

/-- The result has nothing of a coefficient that is infinite or NaN: a quotient by an infinity is
zero, and so is a negative power of one; the power zero is one whatever its base. -/
inductive Absorbs (p q : Polynomial) : Operator → Prop where
  | divisor {m : Term} (hp : p.Finite) (hq : q.terms = [m]) (hm : m.coefficient.isInf = true) :
      Absorbs p q .div
  | zeroPower {b e : Term} (hp : p.terms = [b]) (hb : b.coefficient.isFinite = false)
      (hq : q.terms = [e]) (he : Number.toInt? e.coefficient = some 0) : Absorbs p q .pow
  | negativePower {b e : Term} {n : Int} (hp : p.terms = [b]) (hb : b.coefficient.isInf = true)
      (hq : q.terms = [e]) (he : Number.toInt? e.coefficient = some n) (hn : n < 0) :
      Absorbs p q .pow

variable {p q r : Polynomial} {ts us : List Term} {m : Term} {position : Nat} {op : Operator}

theorem finite_singleton (hp : p.terms = [m]) : p.Finite ↔ m.coefficient.isFinite = true := by
  simp [Finite, hp]

theorem finite_constant {value : Float} : (constant value).Finite ↔ value.isFinite = true := by
  simp [Finite, constant]

theorem Absorbs.not_finite (h : Absorbs p q op) : ¬ (p.Finite ∧ q.Finite) := by
  rintro ⟨hp, hq⟩
  cases h with
  | divisor _ hm hinf =>
    exact absurd ((finite_singleton hm).mp hq) (Number.not_isFinite_of_isInf hinf)
  | zeroPower hb hinf => exact absurd ((finite_singleton hb).mp hp) (Bool.eq_false_iff.mp hinf)
  | negativePower hb hinf =>
    exact absurd ((finite_singleton hb).mp hp) (Number.not_isFinite_of_isInf hinf)

theorem finite_of_neg (h : p.neg.Finite) : p.Finite := by
  intro t ht
  have hneg : (⟨t.power, -t.coefficient⟩ : Term) ∈ p.neg.terms := List.mem_map.mpr ⟨t, ht, rfl⟩
  have hfinite := h _ hneg
  simp only [Number.isFinite_neg] at hfinite
  exact hfinite

theorem finite_of_merge (h : ∀ t ∈ merge ts us, t.coefficient.isFinite = true) :
    (∀ t ∈ ts, t.coefficient.isFinite = true) ∧ ∀ u ∈ us, u.coefficient.isFinite = true := by
  induction ts, us using merge.induct with
  | case1 us =>
    rw [merge] at h
    exact ⟨by simp, h⟩
  | case2 ts hne =>
    rw [merge_nil] at h
    exact ⟨h, by simp⟩
  | case3 t ts u us hut ih =>
    rw [merge, if_pos hut] at h
    rw [List.forall_mem_cons] at h
    obtain ⟨hts, hus⟩ := ih h.2
    exact ⟨List.forall_mem_cons.mpr ⟨h.1, hts⟩, hus⟩
  | case4 t ts u us hut htu ih =>
    rw [merge, if_neg hut, if_pos htu] at h
    rw [List.forall_mem_cons] at h
    obtain ⟨hts, hus⟩ := ih h.2
    exact ⟨hts, List.forall_mem_cons.mpr ⟨h.1, hus⟩⟩
  | case5 t ts u us hut htu ih =>
    rw [merge, if_neg hut, if_neg htu] at h
    rw [List.forall_mem_cons] at h
    obtain ⟨hts, hus⟩ := ih h.2
    obtain ⟨ht, hu⟩ := Number.isFinite_of_add h.1
    exact ⟨List.forall_mem_cons.mpr ⟨ht, hts⟩, List.forall_mem_cons.mpr ⟨hu, hus⟩⟩

theorem finite_ensureFinite (h : ensureFinite p position = .ok r) : r.Finite := by
  obtain rfl := ensureFinite_eq h
  unfold ensureFinite at h
  split at h
  · next hall => exact List.all_eq_true.mp hall
  · cases h

theorem finite_of_scale (hp : p.terms ≠ []) (h : p.scale m position = .ok r) :
    p.Finite ∧ m.coefficient.isFinite = true := by
  obtain ⟨ts, hts, h⟩ := bind_eq_ok.mp h
  have hfinite := finite_ensureFinite h
  obtain rfl := ensureFinite_eq h
  have factors {t : Term} (ht : t ∈ p.terms) :
      t.coefficient.isFinite = true ∧ m.coefficient.isFinite = true := by
    obtain ⟨u, hu, hshift⟩ := exists_of_mem_mapM hts ht
    apply Number.isFinite_of_mul
    rw [← (shifted_eq hshift).1]
    exact hfinite u hu
  obtain ⟨t, ht⟩ := List.exists_mem_of_ne_nil _ hp
  exact ⟨fun t ht => (factors ht).1, (factors ht).2⟩

theorem finite_of_mul (hp : p.terms ≠ []) (hq : q.terms ≠ []) (h : p.mul q position = .ok r) :
    p.Finite ∧ q.Finite := by
  unfold mul at h
  split at h
  · next m hm =>
    obtain ⟨hfinite, hmonomial⟩ := finite_of_scale hp h
    exact ⟨hfinite, (finite_singleton hm).mpr hmonomial⟩
  · next m hm hne =>
    obtain ⟨hfinite, hmonomial⟩ := finite_of_scale hq h
    exact ⟨(finite_singleton hm).mpr hmonomial, hfinite⟩
  · cases h

theorem finite_of_div (hp : p.terms ≠ []) (h : p.div q position = .ok r) :
    p.Finite ∧ q.Finite ∨ Absorbs p q .div := by
  unfold div at h
  split at h
  · next m hm =>
    split at h
    · cases h
    · obtain ⟨ts, hts, h⟩ := bind_eq_ok.mp h
      have hfinite := finite_ensureFinite h
      obtain rfl := ensureFinite_eq h
      have parts {t : Term} (ht : t ∈ p.terms) : t.coefficient.isFinite = true ∧
          (m.coefficient.isFinite = true ∨ m.coefficient.isInf = true) := by
        obtain ⟨u, hu, hdivided⟩ := exists_of_mem_mapM hts ht
        apply Number.isFinite_of_div
        rw [← (divided_eq hdivided).2.1]
        exact hfinite u hu
      obtain ⟨t, ht⟩ := List.exists_mem_of_ne_nil _ hp
      have hdividend : p.Finite := fun t ht => (parts ht).1
      rcases (parts ht).2 with hm' | hinf
      · exact .inl ⟨hdividend, (finite_singleton hm).mpr hm'⟩
      · exact .inr (.divisor hdividend hm hinf)
  · cases h

theorem finite_of_pow (h : p.pow q position = .ok r) : p.Finite ∧ q.Finite ∨ Absorbs p q .pow := by
  obtain ⟨n, hn, h⟩ := bind_eq_ok.mp h
  obtain ⟨e, he, -, hint⟩ := exponent_eq_ok hn
  split at h
  · next base hb =>
    split at h
    · cases h
    · split at h
      · next k hk =>
        have hpower := finite_ensureFinite h
        rw [ensureFinite_eq h, finite_singleton rfl] at hpower
        have hexponent : q.Finite :=
          (finite_singleton he).mpr (Number.isFinite_iff.mpr ⟨n, Number.value?_of_toInt? hint⟩)
        rcases Number.isFinite_of_power hpower with hbase | rfl | ⟨hneg, hinf⟩
        · exact .inl ⟨(finite_singleton hb).mpr hbase, hexponent⟩
        · by_cases hbase : base.coefficient.isFinite = true
          · exact .inl ⟨(finite_singleton hb).mpr hbase, hexponent⟩
          · exact .inr (.zeroPower hb (Bool.eq_false_iff.mpr hbase) he hint)
        · exact .inr (.negativePower hb hinf he hint hneg)
      · cases h
  · cases h

end Quadratics.Polynomial
