import Mathlib
import Quadratics.Proofs.Solver.Shape
/-! The equation that a list of terms stands for, in any field, and what each shape says of its
unknown. -/
namespace Quadratics

open Number

section Sum

variable {K : Type*} [Field K]

def Term.valueIn? (x : K) (t : Term) : Option K :=
  (Number.value? t.coefficient).map fun c : ℚ => (c : K) * x ^ t.power.toInt

/-- The sum of all terms at an element of a field; it has no value if a coefficient has none. -/
def sumIn? (x : K) : List Term → Option K
  | [] => some 0
  | t :: ts => do return (← t.valueIn? x) + (← sumIn? x ts)

def Shape.Satisfied (x : K) : Shape → Prop
  | .empty => True
  | .constant => False
  | .monomial => x = 0
  | .linear b c => ∃ q r : ℚ, value? b = some q ∧ value? c = some r ∧ q * x + r = 0
  | .quadratic a b c => ∃ p q r : ℚ,
      (value? a = some p ∧ value? b = some q ∧ value? c = some r) ∧ p * (x * x) + q * x + r = 0

variable {x v : K} {t : Term} {ts : List Term} {q : ℚ}

theorem sumIn?_cons (ht : value? t.coefficient = some q) (hs : sumIn? x ts = some v) :
    sumIn? x (t :: ts) = some (q * x ^ t.power.toInt + v) := by
  simp [sumIn?, Term.valueIn?, ht, hs]

theorem sumIn?_filter (hf : ∀ t ∈ ts, t.coefficient.isFinite = true) :
    sumIn? x (ts.filter fun t => t.coefficient != 0) = sumIn? x ts := by
  induction ts with
  | nil => rfl
  | cons t ts ih =>
    rw [List.forall_mem_cons] at hf
    obtain ⟨q, hq⟩ := isFinite_iff.mp hf.1
    rw [List.filter_cons]
    split
    · simp only [sumIn?, ih hf.2]
    · next hz =>
      have hzero : q = 0 :=
        (beq_zero_iff hq).mp (isZero_iff.mpr (not_not.mp (mt bne_zero_iff.mpr hz)))
      rw [ih hf.2]
      cases hs : sumIn? x ts with
      | none => simp [sumIn?, Term.valueIn?, hq, hs]
      | some v => simp [sumIn?_cons hq hs, hzero]

end Sum

theorem power_cases {k : Int32} (h : 0 ≤ k) (h' : k ≤ 2) : k = 2 ∨ k = 1 ∨ k = 0 := by
  rw [Int32.le_iff_toInt_le] at h h'
  have htwo : (2 : Int32).toInt = 2 := rfl
  have hone : (1 : Int32).toInt = 1 := rfl
  have hzero : (0 : Int32).toInt = 0 := rfl
  rw [← Int32.toInt_inj, ← Int32.toInt_inj, ← Int32.toInt_inj]
  omega

structure IsEquation (ts : List Term) : Prop where
  descending : Polynomial.Descending ts
  power : ∀ t ∈ ts, 0 ≤ t.power ∧ t.power ≤ 2
  isFinite : ∀ t ∈ ts, t.coefficient.isFinite = true

namespace IsEquation

variable {t : Term} {ts : List Term}

theorem tail (h : IsEquation (t :: ts)) : IsEquation ts where
  descending := (List.pairwise_cons.mp h.descending).2
  power := (List.forall_mem_cons.mp h.power).2
  isFinite := (List.forall_mem_cons.mp h.isFinite).2

theorem filter (h : IsEquation ts) (p : Term → Bool) : IsEquation (ts.filter p) where
  descending := h.descending.filter p
  power := fun t ht => h.power t (List.mem_of_mem_filter ht)
  isFinite := fun t ht => h.isFinite t (List.mem_of_mem_filter ht)

end IsEquation

namespace Solver

theorem coefficient_cons (t : Term) (ts : List Term) (k : Int32) :
    coefficient { terms := t :: ts } k =
      if t.power = k then t.coefficient else coefficient { terms := ts } k := by
  by_cases h : t.power = k
  · simp [coefficient, h]
  · simp [coefficient, h]

theorem coefficient_eq_zero {s : Solver} {k : Int32} (h : ∀ t ∈ s.terms, t.power ≠ k) :
    s.coefficient k = 0 := by
  rcases s.coefficient_cases k with ⟨t, ht, hk, -⟩ | ⟨-, hc⟩
  · exact absurd hk (h t ht)
  · exact hc

variable {K : Type*} [Field K] {x : K} {ts : List Term}

theorem sumIn?_eq (h : IsEquation ts) {p q r : ℚ}
    (hp : value? (coefficient { terms := ts } 2) = some p)
    (hq : value? (coefficient { terms := ts } 1) = some q)
    (hr : value? (coefficient { terms := ts } 0) = some r) :
    sumIn? x ts = some (p * (x * x) + q * x + r) := by
  have zero {q : ℚ} (h : value? 0 = some q) : q = 0 := Option.some.inj (h.symm.trans value?_zero)
  induction ts generalizing p q r with
  | nil => simp [sumIn?, zero hp, zero hq, zero hr]
  | cons t ts ih =>
    have hnone : coefficient { terms := ts } t.power = 0 :=
      coefficient_eq_zero fun u hu => Int32.ne_of_lt ((List.pairwise_cons.mp h.descending).1 u hu)
    rw [coefficient_cons] at hp hq hr
    obtain ⟨hlow, hhigh⟩ := h.power t List.mem_cons_self
    rcases power_cases hlow hhigh with hk | hk | hk <;> rw [hk] at hp hq hr hnone
    · have hrest := ih h.tail (by rw [hnone, value?_zero]) hq hr
      rw [sumIn?_cons hp hrest, hk]
      simp [pow_two, add_assoc]
    · have hrest := ih h.tail hp (by rw [hnone, value?_zero]) hr
      rw [sumIn?_cons hq hrest, hk]
      simp
      ring
    · have hrest := ih h.tail hp hq (by rw [hnone, value?_zero])
      rw [sumIn?_cons hr hrest, hk]
      simp
      ring

theorem highest_eq {t : Term} {ts : List Term} (h : ∀ u ∈ ts, u.power < t.power) :
    highest t ts = t.power := by
  obtain ⟨u, hu, hpower⟩ := exists_power_eq_highest t ts
  have hle : u.power ≤ t.power := by
    rcases List.mem_cons.mp hu with rfl | hu
    · exact Int32.le_refl _
    · exact Int32.le_of_lt (h u hu)
  exact Int32.le_antisymm (hpower ▸ hle) (power_le_highest t ts t List.mem_cons_self)

theorem shape_eq {s : Solver} {t u : Term} {us : List Term} (hs : s.terms = t :: u :: us)
    (h : IsEquation (t :: u :: us)) :
    t.power = 1 ∧ s.shape = .ok (.linear (s.coefficient 1) (s.coefficient 0)) ∨
      t.power = 2 ∧
        s.shape = .ok (.quadratic (s.coefficient 2) (s.coefficient 1) (s.coefficient 0)) := by
  have hlt := (List.pairwise_cons.mp h.descending).1
  have hhigh := highest_eq hlt
  have hlow := (h.tail.power u List.mem_cons_self).1
  obtain ⟨h0, h2⟩ := h.power t List.mem_cons_self
  simp only [shape, hs, hhigh]
  rcases power_cases h0 h2 with hk | hk | hk
  · exact .inr ⟨hk, by rw [hk]; rfl⟩
  · exact .inl ⟨hk, by rw [hk]; rfl⟩
  · have hneg := hlt u List.mem_cons_self
    rw [hk] at hneg
    exact absurd hlow (Int32.not_le.mpr hneg)

theorem exists_shape {s : Solver} (h : IsEquation s.terms) : ∃ shape, s.shape = .ok shape := by
  match hs : s.terms with
  | [] => exact ⟨.empty, by simp [shape, hs]⟩
  | [t] => exact ⟨_, by simp [shape, hs]; rfl⟩
  | t :: u :: us =>
    rw [hs] at h
    rcases shape_eq hs h with ⟨-, hshape⟩ | ⟨-, hshape⟩ <;> exact ⟨_, hshape⟩

theorem sumIn?_singleton_eq_zero_iff [CharZero K] {t : Term} {q : ℚ}
    (hq : value? t.coefficient = some q) (hne : q ≠ 0) :
    sumIn? x [t] = some 0 ↔ if t.power = 0 then False else x = 0 := by
  have hne' : (q : K) ≠ 0 := Rat.cast_ne_zero.mpr hne
  rw [sumIn?_cons hq rfl, add_zero, Option.some.injEq, mul_eq_zero, or_iff_right hne']
  split
  · next hk => simp [hk]
  · next hk =>
    have hk' : t.power.toInt ≠ 0 := fun h => hk (Int32.toInt_inj.mp h)
    exact zpow_eq_zero_iff hk'

/-- The equation of the shape is the equation of the terms. -/
theorem sumIn?_eq_zero_iff [CharZero K] {s : Solver} {shape : Shape} (h : IsEquation s.terms)
    (hz : ∀ t ∈ s.terms, ∃ q, value? t.coefficient = some q ∧ q ≠ 0) (hs : s.shape = .ok shape) :
    sumIn? x s.terms = some 0 ↔ shape.Satisfied x := by
  match hts : s.terms with
  | [] =>
    simp only [Solver.shape, hts, Except.ok.injEq] at hs
    cases hs
    exact iff_of_true rfl trivial
  | [t] =>
    simp only [Solver.shape, hts, Except.ok.injEq] at hs
    cases hs
    obtain ⟨q, hq, hne⟩ := hz t (by simp [hts])
    rw [sumIn?_singleton_eq_zero_iff hq hne]
    split <;> rfl
  | t :: u :: us =>
    have hvalue (k : Int32) : ∃ q, value? (s.coefficient k) = some q := by
      rcases s.coefficient_cases k with ⟨t, ht, -, hc⟩ | ⟨-, hc⟩
      · obtain ⟨q, hq, -⟩ := hz t ht
        exact ⟨q, hc ▸ hq⟩
      · exact ⟨0, by rw [hc, value?_zero]⟩
    obtain ⟨p, hp⟩ := hvalue 2
    obtain ⟨q, hq⟩ := hvalue 1
    obtain ⟨r, hr⟩ := hvalue 0
    rw [← hts, sumIn?_eq h hp hq hr, Option.some.injEq]
    rw [hts] at h
    rcases shape_eq hts h with ⟨hk, hshape⟩ | ⟨hk, hshape⟩
    · obtain rfl := Except.ok.inj (hs.symm.trans hshape)
      have hnone : s.coefficient 2 = 0 := by
        refine coefficient_eq_zero fun v hv hpower => ?_
        have hle := power_le_highest t (u :: us) v (hts ▸ hv)
        rw [highest_eq (List.pairwise_cons.mp h.descending).1, hk, hpower] at hle
        exact absurd hle (by decide)
      rw [hnone] at hp
      obtain rfl := Option.some.inj (hp.symm.trans value?_zero)
      rw [Rat.cast_zero, zero_mul, zero_add]
      refine ⟨fun he => ⟨q, r, hq, hr, he⟩, ?_⟩
      rintro ⟨q', r', hq', hr', he⟩
      rwa [Option.some.inj (hq.symm.trans hq'), Option.some.inj (hr.symm.trans hr')]
    · obtain rfl := Except.ok.inj (hs.symm.trans hshape)
      refine ⟨fun he => ⟨p, q, r, ⟨hp, hq, hr⟩, he⟩, ?_⟩
      rintro ⟨p', q', r', ⟨hp', hq', hr'⟩, he⟩
      rwa [Option.some.inj (hp.symm.trans hp'), Option.some.inj (hq.symm.trans hq'),
        Option.some.inj (hr.symm.trans hr')]

end Solver

end Quadratics
