import Quadratics.Proofs.Evaluation.Stages
import Quadratics.Proofs.Number.Bounds
import Quadratics.Proofs.Solver.Opposite
/-! The shape of an equation and the coefficients that make it up. -/
namespace Quadratics

variable {s t : Solver} {shape : Shape} {solution : Solution}

def Solution.ofReals (x y : Float) : Solution :=
  .twoReal (Number.lesser (Number.positiveZero x) (Number.positiveZero y))
    (Number.greater (Number.positiveZero x) (Number.positiveZero y))

section Roots

variable {a b c d : Float} (hd : b * b - 4 * a * c = d)

include hd

theorem quadraticRoots_of_lt (h : d < 0) :
    (quadraticRoots a b c).2 =
      .twoComplex ⟨Number.positiveZero (-b / (2 * a)), -((-d).sqrt / (2 * a).abs)⟩
        ⟨Number.positiveZero (-b / (2 * a)), (-d).sqrt / (2 * a).abs⟩ := by
  simp only [quadraticRoots, hd, h, if_true]

theorem quadraticRoots_of_eq (h : ¬ d < 0) (hz : (d == 0) = true) :
    (quadraticRoots a b c).2 = .one (Number.positiveZero (-b / (2 * a))) := by
  simp only [quadraticRoots, hd, h, hz, if_false, if_true]

theorem quadraticRoots_of_gt (h : ¬ d < 0) (hz : ¬ (d == 0) = true) :
    (quadraticRoots a b c).2 = .ofReals ((-b - d.sqrt) / (2 * a)) ((-b + d.sqrt) / (2 * a)) := by
  simp only [quadraticRoots, hd, h, hz, if_false, Bool.false_eq_true, Solution.ofReals]

end Roots

/-- The leading coefficient has the property, the others have it or are not there. -/
inductive Shape.Of (P : Float → Prop) : Shape → Prop
  | empty : Of P .empty
  | constant : Of P .constant
  | monomial : Of P .monomial
  | linear {b c : Float} (hb : P b) (hc : P c ∨ c = 0) : Of P (.linear b c)
  | quadratic {a b c : Float} (ha : P a) (hb : P b ∨ b = 0) (hc : P c ∨ c = 0) :
      Of P (.quadratic a b c)

theorem Shape.Of.imp {P Q : Float → Prop} (hPQ : ∀ x, P x → Q x) (h : shape.Of P) :
    shape.Of Q := by
  have hor {x : Float} (hx : P x ∨ x = 0) : Q x ∨ x = 0 := hx.imp_left (hPQ x)
  cases h with
  | empty => exact .empty
  | constant => exact .constant
  | monomial => exact .monomial
  | linear hb hc => exact .linear (hPQ _ hb) (hor hc)
  | quadratic ha hb hc => exact .quadratic (hPQ _ ha) (hor hb) (hor hc)

namespace Solver

theorem solve_eq_ok_iff : s.solve = .ok (solution, t) ↔
    s.validate = .ok () ∧ ∃ shape, s.shape = .ok shape ∧ (answer shape).2 = solution ∧
      t = { s with discriminant := (answer shape).1 } := by
  constructor
  · intro h
    obtain ⟨⟨⟩, hv, h⟩ := bind_eq_ok.mp h
    obtain ⟨shape, hs, h⟩ := bind_eq_ok.mp h
    cases h
    exact ⟨hv, shape, hs, rfl, rfl⟩
  · rintro ⟨hv, shape, hs, rfl, rfl⟩
    exact bind_eq_ok.mpr ⟨(), hv, bind_eq_ok.mpr ⟨shape, hs, rfl⟩⟩

theorem validate_eq_ok
    (h : ∀ t ∈ s.terms, t.coefficient.isFinite = true ∧ 0 ≤ t.power ∧ t.power ≤ 2) :
    s.validate = .ok () := by
  have hfinite : s.terms.find? (!·.coefficient.isFinite) = none :=
    List.find?_eq_none.mpr fun t ht => by simp [(h t ht).1]
  have hpower : s.terms.find? (fun t => t.power < 0 || 2 < t.power) = none :=
    List.find?_eq_none.mpr fun t ht => by
      simp [Int32.not_lt.mpr (h t ht).2.1, Int32.not_lt.mpr (h t ht).2.2]
  simp only [validate, hfinite, hpower]

theorem answer_quadratic (a b c : Float) :
    answer (.quadratic a b c) = (some (b * b - 4 * a * c), (quadraticRoots a b c).2) := by
  simp only [answer, quadraticRoots]
  split
  · rfl
  · split <;> rfl

theorem coefficient_cases (s : Solver) (k : Int32) :
    (∃ t ∈ s.terms, t.power = k ∧ s.coefficient k = t.coefficient) ∨
      (∀ t ∈ s.terms, t.power ≠ k) ∧ s.coefficient k = 0 := by
  rw [coefficient]
  cases hf : s.terms.find? (·.power == k) with
  | some t =>
    have hk := List.find?_some hf
    exact .inl ⟨t, List.mem_of_find?_eq_some hf, by simpa using hk, rfl⟩
  | none => exact .inr ⟨by simpa using hf, rfl⟩

theorem power_le_highest (t : Term) (ts : List Term) : ∀ u ∈ t :: ts, u.power ≤ highest t ts := by
  induction ts generalizing t with
  | nil => simp [highest]
  | cons v vs ih =>
    rw [highest_cons]
    rw [List.forall_mem_cons, List.forall_mem_cons]
    split
    · next h =>
      have hv := List.forall_mem_cons.mp (ih v)
      exact ⟨Int32.le_trans (Int32.le_of_lt h) hv.1, hv⟩
    · next h =>
      have ht := List.forall_mem_cons.mp (ih t)
      exact ⟨ht.1, Int32.le_trans (Int32.not_lt.mp h) ht.1, ht.2⟩

theorem shape_of {P : Float → Prop} (h : ∀ t ∈ s.terms, P t.coefficient)
    (hs : s.shape = .ok shape) : shape.Of P := by
  have hother (k : Int32) : P (s.coefficient k) ∨ s.coefficient k = 0 := by
    rcases s.coefficient_cases k with ⟨t, ht, -, hc⟩ | ⟨-, hc⟩
    · exact .inl (hc ▸ h t ht)
    · exact .inr hc
  have hlead {t : Term} {ts : List Term} {k : Int32} (hts : s.terms = t :: ts)
      (hk : highest t ts = k) : P (s.coefficient k) := by
    obtain ⟨u, hu, hpower⟩ := exists_power_eq_highest t ts
    rcases s.coefficient_cases k with ⟨v, hv, -, hc⟩ | ⟨hnone, -⟩
    · exact hc ▸ h v hv
    · exact absurd (hpower.trans hk) (hnone u (hts ▸ hu))
  unfold Solver.shape at hs
  split at hs
  · cases hs
    exact .empty
  · cases hs
    split
    · exact .constant
    · exact .monomial
  · next t ts _ hts =>
    simp only at hs
    split at hs
    · next hk =>
      cases hs
      exact .linear (hlead hts hk) (hother 0)
    · split at hs
      · next hk =>
        cases hs
        exact .quadratic (hlead hts hk) (hother 1) (hother 0)
      · cases hs

end Solver

namespace Number

theorem exists_value_of_bne_zero {x : Float} (h : x.isFinite = true) (hz : (x != 0) = true) :
    ∃ q, value? x = some q ∧ q ≠ 0 := by
  obtain ⟨q, hq⟩ := isFinite_iff.mp h
  refine ⟨q, hq, fun hzero => ?_⟩
  rw [bne, (beq_zero_iff hq).mpr hzero] at hz
  cases hz

end Number

theorem Solver.forall_value_ofTerms {ts : List Term} (h : (ofTerms ts).validate = .ok ()) :
    ∀ t ∈ (ofTerms ts).terms, t ∈ ts ∧ ∃ q, Number.value? t.coefficient = some q ∧ q ≠ 0 := by
  intro t ht
  obtain ⟨hmem, hz⟩ := List.mem_filter.mp ht
  exact ⟨hmem, Number.exists_value_of_bne_zero (validate_ok h t ht).1 hz⟩

end Quadratics
