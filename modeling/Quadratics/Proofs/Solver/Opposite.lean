import Quadratics.Proofs.Number.Arithmetic
import Quadratics.Proofs.Number.Order
import Quadratics.Proofs.Polynomial.Order
import Quadratics.Solver
/-! Negating every coefficient of an equation changes nothing about its solution. The two sides of
an equation subtracted either way are such a pair. -/
namespace Quadratics

open Number (SameValue)

namespace Term

def neg (t : Term) : Term := ⟨t.power, -t.coefficient⟩

@[simp] theorem neg_power (t : Term) : t.neg.power = t.power := rfl

@[simp] theorem neg_coefficient (t : Term) : t.neg.coefficient = -t.coefficient := rfl

/-- Terms that cancel, up to the sign of a zero. -/
def Opposite (t u : Term) : Prop := u.power = t.power ∧ SameValue (-t.coefficient) u.coefficient

theorem opposite_neg (t : Term) : t.Opposite t.neg := ⟨rfl, .refl _⟩

theorem neg_opposite (t : Term) : t.neg.Opposite t := by
  refine ⟨rfl, ?_⟩
  rw [neg, Number.neg_neg]
  exact .refl _

end Term

open Term (Opposite)

namespace Polynomial

theorem forall_opposite_neg (ts : List Term) :
    List.Forall₂ Opposite ts (ts.map Term.neg) ∧ List.Forall₂ Opposite (ts.map Term.neg) ts := by
  rw [List.forall₂_map_right_iff, List.forall₂_map_left_iff, List.forall₂_same, List.forall₂_same]
  exact ⟨fun t _ => t.opposite_neg, fun t _ => t.neg_opposite⟩

theorem forall_opposite_merge (ts us : List Term) :
    List.Forall₂ Opposite (merge ts (us.map Term.neg)) (merge us (ts.map Term.neg)) := by
  induction ts, us using merge.induct with
  | case1 us =>
    rw [List.map_nil, merge_nil, merge]
    exact (forall_opposite_neg us).2
  | case2 ts hne =>
    rw [List.map_nil, merge_nil, merge]
    exact (forall_opposite_neg ts).1
  | case3 t ts u us hut ih =>
    have htu : ¬ t.power < u.power := Int32.not_lt.mpr (Int32.le_of_lt hut)
    rw [List.map_cons, List.map_cons, merge, merge]
    simp only [Term.neg_power, hut, htu, if_true, if_false]
    exact .cons t.opposite_neg ih
  | case4 t ts u us hut htu ih =>
    rw [List.map_cons, List.map_cons, merge, merge]
    simp only [Term.neg_power, hut, htu, if_true, if_false]
    exact .cons u.neg_opposite ih
  | case5 t ts u us hut htu ih =>
    have hpow : u.power = t.power := Int32.le_antisymm (Int32.not_lt.mp htu) (Int32.not_lt.mp hut)
    rw [List.map_cons, List.map_cons, merge, merge]
    simp only [Term.neg_power, hut, htu, if_false]
    refine .cons ⟨hpow, ?_⟩ ih
    have h := (SameValue.neg_add t.coefficient (-u.coefficient)).symm
    rwa [Number.neg_neg, Number.add_comm (-t.coefficient)] at h

theorem filter_of_opposite {ts us : List Term} (h : List.Forall₂ Opposite ts us) :
    us.filter (fun u => u.coefficient != 0) =
      (ts.filter fun t => t.coefficient != 0).map Term.neg := by
  induction h with
  | nil => rfl
  | @cons t u ts us htu h ih =>
    obtain ⟨hpow, hc⟩ := htu
    have hzero : (u.coefficient != 0) = (t.coefficient != 0) := by
      rw [Bool.eq_iff_iff, Number.bne_zero_iff, Number.bne_zero_iff, ← hc.isZero_iff,
        Number.isZero_neg]
    rw [List.filter_cons, List.filter_cons, hzero]
    split
    · next ht =>
      have hneg : -t.coefficient = u.coefficient := by
        apply hc.eq_of_not_isZero
        rwa [Number.isZero_neg, ← Number.bne_zero_iff]
      rw [List.map_cons, ih, Term.neg, ← hpow, hneg]
    · exact ih

end Polynomial

section Roots

variable {a b b' c c' x y z : Float}

theorem positiveZero_div_neg (h : SameValue (-x) y) :
    Number.positiveZero (y / -z) = Number.positiveZero (x / z) := by
  apply Number.positiveZero_congr
  have hdiv := (h.div_right (-z)).symm
  rwa [Number.neg_div x, Number.div_neg x, Number.neg_neg] at hdiv

theorem linearRoot_opposite (h : SameValue (-c) c') : linearRoot (-b) c' = linearRoot b c :=
  positiveZero_div_neg h.neg

theorem discriminant_opposite (hb : SameValue (-b) b') (hc : SameValue (-c) c') :
    b' * b' - 4 * -a * c' = b * b - 4 * a * c := by
  have hsquare : b' * b' = b * b := by
    have h := hb.mul hb
    rw [Number.neg_mul, Number.mul_neg, Number.neg_neg] at h
    exact (h.eq_of_hasSign (Number.hasSign_mul_self b) (Number.hasSign_mul_self b')).symm
  have hproduct : SameValue (4 * -a * c') (4 * a * c) := by
    have h := hc.mul_left (4 * -a)
    rw [Number.mul_neg, Number.mul_neg, Number.neg_mul, Number.neg_neg] at h
    rw [Number.mul_neg]
    exact h.symm
  rw [hsquare]
  exact Number.sub_congr_right (Number.hasSign_mul_self b) hproduct

theorem quadraticRoots_opposite (hb : SameValue (-b) b') (hc : SameValue (-c) c') :
    quadraticRoots (-a) b' c' = quadraticRoots a b c := by
  have hmiddle : Number.positiveZero (-b' / -(2 * a)) = Number.positiveZero (-b / (2 * a)) :=
    positiveZero_div_neg hb.neg
  -- the roots change places
  have hsum (r : Float) : Number.positiveZero ((-b' + -r) / -(2 * a)) =
      Number.positiveZero ((-b + r) / (2 * a)) :=
    positiveZero_div_neg ((SameValue.neg_add (-b) r).symm.trans (hb.neg.add (.refl (-r))))
  have hfirst (r : Float) : Number.positiveZero ((-b' - r) / -(2 * a)) =
      Number.positiveZero ((-b + r) / (2 * a)) := by
    rw [Number.sub_eq_add_neg, hsum]
  have hsecond (r : Float) : Number.positiveZero ((-b' + r) / -(2 * a)) =
      Number.positiveZero ((-b - r) / (2 * a)) := by
    rw [Number.sub_eq_add_neg, ← hsum, Number.neg_neg]
  unfold quadraticRoots
  rw [discriminant_opposite hb hc]
  simp only [Number.mul_neg, hmiddle, Number.abs_neg, hfirst, hsecond]
  split
  · rfl
  · split
    · rfl
    · rw [Number.lesser_comm (Number.unpack_positiveZero_ne _) (Number.unpack_positiveZero_ne _),
        Number.greater_comm (Number.unpack_positiveZero_ne _) (Number.unpack_positiveZero_ne _)]

end Roots

/-- Coefficients that cancel, the leading one exactly. -/
inductive Shape.Opposite : Shape → Shape → Prop where
  | empty : Opposite .empty .empty
  | constant : Opposite .constant .constant
  | monomial : Opposite .monomial .monomial
  | linear {b c c' : Float} (hc : SameValue (-c) c') : Opposite (.linear b c) (.linear (-b) c')
  | quadratic {a b b' c c' : Float} (hb : SameValue (-b) b') (hc : SameValue (-c) c') :
      Opposite (.quadratic a b c) (.quadratic (-a) b' c')

namespace Solver

theorem answer_opposite {x y : Shape} (h : x.Opposite y) : answer y = answer x := by
  cases h with
  | empty | constant | monomial => rfl
  | linear hc => rw [answer, answer, linearRoot_opposite hc]
  | quadratic hb hc => rw [answer, answer, quadraticRoots_opposite hb hc]

def neg (s : Solver) : Solver := { s with terms := s.terms.map Term.neg }

variable (s : Solver)

theorem highest_neg (t : Term) (ts : List Term) :
    highest t.neg (ts.map Term.neg) = highest t ts := by
  rw [highest, highest, List.foldl_map]
  rfl

theorem degree_neg : s.neg.degree = s.degree := by
  cases hs : s.terms with
  | nil => simp [degree, neg, hs]
  | cons t ts => simp [degree, neg, hs, highest_neg]

theorem find?_neg {p : Term → Bool} (hp : ∀ t : Term, p t.neg = p t) :
    s.neg.terms.find? p = (s.terms.find? p).map Term.neg := by
  have hcomp : p ∘ Term.neg = p := funext hp
  rw [neg, List.find?_map, hcomp]

theorem validate_neg : s.neg.validate = s.validate := by
  have hfinite := s.find?_neg (p := fun t => !t.coefficient.isFinite)
    fun t => by rw [Term.neg_coefficient, Number.isFinite_neg]
  have hpower := s.find?_neg (p := fun t => t.power < 0 || 2 < t.power) fun t => rfl
  rw [validate, validate, hfinite, hpower]
  cases s.terms.find? fun t => !t.coefficient.isFinite with
  | some t => rfl
  | none => cases s.terms.find? fun t => t.power < 0 || 2 < t.power <;> rfl

theorem coefficient_neg_cases (k : Int32) :
    s.neg.coefficient k = -s.coefficient k ∨
      (∀ t ∈ s.terms, t.power ≠ k) ∧ s.coefficient k = 0 ∧ s.neg.coefficient k = 0 := by
  have hneg := s.find?_neg (p := (·.power == k)) fun t => rfl
  rw [coefficient, coefficient, hneg]
  cases hf : s.terms.find? (·.power == k) with
  | some t => exact .inl rfl
  | none => exact .inr ⟨by simpa using hf, rfl, rfl⟩

theorem sameValue_coefficient_neg (k : Int32) :
    SameValue (-s.coefficient k) (s.neg.coefficient k) := by
  rcases s.coefficient_neg_cases k with h | ⟨-, h, h'⟩
  · exact .inl h.symm
  · rw [h, h']
    exact .inr ⟨⟨.negative, rfl⟩, ⟨.positive, rfl⟩⟩

theorem coefficient_neg {k : Int32} (h : ∃ t ∈ s.terms, t.power = k) :
    s.neg.coefficient k = -s.coefficient k := by
  obtain ⟨t, ht, hk⟩ := h
  exact (s.coefficient_neg_cases k).resolve_right fun hne => hne.1 t ht hk

theorem highest_cons (t u : Term) (us : List Term) :
    highest t (u :: us) = if t.power < u.power then highest u us else highest t us := by
  simp only [highest, List.foldl_cons]
  split <;> rfl

theorem exists_power_eq_highest (t : Term) (ts : List Term) :
    ∃ u ∈ t :: ts, u.power = highest t ts := by
  induction ts generalizing t with
  | nil => exact ⟨t, List.mem_cons_self, rfl⟩
  | cons u us ih =>
    rw [highest_cons]
    split
    · obtain ⟨v, hv, hp⟩ := ih u
      exact ⟨v, List.mem_cons_of_mem t hv, hp⟩
    · obtain ⟨v, hv, hp⟩ := ih t
      exact ⟨v, List.cons_subset_cons t (List.subset_cons_self u us) hv, hp⟩

theorem agree_shape : Agree Eq Shape.Opposite s.shape s.neg.shape := by
  have hc := s.sameValue_coefficient_neg
  unfold shape
  cases hs : s.terms with
  | nil =>
    have hn : s.neg.terms = [] := by rw [neg, hs, List.map_nil]
    rw [hn]
    exact .ok .empty
  | cons t ts =>
    have hn : s.neg.terms = t.neg :: ts.map Term.neg := by rw [neg, hs, List.map_cons]
    have hlead {k : Int32} (hk : highest t ts = k) : s.neg.coefficient k = -s.coefficient k := by
      apply s.coefficient_neg
      rw [hs, ← hk]
      exact exists_power_eq_highest t ts
    have hhigh := highest_neg t ts
    rw [hn]
    cases ts with
    | nil =>
      by_cases h : t.power = 0
      · simpa [h] using Agree.ok .constant
      · simpa [h] using Agree.ok .monomial
    | cons u us =>
      rw [List.map_cons] at hhigh ⊢
      simp only [hhigh]
      split
      · next h =>
        rw [hlead h]
        exact .ok (.linear (hc 0))
      · split
        · next h =>
          rw [hlead h]
          exact .ok (.quadratic (hc 1) (hc 0))
        · exact .error rfl

theorem ofTerms_sub (p q : Polynomial) :
    ofTerms (q.sub p).terms = (ofTerms (p.sub q).terms).neg := by
  have h := Polynomial.filter_of_opposite (Polynomial.forall_opposite_merge p.terms q.terms)
  exact congrArg (fun ts => ({ terms := ts } : Solver)) h

theorem agree_solve : Agree Eq (fun r q => q = (r.1, r.2.neg)) s.solve s.neg.solve := by
  rw [solve, solve, validate_neg]
  refine (Agree.refl s.validate).bind ?_
  rintro ⟨⟩ _ rfl
  refine s.agree_shape.bind ?_
  intro x y hxy
  rw [answer_opposite hxy]
  exact .ok rfl

end Solver
end Quadratics
