import Quadratics.Proofs.Polynomial.Sums
/-! Terms in any order are sorted by descending power, with those of one power left as they stand,
and neighbours of one power are then added up. -/
namespace Quadratics.Polynomial

def goesBefore (t u : Term) : Bool := decide (u.power ≤ t.power)

/-- The terms behind `t`, those of its power added to it. -/
def coalesceFrom (t : Term) : List Term → List Term
  | [] => [t]
  | u :: us =>
    if t.power = u.power then coalesceFrom ⟨t.power, t.coefficient + u.coefficient⟩ us
    else t :: coalesceFrom u us

def coalesce : List Term → List Term
  | [] => []
  | t :: ts => coalesceFrom t ts

def Falling (ts : List Term) : Prop := ts.Pairwise fun t u => u.power ≤ t.power

variable {t u : Term} {ts us : List Term} {k : Int32}

theorem goesBefore_iff : goesBefore t u = true ↔ u.power ≤ t.power := decide_eq_true_iff

theorem goesBefore_trans (t u v : Term) (htu : goesBefore t u = true)
    (huv : goesBefore u v = true) : goesBefore t v = true :=
  goesBefore_iff.mpr (Int32.le_trans (goesBefore_iff.mp huv) (goesBefore_iff.mp htu))

theorem goesBefore_total (t u : Term) : (goesBefore t u || goesBefore u t) = true := by
  rw [Bool.or_eq_true, goesBefore_iff, goesBefore_iff]
  exact Int32.le_total _ _

theorem falling_mergeSort (ts : List Term) : Falling (ts.mergeSort goesBefore) :=
  (List.pairwise_mergeSort goesBefore_trans goesBefore_total ts).imp goesBefore_iff.mp

/-- The sort is stable: terms of one power keep their order. -/
theorem coefficients_mergeSort (ts : List Term) (k : Int32) :
    coefficients (ts.mergeSort goesBefore) k = coefficients ts k := by
  have hpower : ∀ t ∈ ts.filter (·.power = k), t.power = k := by simp
  have hequal : (ts.filter (·.power = k)).Pairwise fun t u => goesBefore t u = true :=
    List.pairwise_of_forall_mem_list fun t ht u hu =>
      goesBefore_iff.mpr (Int32.le_of_eq ((hpower u hu).trans (hpower t ht).symm))
  have hsublist := (List.sublist_mergeSort goesBefore_trans goesBefore_total hequal
    List.filter_sublist).filter (·.power = k)
  have hlength := ((List.mergeSort_perm ts goesBefore).filter (·.power = k)).length_eq
  rw [List.filter_filter] at hsublist
  simp only [Bool.and_self] at hsublist
  rw [coefficients, coefficients, hsublist.eq_of_length hlength.symm]

theorem Falling.coalesced (h : Falling (t :: u :: us)) (c : Float) :
    Falling (⟨t.power, c⟩ :: us) :=
  have ⟨hlow, hrest⟩ := List.pairwise_cons.mp h
  List.pairwise_cons.mpr ⟨(List.forall_mem_cons.mp hlow).2, (List.pairwise_cons.mp hrest).2⟩

theorem Falling.power_lt (h : Falling (t :: u :: us)) (hne : ¬ t.power = u.power) :
    u.power < t.power :=
  Int32.lt_of_le_of_ne ((List.pairwise_cons.mp h).1 u List.mem_cons_self) fun he => hne he.symm

/-- No term has a power above the first one. -/
theorem Falling.coefficients_eq_nil (h : Falling (t :: ts)) (hk : t.power < k) :
    coefficients (t :: ts) k = [] := by
  rw [coefficients, List.map_eq_nil_iff, List.filter_eq_nil_iff]
  intro u hu
  have hle : u.power ≤ t.power := by
    rcases List.mem_cons.mp hu with rfl | hu
    · exact Int32.le_refl _
    · exact (List.pairwise_cons.mp h).1 u hu
  simpa using Int32.ne_of_lt (Int32.lt_of_le_of_lt hle hk)

theorem power_le_of_mem_coalesceFrom (h : Falling (t :: ts)) (hu : u ∈ coalesceFrom t ts) :
    u.power ≤ t.power := by
  induction ts generalizing t with
  | nil => exact Int32.le_of_eq (congrArg Term.power (List.mem_singleton.mp hu))
  | cons v vs ih =>
    obtain ⟨hlow, hrest⟩ := List.pairwise_cons.mp h
    rw [coalesceFrom] at hu
    split at hu
    · have hle := ih (h.coalesced _) hu
      exact hle
    · rcases List.mem_cons.mp hu with rfl | hu
      · exact Int32.le_refl _
      · exact Int32.le_trans (ih hrest hu) (hlow v List.mem_cons_self)

theorem descending_coalesceFrom (h : Falling (t :: ts)) : Descending (coalesceFrom t ts) := by
  induction ts generalizing t with
  | nil => exact descending_singleton _
  | cons v vs ih =>
    have hrest : Falling (v :: vs) := (List.pairwise_cons.mp h).2
    rw [coalesceFrom]
    split
    · exact ih (h.coalesced _)
    · next hne =>
      exact List.pairwise_cons.mpr ⟨fun u hu =>
        Int32.lt_of_le_of_lt (power_le_of_mem_coalesceFrom hrest hu) (h.power_lt hne), ih hrest⟩

theorem coefficients_cons (t : Term) (ts : List Term) (k : Int32) :
    coefficients (t :: ts) k =
      if t.power = k then t.coefficient :: coefficients ts k else coefficients ts k := by
  by_cases h : t.power = k <;> simp [coefficients, h]

theorem coefficient?_coalesceFrom (h : Falling (t :: ts)) (k : Int32) :
    coefficient? (coalesceFrom t ts) k = leftSum? (coefficients (t :: ts) k) := by
  induction ts generalizing t with
  | nil =>
    rw [coalesceFrom, coefficient?, coefficients_cons]
    split <;> rfl
  | cons v vs ih =>
    have hrest : Falling (v :: vs) := (List.pairwise_cons.mp h).2
    rw [coalesceFrom]
    split
    · next heq =>
      rw [ih (h.coalesced _), coefficients_cons, coefficients_cons, coefficients_cons, ← heq]
      split <;> rfl
    · next hne =>
      rw [coefficient?, ih hrest, coefficients_cons t]
      split
      · next hk =>
        rw [hrest.coefficients_eq_nil (hk ▸ h.power_lt hne)]
        rfl
      · rfl

theorem Descending.power_le (ht : Descending (t :: ts))
    (h : coefficient? (u :: us) u.power = coefficient? (t :: ts) u.power) : u.power ≤ t.power := by
  by_contra hlt
  rw [Int32.not_le] at hlt
  have hnone : coefficient? (t :: ts) u.power = none := coefficient?_of_lt <|
    List.forall_mem_cons.mpr
      ⟨hlt, fun v hv => Int32.lt_trans ((List.pairwise_cons.mp ht).1 v hv) hlt⟩
  rw [hnone, coefficient?, if_pos rfl] at h
  cases h

/-- Terms in order are given by the coefficients of their powers. -/
theorem Descending.eq_of_coefficient? (ht : Descending ts) (hu : Descending us)
    (h : ∀ k, coefficient? ts k = coefficient? us k) : ts = us := by
  induction ts generalizing us with
  | nil =>
    cases us with
    | nil => rfl
    | cons u us => simpa [coefficient?] using h u.power
  | cons t ts ih =>
    cases us with
    | nil => simpa [coefficient?] using h t.power
    | cons u us =>
      have hpower : t.power = u.power :=
        Int32.le_antisymm (hu.power_le (h t.power)) (ht.power_le (h u.power).symm)
      have hfirst := h t.power
      rw [coefficient?, coefficient?, if_pos rfl, if_pos hpower.symm] at hfirst
      obtain ⟨htlow, htrest⟩ := List.pairwise_cons.mp ht
      obtain ⟨hulow, hurest⟩ := List.pairwise_cons.mp hu
      have hrest : ts = us := ih htrest hurest fun k => by
        by_cases hk : t.power = k
        · subst hk
          rw [coefficient?_of_lt htlow, hpower, coefficient?_of_lt hulow]
        · have hother := h k
          rwa [coefficient?, coefficient?, if_neg hk, if_neg (hpower ▸ hk)] at hother
      obtain ⟨p, c⟩ := t
      obtain ⟨q, d⟩ := u
      cases hpower
      cases hfirst
      rw [hrest]

/-- The sum of terms in any order is what a stable sort and the adding up of neighbours give. -/
theorem ofTerms_eq_coalesce (ts : List Term) :
    (ofTerms ts).terms = coalesce (ts.mergeSort goesBefore) := by
  have hfalling := falling_mergeSort ts
  have hcoefficients := coefficients_mergeSort ts
  generalize ts.mergeSort goesBefore = sorted at hfalling hcoefficients
  refine (descending_ofTerms ts).eq_of_coefficient? ?_ fun k => ?_
  · cases sorted with
    | nil => exact List.Pairwise.nil
    | cons t us => exact descending_coalesceFrom hfalling
  · rw [coefficient?_ofTerms, ← hcoefficients]
    cases sorted with
    | nil => rfl
    | cons t us => exact (coefficient?_coalesceFrom hfalling k).symm

end Quadratics.Polynomial
