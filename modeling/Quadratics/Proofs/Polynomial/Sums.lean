import Mathlib.Data.List.Induction
import Quadratics.Proofs.Expression.Applying
/-! Coefficients under sums: those of one power are added in the order in which they come, and no
others are touched. Terms in descending order are all that the operations make. -/
namespace Quadratics

namespace Polynomial

/-- The first coefficient of a power. -/
def coefficient? : List Term → Int32 → Option Float
  | [], _ => none
  | t :: ts, k => if t.power = k then some t.coefficient else coefficient? ts k

def coefficients (ts : List Term) (k : Int32) : List Float :=
  (ts.filter (·.power = k)).map (·.coefficient)

/-- The sum from left to right; of nothing there is none. -/
def leftSum? : List Float → Option Float
  | [] => none
  | c :: cs => some (cs.foldl (· + ·) c)

/-- The sum where there are two summands, and the only one where there is one. -/
def sumOrOnly : Option Float → Option Float → Option Float
  | some a, some b => some (a + b)
  | some a, none => some a
  | none, b => b

/-- What the operations make of constants, variables and lists of terms. -/
inductive Obtained : Polynomial → Prop where
  | constant (value : Float) : Obtained (.constant value)
  | var (multiplier : Float) : Obtained (.var multiplier)
  | ofTerms (ts : List Term) : Obtained (.ofTerms ts)
  | neg {p : Polynomial} (hp : Obtained p) : Obtained p.neg
  | add {p q : Polynomial} (hp : Obtained p) (hq : Obtained q) : Obtained (p.add q)
  | sub {p q : Polynomial} (hp : Obtained p) (hq : Obtained q) : Obtained (p.sub q)
  | mul {p q r : Polynomial} {position : Nat} (hp : Obtained p) (hq : Obtained q)
      (hr : p.mul q position = .ok r) : Obtained r
  | div {p q r : Polynomial} {position : Nat} (hp : Obtained p) (hq : Obtained q)
      (hr : p.div q position = .ok r) : Obtained r
  | pow {p q r : Polynomial} {position : Nat} (hp : Obtained p) (hq : Obtained q)
      (hr : p.pow q position = .ok r) : Obtained r

variable {p q : Polynomial} {t : Term} {ts us : List Term} {k : Int32}

theorem leftSum?_concat (cs : List Float) (c : Float) :
    leftSum? (cs ++ [c]) = sumOrOnly (leftSum? cs) (some c) := by
  cases cs with
  | nil => rfl
  | cons b cs => simp [leftSum?, sumOrOnly]

theorem coefficients_concat (ts : List Term) (t : Term) (k : Int32) :
    coefficients (ts ++ [t]) k =
      coefficients ts k ++ if t.power = k then [t.coefficient] else [] := by
  by_cases h : t.power = k <;> simp [coefficients, h]

theorem coefficient?_eq_none (h : ∀ t ∈ ts, t.power ≠ k) : coefficient? ts k = none := by
  induction ts with
  | nil => rfl
  | cons t ts ih =>
    obtain ⟨ht, hts⟩ := List.forall_mem_cons.mp h
    rw [coefficient?, if_neg ht, ih hts]

theorem coefficient?_of_lt (h : ∀ t ∈ ts, t.power < k) : coefficient? ts k = none :=
  coefficient?_eq_none fun t ht => Int32.ne_of_lt (h t ht)

theorem coefficient?_merge (ht : Descending ts) (hu : Descending us) (k : Int32) :
    coefficient? (merge ts us) k = sumOrOnly (coefficient? ts k) (coefficient? us k) := by
  induction ts, us using merge.induct with
  | case1 us =>
    rw [merge]
    rfl
  | case2 ts hne =>
    rw [merge_nil]
    cases coefficient? ts k <;> rfl
  | case3 t ts u us hut ih =>
    obtain ⟨-, hrest⟩ := List.pairwise_cons.mp ht
    rw [merge, if_pos hut]
    by_cases hk : t.power = k
    · have hnone : coefficient? (u :: us) k = none := by
        apply coefficient?_of_lt
        obtain ⟨hlow, -⟩ := List.pairwise_cons.mp hu
        subst hk
        exact List.forall_mem_cons.mpr ⟨hut, fun v hv => Int32.lt_trans (hlow v hv) hut⟩
      rw [hnone, coefficient?, coefficient?, if_pos hk, if_pos hk]
      rfl
    · simp only [coefficient?, if_neg hk]
      exact ih hrest hu
  | case4 t ts u us hut htu ih =>
    obtain ⟨-, hrest⟩ := List.pairwise_cons.mp hu
    rw [merge, if_neg hut, if_pos htu]
    by_cases hk : u.power = k
    · have hnone : coefficient? (t :: ts) k = none := by
        apply coefficient?_of_lt
        obtain ⟨hlow, -⟩ := List.pairwise_cons.mp ht
        subst hk
        exact List.forall_mem_cons.mpr ⟨htu, fun v hv => Int32.lt_trans (hlow v hv) htu⟩
      rw [hnone, coefficient?, coefficient?, if_pos hk, if_pos hk]
      rfl
    · have hus : coefficient? (u :: us) k = coefficient? us k := by rw [coefficient?, if_neg hk]
      rw [hus, coefficient?, if_neg hk, ih ht hrest]
  | case5 t ts u us hut htu ih =>
    have hpow : u.power = t.power := Int32.le_antisymm (Int32.not_lt.mp htu) (Int32.not_lt.mp hut)
    obtain ⟨-, ht⟩ := List.pairwise_cons.mp ht
    obtain ⟨-, hu⟩ := List.pairwise_cons.mp hu
    rw [merge, if_neg hut, if_neg htu]
    simp only [coefficient?, hpow]
    split
    · rfl
    · exact ih ht hu

theorem insert_eq_merge (t : Term) (ts : List Term) : insert t ts = merge ts [t] := by
  induction ts with
  | nil => rw [insert, merge]
  | cons u us ih =>
    rw [insert, merge]
    by_cases hut : u.power < t.power
    · rw [if_pos hut, if_neg (Int32.not_lt.mpr (Int32.le_of_lt hut)), if_pos hut, merge_nil]
    · rw [if_neg hut, if_neg hut, ih, merge_nil]
      by_cases heq : u.power = t.power
      · have hlt : ¬ t.power < u.power := Int32.not_lt.mpr (Int32.le_of_eq heq)
        rw [if_pos heq, if_neg hlt]
      · have hlt : t.power < u.power :=
          Int32.lt_of_le_of_ne (Int32.not_lt.mp hut) fun he => heq he.symm
        rw [if_neg heq, if_pos hlt]

theorem ofTerms_concat (ts : List Term) (t : Term) :
    (ofTerms (ts ++ [t])).terms = merge (ofTerms ts).terms [t] := by
  simp [ofTerms, insert_eq_merge]

theorem descending_ofTerms (ts : List Term) : Descending (ofTerms ts).terms := by
  induction ts using List.reverseRecOn with
  | nil => exact List.Pairwise.nil
  | append_singleton ts t ih =>
    rw [ofTerms_concat]
    exact descending_merge ih (descending_singleton t)

theorem coefficient?_ofTerms (ts : List Term) (k : Int32) :
    coefficient? (ofTerms ts).terms k = leftSum? (coefficients ts k) := by
  induction ts using List.reverseRecOn with
  | nil => rfl
  | append_singleton ts t ih =>
    rw [ofTerms_concat, coefficient?_merge (descending_ofTerms ts) (descending_singleton t), ih,
      coefficients_concat]
    by_cases hk : t.power = k
    · rw [coefficient?, if_pos hk, if_pos hk, leftSum?_concat]
    · rw [coefficient?, if_neg hk, if_neg hk, List.append_nil]
      cases leftSum? (coefficients ts k) <;> rfl

theorem terms_ofTerms (h : Descending ts) : (ofTerms ts).terms = ts := by
  induction ts using List.reverseRecOn with
  | nil => rfl
  | append_singleton ts t ih =>
    obtain ⟨hts, -, hlow⟩ := List.pairwise_append.mp h
    rw [ofTerms_concat, ih hts, merge_singleton fun u hu => hlow u hu t (List.mem_singleton_self t)]

theorem Obtained.descending (h : Obtained p) : Descending p.terms := by
  induction h with
  | constant value => exact descending_singleton _
  | var multiplier => exact descending_singleton _
  | ofTerms ts => exact descending_ofTerms ts
  | neg hp ih => exact descending_neg ih
  | add hp hq ihp ihq => exact descending_merge ihp ihq
  | sub hp hq ihp ihq => exact descending_merge ihp (descending_neg ihq)
  | mul hp hq hr ihp ihq => exact descending_mul ihp ihq hr
  | div hp hq hr ihp ihq => exact descending_div ihp hr
  | pow hp hq hr ihp ihq => exact descending_pow hr

end Polynomial

namespace Expression

open Quadratics.Polynomial

variable {e : Expression} {op : Operator} {p q r : Polynomial} {position : Nat}

theorem obtained_applyUnary (hp : Obtained p) (hr : applyUnary op p position = .ok r) :
    Obtained r := by
  cases op with
  | unaryMinus =>
    cases hr
    exact hp.neg
  | unaryPlus =>
    cases hr
    exact hp
  | add | sub | mul | div | pow => cases hr

theorem obtained_applyBinary (hp : Obtained p) (hq : Obtained q)
    (hr : applyBinary op p q position = .ok r) : Obtained r := by
  cases op with
  | add =>
    cases hr
    exact hp.add hq
  | sub =>
    cases hr
    exact hp.sub hq
  | mul => exact hp.mul hq hr
  | div => exact hp.div hq hr
  | pow => exact hp.pow hq hr
  | unaryMinus | unaryPlus => cases hr

theorem obtained_fold (h : e.fold = .ok p) : Obtained p := by
  induction e generalizing p with
  | number value position =>
    cases h
    exact .constant value
  | var multiplier position =>
    cases h
    exact .var multiplier
  | unary op operand position ih =>
    obtain ⟨q, hq, h⟩ := bind_eq_ok.mp h
    exact obtained_applyUnary (ih hq) h
  | binary op left right position ihl ihr =>
    obtain ⟨l, hl, h⟩ := bind_eq_ok.mp h
    obtain ⟨r, hr, h⟩ := bind_eq_ok.mp h
    exact obtained_applyBinary (ihl hl) (ihr hr) h

end Expression

namespace Polynomial

/-- Whatever the operations make has one term for each power, in descending order, and a folded tree
has a term; lists of terms and sums have the powers of their summands, and as coefficients their
sums from left to right. -/
theorem representation_of_sums :
    (∀ p, Obtained p → Descending p.terms) ∧
    (∀ (e : Expression) p, e.fold = .ok p → Obtained p ∧ p.terms ≠ []) ∧
    (∀ ts k, coefficient? (ofTerms ts).terms k = leftSum? (coefficients ts k)) ∧
    (∀ p, Obtained p → ofTerms p.terms = p) ∧
    ∀ p q k, Obtained p → Obtained q →
      coefficient? (p.add q).terms k =
        sumOrOnly (coefficient? p.terms k) (coefficient? q.terms k) := by
  refine ⟨fun p hp => hp.descending, ?_, coefficient?_ofTerms, ?_, ?_⟩
  · exact fun e p h => ⟨Expression.obtained_fold h, Expression.terms_ne_nil_of_fold h⟩
  · intro p hp
    obtain ⟨ts⟩ := p
    exact congrArg Polynomial.mk (terms_ofTerms hp.descending)
  · exact fun p q k hp hq => coefficient?_merge hp.descending hq.descending k

/-- `2 ^ 53 + x + 1 + 1`, where each one is lost as it comes, with `-x` added; and `x - x`. -/
theorem representation_of_sums_rounded :
    let ts : List Term := [⟨0, 9007199254740992⟩, ⟨1, 1⟩, ⟨0, 1⟩, ⟨0, 1⟩]
    let p := ofTerms ts
    let q := Polynomial.var (-1)
    let e := Expression.binary .sub (.var 1 0) (.var 1 4) 2
    (Obtained p ∧ Obtained q ∧ Descending p.terms ∧ ofTerms p.terms = p) ∧
      coefficient? p.terms 0 = some 9007199254740992 ∧
      coefficient? (p.add q).terms 1 = some 0 ∧
      e.fold = .ok ⟨[⟨1, 0⟩]⟩ ∧ Obtained ⟨[⟨1, 0⟩]⟩ := by
  intro ts p q e
  obtain ⟨hdescending, hfold, hterms, hagain, hadd⟩ := representation_of_sums
  have hp : Obtained p := .ofTerms ts
  have hq : Obtained q := .var (-1)
  have hsum : leftSum? (coefficients ts 0) = some 9007199254740992 := by decide +kernel
  have hpq : sumOrOnly (coefficient? p.terms 1) (coefficient? q.terms 1) = some 0 := by
    decide +kernel
  have he : e.fold = .ok ⟨[⟨1, 0⟩]⟩ := by decide +kernel
  refine ⟨⟨hp, hq, hdescending p hp, hagain p hp⟩, ?_, ?_, he, (hfold e _ he).1⟩
  · exact (hterms ts 0).trans hsum
  · exact (hadd p q 1 hp hq).trans hpq

end Polynomial
end Quadratics
