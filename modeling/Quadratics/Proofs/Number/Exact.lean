import Quadratics.Number.Power
import Quadratics.Proofs.Number.Value
/-! Operations on numbers, and when one of them loses nothing. -/
namespace Quadratics.Number

inductive Operation where
  | neg (x : Float)
  | add (x y : Float)
  | mul (x y : Float)
  | div (x y : Float)
deriving DecidableEq

namespace Operation

def result : Operation → Float
  | .neg x => -x
  | .add x y => x + y
  | .mul x y => x * y
  | .div x y => x / y

def unrounded? : Operation → Option ℚ
  | .neg x => do return -(← value? x)
  | .add x y => do return (← value? x) + (← value? y)
  | .mul x y => do return (← value? x) * (← value? y)
  | .div x y => do
    let a ← value? x
    let b ← value? y
    if b = 0 then none else some (a / b)

def Exact (o : Operation) : Prop := ∃ a, o.unrounded? = some a ∧ value? o.result = some a

theorem exact_iff (o : Operation) :
    o.Exact ↔ o.unrounded?.isSome ∧ value? o.result = o.unrounded? := by
  constructor
  · rintro ⟨a, ha, hr⟩
    exact ⟨by simp [ha], by rw [ha, hr]⟩
  · rintro ⟨hs, hr⟩
    obtain ⟨a, ha⟩ := Option.isSome_iff_exists.mp hs
    exact ⟨a, ha, hr.trans ha⟩

instance (o : Operation) : Decidable o.Exact := decidable_of_iff' _ o.exact_iff

variable {x y : Float} {a b : ℚ}

theorem Exact.value?_result {o : Operation} (h : o.Exact) (ha : o.unrounded? = some a) :
    value? o.result = some a := by
  obtain ⟨c, hc, hr⟩ := h
  rw [hr, ← hc, ha]

theorem Exact.neg (h : Exact (.neg x)) (hx : value? x = some a) : value? (-x) = some (-a) :=
  h.value?_result (by simp [unrounded?, hx])

theorem Exact.add (h : Exact (.add x y)) (hx : value? x = some a) (hy : value? y = some b) :
    value? (x + y) = some (a + b) :=
  h.value?_result (by simp [unrounded?, hx, hy])

theorem Exact.mul (h : Exact (.mul x y)) (hx : value? x = some a) (hy : value? y = some b) :
    value? (x * y) = some (a * b) :=
  h.value?_result (by simp [unrounded?, hx, hy])

theorem Exact.div (h : Exact (.div x y)) (hx : value? x = some a) (hy : value? y = some b) :
    value? (x / y) = some (a / b) := by
  have hb : b ≠ 0 := by
    rintro rfl
    obtain ⟨c, hc, -⟩ := h
    simp [unrounded?, hx, hy] at hc
  exact h.value?_result (by simp [unrounded?, hx, hy, hb])

end Operation

/-- The products of `powerInto`, in their order. -/
def powerIntoOperations (product base : Float) (n : Nat) : List Operation :=
  let multiplied := if n % 2 = 1 then product * base else product
  (if n % 2 = 1 then [.mul product base] else []) ++
    if h : n / 2 = 0 then []
    else .mul base base :: powerIntoOperations multiplied (base * base) (n / 2)
termination_by n
decreasing_by omega

def powerOperations (base : Float) (n : Int) : List Operation :=
  powerIntoOperations 1 base n.natAbs ++
    if n < 0 then [.div 1 (powerInto 1 base n.natAbs)] else []

theorem value?_powerInto {product base : Float} {a b : ℚ} {n : Nat}
    (ha : value? product = some a) (hb : value? base = some b)
    (h : ∀ o ∈ powerIntoOperations product base n, o.Exact) :
    value? (powerInto product base n) = some (a * b ^ n) := by
  induction n using Nat.strong_induction_on generalizing product base a b with
  | _ n ih =>
    rw [powerIntoOperations] at h
    rw [powerInto]
    obtain ⟨c, hc, hpow⟩ : ∃ c, value? (if n % 2 = 1 then product * base else product) = some c ∧
        c * (b * b) ^ (n / 2) = a * b ^ n := by
      have hn : n = 2 * (n / 2) + n % 2 := by omega
      rcases Nat.mod_two_eq_zero_or_one n with hz | ho
      · refine ⟨a, by simpa [hz] using ha, ?_⟩
        rw [← pow_two, ← pow_mul, ← Nat.add_zero (2 * (n / 2)), ← hz, ← hn]
      · have hmul : (Operation.mul product base).Exact := h _ (by simp [ho])
        refine ⟨a * b, by simpa [ho] using hmul.mul ha hb, ?_⟩
        conv_rhs => rw [hn, ho]
        rw [pow_succ, pow_mul]
        ring
    by_cases hz : n / 2 = 0
    · simp only [hz, dif_pos, hc]
      simpa [hz] using hpow
    · simp only [hz, dif_neg, not_false_eq_true]
      have hsq : (Operation.mul base base).Exact := h _ (by simp [hz])
      rw [← hpow]
      apply ih (n / 2) (by omega) hc (hsq.mul hb hb)
      intro o ho
      exact h o (by simp [hz, ho])

theorem value?_power {base : Float} {b : ℚ} {n : Int} (hb : value? base = some b)
    (h : ∀ o ∈ powerOperations base n, o.Exact) : value? (power base n) = some (b ^ n) := by
  have hpos : value? (powerInto 1 base n.natAbs) = some (b ^ n.natAbs) := by
    rw [← one_mul (b ^ _)]
    exact value?_powerInto value?_one hb fun o ho => h o (List.mem_append_left _ ho)
  rw [power]
  by_cases hn : n < 0
  · have hdiv : (Operation.div 1 (powerInto 1 base n.natAbs)).Exact :=
      h _ (by simp [powerOperations, hn])
    simp only [hn, if_true]
    rw [hdiv.div value?_one hpos, one_div, ← zpow_natCast, ← zpow_neg]
    congr 2
    omega
  · simp only [hn, if_false, hpos]
    rw [← zpow_natCast]
    congr 2
    omega

end Quadratics.Number
