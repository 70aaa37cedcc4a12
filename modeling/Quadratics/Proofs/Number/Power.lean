import Quadratics.Number.Power
import Quadratics.Proofs.Number.Square
/-! Powers of numbers from one up. A rounding adds one part in `2 ^ 53` at most, and a power takes
fewer than two of them for each of its factors. -/
namespace Quadratics.Number

variable {v w : ℝ} {x y product base : Float} {n : ℕ}

theorem IsNearest.abs_sub_le_div {i : ℕ} (h : IsNearest v w) (hi : i ≤ 53)
    (hv : 2 ^ (i - 1075 : ℤ) ≤ v) : |v - w| ≤ v / 2 ^ i := by
  have hpos : 0 < v := lt_of_lt_of_le (by positivity) hv
  obtain ⟨j, hlow, hhigh⟩ := exists_mem_Ico_zpow hpos one_lt_two
  have hj : (i : ℤ) - 1075 < j + 1 :=
    (zpow_lt_zpow_iff_right₀ one_lt_two).mp (hv.trans_lt hhigh)
  have hbits : (2 : ℝ) ^ (j + 1) = 2 ^ i * 2 ^ (j + 1 - i) := by
    rw [← zpow_natCast]
    exact two_zpow_eq_mul (by ring)
  have herror := h.abs_sub_le (t := j + 1 - i) (by omega) hpos.le (by
    calc
      v < 2 ^ i * 2 ^ (j + 1 - i) := hbits ▸ hhigh
      _ ≤ 2 ^ 53 * 2 ^ (j + 1 - i) := by
        gcongr
        exact one_le_two)
  have hhalf : (2 : ℝ) ^ (j + 1) = 2 ^ j * 2 := zpow_add_one₀ two_ne_zero j
  rw [le_div_iff₀ (by positivity)]
  calc
    |v - w| * 2 ^ i ≤ 2 ^ (j + 1 - i) / 2 * 2 ^ i := by gcongr
    _ = 2 ^ j := by linarith
    _ ≤ v := hlow

/-- A number from one up to `v`. -/
def Within (v : ℝ) (x : Float) : Prop := ∃ q : ℚ, value? x = some q ∧ 1 ≤ q ∧ (q : ℝ) ≤ v

/-- What a rounding may multiply a value by. -/
def excess : ℚ := 1 + 1 / 2 ^ 53

theorem cast_excess : (excess : ℝ) = 1 + 1 / 2 ^ 53 := by
  rw [excess]
  push_cast
  rfl

theorem one_le_excess : 1 ≤ (excess : ℝ) := by
  rw [cast_excess]
  norm_num

theorem excess_pow_le (h : n ≤ 2 ^ 51) : (excess : ℝ) ^ n ≤ 4 / 3 := by
  have hsmall : excess * (1 + -(1 / 2 ^ 53)) ≤ (1 : ℝ) := by
    rw [cast_excess]
    norm_num
  have hcast : (n : ℝ) ≤ 2 ^ 51 := by exact_mod_cast h
  have hpow : 3 / 4 ≤ (1 + -(1 / 2 ^ 53) : ℝ) ^ n := by
    have hbernoulli := one_add_mul_le_pow (show (-2 : ℝ) ≤ -(1 / 2 ^ 53) by norm_num) n
    linarith
  have hnonneg : 0 ≤ (excess : ℝ) := by linarith [one_le_excess]
  have hone : (excess : ℝ) ^ n * (1 + -(1 / 2 ^ 53)) ^ n ≤ 1 := by
    rw [← mul_pow]
    exact pow_le_one₀ (mul_nonneg hnonneg (by norm_num)) hsmall
  have hle := mul_le_mul_of_nonneg_left hpow (pow_nonneg hnonneg n)
  linarith

namespace Within

theorem one_le (h : Within v x) : 1 ≤ v := by
  obtain ⟨q, -, hlow, hhigh⟩ := h
  have hcast : (1 : ℝ) ≤ q := by exact_mod_cast hlow
  linarith

theorem mono (h : Within v x) (hle : v ≤ w) : Within w x := by
  obtain ⟨q, hq, hlow, hhigh⟩ := h
  exact ⟨q, hq, hlow, hhigh.trans hle⟩

theorem mul (hx : Within v x) (hy : Within w y)
    (h : (x * y).isFinite = true ∨ v * w ≤ largest) : Within (v * w * excess) (x * y) := by
  have hv := hx.one_le
  obtain ⟨a, ha, halow, hahigh⟩ := hx
  obtain ⟨b, hb, hblow, hbhigh⟩ := hy
  have hlow : (1 : ℝ) ≤ a * b := by exact_mod_cast one_le_mul_of_one_le_of_one_le halow hblow
  have hb' : (0 : ℝ) ≤ b := by exact_mod_cast zero_le_one.trans hblow
  have hhigh : (a : ℝ) * b ≤ v * w := by gcongr
  obtain ⟨q, hq, hnear⟩ : ∃ q, value? (x * y) = some q ∧ IsNearest (a * b) q := by
    rcases h with h | h
    · exact (rounds_mul ha hb).exists_value h
    · obtain ⟨q, hq, hnear, -⟩ := (rounds_mul ha hb).value_of_abs_le fits_largest largest_lt
        (by rw [abs_of_nonneg (by linarith)]; exact hhigh.trans h)
      exact ⟨q, hq, hnear⟩
  have hone : (1 : ℝ) ≤ q := hnear.le_of_le ⟨1, 0, by norm_num, by norm_num, by norm_num⟩ hlow
  have herror := hnear.abs_sub_le_div (i := 53) le_rfl
    (hlow.trans' (zpow_le_one_of_nonpos₀ one_le_two (by norm_num)))
  refine ⟨q, hq, by exact_mod_cast hone, ?_⟩
  calc
    (q : ℝ) ≤ a * b + a * b / 2 ^ 53 := by linarith [neg_le_of_abs_le herror]
    _ = a * b * excess := by
      rw [cast_excess]
      ring
    _ ≤ v * w * excess := by
      have hexcess := one_le_excess
      gcongr

end Within

theorem isFinite_product_of_powerInto (h : (powerInto product base n).isFinite = true) :
    product.isFinite = true := by
  induction n using Nat.strong_induction_on generalizing product base with
  | _ n ih =>
    have hnext : (if n % 2 = 1 then product * base else product).isFinite = true := by
      rw [powerInto] at h
      split at h
      · exact h
      · next hz => exact ih (n / 2) (by omega) h
    split at hnext
    · exact (isFinite_of_mul hnext).1
    · exact hnext

theorem le_bound {k j : ℕ} (hv : 1 ≤ v) (hw : 1 ≤ w) (hk : k ≤ n) (hj : j ≤ 2 * n) :
    v * w ^ k * excess ^ j ≤ v * w ^ n * excess ^ (2 * n) := by
  have hc := one_le_excess
  gcongr

theorem bound_halves_le (hv : 1 ≤ v) (hw : 1 ≤ w) :
    v * w ^ (n % 2) * excess ^ (n % 2) * (w * w * excess) ^ (n / 2) * excess ^ (2 * (n / 2)) ≤
      v * w ^ n * excess ^ (2 * n) := by
  have hn : n = 2 * (n / 2) + n % 2 := by omega
  calc
    _ = v * w ^ (2 * (n / 2) + n % 2) * excess ^ (n % 2 + 3 * (n / 2)) := by ring
    _ = v * w ^ n * excess ^ (n % 2 + 3 * (n / 2)) := by rw [← hn]
    _ ≤ v * w ^ n * excess ^ (2 * n) := le_bound hv hw le_rfl (by omega)

theorem Within.lowestBit (hp : Within v product) (hb : Within w base)
    (h : (if n % 2 = 1 then product * base else product).isFinite = true ∨
      v * w ^ n * excess ^ (2 * n) ≤ largest) :
    Within (v * w ^ (n % 2) * excess ^ (n % 2))
      (if n % 2 = 1 then product * base else product) := by
  rcases Nat.mod_two_eq_zero_or_one n with hz | ho
  · simpa [hz] using hp
  · rw [ho, if_pos rfl] at h ⊢
    have hmul := hp.mul hb (h.imp_right fun hle => by
      calc
        v * w = v * w ^ 1 * excess ^ 0 := by ring
        _ ≤ largest := (le_bound hp.one_le hb.one_le (by omega) (by omega)).trans hle)
    simpa using hmul

theorem Within.powerInto (hp : Within v product) (hb : Within w base)
    (h : (powerInto product base n).isFinite = true ∨
      v * w ^ n * excess ^ (2 * n) ≤ largest) :
    Within (v * w ^ n * excess ^ (2 * n)) (powerInto product base n) := by
  induction n using Nat.strong_induction_on generalizing v w product base with
  | _ n ih =>
    have hstep := bound_halves_le (n := n) hp.one_le hb.one_le
    rw [Number.powerInto] at h ⊢
    have hnext := hp.lowestBit hb (n := n) (h.imp_left fun h => by
      split at h
      · exact h
      · exact isFinite_product_of_powerInto h)
    by_cases hz : n / 2 = 0
    · rw [dif_pos hz]
      rw [hz] at hstep
      exact hnext.mono (by simpa using hstep)
    · simp only [dif_neg hz] at h ⊢
      have hsquare := hb.mul hb (h.imp (isFinite_of_powerInto hz) fun hle => by
        calc
          w * w ≤ v * (w * w) :=
            le_mul_of_one_le_left (mul_self_nonneg w) hp.one_le
          _ = v * w ^ 2 * excess ^ 0 := by ring
          _ ≤ largest := (le_bound hp.one_le hb.one_le (by omega) (by omega)).trans hle)
      exact (ih (n / 2) (by omega) hnext hsquare (h.imp_right hstep.trans)).mono hstep

end Quadratics.Number
