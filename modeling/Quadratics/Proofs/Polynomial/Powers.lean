import Quadratics.Proofs.Polynomial.Order
/-! Powers under products, quotients and powers: either they are the exact integers, or the
operation is refused at its place. A division by a monomial of the lowest power of all is the one
case in which there is no verdict. -/
namespace Quadratics

def Failure.Algebraic (position : Nat) (f : Failure) : Prop :=
  ∃ cause : Cause, cause.stage = .simplification ∧ f = .rejected ⟨cause, some position⟩

namespace Polynomial

open Failure (Algebraic)

def powers (p : Polynomial) : List Int := p.terms.map (·.power.toInt)

/-- The powers of a product, a quotient or a power of polynomials, with no bound on them. -/
inductive Combines (p q : Polynomial) : Operator → List Int → Prop where
  | scaled {m : Term} (hq : q.terms = [m]) :
      Combines p q .mul (p.powers.map (· + m.power.toInt))
  | scaling {m : Term} (hp : p.terms = [m]) :
      Combines p q .mul (q.powers.map (· + m.power.toInt))
  | quotient {m : Term} (hq : q.terms = [m]) :
      Combines p q .div (p.powers.map (· - m.power.toInt))
  | power {base e : Term} {n : Int} (hp : p.terms = [base]) (hq : q.terms = [e])
      (he : e.power = 0) (hn : Number.toInt? e.coefficient = some n) :
      Combines p q .pow [base.power.toInt * n]

/-- A monomial, not zero, whose power has no negative in 32 bits. -/
def Lowest (q : Polynomial) : Prop :=
  ∃ m, q.terms = [m] ∧ m.power = Int32.minValue ∧ (m.coefficient == 0) = false

variable {p q r : Polynomial} {position : Nat} {f : Failure}

theorem algebraic_refuse {α : Type} {cause : Cause} (hc : cause.stage = .simplification)
    (h : (refuse cause position : Except Failure α) = .error f) : Algebraic position f := by
  cases h
  exact ⟨cause, hc, rfl⟩

theorem algebraic_ensureFinite (h : ensureFinite p position = .error f) : Algebraic position f := by
  unfold ensureFinite at h
  split at h
  · cases h
  · exact algebraic_refuse rfl h

theorem algebraic_shifted {power shift : Int32} {c : Float}
    (h : shifted power shift c position = .error f) : Algebraic position f := by
  unfold shifted at h
  split at h
  · cases h
  · exact algebraic_refuse rfl h

theorem algebraic_scale {m : Term} (h : p.scale m position = .error f) :
    Algebraic position f := by
  rcases bind_eq_error.mp h with h | ⟨ts, -, h⟩
  · obtain ⟨t, -, ht⟩ := mapM_eq_error h
    exact algebraic_shifted ht
  · exact algebraic_ensureFinite h

theorem algebraic_mul (h : p.mul q position = .error f) : Algebraic position f := by
  unfold mul at h
  split at h
  · exact algebraic_scale h
  · exact algebraic_scale h
  · exact algebraic_refuse rfl h

theorem algebraic_exponent (h : q.exponent position = .error f) : Algebraic position f := by
  unfold exponent at h
  split at h
  · split at h
    · exact algebraic_refuse rfl h
    · split at h
      · exact algebraic_refuse rfl h
      · split at h
        · exact algebraic_refuse rfl h
        · cases h
  · exact algebraic_refuse rfl h

theorem algebraic_pow (h : p.pow q position = .error f) : Algebraic position f := by
  rcases bind_eq_error.mp h with h | ⟨n, -, h⟩
  · exact algebraic_exponent h
  · split at h
    · split at h
      · exact algebraic_refuse rfl h
      · split at h
        · exact algebraic_ensureFinite h
        · exact algebraic_refuse rfl h
    · exact algebraic_refuse rfl h

/-- Only the lowest power of all gets no verdict. -/
theorem algebraic_div (h : p.div q position = .error f) :
    Algebraic position f ∨ f = .overflow ∧ q.Lowest := by
  unfold div at h
  split at h
  · next m hm =>
    split at h
    · exact .inl (algebraic_refuse rfl h)
    · next hz =>
      rcases bind_eq_error.mp h with h | ⟨ts, -, h⟩
      · obtain ⟨t, -, ht⟩ := mapM_eq_error h
        unfold divided at ht
        split at ht
        · next hmin =>
          cases ht
          exact .inr ⟨rfl, m, hm, hmin, Bool.eq_false_iff.mpr hz⟩
        · exact .inl (algebraic_shifted ht)
      · exact .inl (algebraic_ensureFinite h)
  · exact .inl (algebraic_refuse rfl h)

theorem div_eq_overflow (hp : p.terms ≠ []) (hq : q.Lowest) :
    p.div q position = .error .overflow := by
  obtain ⟨m, hm, hmin, hz⟩ := hq
  obtain ⟨t, ts, hts⟩ := List.exists_cons_of_ne_nil hp
  have ht : divided m position t = .error .overflow := by simp [divided, hmin]
  rw [div, hm]
  simp only [hz, Bool.false_eq_true, if_false, hts, List.mapM_cons, ht]
  rfl

theorem powers_scale {m : Term} (h : p.scale m position = .ok r) :
    r.powers = p.powers.map (· + m.power.toInt) := by
  obtain ⟨ts, hts, h⟩ := bind_eq_ok.mp h
  obtain rfl := ensureFinite_eq h
  rw [powers, powers, List.map_map]
  exact powers_mapM hts fun t u hu => (shifted_eq hu).2

theorem combines_mul (h : p.mul q position = .ok r) : Combines p q .mul r.powers := by
  unfold mul at h
  split at h
  · next m hm =>
    rw [powers_scale h]
    exact .scaled hm
  · next m hm hne =>
    rw [powers_scale h]
    exact .scaling hm
  · cases h

theorem combines_div (h : p.div q position = .ok r) : Combines p q .div r.powers := by
  unfold div at h
  split at h
  · next m hm =>
    split at h
    · cases h
    · obtain ⟨ts, hts, h⟩ := bind_eq_ok.mp h
      obtain rfl := ensureFinite_eq h
      have hshift : (⟨ts⟩ : Polynomial).powers = p.powers.map (· - m.power.toInt) := by
        rw [powers, powers, List.map_map]
        exact powers_mapM hts fun t u hu => by
          obtain ⟨hmin, -, hpow⟩ := divided_eq hu
          rw [hpow, toInt_neg_of_ne_minValue hmin]
      rw [hshift]
      exact .quotient hm
  · cases h

theorem exponent_eq_ok {n : Int} (h : q.exponent position = .ok n) :
    ∃ e, q.terms = [e] ∧ e.power = 0 ∧ Number.toInt? e.coefficient = some n := by
  unfold exponent at h
  split at h
  · next e he =>
    split at h
    · cases h
    · next hp =>
      split at h
      · cases h
      · next n' hn =>
        split at h
        · cases h
        · cases h
          exact ⟨e, he, Decidable.not_not.mp hp, hn⟩
  · cases h

theorem combines_pow (h : p.pow q position = .ok r) : Combines p q .pow r.powers := by
  obtain ⟨n, hn, h⟩ := bind_eq_ok.mp h
  obtain ⟨e, he, hz, hint⟩ := exponent_eq_ok hn
  split at h
  · next base hb =>
    split at h
    · cases h
    · split at h
      · next k hk =>
        obtain rfl := ensureFinite_eq h
        have hpow : (⟨[⟨k, Number.power base.coefficient n⟩]⟩ : Polynomial).powers =
            [base.power.toInt * n] := by
          rw [powers, List.map_singleton, toInt_power? hk]
        rw [hpow]
        exact .power hb he hz hint
      · cases h
  · cases h

theorem powers_eq_nil_iff : p.powers = [] ↔ p.terms = [] := List.map_eq_nil_iff

theorem Combines.ne_nil {op : Operator} {ks : List Int} (h : Combines p q op ks)
    (hp : p.terms ≠ []) (hq : q.terms ≠ []) : ks ≠ [] := by
  rw [Ne, ← powers_eq_nil_iff] at hp hq
  cases h with
  | scaled hm => exact mt List.map_eq_nil_iff.mp hp
  | scaling hm => exact mt List.map_eq_nil_iff.mp hq
  | quotient hm => exact mt List.map_eq_nil_iff.mp hp
  | power => exact List.cons_ne_nil _ _

theorem merge_ne_nil {ts us : List Term} (h : ts ≠ []) : merge ts us ≠ [] := by
  obtain ⟨t, ts, rfl⟩ := List.exists_cons_of_ne_nil h
  cases us with
  | nil => rwa [merge_nil]
  | cons u us =>
    rw [merge]
    split
    · exact List.cons_ne_nil _ _
    · split <;> exact List.cons_ne_nil _ _

end Polynomial
end Quadratics
