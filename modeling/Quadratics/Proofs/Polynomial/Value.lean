import Quadratics.Proofs.Number.Exact
import Quadratics.Proofs.Polynomial.Order
/-! The value of a polynomial at a rational number other than zero, and what arithmetic makes of it
as long as no operation on coefficients rounds. -/
namespace Quadratics

open Number (Operation)

def Term.value? (x : ℚ) (t : Term) : Option ℚ := do
  return (← Number.value? t.coefficient) * x ^ t.power.toInt

namespace Polynomial

def sum? (x : ℚ) : List Term → Option ℚ
  | [] => some 0
  | t :: ts => do return (← t.value? x) + (← sum? x ts)

def value? (x : ℚ) (p : Polynomial) : Option ℚ := sum? x p.terms

def negOperations (p : Polynomial) : List Operation := p.terms.map fun t => .neg t.coefficient

def mergeOperations : List Term → List Term → List Operation
  | [], _ => []
  | _, [] => []
  | t :: ts, u :: us =>
    if u.power < t.power then mergeOperations ts (u :: us)
    else if t.power < u.power then mergeOperations (t :: ts) us
    else .add t.coefficient u.coefficient :: mergeOperations ts us
termination_by ts us => ts.length + us.length

def addOperations (p q : Polynomial) : List Operation := mergeOperations p.terms q.terms

def subOperations (p q : Polynomial) : List Operation := q.negOperations ++ p.addOperations q.neg

def scaleOperations (p : Polynomial) (m : Term) : List Operation :=
  p.terms.map fun t => .mul t.coefficient m.coefficient

def mulOperations (p q : Polynomial) : List Operation :=
  match p.terms, q.terms with
  | _, [m] => p.scaleOperations m
  | [m], _ => q.scaleOperations m
  | _, _ => []

def divOperations (p q : Polynomial) : List Operation :=
  match q.terms with
  | [m] => p.terms.map fun t => .div t.coefficient m.coefficient
  | _ => []

def powOperations (p q : Polynomial) (position : Nat) : List Operation :=
  match q.exponent position, p.terms with
  | .ok n, [base] => Number.powerOperations base.coefficient n
  | _, _ => []

variable {x a b : ℚ} {p q r : Polynomial} {t : Term} {ts us : List Term} {position : Nat}

theorem value?_term (c : ℚ) (h : Number.value? t.coefficient = some c) :
    t.value? x = some (c * x ^ t.power.toInt) := by
  simp [Term.value?, h]

theorem value?_term_eq (h : t.value? x = some a) :
    ∃ c, Number.value? t.coefficient = some c ∧ a = c * x ^ t.power.toInt := by
  cases hc : Number.value? t.coefficient with
  | none => simp [Term.value?, hc] at h
  | some c =>
    rw [value?_term c hc] at h
    cases h
    exact ⟨c, rfl, rfl⟩

theorem sum?_cons (ht : t.value? x = some a) (hs : sum? x ts = some b) :
    sum? x (t :: ts) = some (a + b) := by
  simp [sum?, ht, hs]

theorem sum?_cons_eq (h : sum? x (t :: ts) = some a) :
    ∃ b c, t.value? x = some b ∧ sum? x ts = some c ∧ a = b + c := by
  cases ht : t.value? x with
  | none => simp [sum?, ht] at h
  | some b =>
    cases hs : sum? x ts with
    | none => simp [sum?, ht, hs] at h
    | some c =>
      rw [sum?_cons ht hs] at h
      cases h
      exact ⟨b, c, rfl, rfl, rfl⟩

theorem sum?_singleton : sum? x [t] = t.value? x := by
  cases ht : t.value? x <;> simp [sum?, ht]

theorem value?_singleton (hp : p.terms = [t]) : p.value? x = t.value? x := by
  rw [value?, hp, sum?_singleton]

theorem sum?_mapM {f : Term → Except Failure Term} (h : ts.mapM f = .ok us)
    (hf : ∀ t ∈ ts, ∀ u c, f t = .ok u → t.value? x = some c → u.value? x = some (c * b))
    (ha : sum? x ts = some a) : sum? x us = some (a * b) := by
  induction ts generalizing us a with
  | nil =>
    cases h
    cases ha
    simp [sum?]
  | cons t ts ih =>
    obtain ⟨c, d, hc, hd, rfl⟩ := sum?_cons_eq ha
    obtain ⟨u, vs, hu, hvs, rfl⟩ := mapM_cons_eq_ok.mp h
    have hfirst := hf t List.mem_cons_self u c hu hc
    have hrest := ih hvs (fun s hs => hf s (List.mem_cons_of_mem t hs)) hd
    rw [sum?_cons hfirst hrest, add_mul]

theorem value?_neg (hp : p.value? x = some a) (h : ∀ o ∈ p.negOperations, o.Exact) :
    p.neg.value? x = some (-a) := by
  obtain ⟨ts⟩ := p
  simp only [value?, neg] at hp ⊢
  induction ts generalizing a with
  | nil =>
    cases hp
    rfl
  | cons t ts ih =>
    obtain ⟨b, c, hb, hc, rfl⟩ := sum?_cons_eq hp
    obtain ⟨d, hd, rfl⟩ := value?_term_eq hb
    have ht : (Operation.neg t.coefficient).Exact := h _ (by simp [negOperations])
    have hn : (⟨t.power, -t.coefficient⟩ : Term).value? x = some (-d * x ^ t.power.toInt) :=
      value?_term _ (ht.neg hd)
    have hts := ih hc fun o ho => h o (List.mem_cons_of_mem _ ho)
    rw [List.map_cons, sum?_cons hn hts]
    congr 1
    ring

theorem sum?_merge (ha : sum? x ts = some a) (hb : sum? x us = some b)
    (h : ∀ o ∈ mergeOperations ts us, o.Exact) : sum? x (merge ts us) = some (a + b) := by
  induction ts, us using merge.induct generalizing a b with
  | case1 us =>
    cases ha
    rw [merge, hb, zero_add]
  | case2 ts hne =>
    cases hb
    rw [merge, ha, add_zero]
    exact hne
  | case3 t ts u us hut ih =>
    obtain ⟨c, d, hc, hd, rfl⟩ := sum?_cons_eq ha
    rw [mergeOperations, if_pos hut] at h
    rw [merge, if_pos hut, sum?_cons hc (ih hd hb h), add_assoc]
  | case4 t ts u us hut htu ih =>
    obtain ⟨c, d, hc, hd, rfl⟩ := sum?_cons_eq hb
    rw [mergeOperations, if_neg hut, if_pos htu] at h
    rw [merge, if_neg hut, if_pos htu, sum?_cons hc (ih ha hd h), add_left_comm]
  | case5 t ts u us hut htu ih =>
    obtain ⟨c, d, hc, hd, rfl⟩ := sum?_cons_eq ha
    obtain ⟨e, f, he, hf, rfl⟩ := sum?_cons_eq hb
    obtain ⟨k, hk, rfl⟩ := value?_term_eq hc
    obtain ⟨l, hl, rfl⟩ := value?_term_eq he
    have hpow : u.power = t.power := Int32.le_antisymm (Int32.not_lt.mp htu) (Int32.not_lt.mp hut)
    rw [mergeOperations, if_neg hut, if_neg htu] at h
    have hadd : (Operation.add t.coefficient u.coefficient).Exact := h _ List.mem_cons_self
    have ht : (⟨t.power, t.coefficient + u.coefficient⟩ : Term).value? x =
        some ((k + l) * x ^ t.power.toInt) := value?_term _ (hadd.add hk hl)
    rw [merge, if_neg hut, if_neg htu,
      sum?_cons ht (ih hd hf fun o ho => h o (List.mem_cons_of_mem _ ho)), hpow]
    congr 1
    ring

theorem value?_add (hp : p.value? x = some a) (hq : q.value? x = some b)
    (h : ∀ o ∈ p.addOperations q, o.Exact) : (p.add q).value? x = some (a + b) :=
  sum?_merge hp hq h

theorem value?_sub (hp : p.value? x = some a) (hq : q.value? x = some b)
    (h : ∀ o ∈ p.subOperations q, o.Exact) : (p.sub q).value? x = some (a - b) := by
  have hn := value?_neg hq fun o ho => h o (List.mem_append_left _ ho)
  rw [sub, sub_eq_add_neg]
  exact value?_add hp hn fun o ho => h o (List.mem_append_right _ ho)

theorem value?_scale {m : Term} (hx : x ≠ 0) (hp : p.value? x = some a)
    (hm : m.value? x = some b) (h : ∀ o ∈ p.scaleOperations m, o.Exact)
    (hr : p.scale m position = .ok r) : r.value? x = some (a * b) := by
  obtain ⟨ts, hts, hr⟩ := bind_eq_ok.mp hr
  obtain rfl := ensureFinite_eq hr
  obtain ⟨d, hd, rfl⟩ := value?_term_eq hm
  refine sum?_mapM hts ?_ hp
  intro t ht u c hu hc
  obtain ⟨k, hk, rfl⟩ := value?_term_eq hc
  obtain ⟨hcoef, hpow⟩ := shifted_eq hu
  have hmul : (Operation.mul t.coefficient m.coefficient).Exact :=
    h _ (List.mem_map_of_mem (f := fun t : Term => Operation.mul t.coefficient m.coefficient) ht)
  rw [value?_term _ (hcoef ▸ hmul.mul hk hd), hpow, zpow_add₀ hx]
  congr 1
  ring

theorem value?_mul (hx : x ≠ 0) (hp : p.value? x = some a) (hq : q.value? x = some b)
    (h : ∀ o ∈ p.mulOperations q, o.Exact) (hr : p.mul q position = .ok r) :
    r.value? x = some (a * b) := by
  unfold mul at hr
  unfold mulOperations at h
  split at hr
  · next m hm =>
    simp only [hm] at h
    exact value?_scale hx hp (value?_singleton hm ▸ hq) h hr
  · next m hm hne =>
    simp only [hm] at h
    rw [mul_comm]
    exact value?_scale hx hq (value?_singleton hm ▸ hp) h hr
  · cases hr

theorem value?_div (hx : x ≠ 0) (hp : p.value? x = some a) (hq : q.value? x = some b)
    (h : ∀ o ∈ p.divOperations q, o.Exact) (hr : p.div q position = .ok r) :
    b ≠ 0 ∧ r.value? x = some (a / b) := by
  unfold div at hr
  split at hr
  · next m hm =>
    simp only [divOperations, hm] at h
    rw [value?_singleton hm] at hq
    obtain ⟨d, hd, rfl⟩ := value?_term_eq hq
    split at hr
    · cases hr
    · next hz =>
      have hd0 : d ≠ 0 := fun he => hz ((Number.beq_zero_iff hd).mpr he)
      refine ⟨mul_ne_zero hd0 (zpow_ne_zero _ hx), ?_⟩
      obtain ⟨ts, hts, hr⟩ := bind_eq_ok.mp hr
      obtain rfl := ensureFinite_eq hr
      rw [div_eq_mul_inv]
      refine sum?_mapM hts ?_ hp
      intro t ht u c hu hc
      obtain ⟨k, hk, rfl⟩ := value?_term_eq hc
      obtain ⟨hmin, hcoef, hpow⟩ := divided_eq hu
      have hdiv : (Operation.div t.coefficient m.coefficient).Exact :=
        h _ (List.mem_map_of_mem
          (f := fun t : Term => Operation.div t.coefficient m.coefficient) ht)
      rw [value?_term _ (hcoef ▸ hdiv.div hk hd), hpow, toInt_neg_of_ne_minValue hmin,
        zpow_add₀ hx, zpow_neg]
      congr 1
      field_simp
  · cases hr

theorem exponent_eq {n : Int} (h : q.exponent position = .ok n) :
    q.value? x = some (n : ℚ) := by
  unfold exponent at h
  split at h
  · next e he =>
    split at h
    · cases h
    · next hp =>
      split at h
      · cases h
      · next n' hn =>
        split at h
        · cases h
        · cases h
          have hz : e.power.toInt = 0 := by
            rw [not_not.mp hp]
            rfl
          rw [value?_singleton he, value?_term _ (Number.value?_of_toInt? hn), hz, zpow_zero,
            mul_one]
  · cases h

theorem value?_pow (hx : x ≠ 0) (hp : p.value? x = some a)
    (h : ∀ o ∈ p.powOperations q position, o.Exact) (hr : p.pow q position = .ok r) :
    ∃ n : Int, q.value? x = some (n : ℚ) ∧ ¬ (a = 0 ∧ n < 0) ∧ r.value? x = some (a ^ n) := by
  obtain ⟨n, hn, hr⟩ := bind_eq_ok.mp hr
  refine ⟨n, exponent_eq hn, ?_⟩
  split at hr
  · next base hb =>
    simp only [powOperations, hn, hb] at h
    rw [value?_singleton hb] at hp
    obtain ⟨c, hc, rfl⟩ := value?_term_eq hp
    split at hr
    · cases hr
    · next hz =>
      constructor
      · rintro ⟨he, hneg⟩
        have hc0 : c = 0 := by simpa [zpow_ne_zero _ hx] using he
        exact hz (by simp [(Number.beq_zero_iff hc).mpr hc0, hneg])
      · split at hr
        · next k hk =>
          obtain rfl := ensureFinite_eq hr
          have ht : (⟨k, Number.power base.coefficient n⟩ : Term).value? x =
              some (c ^ n * x ^ k.toInt) := value?_term _ (Number.value?_power hc h)
          rw [value?, sum?_singleton, ht, toInt_power? hk, mul_zpow, zpow_mul]
        · cases hr
  · cases hr

end Polynomial
end Quadratics
