import Quadratics.Expression.Folding
import Quadratics.Proofs.Steps
/-! Terms stay in descending order of power under every operation, and so in every folded tree. -/
namespace Quadratics

namespace Polynomial

def Descending (ts : List Term) : Prop := ts.Pairwise fun t u => u.power < t.power

instance (ts : List Term) : Decidable (Descending ts) :=
  inferInstanceAs (Decidable (ts.Pairwise fun t u => u.power < t.power))

variable {p q r : Polynomial} {ts us : List Term} {position : Nat}

theorem descending_singleton (t : Term) : Descending [t] := List.pairwise_singleton _ t

theorem descending_neg (h : Descending p.terms) : Descending p.neg.terms :=
  List.pairwise_map.mpr h

theorem merge_nil (ts : List Term) : merge ts [] = ts := by
  cases ts with
  | nil => rw [merge]
  | cons t ts =>
    rw [merge]
    simp

theorem forall_power_merge (P : Int32 → Prop) (ht : ∀ t ∈ ts, P t.power)
    (hu : ∀ u ∈ us, P u.power) : ∀ t ∈ merge ts us, P t.power := by
  induction ts, us using merge.induct with
  | case1 us =>
    rw [merge]
    exact hu
  | case2 ts hne =>
    rw [merge]
    · exact ht
    · exact hne
  | case3 t ts u us hut ih =>
    rw [merge, if_pos hut]
    rw [List.forall_mem_cons] at ht ⊢
    exact ⟨ht.1, ih ht.2 hu⟩
  | case4 t ts u us hut htu ih =>
    rw [merge, if_neg hut, if_pos htu]
    rw [List.forall_mem_cons] at hu ⊢
    exact ⟨hu.1, ih ht hu.2⟩
  | case5 t ts u us hut htu ih =>
    rw [merge, if_neg hut, if_neg htu]
    rw [List.forall_mem_cons] at ht hu ⊢
    exact ⟨ht.1, ih ht.2 hu.2⟩

theorem descending_merge (ht : Descending ts) (hu : Descending us) : Descending (merge ts us) := by
  induction ts, us using merge.induct with
  | case1 us =>
    rw [merge]
    exact hu
  | case2 ts hne =>
    rw [merge]
    · exact ht
    · exact hne
  | case3 t ts u us hut ih =>
    rw [merge, if_pos hut]
    obtain ⟨htop, hrest⟩ := List.pairwise_cons.mp ht
    refine List.pairwise_cons.mpr ⟨forall_power_merge (· < t.power) htop ?_, ih hrest hu⟩
    have hlow := (List.pairwise_cons.mp hu).1
    exact List.forall_mem_cons.mpr ⟨hut, fun v hv => Int32.lt_trans (hlow v hv) hut⟩
  | case4 t ts u us hut htu ih =>
    rw [merge, if_neg hut, if_pos htu]
    obtain ⟨htop, hrest⟩ := List.pairwise_cons.mp hu
    refine List.pairwise_cons.mpr ⟨forall_power_merge (· < u.power) ?_ htop, ih ht hrest⟩
    have hlow := (List.pairwise_cons.mp ht).1
    exact List.forall_mem_cons.mpr ⟨htu, fun v hv => Int32.lt_trans (hlow v hv) htu⟩
  | case5 t ts u us hut htu ih =>
    have hpow : u.power = t.power := Int32.le_antisymm (Int32.not_lt.mp htu) (Int32.not_lt.mp hut)
    rw [merge, if_neg hut, if_neg htu]
    obtain ⟨htop, ht⟩ := List.pairwise_cons.mp ht
    obtain ⟨hutop, hu⟩ := List.pairwise_cons.mp hu
    rw [hpow] at hutop
    exact List.pairwise_cons.mpr ⟨forall_power_merge (· < t.power) htop hutop, ih ht hu⟩

theorem merge_singleton {t : Term} (h : ∀ u ∈ us, t.power < u.power) :
    merge us [t] = us ++ [t] := by
  induction us with
  | nil => simp [merge]
  | cons u us ih =>
    obtain ⟨hu, hus⟩ := List.forall_mem_cons.mp h
    rw [merge, if_pos hu, ih hus]
    rfl

theorem ensureFinite_eq (h : ensureFinite p position = .ok q) : q = p := by
  unfold ensureFinite at h
  split at h
  · cases h
    rfl
  · cases h

theorem shifted_eq {power shift : Int32} {c : Float} {t : Term}
    (h : shifted power shift c position = .ok t) :
    t.coefficient = c ∧ t.power.toInt = power.toInt + shift.toInt := by
  unfold shifted at h
  split at h
  · next k hk =>
    cases h
    exact ⟨rfl, toInt_power? hk⟩
  · cases h

theorem descending_iff_powers :
    Descending ts ↔ (ts.map (·.power.toInt)).Pairwise fun m n => n < m := by
  simp only [Descending, List.pairwise_map, Int32.lt_iff_toInt_lt]

theorem powers_mapM {f : Term → Except Failure Term} {shift : Int} (h : ts.mapM f = .ok us)
    (hf : ∀ t u, f t = .ok u → u.power.toInt = t.power.toInt + shift) :
    us.map (·.power.toInt) = ts.map (·.power.toInt + shift) := by
  induction ts generalizing us with
  | nil =>
    cases h
    rfl
  | cons t ts ih =>
    obtain ⟨u, vs, hu, hvs, rfl⟩ := mapM_cons_eq_ok.mp h
    rw [List.map_cons, List.map_cons, hf t u hu, ih hvs]

theorem descending_mapM {f : Term → Except Failure Term} {shift : Int} (h : ts.mapM f = .ok us)
    (hf : ∀ t u, f t = .ok u → u.power.toInt = t.power.toInt + shift) (ht : Descending ts) :
    Descending us := by
  rw [descending_iff_powers, powers_mapM h hf, List.pairwise_map]
  refine ht.imp fun hlt => ?_
  rw [Int32.lt_iff_toInt_lt] at hlt
  omega

theorem descending_scale {m : Term} (hp : Descending p.terms) (hr : p.scale m position = .ok r) :
    Descending r.terms := by
  obtain ⟨ts, hts, hr⟩ := bind_eq_ok.mp hr
  obtain rfl := ensureFinite_eq hr
  exact descending_mapM hts (fun t u h => (shifted_eq h).2) hp

theorem descending_mul (hp : Descending p.terms) (hq : Descending q.terms)
    (hr : p.mul q position = .ok r) : Descending r.terms := by
  unfold mul at hr
  split at hr
  · exact descending_scale hp hr
  · exact descending_scale hq hr
  · cases hr

theorem divided_eq {m t u : Term} (h : divided m position t = .ok u) :
    m.power ≠ Int32.minValue ∧ u.coefficient = t.coefficient / m.coefficient ∧
      u.power.toInt = t.power.toInt + (-m.power).toInt := by
  unfold divided at h
  split at h
  · cases h
  · next hmin => exact ⟨hmin, shifted_eq h⟩

theorem toInt_neg_of_ne_minValue {k : Int32} (h : k ≠ Int32.minValue) :
    (-k).toInt = -k.toInt := by
  have hk : k.toInt ≠ -2 ^ 31 := fun he => h (Int32.toInt_inj.mp he)
  have hlow := k.le_toInt
  have hhigh := k.toInt_lt
  rw [Int32.toInt_neg, Int.bmod_eq_of_le (by omega) (by omega)]

theorem descending_div (hp : Descending p.terms) (hr : p.div q position = .ok r) :
    Descending r.terms := by
  unfold div at hr
  split at hr
  · next m hm =>
    split at hr
    · cases hr
    · obtain ⟨ts, hts, hr⟩ := bind_eq_ok.mp hr
      obtain rfl := ensureFinite_eq hr
      exact descending_mapM hts (fun t u h => (divided_eq h).2.2) hp
  · cases hr

theorem descending_pow (hr : p.pow q position = .ok r) : Descending r.terms := by
  obtain ⟨n, -, hr⟩ := bind_eq_ok.mp hr
  split at hr
  · split at hr
    · cases hr
    · split at hr
      · obtain rfl := ensureFinite_eq hr
        exact descending_singleton _
      · cases hr
  · cases hr

end Polynomial

namespace Expression

open Quadratics.Polynomial

theorem descending_applyUnary {op : Operator} {p r : Polynomial} {position : Nat}
    (hp : Descending p.terms) (hr : applyUnary op p position = .ok r) : Descending r.terms := by
  cases op with
  | unaryMinus =>
    cases hr
    exact descending_neg hp
  | unaryPlus =>
    cases hr
    exact hp
  | add | sub | mul | div | pow => cases hr

theorem descending_applyBinary {op : Operator} {p q r : Polynomial} {position : Nat}
    (hp : Descending p.terms) (hq : Descending q.terms)
    (hr : applyBinary op p q position = .ok r) : Descending r.terms := by
  cases op with
  | add =>
    cases hr
    exact descending_merge hp hq
  | sub =>
    cases hr
    exact descending_merge hp (descending_neg hq)
  | mul => exact descending_mul hp hq hr
  | div => exact descending_div hp hr
  | pow => exact descending_pow hr
  | unaryMinus | unaryPlus => cases hr

theorem descending_fold {e : Expression} {p : Polynomial} (h : e.fold = .ok p) :
    Descending p.terms := by
  induction e generalizing p with
  | number value position =>
    cases h
    exact descending_singleton _
  | var m position =>
    cases h
    exact descending_singleton _
  | unary op operand position ih =>
    obtain ⟨q, hq, h⟩ := bind_eq_ok.mp h
    exact descending_applyUnary (ih hq) h
  | binary op left right position ihl ihr =>
    obtain ⟨l, hl, h⟩ := bind_eq_ok.mp h
    obtain ⟨r, hr, h⟩ := bind_eq_ok.mp h
    exact descending_applyBinary (ihl hl) (ihr hr) h

end Expression
end Quadratics
