import Quadratics.Proofs.Postfix.Acceptance
import Quadratics.Proofs.Postfix.Refusals
/-! Parentheses are matched on each side of `=` alone: what is opened on a side is closed on it, and
the parenthesis behind `=` is never the one that a `)` closes. -/
namespace Quadratics

open Token (Kind)

namespace Infix

/-- From the left no `)` is met before its `(`, and in the end all of them are closed. -/
structure Balanced (ks : List Kind) : Prop where
  opened : ∀ w, w <+: ks → w.count .rightParen ≤ w.count .leftParen
  closed : ks.count .leftParen = ks.count .rightParen

/-- There is one `=` at most, and each side of it is balanced. -/
structure Matched (ks : List Kind) : Prop where
  one : ks.count .equals ≤ 1
  sides : ∀ side ∈ ks.splitOn .equals, Balanced side

structure Nested (n m : Nat) (ks : List Kind) : Prop where
  opened : ∀ w, w <+: ks → w.count .rightParen ≤ n + w.count .leftParen
  closed : n + ks.count .leftParen = m + ks.count .rightParen

variable {n m l : Nat} {k : Kind} {ks v w : List Kind}

theorem nested_nil (n : Nat) : Nested n n [] where
  opened := by
    intro w hw
    simp [List.prefix_nil.mp hw]
  closed := rfl

theorem Nests.count (h : Nests n k m) :
    n + [k].count .leftParen = m + [k].count .rightParen := by
  cases k <;> simp_all [Nests]

theorem Nested.cons (hk : Nests n k m) (h : Nested m l ks) : Nested n l (k :: ks) where
  opened := by
    intro w hw
    rcases List.prefix_cons_iff.mp hw with rfl | ⟨u, rfl, hu⟩
    · simp
    · have hrest := h.opened u hu
      have hhead := hk.count
      rw [← List.singleton_append, List.count_append, List.count_append]
      omega
  closed := by
    have hrest := h.closed
    have hhead := hk.count
    rw [← List.singleton_append, List.count_append, List.count_append]
    omega

theorem Nested.balanced (h : Nested 0 0 ks) : Balanced ks where
  opened w hw := by simpa using h.opened w hw
  closed := by simpa using h.closed

theorem matched_one (h : .equals ∉ ks) (hk : Balanced ks) : Matched ks where
  one := by simp [List.count_eq_zero_of_not_mem h]
  sides := by
    rw [List.splitOn_eq_singleton h]
    simpa using hk

theorem matched_two (hv : .equals ∉ v) (hw : .equals ∉ w) (hl : Balanced v) (hr : Balanced w) :
    Matched (v ++ .equals :: w) where
  one := by simp [List.count_eq_zero_of_not_mem hv, List.count_eq_zero_of_not_mem hw]
  sides := by
    rw [List.splitOn_append_cons_self_of_not_mem hv, List.splitOn_eq_singleton hw]
    simp [hl, hr]

end Infix

open Infix

namespace Converter

variable {base : List Token} {n : Nat} {c d : Converter} {ts : List Token}

theorem Side.barrier_unique {b b' : Option Nat} (h : Side base b) (h' : Side base b') : b = b' := by
  cases h <;> cases h' <;> rfl

theorem Opened.nested (h : Opened base n c) (hd : ts.foldlM Converter.step c = .ok d)
    (he : c.barrier = none → .equals ∉ ts.map (·.kind)) :
    .equals ∉ ts.map (·.kind) ∧ ∃ m, Opened base m d ∧ Nested n m (ts.map (·.kind)) := by
  induction ts generalizing c n with
  | nil =>
    cases hd
    exact ⟨by simp, n, h, nested_nil n⟩
  | cons t ts ih =>
    obtain ⟨b, hs, hd⟩ := foldlM_cons_eq_ok.mp hd
    have ht : t.kind ≠ .equals ∨ c.barrier.isSome = true := by
      cases hb : c.barrier with
      | none => exact .inl fun hk => he hb (by simp [hk])
      | some depth => exact .inr rfl
    obtain ⟨hne, m, hm, hb⟩ := h.step hs ht
    have hnext : b.barrier = none → .equals ∉ ts.map (·.kind) := by
      intro hn hmem
      exact he (h.side.barrier_unique hb.side ▸ hn) (List.mem_cons_of_mem _ hmem)
    obtain ⟨hrest, l, hl, hnest⟩ := ih hb hd hnext
    refine ⟨?_, l, hl, hnest.cons hm⟩
    rw [List.map_cons, List.mem_cons, not_or]
    exact ⟨hne.symm, hrest⟩

theorem matched_of_flush (hc : ts.foldlM step {} = .ok c) (hd : c.flush = .ok d) :
    Matched (ts.map (·.kind)) := by
  by_cases he : Kind.equals ∈ ts.map (·.kind)
  · obtain ⟨v, w, hvw, hv⟩ := List.eq_append_cons_of_mem he
    obtain ⟨us, vs, rfl, rfl, hvs⟩ := List.map_eq_append_iff.mp hvw
    obtain ⟨t, vs, rfl, ht, rfl⟩ := List.map_eq_cons_iff.mp hvs
    rw [List.foldlM_append] at hc
    obtain ⟨a, hus, hc⟩ := bind_eq_ok.mp hc
    obtain ⟨b, hs, hc⟩ := foldlM_cons_eq_ok.mp hc
    obtain ⟨-, m, ha, hleft⟩ := opened_start.nested hus fun _ => hv
    obtain ⟨hm, base, hbar, hb⟩ := ha.equals ht hs
    obtain ⟨hw, l, hl, hright⟩ := hb.nested hc (by simp [hbar])
    rw [hvw]
    exact matched_two hv hw (hm ▸ hleft).balanced ((hl.flush hd).1 ▸ hright).balanced
  · obtain ⟨-, m, hm, hnest⟩ := opened_start.nested hc fun _ => he
    exact matched_one he ((hm.flush hd).1 ▸ hnest).balanced

end Converter

namespace Postfix

variable {ts out : List Token}

theorem matched_of_convert (h : convert (ts.map .ok) = .ok out) : Matched (ts.map (·.kind)) := by
  obtain ⟨c, d, hc, hd, -⟩ := convert_eq_ok_iff.mp h
  rw [Converter.run_map_ok] at hc
  exact Converter.matched_of_flush hc hd

/-- A stream that is accepted has one `=` at most and is balanced on each side of it, and tokens of
which that does not hold are refused by the validation. -/
theorem convert_matched :
    (∀ (items : List (Except EquationError Token)) (out : List Token), convert items = .ok out →
      ∃ ts : List Token, items = ts.map .ok ∧ Matched (ts.map (·.kind))) ∧
    ∀ ts : List Token, ¬ Matched (ts.map (·.kind)) →
      ∃ e : EquationError, convert (ts.map .ok) = .error e ∧ e.cause.stage = .validation := by
  refine ⟨fun items out h => ?_, fun ts hopen => ?_⟩
  · obtain ⟨c, d, hc, -⟩ := convert_eq_ok_iff.mp h
    obtain ⟨ts, rfl⟩ := Converter.run_ok hc
    exact ⟨ts, rfl, matched_of_convert h⟩
  · cases h : convert (ts.map .ok) with
    | ok out => exact absurd (matched_of_convert h) hopen
    | error e =>
      refine ⟨e, rfl, (convert_eq_error h).resolve_left ?_⟩
      simp

/-- `(x) = (1)` is accepted. In `x = 1) + (2` there are as many parentheses of either kind, but the
first one closes none. -/
theorem convert_matched_cases :
    let written (ks : List Kind) := ks.map (Token.synthetic · 0)
    let accepted := [Kind.leftParen, .var, .rightParen, .equals, .leftParen, .number 1, .rightParen]
    let right := [Kind.number 1, .rightParen, .operator .add, .leftParen, .number 2]
    let crossed := Kind.var :: .equals :: right
    ((∃ out, convert ((written accepted).map .ok) = .ok out) ∧ Matched accepted) ∧
    ¬ Matched crossed ∧
      ∃ e : EquationError, convert ((written crossed).map .ok) = .error e ∧
        e.cause.stage = .validation := by
  intro written accepted right crossed
  have hcrossed : ¬ Matched crossed := by
    intro h
    have hside := h.sides right (by decide)
    exact absurd (hside.opened [.number 1, .rightParen] (by decide)) (by decide)
  have hout : convert ((written accepted).map .ok) =
      .ok (written [.var, .number 1, .operator .sub]) := rfl
  obtain ⟨ts, hts, hm⟩ := convert_matched.1 _ _ hout
  obtain rfl : written accepted = ts := List.map_injective_iff.mpr (fun _ _ => Except.ok.inj) hts
  exact ⟨⟨⟨_, hout⟩, hm⟩, hcrossed, convert_matched.2 (written crossed) hcrossed⟩

end Postfix
end Quadratics
