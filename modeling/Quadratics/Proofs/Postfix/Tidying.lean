import Quadratics.Postfix
import Quadratics.Proofs.Formula
import Quadratics.Proofs.Steps
/-! Tokens in the order of a formula: collapsing the signs among them collapses the formula, and
they pass the count of values. -/
namespace Quadratics.Postfix

open Token (Kind)

theorem isUnaryPlus_operator (op : Operator) :
    (Kind.operator op).isUnaryPlus = (op == .unaryPlus) := by
  cases op <;> rfl

theorem collapseAfter_postorder {f : Formula} {ts : List Token} (hf : f.Proper)
    (h : ts.map (·.kind) = f.postorder) :
    ∃ us, us.map (·.kind) = f.collapse.postorder ∧
      ∀ b rest, collapseAfter b (ts ++ rest) = us ++ collapseAfter f.isPlus rest := by
  induction f generalizing ts with
  | number value =>
    obtain ⟨t, rfl, ht⟩ := List.map_eq_singleton_iff.mp h
    refine ⟨[t], h, ?_⟩
    intro b rest
    simp [collapseAfter, ht, Kind.isUnaryPlus, Formula.isPlus]
  | var =>
    obtain ⟨t, rfl, ht⟩ := List.map_eq_singleton_iff.mp h
    refine ⟨[t], h, ?_⟩
    intro b rest
    simp [collapseAfter, ht, Kind.isUnaryPlus, Formula.isPlus]
  | unary op operand ih =>
    obtain ⟨vs, t, rfl, hvs, ht⟩ := Formula.split_unary h
    obtain ⟨us, hus, hcol⟩ := ih hf.2 hvs
    have hplus : t.kind.isUnaryPlus = (op == .unaryPlus) := by rw [ht, isUnaryPlus_operator]
    by_cases hc : op = .unaryPlus ∧ operand.collapse.isPlus
    · refine ⟨us, by simp only [Formula.collapse, if_pos hc, hus], ?_⟩
      intro b rest
      rw [Formula.isPlus_collapse] at hc
      simp [hcol, collapseAfter, hplus, hc]
    · refine ⟨us ++ [t], by simp [Formula.collapse, if_neg hc, Formula.postorder, hus, ht], ?_⟩
      intro b rest
      rw [Formula.isPlus_collapse, and_comm] at hc
      simp [hcol, collapseAfter, hplus, hc]
  | binary op left right ihl ihr =>
    obtain ⟨ls, rs, t, rfl, hls, hrs, ht⟩ := Formula.split_binary h
    obtain ⟨us, hus, hcl⟩ := ihl hf.2.1 hls
    obtain ⟨vs, hvs, hcr⟩ := ihr hf.2.2 hrs
    have hne : op ≠ .unaryPlus := by
      rintro rfl
      exact absurd hf.1 (by decide)
    have hplus : t.kind.isUnaryPlus = false := by simp [ht, isUnaryPlus_operator, hne]
    refine ⟨us ++ vs ++ [t], by simp [Formula.collapse, Formula.postorder, hus, hvs, ht], ?_⟩
    intro b rest
    simp [hcl, hcr, collapseAfter, hplus, Formula.isPlus]

theorem not_isEquals_postorder (f : Formula) : ∀ k ∈ f.postorder, k.isEquals = false := by
  induction f with
  | number value => simp [Formula.postorder, Kind.isEquals]
  | var => simp [Formula.postorder, Kind.isEquals]
  | unary op operand ih =>
    intro k hk
    rcases List.mem_append.mp hk with hk | hk
    · exact ih k hk
    · simp_all [Kind.isEquals]
  | binary op left right ihl ihr =>
    intro k hk
    rcases List.mem_append.mp hk with hk | hk
    · exact (List.mem_append.mp hk).elim (ihl k) (ihr k)
    · simp_all [Kind.isEquals]

theorem filter_postorder {f : Formula} {ts : List Token} (h : ts.map (·.kind) = f.postorder) :
    ts.filter (!·.kind.isEquals) = ts := by
  rw [List.filter_eq_self]
  intro t ht
  have hk := not_isEquals_postorder f t.kind (h ▸ List.mem_map_of_mem ht)
  simp [hk]

theorem tidy_postorder {f : Formula} {output : List Token} (hf : f.Proper)
    (h : output.reverse.map (·.kind) = f.postorder) :
    (tidy output).map (·.kind) = f.collapse.postorder := by
  obtain ⟨us, hus, hcol⟩ := collapseAfter_postorder hf h
  have he := hcol false []
  simp only [List.append_nil, collapseAfter] at he
  rw [tidy, he, filter_postorder hus, hus]

theorem tidy_sides {f g : Formula} {output : List Token} (hf : f.Proper) (hg : g.Proper)
    (h : output.reverse.map (·.kind) =
      f.postorder ++ .equals :: g.postorder ++ [.operator .sub]) :
    (tidy output).map (·.kind) = (Formula.binary .sub f g).collapse.postorder := by
  obtain ⟨ts, tl, hout, hts, htl⟩ := List.map_eq_append_iff.mp h
  obtain ⟨ls, rs, rfl, hls, hrs⟩ := List.map_eq_append_iff.mp hts
  obtain ⟨e, rs, rfl, he, hrs⟩ := List.map_eq_cons_iff.mp hrs
  obtain ⟨t, rfl, ht⟩ := List.map_eq_singleton_iff.mp htl
  obtain ⟨us, hus, hcl⟩ := collapseAfter_postorder hf hls
  obtain ⟨vs, hvs, hcr⟩ := collapseAfter_postorder hg hrs
  have hsplit : collapseAfter false output.reverse = us ++ e :: (vs ++ [t]) := by
    rw [hout, List.append_assoc, List.cons_append, hcl]
    simp [collapseAfter, he, Kind.isUnaryPlus, hcr, ht]
  have htkeep : [t].filter (!·.kind.isEquals) = [t] := by
    rw [List.filter_cons_of_pos (by rw [ht]; rfl), List.filter_nil]
  rw [tidy, hsplit, List.filter_append, filter_postorder hus,
    List.filter_cons_of_neg (by rw [he]; decide), List.filter_append, filter_postorder hvs, htkeep]
  simp [hus, hvs, ht, Formula.collapse, Formula.postorder]

theorem foldlM_count_postorder {f : Formula} {ts : List Token} (hf : f.Proper)
    (h : ts.map (·.kind) = f.postorder) (n : Nat) : ts.foldlM count n = .ok (n + 1) := by
  induction f generalizing ts n with
  | number value =>
    obtain ⟨t, rfl, ht⟩ := List.map_eq_singleton_iff.mp h
    simp [count, ht]
  | var =>
    obtain ⟨t, rfl, ht⟩ := List.map_eq_singleton_iff.mp h
    simp [count, ht]
  | unary op operand ih =>
    obtain ⟨us, t, rfl, hus, ht⟩ := Formula.split_unary h
    have hcount : count (n + 1) t = .ok (n + 1) := by simp [count, ht, hf.1]
    rw [foldlM_append_of_ok (ih hf.2 hus n), foldlM_cons_of_ok hcount]
    rfl
  | binary op left right ihl ihr =>
    obtain ⟨us, vs, t, rfl, hus, hvs, ht⟩ := Formula.split_binary h
    have hcount : count (n + 1 + 1) t = .ok (n + 1) := by simp [count, ht, hf.1]
    rw [foldlM_append_of_ok (ihl hf.2.1 hus n), foldlM_append_of_ok (ihr hf.2.2 hvs (n + 1)),
      foldlM_cons_of_ok hcount]
    rfl

theorem checkArity_postorder {f : Formula} {ts : List Token} (hf : f.Proper)
    (h : ts.map (·.kind) = f.postorder) : checkArity ts = .ok () := by
  simp [checkArity, foldlM_count_postorder hf h 0]

end Quadratics.Postfix
