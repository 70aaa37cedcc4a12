import Quadratics.Proofs.Expression.Nodes
import Quadratics.Proofs.Expression.Signs
/-! A tree is built from the list of its nodes with the operands first, and from no other list. -/
namespace Quadratics.Expression

/-- Every variable stands for itself, signs stand over one operand and the other operators over two,
and no sign stands directly over a different one. -/
structure Buildable (e : Expression) : Prop where
  written : e.Written
  proper : e.Proper
  unmixed : e.formula.Unmixed

variable {e l r : Expression} {op : Operator} {p : Nat} {t : Token} {ts : List Token}

theorem Buildable.operand (h : Buildable (.unary op e p)) : e.Buildable :=
  ⟨h.written, h.proper.2, h.unmixed.1⟩

theorem Buildable.left (h : Buildable (.binary op l r p)) : l.Buildable :=
  ⟨h.written.1, h.proper.2.1, h.unmixed.1⟩

theorem Buildable.right (h : Buildable (.binary op l r p)) : r.Buildable :=
  ⟨h.written.2, h.proper.2.2, h.unmixed.2⟩

theorem hereditary_buildable : Hereditary Buildable where
  number _ _ := ⟨trivial, trivial, trivial⟩
  var _ := ⟨rfl, trivial, trivial⟩
  unary {op operand position} hu hs h := by
    refine ⟨h.written, ⟨hu, h.proper⟩, Classical.byContradiction fun hmixed => ?_⟩
    cases hs.symm.trans (signed_of_mixed h.unmixed hmixed)
  binary hu hl hr := ⟨⟨hl.written, hr.written⟩, ⟨hu, hl.proper, hr.proper⟩, hl.unmixed, hr.unmixed⟩

theorem push_operator_unary (stack : List Expression) (h : Buildable (.unary op e p))
    (ht : (t.kind, t.position) = (.operator op, p)) :
    push (e :: stack) t = .ok (.unary op e p :: stack) := by
  obtain ⟨hk, rfl⟩ := Prod.mk.inj ht
  have hop : op.isUnary = true := h.proper.1
  simp [push, hk, hop, signed_of_unmixed t.position h.unmixed, Except.map]

theorem push_operator_binary (stack : List Expression) (h : Buildable (.binary op l r p))
    (ht : (t.kind, t.position) = (.operator op, p)) :
    push (r :: l :: stack) t = .ok (.binary op l r p :: stack) := by
  obtain ⟨hk, rfl⟩ := Prod.mk.inj ht
  have hop : op.isUnary = false := h.proper.1
  simp [push, hk, hop]

/-- Whatever waits on the stack, the nodes of a tree leave the tree on top of it. -/
theorem foldlM_push_nodes (h : e.Buildable)
    (hts : ts.map (fun t => (t.kind, t.position)) = e.postorder) (stack : List Expression) :
    ts.foldlM push stack = .ok (e :: stack) := by
  induction e generalizing ts stack with
  | number value p =>
    obtain ⟨t, rfl, ht⟩ := List.map_eq_singleton_iff.mp hts
    obtain ⟨hk, rfl⟩ := Prod.mk.inj ht
    simp [push, hk]
  | var multiplier p =>
    obtain ⟨t, rfl, ht⟩ := List.map_eq_singleton_iff.mp hts
    obtain ⟨hk, rfl⟩ := Prod.mk.inj ht
    obtain rfl : multiplier = 1 := h.written
    simp [push, hk]
  | unary op operand p ih =>
    obtain ⟨us, last, rfl, hus, hlast⟩ := List.map_eq_append_iff.mp hts
    obtain ⟨t, rfl, ht⟩ := List.map_eq_singleton_iff.mp hlast
    rw [foldlM_append_of_ok (ih h.operand hus stack),
      foldlM_cons_of_ok (push_operator_unary stack h ht)]
    rfl
  | binary op l r p ihl ihr =>
    obtain ⟨both, last, rfl, hboth, hlast⟩ := List.map_eq_append_iff.mp hts
    obtain ⟨us, vs, rfl, hus, hvs⟩ := List.map_eq_append_iff.mp hboth
    obtain ⟨t, rfl, ht⟩ := List.map_eq_singleton_iff.mp hlast
    -- the right operand is built on top of the left one
    rw [List.append_assoc, foldlM_append_of_ok (ihl h.left hus stack),
      foldlM_append_of_ok (ihr h.right hvs (l :: stack)),
      foldlM_cons_of_ok (push_operator_binary stack h ht)]
    rfl

/-- Tokens build a tree exactly if they are its nodes, operands first, each of its kind and at its
place, and the tree is one that can be built. -/
theorem build_eq_ok_iff_postorder :
    build ts = .ok e ↔
      e.Buildable ∧ e.postorder = ts.map fun t => (t.kind, t.position) := by
  constructor
  · exact fun h => ⟨hereditary_buildable.build h, postorder_of_build h⟩
  · rintro ⟨he, hts⟩
    rw [build, foldlM_push_nodes he hts.symm []]
    rfl

/-- `-(x ^ 2)` behind its operands. -/
example :
    build ([.var, .number 2, .operator .pow, .operator .unaryMinus].map (Token.synthetic · 7)) =
      .ok (.unary .unaryMinus (.binary .pow (.var 1 7) (.number 2 7) 7) 7) := rfl

end Quadratics.Expression
