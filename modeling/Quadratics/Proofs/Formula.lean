import Quadratics.Expression
/-! Expressions without places, and their operators behind the operands. -/
namespace Quadratics

inductive Formula where
  | number (value : Float)
  | var
  | unary (op : Operator) (operand : Formula)
  | binary (op : Operator) (left right : Formula)
deriving DecidableEq

namespace Formula

def postorder : Formula → List Token.Kind
  | .number value => [.number value]
  | .var => [.var]
  | .unary op operand => operand.postorder ++ [.operator op]
  | .binary op left right => left.postorder ++ right.postorder ++ [.operator op]

theorem postorder_ne_nil (f : Formula) : f.postorder ≠ [] := by
  cases f <;> simp [postorder]

theorem split_unary {op : Operator} {f : Formula} {ts : List Token}
    (h : ts.map (·.kind) = (unary op f).postorder) :
    ∃ us t, ts = us ++ [t] ∧ us.map (·.kind) = f.postorder ∧ t.kind = .operator op := by
  obtain ⟨us, tl, rfl, hus, htl⟩ := List.map_eq_append_iff.mp h
  obtain ⟨t, rfl, ht⟩ := List.map_eq_singleton_iff.mp htl
  exact ⟨us, t, rfl, hus, ht⟩

theorem split_binary {op : Operator} {f g : Formula} {ts : List Token}
    (h : ts.map (·.kind) = (binary op f g).postorder) :
    ∃ us vs t, ts = us ++ (vs ++ [t]) ∧ us.map (·.kind) = f.postorder ∧
      vs.map (·.kind) = g.postorder ∧ t.kind = .operator op := by
  rw [postorder, List.append_assoc] at h
  obtain ⟨us, tl, rfl, hus, htl⟩ := List.map_eq_append_iff.mp h
  obtain ⟨vs, tl, rfl, hvs, htl⟩ := List.map_eq_append_iff.mp htl
  obtain ⟨t, rfl, ht⟩ := List.map_eq_singleton_iff.mp htl
  exact ⟨us, vs, t, rfl, hus, hvs, ht⟩

/-- Signs stand over one operand and the other operators over two. -/
def Proper : Formula → Prop
  | .number _ | .var => True
  | .unary op operand => op.isUnary = true ∧ operand.Proper
  | .binary op left right => op.isUnary = false ∧ left.Proper ∧ right.Proper

def isPlus : Formula → Bool
  | .unary op _ => op == .unaryPlus
  | _ => false

@[simp] theorem isPlus_unary (op : Operator) (f : Formula) :
    (unary op f).isPlus = (op == .unaryPlus) := rfl

/-- Of plus signs directly under each other one is left. -/
def collapse : Formula → Formula
  | .number value => .number value
  | .var => .var
  | .unary op operand =>
    if op = .unaryPlus ∧ operand.collapse.isPlus then operand.collapse
    else .unary op operand.collapse
  | .binary op left right => .binary op left.collapse right.collapse

theorem isPlus_collapse (f : Formula) : f.collapse.isPlus = f.isPlus := by
  cases f with
  | number value => rfl
  | var => rfl
  | binary op left right => rfl
  | unary op operand =>
    by_cases h : op = .unaryPlus ∧ operand.collapse.isPlus
    · simp only [collapse, if_pos h]
      rw [h.2, h.1]
      rfl
    · simp only [collapse, if_neg h]
      rfl

theorem eq_unary_of_collapse {f g : Formula} {op : Operator} (h : f.collapse = .unary op g) :
    ∃ operand, f = .unary op operand := by
  cases f with
  | number value => cases h
  | var => cases h
  | binary op' left right => cases h
  | unary op' operand =>
    by_cases hc : op' = .unaryPlus ∧ operand.collapse.isPlus
    · simp only [collapse, if_pos hc] at h
      have hp := hc.2
      rw [h, isPlus_unary, beq_iff_eq] at hp
      exact ⟨operand, by rw [hp, hc.1]⟩
    · simp only [collapse, if_neg hc] at h
      cases h
      exact ⟨operand, rfl⟩

theorem collapse_collapse (f : Formula) : f.collapse.collapse = f.collapse := by
  induction f with
  | number value => rfl
  | var => rfl
  | unary op operand ih =>
    by_cases h : op = .unaryPlus ∧ operand.collapse.isPlus
    · simp only [collapse, if_pos h, ih]
    · simp only [collapse, if_neg h, ih]
  | binary op left right ihl ihr => rw [collapse, collapse, ihl, ihr]

theorem proper_collapse {f : Formula} (h : f.Proper) : f.collapse.Proper := by
  induction f with
  | number value => exact h
  | var => exact h
  | unary op operand ih =>
    by_cases hc : op = .unaryPlus ∧ operand.collapse.isPlus
    · simpa only [collapse, if_pos hc] using ih h.2
    · simpa only [collapse, if_neg hc] using ⟨h.1, ih h.2⟩
  | binary op left right ihl ihr => exact ⟨h.1, ihl h.2.1, ihr h.2.2⟩

end Formula
end Quadratics
