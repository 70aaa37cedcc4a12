import Quadratics.Proofs.Expression.Building
/-! The nodes of a tree: they are the tokens that it is built from, in the same order and at the
same places. -/
namespace Quadratics.Expression

inductive Within : Expression → Expression → Prop where
  | self (e : Expression) : Within e e
  | operand {node e : Expression} {op : Operator} {position : Nat} (h : Within node e) :
      Within node (.unary op e position)
  | left {node l r : Expression} {op : Operator} {position : Nat} (h : Within node l) :
      Within node (.binary op l r position)
  | right {node l r : Expression} {op : Operator} {position : Nat} (h : Within node r) :
      Within node (.binary op l r position)

variable {e : Expression} {t : Token} {ts : List Token} {stack stack' : List Expression}

theorem within_of_mem_postorder {value : Float} {position : Nat}
    (h : (.number value, position) ∈ e.postorder) : Within (.number value position) e := by
  induction e with
  | number v p =>
    obtain ⟨rfl, rfl⟩ : value = v ∧ position = p := by simpa [postorder] using h
    exact .self _
  | var m p => simp [postorder] at h
  | unary op operand p ih =>
    have ho : (.number value, position) ∈ operand.postorder := by simpa [postorder] using h
    exact .operand (ih ho)
  | binary op l r p ihl ihr =>
    have hlr : (.number value, position) ∈ l.postorder ∨
        (.number value, position) ∈ r.postorder := by
      simpa [postorder] using h
    exact hlr.elim (fun hl => .left (ihl hl)) fun hr => .right (ihr hr)

theorem postorder_push (h : push stack t = .ok stack') :
    stack'.reverse.flatMap postorder =
      stack.reverse.flatMap postorder ++ [(t.kind, t.position)] := by
  unfold push at h
  split at h
  · next value hk =>
    cases h
    simp [postorder, hk]
  · next hk =>
    cases h
    simp [postorder, hk]
  · next op hk =>
    split at h
    · split at h
      · next operand rest =>
        obtain ⟨e, he, rfl⟩ := map_eq_ok.mp h
        obtain rfl := signed_eq he
        simp [postorder, hk]
      · cases h
    · split at h
      · cases h
        simp [postorder, hk]
      · cases h
  · cases h

theorem postorder_foldlM (h : ts.foldlM push stack = .ok stack') :
    stack'.reverse.flatMap postorder =
      stack.reverse.flatMap postorder ++ ts.map fun t => (t.kind, t.position) := by
  induction ts generalizing stack with
  | nil =>
    cases h
    simp
  | cons t ts ih =>
    obtain ⟨next, hnext, h⟩ := foldlM_cons_eq_ok.mp h
    rw [ih h, postorder_push hnext, List.append_assoc]
    rfl

theorem postorder_of_build (h : build ts = .ok e) :
    e.postorder = ts.map fun t => (t.kind, t.position) := by
  obtain ⟨stack, hs, h⟩ := bind_eq_ok.mp h
  have hpostorder := postorder_foldlM hs
  split at h
  · next e' hrev =>
    cases h
    simpa [hrev] using hpostorder
  · cases h
  · cases h

end Quadratics.Expression
