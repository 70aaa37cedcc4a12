import Quadratics.Expression.Folding
import Quadratics.Proofs.Formula
import Quadratics.Proofs.Steps
/-! Trees from tokens in the order of a formula, and the polynomial of a formula. -/
namespace Quadratics

open Token (Kind)

namespace Formula

/-- Signs directly under each other are all the same. -/
def Unmixed : Formula → Prop
  | .number _ | .var => True
  | .unary op operand =>
    operand.Unmixed ∧
      match operand with
      | .unary inner _ => inner = op
      | _ => True
  | .binary _ left right => left.Unmixed ∧ right.Unmixed

theorem unmixed_collapse {f : Formula} (h : f.Unmixed) : f.collapse.Unmixed := by
  induction f with
  | number value => trivial
  | var => trivial
  | unary op operand ih =>
    by_cases hc : op = .unaryPlus ∧ operand.collapse.isPlus
    · simpa only [collapse, if_pos hc] using ih h.1
    · simp only [collapse, if_neg hc]
      refine ⟨ih h.1, ?_⟩
      split
      · next inner g hg =>
        obtain ⟨operand, rfl⟩ := eq_unary_of_collapse hg
        exact h.2
      · trivial
  | binary op left right ihl ihr => exact ⟨ihl h.1, ihr h.2⟩

/-- The polynomial that the nodes give from the leaves up, wherever they stand. -/
inductive Folds : Formula → Polynomial → Prop where
  | number (value : Float) : Folds (.number value) (.constant value)
  | var : Folds .var (.var 1)
  | unary {op : Operator} {f : Formula} {p q : Polynomial} (h : Folds f p)
      (hq : ∀ position, Expression.applyUnary op p position = .ok q) : Folds (.unary op f) q
  | binary {op : Operator} {f g : Formula} {p q r : Polynomial} (hf : Folds f p) (hg : Folds g q)
      (hr : ∀ position, Expression.applyBinary op p q position = .ok r) :
      Folds (.binary op f g) r

end Formula

namespace Expression

/-- Every variable stands for itself. -/
def Written : Expression → Prop
  | .number _ _ => True
  | .var multiplier _ => multiplier = 1
  | .unary _ operand _ => operand.Written
  | .binary _ left right _ => left.Written ∧ right.Written

theorem signed_eq {op : Operator} {operand e : Expression} {position : Nat}
    (h : signed op operand position = .ok e) : e = .unary op operand position := by
  unfold signed at h
  split at h
  · split at h
    · cases h
      rfl
    · cases h
  · cases h
    rfl

/-- Leaves have it, and a node that is built on operands that have it. -/
structure Hereditary (P : Expression → Prop) : Prop where
  number : ∀ value position, P (.number value position)
  var : ∀ position, P (.var 1 position)
  unary : ∀ {op : Operator} {operand : Expression} {position : Nat}, op.isUnary = true →
    signed op operand position = .ok (.unary op operand position) → P operand →
    P (.unary op operand position)
  binary : ∀ {op : Operator} {left right : Expression} {position : Nat}, op.isUnary = false →
    P left → P right → P (.binary op left right position)

variable {P : Expression → Prop} {ts : List Token} {stack stack' : List Expression}

theorem Hereditary.push {t : Token} (hP : Hereditary P) (h : ∀ e ∈ stack, P e)
    (hs : push stack t = .ok stack') : ∀ e ∈ stack', P e := by
  unfold Expression.push at hs
  split at hs
  · cases hs
    exact List.forall_mem_cons.mpr ⟨hP.number _ _, h⟩
  · cases hs
    exact List.forall_mem_cons.mpr ⟨hP.var _, h⟩
  · next op _ =>
    split at hs
    · next hu =>
      split at hs
      · next operand rest =>
        obtain ⟨ho, hrest⟩ := List.forall_mem_cons.mp h
        obtain ⟨e, he, rfl⟩ := map_eq_ok.mp hs
        obtain rfl := signed_eq he
        exact List.forall_mem_cons.mpr ⟨hP.unary hu he ho, hrest⟩
      · cases hs
    · next hu =>
      split at hs
      · cases hs
        simp only [List.forall_mem_cons] at h ⊢
        exact ⟨hP.binary (Bool.eq_false_iff.mpr hu) h.2.1 h.1, h.2.2⟩
      · cases hs
  · cases hs

theorem Hereditary.foldlM (hP : Hereditary P) (h : ∀ e ∈ stack, P e)
    (hs : ts.foldlM Expression.push stack = .ok stack') : ∀ e ∈ stack', P e := by
  induction ts generalizing stack with
  | nil =>
    cases hs
    exact h
  | cons t ts ih =>
    obtain ⟨next, hnext, hs⟩ := foldlM_cons_eq_ok.mp hs
    exact ih (hP.push h hnext) hs

theorem Hereditary.build {e : Expression} (hP : Hereditary P) (h : build ts = .ok e) : P e := by
  obtain ⟨stack, hs, h⟩ := bind_eq_ok.mp h
  split at h
  · next e' hrev =>
    cases h
    have hstack : stack = [e] := by simpa using congrArg List.reverse hrev
    exact hP.foldlM (by simp) hs e (by simp [hstack])
  · cases h
  · cases h

theorem hereditary_written : Hereditary Written :=
  ⟨fun _ _ => trivial, fun _ => rfl, fun _ _ h => h, fun _ hl hr => ⟨hl, hr⟩⟩

theorem written_build {e : Expression} (h : build ts = .ok e) : e.Written :=
  hereditary_written.build h

def formula : Expression → Formula
  | .number value _ => .number value
  | .var _ _ => .var
  | .unary op operand _ => .unary op operand.formula
  | .binary op left right _ => .binary op left.formula right.formula

theorem signed_of_unmixed {op : Operator} {e : Expression} (position : Nat)
    (h : (Formula.unary op e.formula).Unmixed) :
    signed op e position = .ok (.unary op e position) := by
  cases e with
  | number value p => rfl
  | var m p => rfl
  | binary o l r p => rfl
  | unary inner e p => simp only [signed, if_pos (show inner = op from h.2)]

theorem foldlM_push_postorder {f : Formula} {ts : List Token} (hp : f.Proper) (hu : f.Unmixed)
    (h : ts.map (·.kind) = f.postorder) (stack : List Expression) :
    ∃ e, ts.foldlM push stack = .ok (e :: stack) ∧ e.formula = f ∧ e.Written := by
  induction f generalizing ts stack with
  | number value =>
    obtain ⟨t, rfl, ht⟩ := List.map_eq_singleton_iff.mp h
    exact ⟨.number value t.position, by simp [push, ht], rfl, trivial⟩
  | var =>
    obtain ⟨t, rfl, ht⟩ := List.map_eq_singleton_iff.mp h
    exact ⟨.var 1 t.position, by simp [push, ht], rfl, rfl⟩
  | unary op operand ih =>
    obtain ⟨us, t, rfl, hus, ht⟩ := Formula.split_unary h
    obtain ⟨e, he, rfl, hw⟩ := ih hp.2 hu.1 hus stack
    have hpush : push (e :: stack) t = .ok (.unary op e t.position :: stack) := by
      simp [push, ht, hp.1, signed_of_unmixed t.position hu, Except.map]
    refine ⟨.unary op e t.position, ?_, rfl, hw⟩
    rw [foldlM_append_of_ok he, foldlM_cons_of_ok hpush]
    rfl
  | binary op left right ihl ihr =>
    obtain ⟨us, vs, t, rfl, hus, hvs, ht⟩ := Formula.split_binary h
    obtain ⟨l, hl, rfl, hlw⟩ := ihl hp.2.1 hu.1 hus stack
    obtain ⟨r, hr, rfl, hrw⟩ := ihr hp.2.2 hu.2 hvs (l :: stack)
    have hpush : push (r :: l :: stack) t = .ok (.binary op l r t.position :: stack) := by
      simp [push, ht, hp.1]
    refine ⟨.binary op l r t.position, ?_, rfl, hlw, hrw⟩
    rw [foldlM_append_of_ok hl, foldlM_append_of_ok hr, foldlM_cons_of_ok hpush]
    rfl

theorem build_postorder {f : Formula} {ts : List Token} (hp : f.Proper) (hu : f.Unmixed)
    (h : ts.map (·.kind) = f.postorder) :
    ∃ e, build ts = .ok e ∧ e.formula = f ∧ e.Written := by
  obtain ⟨e, he, hf, hw⟩ := foldlM_push_postorder hp hu h []
  refine ⟨e, ?_, hf, hw⟩
  rw [build, he]
  rfl

theorem fold_of_folds {e : Expression} {p : Polynomial} (hw : e.Written) (h : e.formula.Folds p) :
    e.fold = .ok p := by
  induction e generalizing p with
  | number value position =>
    cases h
    rfl
  | var m position =>
    cases h
    cases hw
    rfl
  | unary op operand position ih =>
    cases h with
    | unary h hq =>
      rw [fold, ih hw h]
      exact hq position
  | binary op left right position ihl ihr =>
    cases h with
    | binary hf hg hr =>
      rw [fold, ihl hw.1 hf, ihr hw.2 hg]
      exact hr position

end Expression
end Quadratics
