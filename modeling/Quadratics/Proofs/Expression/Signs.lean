import Quadratics.Proofs.Expression.Building
/-! Trees from tokens that need not be those of a tree: in the order of a formula, only a sign under
a different one is refused. -/
namespace Quadratics.Expression

variable {f : Formula} {ts : List Token} {e : Expression} {op : Operator}

/-- A node for each sign with its operand and for each other operator with its two. -/
def Proper (e : Expression) : Prop := e.formula.Proper

theorem signed_of_mixed {position : Nat} (hu : e.formula.Unmixed)
    (h : ¬ (Formula.unary op e.formula).Unmixed) :
    signed op e position = .error ⟨.mixedSigns, some position⟩ := by
  cases e with
  | number value p => exact absurd ⟨hu, trivial⟩ h
  | var m p => exact absurd ⟨hu, trivial⟩ h
  | binary o l r p => exact absurd ⟨hu, trivial⟩ h
  | unary inner e p =>
    have hne : inner ≠ op := fun he => h ⟨hu, he⟩
    simp only [signed, if_neg hne]

theorem foldlM_push_mixed (hp : f.Proper) (hu : ¬ f.Unmixed)
    (h : ts.map (·.kind) = f.postorder) (stack : List Expression) :
    ∃ t ∈ ts, ∃ op : Operator, t.kind = .operator op ∧ op.isUnary = true ∧
      ts.foldlM push stack = .error ⟨.mixedSigns, some t.position⟩ := by
  induction f generalizing ts stack with
  | number value => exact absurd trivial hu
  | var => exact absurd trivial hu
  | unary op operand ih =>
    obtain ⟨us, t, rfl, hus, ht⟩ := Formula.split_unary h
    by_cases ho : operand.Unmixed
    · -- the operand is built, and the sign in front of it is another one
      obtain ⟨e, he, rfl, -⟩ := foldlM_push_postorder hp.2 ho hus stack
      have hpush : push (e :: stack) t = .error ⟨.mixedSigns, some t.position⟩ := by
        simp [push, ht, hp.1, signed_of_mixed ho hu, Except.map]
      refine ⟨t, by simp, op, ht, hp.1, ?_⟩
      rw [foldlM_append_of_ok he, foldlM_cons_of_error hpush]
    · obtain ⟨u, hmem, o, hk, hou, herr⟩ := ih hp.2 ho hus stack
      exact ⟨u, List.mem_append_left _ hmem, o, hk, hou, foldlM_append_of_error herr _⟩
  | binary op left right ihl ihr =>
    obtain ⟨us, vs, t, rfl, hus, hvs, ht⟩ := Formula.split_binary h
    by_cases hl : left.Unmixed
    · have hr : ¬ right.Unmixed := fun hr => hu ⟨hl, hr⟩
      obtain ⟨l, he, -, -⟩ := foldlM_push_postorder hp.2.1 hl hus stack
      obtain ⟨u, hmem, o, hk, hou, herr⟩ := ihr hp.2.2 hr hvs (l :: stack)
      refine ⟨u, by simp [hmem], o, hk, hou, ?_⟩
      rw [foldlM_append_of_ok he, foldlM_append_of_error herr]
    · obtain ⟨u, hmem, o, hk, hou, herr⟩ := ihl hp.2.1 hl hus stack
      exact ⟨u, List.mem_append_left _ hmem, o, hk, hou, foldlM_append_of_error herr _⟩

theorem build_mixed (hp : f.Proper) (hu : ¬ f.Unmixed) (h : ts.map (·.kind) = f.postorder) :
    ∃ t ∈ ts, ∃ op : Operator, t.kind = .operator op ∧ op.isUnary = true ∧
      build ts = .error ⟨.mixedSigns, some t.position⟩ := by
  obtain ⟨t, hmem, op, hk, hop, herr⟩ := foldlM_push_mixed hp hu h []
  refine ⟨t, hmem, op, hk, hop, ?_⟩
  rw [build, herr]
  rfl

theorem agree_build {g : Formula} {us : List Token} (hf : f.Proper) (hg : g.Proper)
    (hfg : f.Unmixed ↔ g.Unmixed) (ht : ts.map (·.kind) = f.postorder)
    (hu : us.map (·.kind) = g.postorder) :
    Agree EquationError.SameCause
      (fun e e' => (e.Written ∧ e.formula = f) ∧ e'.Written ∧ e'.formula = g)
      (build ts) (build us) := by
  by_cases hm : f.Unmixed
  · obtain ⟨e, he, hef, hw⟩ := build_postorder hf hm ht
    obtain ⟨e', he', heg, hw'⟩ := build_postorder hg (hfg.mp hm) hu
    rw [he, he']
    exact .ok ⟨⟨hw, hef⟩, hw', heg⟩
  · obtain ⟨t, -, op, -, -, herr⟩ := build_mixed hf hm ht
    obtain ⟨u, -, op', -, -, herr'⟩ := build_mixed hg (mt hfg.mpr hm) hu
    rw [herr, herr']
    exact .error rfl

/-- A tree is built where no sign stands under a different one, and then it is the formula's. -/
theorem unmixed_of_build (hp : f.Proper) (h : ts.map (·.kind) = f.postorder)
    (hb : build ts = .ok e) : f.Unmixed ∧ e.formula = f := by
  by_cases hu : f.Unmixed
  · obtain ⟨e', he, hf, -⟩ := build_postorder hp hu h
    cases hb.symm.trans he
    exact ⟨hu, hf⟩
  · obtain ⟨t, -, op, -, -, herr⟩ := build_mixed hp hu h
    rw [hb] at herr
    cases herr

theorem hereditary_proper : Hereditary Proper :=
  ⟨fun _ _ => trivial, fun _ => trivial, fun hu _ h => ⟨hu, h⟩, fun hu hl hr => ⟨hu, hl, hr⟩⟩

end Quadratics.Expression
