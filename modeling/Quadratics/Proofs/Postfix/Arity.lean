import Quadratics.Proofs.Postfix.Completeness
/-! What passes the count of values: exactly the tokens in the order of a formula. -/
namespace Quadratics.Postfix

open Token (Kind)

/-- The tokens that leave the values of these formulas at hand, the latest first. -/
def laid (fs : List Formula) : List Kind := fs.reverse.flatMap Formula.postorder

theorem laid_cons (f : Formula) (fs : List Formula) :
    laid (f :: fs) = laid fs ++ f.postorder := by
  simp [laid]

variable {m n : Nat} {t : Token} {ts : List Token}

theorem count_eq_ok (h : count n t = .ok m) :
    t.kind.isOperand = true ∧ m = n + 1 ∨
      ∃ op, t.kind = .operator op ∧
        (op.isUnary = true ∧ 1 ≤ n ∧ m = n ∨ op.isUnary = false ∧ 2 ≤ n ∧ m + 1 = n) := by
  unfold count at h
  split at h
  · next hk =>
    cases h
    exact .inl ⟨by rw [hk]; rfl, rfl⟩
  · next hk =>
    cases h
    exact .inl ⟨by rw [hk]; rfl, rfl⟩
  · next op hk =>
    refine .inr ⟨op, hk, ?_⟩
    cases hu : op.isUnary with
    | true =>
      simp only [hu, if_true] at h
      split at h
      · cases h
      · cases h
        exact .inl ⟨rfl, by omega, by omega⟩
    | false =>
      simp only [hu, Bool.false_eq_true, if_false] at h
      split at h
      · cases h
      · cases h
        exact .inr ⟨rfl, by omega, by omega⟩
  · cases h

theorem laid_count {fs : List Formula} (hf : ∀ f ∈ fs, f.Proper) (hn : fs.length = n)
    (h : count n t = .ok m) :
    ∃ gs : List Formula, (∀ g ∈ gs, g.Proper) ∧ gs.length = m ∧ laid gs = laid fs ++ [t.kind] := by
  rcases count_eq_ok h with ⟨hk, rfl⟩ | ⟨op, hk, ⟨hu, hle, rfl⟩ | ⟨hu, hle, hm⟩⟩
  · have operand (g : Formula) (hg : g.Proper) (hp : g.postorder = [t.kind]) :
        ∃ gs : List Formula, (∀ g ∈ gs, g.Proper) ∧ gs.length = n + 1 ∧
          laid gs = laid fs ++ [t.kind] :=
      ⟨g :: fs, List.forall_mem_cons.mpr ⟨hg, hf⟩, by simp [hn], by rw [laid_cons, hp]⟩
    cases hv : t.kind with
    | number value => exact hv ▸ operand (.number value) trivial (by rw [hv]; rfl)
    | var => exact hv ▸ operand .var trivial (by rw [hv]; rfl)
    | operator | leftParen | rightParen | equals | whitespace => simp [hv, Kind.isOperand] at hk
  · obtain ⟨f, fs, rfl⟩ := List.exists_cons_of_length_pos (hn ▸ hle)
    obtain ⟨hf, hfs⟩ := List.forall_mem_cons.mp hf
    refine ⟨.unary op f :: fs, List.forall_mem_cons.mpr ⟨⟨hu, hf⟩, hfs⟩, hn, ?_⟩
    rw [laid_cons, laid_cons, hk, Formula.postorder, List.append_assoc]
  · obtain ⟨g, fs, rfl⟩ := List.exists_cons_of_length_pos (l := fs) (by omega)
    rw [List.length_cons] at hn
    obtain ⟨f, fs, rfl⟩ := List.exists_cons_of_length_pos (l := fs) (by omega)
    obtain ⟨hg, hf⟩ := List.forall_mem_cons.mp hf
    obtain ⟨hf, hfs⟩ := List.forall_mem_cons.mp hf
    rw [List.length_cons] at hn
    refine ⟨.binary op f g :: fs, List.forall_mem_cons.mpr ⟨⟨hu, hf, hg⟩, hfs⟩, ?_, ?_⟩
    · rw [List.length_cons]
      omega
    · rw [laid_cons, laid_cons, laid_cons, hk, Formula.postorder]
      simp only [List.append_assoc]

theorem laid_foldlM {fs : List Formula} (hf : ∀ f ∈ fs, f.Proper) (hn : fs.length = n)
    (h : ts.foldlM count n = .ok m) :
    ∃ gs : List Formula, (∀ g ∈ gs, g.Proper) ∧ gs.length = m ∧
      laid gs = laid fs ++ ts.map (·.kind) := by
  induction ts generalizing fs n with
  | nil =>
    cases h
    exact ⟨fs, hf, hn, by simp⟩
  | cons t ts ih =>
    obtain ⟨k, hk, h⟩ := foldlM_cons_eq_ok.mp h
    obtain ⟨gs, hg, hgn, hlaid⟩ := laid_count hf hn hk
    obtain ⟨hs, hh, hhn, hlaid'⟩ := ih hg hgn h
    exact ⟨hs, hh, hhn, by rw [hlaid', hlaid]; simp⟩

/-- The tokens that are let through are those of one formula. -/
theorem checkArity_eq_ok_iff :
    checkArity ts = .ok () ↔ ∃ f : Formula, f.Proper ∧ ts.map (·.kind) = f.postorder := by
  constructor
  · intro h
    have hone : ts.foldlM count 0 = .ok 1 := by
      unfold checkArity at h
      split at h
      · cases h
      · assumption
      · cases h
      · cases h
    have hnil : ∀ f ∈ ([] : List Formula), f.Proper := by simp
    obtain ⟨gs, hg, hn, hlaid⟩ := laid_foldlM hnil rfl hone
    obtain ⟨f, rfl⟩ := List.length_eq_one_iff.mp hn
    exact ⟨f, hg f List.mem_cons_self, by simpa [laid] using hlaid.symm⟩
  · rintro ⟨f, hp, hf⟩
    exact checkArity_postorder hp hf

/-- Whatever is accepted is the formula of a tree, also where it is no equation of the grammar. -/
theorem exists_formula_of_convert {items : List (Except EquationError Token)} {out : List Token}
    (h : convert items = .ok out) :
    ∃ f : Formula, f.Proper ∧ out.map (·.kind) = f.postorder := by
  obtain ⟨c, d, -, -, ha, -⟩ := convert_eq_ok_iff.mp h
  exact checkArity_eq_ok_iff.mp ha

end Quadratics.Postfix
