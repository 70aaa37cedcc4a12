import Quadratics.Proofs.Postfix.Numbers
/-! No operand is lost: what has come out stays out, and the numbers and variables of a stream are
among the tokens that it is rearranged to. -/
namespace Quadratics

open Token (Kind)

variable {t u : Token}

namespace Converter

variable {c d : Converter} {items : List (Except EquationError Token)}

theorem suffix_operator (c : Converter) (t : Token) (op : Operator) :
    c.output <:+ (c.operator t op).output := List.suffix_append _ _

theorem suffix_operand (c : Converter) (t : Token) : c.output <:+ (c.operand t).output :=
  List.suffix_cons _ _

theorem suffix_juxtapose (c : Converter) (t : Token) :
    c.output <:+ (c.juxtapose.operand t).output :=
  (c.suffix_operator _ .mul).trans (suffix_operand _ t)

theorem suffix_closeParen (h : c.closeParen t = .ok d) : c.output <:+ d.output := by
  unfold closeParen at h
  split at h
  · cases h
  · split at h
    · cases h
    · split at h
      · cases h
      · cases h
        exact List.suffix_append _ _

theorem suffix_flush (h : c.flush = .ok d) : c.output <:+ d.output := by
  obtain rfl := flush_eq_ok h
  exact List.suffix_append _ _

theorem suffix_moveLeft (hs : c.stack = []) (t : Token) : c.output <:+ (c.moveLeft t).output := by
  rw [moveLeft_eq hs]
  cases hout : c.output with
  | nil => exact List.nil_suffix
  | cons u us => exact List.suffix_cons _ _

theorem suffix_accept (h : c.accept t = .ok d) : c.output <:+ d.output := by
  unfold accept at h
  split at h
  · cases h
    exact suffix_operator _ _ _
  · cases h
    unfold number
    split
    · exact suffix_juxtapose c t
    · exact suffix_operand c t
  · cases h
    unfold var
    split
    · exact suffix_juxtapose c t
    · exact suffix_operand c t
  · cases h
    exact List.suffix_refl _
  · exact suffix_closeParen h
  · unfold equals at h
    split at h
    · cases h
    · obtain ⟨flushed, hf, rfl⟩ := map_eq_ok.mp h
      have hs : flushed.stack = [] := by rw [flush_eq_ok hf]
      exact (suffix_flush hf).trans (suffix_moveLeft hs t)
  · cases h
    exact List.suffix_refl _

theorem suffix_step (h : c.step t = .ok d) : c.output <:+ d.output := by
  unfold step at h
  split at h
  · cases h
    exact List.suffix_refl _
  · obtain ⟨next, hnext, rfl⟩ := map_eq_ok.mp h
    exact suffix_accept (c := c.moved t) (d := next) hnext

theorem suffix_run (h : c.run items = .ok d) : c.output <:+ d.output := by
  induction items generalizing c with
  | nil =>
    cases h
    exact List.suffix_refl _
  | cons item items ih =>
    cases item with
    | error e => cases h
    | ok t =>
      obtain ⟨next, hnext, h⟩ := bind_eq_ok.mp h
      exact (suffix_step hnext).trans (ih h)

theorem mem_output_accept (hk : t.kind.isOperand = true) (h : c.accept t = .ok d) :
    t ∈ d.output := by
  unfold accept at h
  split at h
  · next hop => simp [hop, Kind.isOperand] at hk
  · cases h
    unfold number
    split <;> exact List.mem_cons_self
  · cases h
    unfold var
    split <;> exact List.mem_cons_self
  · next hp => simp [hp, Kind.isOperand] at hk
  · next hp => simp [hp, Kind.isOperand] at hk
  · next he => simp [he, Kind.isOperand] at hk
  · next hw => simp [hw, Kind.isOperand] at hk

theorem mem_output_step (hk : t.kind.isOperand = true) (h : c.step t = .ok d) : t ∈ d.output := by
  unfold step at h
  split at h
  · next hw => cases ht : t.kind <;> simp_all [Kind.isOperand, Kind.isWhitespace]
  · obtain ⟨next, hnext, rfl⟩ := map_eq_ok.mp h
    exact mem_output_accept (c := c.moved t) (d := next) hk hnext

theorem mem_output_run (hk : t.kind.isOperand = true) (ht : .ok t ∈ items)
    (h : c.run items = .ok d) : t ∈ d.output := by
  induction items generalizing c with
  | nil => cases ht
  | cons item items ih =>
    cases item with
    | error e => cases h
    | ok u =>
      obtain ⟨next, hnext, hrest⟩ := bind_eq_ok.mp h
      rcases List.mem_cons.mp ht with hu | ht
      · cases hu
        exact (suffix_run hrest).subset (mem_output_step hk hnext)
      · exact ih ht hrest

end Converter

namespace Postfix

theorem mem_collapseAfter {ts : List Token} (ht : t.kind.isUnaryPlus = false) (h : t ∈ ts)
    (afterPlus : Bool) : t ∈ collapseAfter afterPlus ts := by
  induction ts generalizing afterPlus with
  | nil => cases h
  | cons u us ih =>
    rw [collapseAfter]
    rcases List.mem_cons.mp h with rfl | h
    · simp [ht]
    · split
      · exact ih h true
      · exact List.mem_cons_of_mem u (ih h _)

theorem mem_tidy {output : List Token} (hk : t.kind.isOperand = true) (h : t ∈ output) :
    t ∈ tidy output := by
  have hkeep : t.kind.isUnaryPlus = false ∧ t.kind.isEquals = false := by
    cases ht : t.kind <;> simp_all [Kind.isOperand, Kind.isUnaryPlus, Kind.isEquals]
  refine List.mem_filter.mpr ⟨mem_collapseAfter hkeep.1 (List.mem_reverse.mpr h) _, ?_⟩
  simp [hkeep.2]

/-- The numbers and variables of a stream that is accepted are all in the result. -/
theorem mem_convert {items : List (Except EquationError Token)} {out : List Token}
    (h : convert items = .ok out) (hk : t.kind.isOperand = true) (ht : .ok t ∈ items) :
    t ∈ out := by
  obtain ⟨c, d, hc, hd, -, rfl⟩ := convert_eq_ok_iff.mp h
  exact mem_tidy hk ((Converter.suffix_flush hd).subset (Converter.mem_output_run hk ht hc))

end Postfix
end Quadratics
