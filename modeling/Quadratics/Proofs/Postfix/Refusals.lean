import Quadratics.Evaluation
import Quadratics.Proofs.Token.Scanning
/-! Where the refusals of the rearrangement come from: the stream, or the validation of its
tokens. -/
namespace Quadratics

variable {e : EquationError}

namespace Scanner

theorem lexical_of_next? {s t : Scanner} (h : s.next? = some (.error e, t)) :
    e.cause.stage = .lexical := by
  unfold next? at h
  split at h
  · cases h
  · split at h
    · cases h
    · cases h
      rfl

theorem lexical_of_mem_items {s : Scanner} (h : .error e ∈ s.items) :
    e.cause.stage = .lexical := by
  refine forall_mem_items (P := fun item => ∀ e, item = .error e → e.cause.stage = .lexical)
    ?_ s _ h e rfl
  rintro s item t hn e rfl
  exact lexical_of_next? hn

end Scanner

namespace Converter

variable {c : Converter} {t : Token}

theorem validation_closeParen (h : c.closeParen t = .error e) : e.cause.stage = .validation := by
  unfold closeParen at h
  split at h
  · cases h
    rfl
  · split at h
    · cases h
      rfl
    · split at h
      · cases h
        rfl
      · cases h

theorem validation_flush (h : c.flush = .error e) : e.cause.stage = .validation := by
  unfold flush at h
  split at h
  · cases h
    rfl
  · cases h

theorem validation_equals (h : c.equals t = .error e) : e.cause.stage = .validation := by
  unfold equals at h
  split at h
  · cases h
    rfl
  · exact validation_flush (map_eq_error.mp h)

theorem validation_accept (h : c.accept t = .error e) : e.cause.stage = .validation := by
  unfold accept at h
  split at h
  · cases h
  · cases h
  · cases h
  · cases h
  · exact validation_closeParen h
  · exact validation_equals h
  · cases h

theorem validation_step (h : c.step t = .error e) : e.cause.stage = .validation := by
  unfold step at h
  split at h
  · cases h
  · exact validation_accept (map_eq_error.mp h)

theorem run_eq_error {items : List (Except EquationError Token)} (h : c.run items = .error e) :
    .error e ∈ items ∨ e.cause.stage = .validation := by
  induction items generalizing c with
  | nil => cases h
  | cons item items ih =>
    cases item with
    | error e' =>
      cases h
      exact .inl List.mem_cons_self
    | ok t =>
      rcases bind_eq_error.mp h with h | ⟨d, -, h⟩
      · exact .inr (validation_step h)
      · exact (ih h).imp_left (List.mem_cons_of_mem _)

end Converter

namespace Postfix

theorem validation_count {n : Nat} {t : Token} (h : count n t = .error e) :
    e.cause.stage = .validation := by
  unfold count at h
  split at h
  · cases h
  · cases h
  · next op _ =>
    generalize (if op.isUnary then 1 else 2) = consumed at h
    simp only at h
    split at h
    · cases h
      rfl
    · cases h
  · cases h
    rfl

theorem validation_foldlM_count {n : Nat} {ts : List Token} (h : ts.foldlM count n = .error e) :
    e.cause.stage = .validation := by
  induction ts generalizing n with
  | nil => cases h
  | cons t ts ih =>
    rw [List.foldlM_cons] at h
    rcases bind_eq_error.mp h with h | ⟨m, -, h⟩
    · exact validation_count h
    · exact ih h

theorem validation_checkArity {ts : List Token} (h : checkArity ts = .error e) :
    e.cause.stage = .validation := by
  unfold checkArity at h
  split at h
  · next hc =>
    cases h
    exact validation_foldlM_count hc
  · cases h
  · cases h
    rfl
  · cases h
    rfl

theorem convert_eq_error {items : List (Except EquationError Token)}
    (h : convert items = .error e) : .error e ∈ items ∨ e.cause.stage = .validation := by
  rcases bind_eq_error.mp h with h | ⟨c, -, h⟩
  · exact Converter.run_eq_error h
  · rcases bind_eq_error.mp h with h | ⟨d, -, h⟩
    · exact .inr (Converter.validation_flush h)
    · rcases bind_eq_error.mp h with h | ⟨u, -, h⟩
      · exact .inr (validation_checkArity h)
      · cases h

theorem ofString_eq_error {source : String} (h : ofString source = .error e) :
    e.cause.stage = .lexical ∨ e.cause.stage = .validation :=
  (convert_eq_error h).imp_left Scanner.lexical_of_mem_items

end Postfix
end Quadratics
