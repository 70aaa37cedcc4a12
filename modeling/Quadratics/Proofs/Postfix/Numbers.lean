import Quadratics.Proofs.Number.Sign
import Quadratics.Proofs.Postfix.Completeness
import Quadratics.Proofs.Token.Scanning
/-! The numbers of an equation are the ones that are written, and zero for an empty left side. -/
namespace Quadratics

open Token (Kind)
open Number (Decimal)

variable {t u : Token} {value : Float}

namespace Scanner

theorem number_of_first? {cs text : List Char}
    (h : Lexeme.first? cs = some (.number value, text)) : ∃ d : Decimal, value = d.toFloat := by
  unfold Lexeme.first? at h
  split at h
  · cases h
  · split at h
    · cases h
    · split at h
      · next kind hk =>
        cases h
        unfold Lexeme.symbol? at hk
        split at hk <;> cases hk
      · split at h
        · cases h
        · cases h
          exact ⟨_, rfl⟩

theorem number_of_next? {s s' : Scanner} (h : s.next? = some (.ok t, s'))
    (ht : t.kind = .number value) : ∃ d : Decimal, value = d.toFloat := by
  unfold next? at h
  split at h
  · cases h
  · split at h
    · next hl =>
      cases h
      cases ht
      exact number_of_first? hl
    · cases h

theorem number_of_mem_items {s : Scanner} (h : .ok t ∈ s.items) (ht : t.kind = .number value) :
    ∃ d : Decimal, value = d.toFloat := by
  refine forall_mem_items
    (P := fun item => ∀ t, item = .ok t → t.kind = .number value → ∃ d : Decimal, value = d.toFloat)
    ?_ s _ h t rfl ht
  rintro s item s' hn t rfl ht
  exact number_of_next? hn ht

end Scanner

namespace Converter

variable {c d : Converter}

def held (c : Converter) : List Token := c.stack ++ c.output

theorem mem_held_operator (op : Operator) (hu : u.kind = .number value)
    (h : u ∈ (c.operator t op).held) : u ∈ c.held := by
  simp only [held, operator, List.cons_append, List.mem_cons, List.mem_append,
    List.mem_reverse] at h ⊢
  rcases h with rfl | h | h | h
  · cases hu
  · exact .inl ((List.dropWhile_sublist _).subset h)
  · exact .inl ((List.takeWhile_sublist _).subset h)
  · exact .inr h

theorem mem_held_operand (h : u ∈ (c.operand t).held) : u ∈ c.held ∨ u = t := by
  simp only [held, operand, emit, List.mem_append, List.mem_cons] at h ⊢
  rcases h with h | rfl | h
  · exact .inl (.inl h)
  · exact .inr rfl
  · exact .inl (.inr h)

theorem mem_held_juxtapose (hu : u.kind = .number value) (h : u ∈ (c.juxtapose.operand t).held) :
    u ∈ c.held ∨ u = t :=
  (mem_held_operand h).imp_left (mem_held_operator .mul hu)

theorem mem_held_closeParen (hd : c.closeParen t = .ok d) (h : u ∈ d.held) : u ∈ c.held := by
  unfold closeParen at hd
  split at hd
  · cases hd
  · split at hd
    · cases hd
    · next w below hb =>
      split at hd
      · cases hd
      · cases hd
        have hbelow : below ⊆ c.stack := by
          have hsub := (List.dropWhile_sublist (l := c.stack) (fun w => !w.kind.isLeftParen)).subset
          rw [hb] at hsub
          exact fun v hv => hsub (List.mem_cons_of_mem w hv)
        simp only [held, List.mem_append, List.mem_reverse] at h ⊢
        rcases h with h | h | h
        · exact .inl (hbelow h)
        · exact .inl ((List.takeWhile_sublist _).subset h)
        · exact .inr h

theorem pending_subset (c : Converter) : c.pending ⊆ c.stack := by
  unfold pending
  split
  · exact (List.eraseIdx_sublist _ _).subset
  · exact fun _ h => h

theorem flush_eq_ok (hd : c.flush = .ok d) :
    d = { c with output := c.pending.reverse ++ c.output, stack := [], barrier := none } := by
  unfold flush at hd
  split at hd <;> cases hd
  rfl

theorem mem_held_flush (hd : c.flush = .ok d) (h : u ∈ d.held) : u ∈ c.held := by
  obtain rfl := flush_eq_ok hd
  simp only [held, List.nil_append, List.mem_append, List.mem_reverse] at h ⊢
  exact h.imp_left fun hp => pending_subset c hp

theorem mem_held_moveLeft (hs : c.stack = []) (hu : u.kind = .number value) (hv : value ≠ 0)
    (h : u ∈ (c.moveLeft t).held) : u ∈ c.held ∨ u = t := by
  rw [moveLeft_eq hs] at h
  simp only [held, List.cons_append, List.nil_append, List.mem_cons] at h
  rcases h with rfl | rfl | rfl | h
  · cases hu
  · cases hu
  · exact .inr rfl
  · split at h
    · obtain rfl := List.mem_singleton.mp h
      cases hu
      exact absurd rfl hv
    · exact .inl (List.mem_append_right _ h)

theorem mem_held_accept (hd : c.accept t = .ok d) (hu : u.kind = .number value) (hv : value ≠ 0)
    (h : u ∈ d.held) : u ∈ c.held ∨ u = t := by
  unfold accept at hd
  split at hd
  · cases hd
    exact .inl (mem_held_operator _ hu h)
  · cases hd
    unfold number at h
    split at h
    · exact mem_held_juxtapose hu h
    · exact mem_held_operand h
  · cases hd
    unfold var at h
    split at h
    · exact mem_held_juxtapose hu h
    · exact mem_held_operand h
  · cases hd
    exact (List.mem_cons.mp h).symm
  · exact .inl (mem_held_closeParen hd h)
  · unfold equals at hd
    split at hd
    · cases hd
    · obtain ⟨flushed, hf, rfl⟩ := map_eq_ok.mp hd
      have hs : flushed.stack = [] := by rw [flush_eq_ok hf]
      exact (mem_held_moveLeft hs hu hv h).imp_left (mem_held_flush hf)
  · cases hd
    exact .inl h

theorem mem_held_step (hd : c.step t = .ok d) (hu : u.kind = .number value) (hv : value ≠ 0)
    (h : u ∈ d.held) : u ∈ c.held ∨ u = t := by
  unfold step at hd
  split at hd
  · cases hd
    exact .inl h
  · obtain ⟨next, hnext, rfl⟩ := map_eq_ok.mp hd
    exact mem_held_accept (c := c.moved t) hnext hu hv h

theorem mem_held_run {items : List (Except EquationError Token)} (hd : c.run items = .ok d)
    (hu : u.kind = .number value) (hv : value ≠ 0) (h : u ∈ d.held) :
    u ∈ c.held ∨ .ok u ∈ items := by
  induction items generalizing c with
  | nil =>
    cases hd
    exact .inl h
  | cons item items ih =>
    cases item with
    | error e => cases hd
    | ok t =>
      obtain ⟨c', hc, hd⟩ := bind_eq_ok.mp hd
      rcases ih hd with h | h
      · rcases mem_held_step hc hu hv h with h | rfl
        · exact .inl h
        · exact .inr List.mem_cons_self
      · exact .inr (List.mem_cons_of_mem _ h)

end Converter

namespace Postfix

theorem collapseAfter_sublist (b : Bool) (ts : List Token) :
    (collapseAfter b ts).Sublist ts := by
  induction ts generalizing b with
  | nil => exact .slnil
  | cons t ts ih =>
    rw [collapseAfter]
    split
    · exact (ih true).cons t
    · exact (ih _).cons_cons t

/-- The converter makes up no number but zero. -/
theorem mem_of_convert {items : List (Except EquationError Token)} {out : List Token}
    (h : convert items = .ok out) (hu : u.kind = .number value) (hv : value ≠ 0) (hm : u ∈ out) :
    .ok u ∈ items := by
  obtain ⟨c, d, hc, hd, -, rfl⟩ := convert_eq_ok_iff.mp h
  have hout : u ∈ d.output :=
    List.mem_reverse.mp ((collapseAfter_sublist false _).subset (List.mem_filter.mp hm).1)
  have hheld := Converter.mem_held_flush hd (List.mem_append_right _ hout)
  rcases Converter.mem_held_run hc hu hv hheld with h | h
  · cases h
  · exact h

end Postfix
end Quadratics
