import Quadratics.Proofs.Postfix.Numbers
import Quadratics.Proofs.Token.Marks
/-! Columns have 64 bits, and the converter adds one to that of `=`. As long as this can be done for
the tokens of a stream nothing that the converter holds or hands out is beyond 64 bits; it can be
done for the tokens of any text that is shorter. -/
namespace Quadratics

/-- There is a column behind every token of the stream. -/
def InColumns (items : List (Except EquationError Token)) : Prop :=
  ∀ t, .ok t ∈ items → t.position + 1 < UInt64.size

theorem inColumns_ofString {source : String} (h : source.length < UInt64.size) :
    InColumns (Scanner.ofString source).items := fun _ ht =>
  Nat.lt_of_le_of_lt (tokenAt_of_mem ht).lt h

/-- For such a token addition in 64 bits is addition. -/
theorem InColumns.toNat_succ {items : List (Except EquationError Token)} {t : Token}
    (h : InColumns items) (ht : .ok t ∈ items) :
    (UInt64.ofNat t.position + 1).toNat = t.position + 1 := by
  have hlt := h t ht
  rw [UInt64.toNat_add, UInt64.toNat_ofNat_of_lt' (Nat.lt_of_succ_lt hlt)]
  exact Nat.mod_eq_of_lt hlt

namespace Converter

/-- No column beyond `n` has been seen, and no token is placed there. -/
structure Within (n : Nat) (c : Converter) : Prop where
  held : ∀ u ∈ c.held, u.position ≤ n
  position : c.position ≤ n

variable {n : Nat} {c d : Converter} {t u : Token}

theorem within_start (n : Nat) : Within n {} := ⟨by simp [held], Nat.zero_le n⟩

namespace Within

theorem operator (h : Within n c) (ht : t.position ≤ n) (op : Operator) :
    Within n (c.operator t op) := by
  refine ⟨fun u hu => ?_, h.position⟩
  simp only [Converter.held, Converter.operator, List.cons_append, List.mem_cons, List.mem_append,
    List.mem_reverse] at hu
  rcases hu with rfl | hu | hu | hu
  · exact ht
  · exact h.held u (List.mem_append_left _ ((List.dropWhile_sublist _).subset hu))
  · exact h.held u (List.mem_append_left _ ((List.takeWhile_sublist _).subset hu))
  · exact h.held u (List.mem_append_right _ hu)

theorem operand (h : Within n c) (ht : t.position ≤ n) : Within n (c.operand t) := by
  refine ⟨fun u hu => ?_, h.position⟩
  rcases mem_held_operand hu with hu | rfl
  · exact h.held u hu
  · exact ht

theorem factor (h : Within n c) (ht : t.position ≤ n) : Within n (c.juxtapose.operand t) :=
  (h.operator h.position .mul).operand ht

theorem closeParen (h : Within n c) (hd : c.closeParen t = .ok d) : Within n d := by
  refine ⟨fun u hu => h.held u (mem_held_closeParen hd hu), ?_⟩
  unfold Converter.closeParen at hd
  split at hd
  · cases hd
  · split at hd
    · cases hd
    · split at hd
      · cases hd
      · cases hd
        exact h.position

theorem flush (h : Within n c) (hd : c.flush = .ok d) : Within n d := by
  refine ⟨fun u hu => h.held u (mem_held_flush hd hu), ?_⟩
  obtain rfl := flush_eq_ok hd
  exact h.position

theorem moveLeft (h : Within n c) (hs : c.stack = []) (ht : t.position + 1 ≤ n) :
    Within n (c.moveLeft t) := by
  have hle : t.position ≤ n := Nat.le_of_succ_le ht
  rw [moveLeft_eq hs]
  refine ⟨fun u hu => ?_, Nat.max_le.mpr ⟨Nat.max_le.mpr ⟨h.position, hle⟩, ht⟩⟩
  simp only [Converter.held, List.cons_append, List.nil_append, List.mem_cons] at hu
  rcases hu with rfl | rfl | rfl | hu
  · exact ht
  · exact hle
  · exact hle
  · split at hu
    · obtain rfl := List.mem_singleton.mp hu
      exact hle
    · exact h.held u (List.mem_append_right _ hu)

theorem accept (h : Within n c) (ht : t.position + 1 ≤ n) (hd : c.accept t = .ok d) :
    Within n d := by
  have hle : t.position ≤ n := Nat.le_of_succ_le ht
  unfold Converter.accept at hd
  split at hd
  · cases hd
    exact h.operator hle _
  · cases hd
    unfold Converter.number
    split
    · exact h.factor hle
    · exact h.operand hle
  · cases hd
    unfold Converter.var
    split
    · exact h.factor hle
    · exact h.operand hle
  · cases hd
    exact ⟨List.forall_mem_cons.mpr ⟨hle, h.held⟩, h.position⟩
  · exact h.closeParen hd
  · unfold Converter.equals at hd
    split at hd
    · cases hd
    · obtain ⟨flushed, hf, rfl⟩ := map_eq_ok.mp hd
      exact (h.flush hf).moveLeft (by rw [flush_eq_ok hf]) ht
  · cases hd
    exact h

theorem step (h : Within n c) (ht : t.position + 1 ≤ n) (hd : c.step t = .ok d) : Within n d := by
  unfold Converter.step at hd
  split at hd
  · cases hd
    exact h
  · obtain ⟨next, hnext, rfl⟩ := map_eq_ok.mp hd
    have hmoved : Within n (c.moved t) :=
      ⟨h.held, Nat.max_le.mpr ⟨h.position, Nat.le_of_succ_le ht⟩⟩
    have hnext : Within n next := hmoved.accept ht hnext
    exact ⟨hnext.held, hnext.position⟩

theorem run {items : List (Except EquationError Token)} (h : Within n c)
    (ht : ∀ t, .ok t ∈ items → t.position + 1 ≤ n) (hd : c.run items = .ok d) : Within n d := by
  induction items generalizing c with
  | nil =>
    cases hd
    exact h
  | cons item items ih =>
    cases item with
    | error e => cases hd
    | ok t =>
      obtain ⟨c', hc, hd⟩ := bind_eq_ok.mp hd
      exact ih (h.step (ht t List.mem_cons_self) hc)
        (fun u hu => ht u (List.mem_cons_of_mem _ hu)) hd

end Within

/-- All columns of a converter have 64 bits. -/
theorem within_of_inColumns {items : List (Except EquationError Token)} (h : InColumns items)
    (hc : Converter.run {} items = .ok c) : Within (UInt64.size - 1) c :=
  (within_start _).run (fun t ht => Nat.le_sub_one_of_lt (h t ht)) hc

end Converter

theorem Postfix.position_lt_of_convert {items : List (Except EquationError Token)}
    {out : List Token} {t : Token} (h : InColumns items) (hc : convert items = .ok out)
    (ht : t ∈ out) : t.position < UInt64.size := by
  obtain ⟨c, d, hrun, hd, -, rfl⟩ := convert_eq_ok_iff.mp hc
  have hout : t ∈ d.output :=
    List.mem_reverse.mp ((collapseAfter_sublist false _).subset (List.mem_filter.mp ht).1)
  have hwithin := (Converter.within_of_inColumns h hrun).flush hd
  exact Nat.lt_of_le_pred (by decide) (hwithin.held t (List.mem_append_right _ hout))

end Quadratics
