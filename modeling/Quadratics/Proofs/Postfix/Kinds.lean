import Quadratics.Proofs.Postfix.Origins
import Quadratics.Proofs.Postfix.ZeroSide
/-! Only the kinds of the tokens matter to the converter: two streams of the same kinds come out as
tokens of the same kinds, or are refused for the same cause. -/
namespace Quadratics

open Token (Kind)
open Infix (significant)
open EquationError (SameCause)

theorem Agree.and_left {ε ε' α α' : Type} {E : ε → ε' → Prop} {R : α → α' → Prop} {P : α → Prop}
    {x : Except ε α} {y : Except ε' α'} (h : Agree E R x y) (hx : ∀ a, x = .ok a → P a) :
    Agree E (fun a b => R a b ∧ P a) x y := by
  cases h with
  | error he => exact .error he
  | ok hr => exact .ok ⟨hr, hx _ rfl⟩

namespace Converter

/-- Alike but for the texts and the places of tokens. -/
structure Alike (c d : Converter) : Prop where
  output : c.output.map (·.kind) = d.output.map (·.kind)
  stack : c.stack.map (·.kind) = d.stack.map (·.kind)
  signAllowed : c.signAllowed = d.signAllowed
  previous : c.previous = d.previous
  barrier : c.barrier = d.barrier

variable {c d : Converter} {t u : Token} {ts us : List Token}

namespace Alike

theorem operator (h : Alike c d) (op : Operator) : Alike (c.operator t op) (d.operator u op) := by
  obtain ⟨htake, hdrop⟩ :=
    map_kind_takeWhile (yieldsTo_congr (if d.signAllowed then op.toUnary.getD op else op)) h.stack
  refine ⟨?_, ?_, rfl, h.previous, h.barrier⟩
  · simp only [Converter.operator, h.signAllowed, List.map_append, List.map_reverse, htake,
      h.output]
  · simp only [Converter.operator, h.signAllowed, List.map_cons, hdrop]

theorem emit (h : Alike c d) (hk : t.kind = u.kind) : Alike (c.emit t) (d.emit u) :=
  ⟨by simp [Converter.emit, h.output, hk], h.stack, h.signAllowed, h.previous, h.barrier⟩

theorem operand (h : Alike c d) (hk : t.kind = u.kind) : Alike (c.operand t) (d.operand u) :=
  ⟨(h.emit hk).output, h.stack, rfl, h.previous, h.barrier⟩

theorem openParen (h : Alike c d) (hk : t.kind = u.kind) :
    Alike (c.openParen t) (d.openParen u) :=
  ⟨h.output, by simp [Converter.openParen, h.stack, hk], rfl, h.previous, h.barrier⟩

theorem closeParen (h : Alike c d) : Agree SameCause Alike (c.closeParen t) (d.closeParen u) := by
  obtain ⟨htake, hdrop⟩ := map_kind_takeWhile (q := fun w => !w.kind.isLeftParen)
    (fun t u h => by rw [h]) h.stack
  unfold Converter.closeParen
  rw [h.previous]
  split
  · exact .error rfl
  · cases hc : c.stack.dropWhile fun w => !w.kind.isLeftParen with
    | nil =>
      rw [hc] at hdrop
      rw [List.map_eq_nil_iff.mp hdrop.symm]
      exact .error rfl
    | cons w below =>
      rw [hc, List.map_cons] at hdrop
      obtain ⟨v, below', hd, -, hbelow⟩ := List.map_eq_cons_iff.mp hdrop.symm
      have hlength : below.length = below'.length := by
        rw [← List.length_map (f := (·.kind)), ← hbelow, List.length_map]
      rw [hd]
      simp only [h.barrier, hlength]
      split
      · exact .error rfl
      · refine .ok ⟨?_, hbelow.symm, rfl, rfl, rfl⟩
        simp only [List.map_append, List.map_reverse, htake, h.output]

theorem length_stack (h : Alike c d) : c.stack.length = d.stack.length := by
  simpa using congrArg List.length h.stack

theorem pending (h : Alike c d) : c.pending.map (·.kind) = d.pending.map (·.kind) := by
  unfold Converter.pending
  rw [h.barrier, h.length_stack]
  cases d.barrier with
  | none => exact h.stack
  | some depth =>
    simp only [List.eraseIdx_eq_take_drop_succ, List.map_append, List.map_take, List.map_drop,
      h.stack]

theorem flush (h : Alike c d) : Agree SameCause Alike c.flush d.flush := by
  have hkinds (ts : List Token) : ts.find? (·.kind.isLeftParen) = none ↔
      ∀ k ∈ ts.map (·.kind), k.isLeftParen = false := by simp
  have hopen : c.pending.find? (·.kind.isLeftParen) = none ↔
      d.pending.find? (·.kind.isLeftParen) = none := by rw [hkinds, h.pending, ← hkinds]
  unfold Converter.flush
  cases hc : c.pending.find? (·.kind.isLeftParen) with
  | some w =>
    cases hd : d.pending.find? (·.kind.isLeftParen) with
    | some v => exact .error rfl
    | none =>
      rw [hopen.mpr hd] at hc
      cases hc
  | none =>
    rw [hopen.mp hc]
    refine .ok ⟨?_, rfl, h.signAllowed, h.previous, rfl⟩
    simp only [List.map_append, List.map_reverse, h.pending, h.output]

theorem moveLeft (h : Alike c d) (hs : c.stack = []) (hk : t.kind = u.kind) :
    Alike (c.moveLeft t) (d.moveLeft u) := by
  have hd : d.stack = [] := by simpa [hs] using h.stack.symm
  have hempty : c.output.isEmpty = d.output.isEmpty := by
    rw [← List.isEmpty_map, h.output, List.isEmpty_map]
  rw [moveLeft_eq hs, moveLeft_eq hd]
  refine ⟨?_, rfl, rfl, h.previous, rfl⟩
  rw [List.map_cons, List.map_cons, hk, hempty]
  split
  · rfl
  · rw [h.output]

theorem equals (h : Alike c d) (hk : t.kind = u.kind) :
    Agree SameCause Alike (c.equals t) (d.equals u) := by
  unfold Converter.equals
  rw [h.barrier]
  split
  · exact .error rfl
  · have hflush := h.flush
    generalize hc : c.flush = x at hflush
    generalize d.flush = y at hflush
    cases hflush with
    | error he => exact .error he
    | ok ha => exact .ok (ha.moveLeft (by rw [flush_eq_ok hc]) hk)

theorem accept (h : Alike c d) (hk : t.kind = u.kind) :
    Agree SameCause Alike (c.accept t) (d.accept u) := by
  unfold Converter.accept
  rw [← hk]
  cases ht : t.kind with
  | operator op => exact .ok (h.operator op)
  | number value =>
    simp only [Converter.number, h.previous]
    split
    · exact .ok ((h.operator .mul).operand hk)
    · exact .ok (h.operand hk)
  | var =>
    simp only [Converter.var, h.previous]
    split
    · exact .ok ((h.operator .mul).operand hk)
    · exact .ok (h.operand hk)
  | leftParen => exact .ok (h.openParen hk)
  | rightParen => exact h.closeParen
  | equals => exact h.equals hk
  | whitespace => exact .ok h

theorem step (h : Alike c d) (hk : t.kind = u.kind) :
    Agree SameCause Alike (c.step t) (d.step u) := by
  have hmoved : Alike (c.moved t) (d.moved u) :=
    ⟨h.output, h.stack, h.signAllowed, h.previous, h.barrier⟩
  unfold Converter.step
  rw [← hk]
  split
  · exact .ok h
  · exact (hmoved.accept hk).map fun e f hef =>
      ⟨hef.output, hef.stack, hef.signAllowed, rfl, hef.barrier⟩

theorem run (h : Alike c d) (hk : ts.map (·.kind) = us.map (·.kind)) :
    Agree SameCause Alike (ts.foldlM Converter.step c) (us.foldlM Converter.step d) := by
  induction ts generalizing us c d with
  | nil =>
    obtain rfl := List.map_eq_nil_iff.mp hk.symm
    exact .ok h
  | cons t ts ih =>
    obtain ⟨u, us, rfl, hu, hus⟩ := List.map_eq_cons_iff.mp hk.symm
    rw [List.foldlM_cons, List.foldlM_cons]
    exact (h.step hu.symm).bind fun e f hef => ih hef hus.symm

end Alike

theorem alike_refl (c : Converter) : Alike c c := ⟨rfl, rfl, rfl, rfl, rfl⟩

theorem agree_run (hk : significant ts = significant us) :
    Agree SameCause Alike (ts.foldlM step {}) (us.foldlM step {}) := by
  rw [foldlM_step_blanks {} ts, foldlM_step_blanks {} us]
  refine (alike_refl {}).run ?_
  rw [Postfix.map_kind_filter, Postfix.map_kind_filter, hk]

end Converter

namespace Postfix

variable {ts us out out' : List Token} {source changed : String}

theorem agree_checkArity_of_map_kind (hk : out.map (·.kind) = out'.map (·.kind))
    (hout : ∀ t ∈ out, ComesOut t) : Agree SameCause Eq (checkArity out) (checkArity out') := by
  have hcount := agree_foldlM_count (n := 0) hk hout
  unfold checkArity
  generalize out.foldlM count 0 = x at hcount ⊢
  generalize out'.foldlM count 0 = y at hcount ⊢
  cases hcount with
  | error he => exact .error he
  | ok hn =>
    subst hn
    split
    · cases ‹Except.ok _ = Except.error _›
    · exact .ok rfl
    · exact .error rfl
    · exact .error rfl

theorem agree_ofString (ht : tokenize source = .ok ts) (hu : tokenize changed = .ok us)
    (hk : significant ts = significant us) :
    Agree SameCause (fun out out' => out.map (·.kind) = out'.map (·.kind)) (ofString source)
      (ofString changed) := by
  rw [tokenize_eq_ok_iff] at ht hu
  have hrun := Converter.agree_run hk
  rw [← Converter.run_map_ok, ← Converter.run_map_ok, ← ht, ← hu] at hrun
  refine (hrun.and_left sited_run.1).bind ?_
  rintro c d ⟨hcd, base, n, hs⟩
  refine (hcd.flush.and_left fun e he => placed_tidy (hs.flush he).output).bind ?_
  rintro e f ⟨hef, hplaced⟩
  have htidy := map_kind_tidy hef.output
  refine (agree_checkArity_of_map_kind htidy fun t ht => (hplaced t ht).2).bind ?_
  rintro _ _ rfl
  exact .ok htidy

end Postfix
end Quadratics
