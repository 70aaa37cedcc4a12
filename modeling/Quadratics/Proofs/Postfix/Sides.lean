import Quadratics.Proofs.Postfix.Acceptance
import Quadratics.Proofs.Postfix.Arity
/-! The sides of an equation are read as they are read alone: only the kinds of the tokens matter,
and nothing that lies below a side on the stack is touched. -/
namespace Quadratics

open Token (Kind)
open Infix (significant)

open EquationError (SameCause)

theorem map_kind_takeWhile {q : Token → Bool} (hq : ∀ t u, t.kind = u.kind → q t = q u)
    {us vs : List Token} (h : us.map (·.kind) = vs.map (·.kind)) :
    (us.takeWhile q).map (·.kind) = (vs.takeWhile q).map (·.kind) ∧
      (us.dropWhile q).map (·.kind) = (vs.dropWhile q).map (·.kind) := by
  induction us generalizing vs with
  | nil =>
    obtain rfl := List.map_eq_nil_iff.mp h.symm
    exact ⟨rfl, rfl⟩
  | cons u us ih =>
    obtain ⟨v, vs, rfl, hv, hvs⟩ := List.map_eq_cons_iff.mp h.symm
    have huv := hq v u hv
    have hrest := ih hvs.symm
    cases hu : q u <;> simp_all

theorem yieldsTo_congr (op : Operator) (t u : Token) (h : t.kind = u.kind) :
    Converter.yieldsTo op t = Converter.yieldsTo op u := by
  rw [Converter.yieldsTo, Converter.yieldsTo, h]

namespace Converter

/-- `d` reads what `c` reads, above what lies there already. -/
structure Above (below : List Kind) (base : List Token) (c d : Converter) : Prop where
  barrier : c.barrier = none
  side : Side base d.barrier
  stack : ∃ above, d.stack = above ++ base ∧ above.map (·.kind) = c.stack.map (·.kind)
  output : d.output.map (·.kind) = c.output.map (·.kind) ++ below
  signAllowed : d.signAllowed = c.signAllowed
  previous : d.previous = c.previous ∨ c.previous = none ∧ d.previous = some .equals

variable {below : List Kind} {base : List Token} {c d : Converter} {t u : Token}

namespace Above

theorem any_previous (h : Above below base c d) {p : Kind → Bool} (hp : p .equals = false) :
    d.previous.any p = c.previous.any p := by
  rcases h.previous with he | ⟨hc, hd⟩
  · rw [he]
  · simp [hc, hd, hp]

theorem operator (h : Above below base c d) (op : Operator) :
    Above below base (c.operator t op) (d.operator u op) := by
  obtain ⟨above, hs, hk⟩ := h.stack
  let o := if c.signAllowed then op.toUnary.getD op else op
  obtain ⟨htake, hdrop⟩ := takeWhile_append_of_head? (h.side.holds o) above
  obtain ⟨hkt, hkd⟩ := map_kind_takeWhile (yieldsTo_congr o) hk
  let waiting := { u with kind := .operator o } :: above.dropWhile (yieldsTo o)
  refine ⟨h.barrier, h.side, ⟨waiting, ?_, ?_⟩, ?_, rfl, h.previous⟩
  · simp only [Converter.operator, h.signAllowed, hs]
    rw [hdrop]
    rfl
  · simp only [Converter.operator, waiting, List.map_cons]
    rw [hkd]
  · simp only [Converter.operator, h.signAllowed, hs]
    rw [htake]
    simp only [List.map_append, List.map_reverse, h.output, hkt, List.append_assoc, o]

theorem operand (h : Above below base c d) (hk : t.kind = u.kind) :
    Above below base (c.operand t) (d.operand u) :=
  ⟨h.barrier, h.side, h.stack, by simp [Converter.operand, emit, h.output, hk], rfl, h.previous⟩

theorem openParen (h : Above below base c d) (hk : t.kind = u.kind) :
    Above below base (c.openParen t) (d.openParen u) := by
  obtain ⟨above, hs, ha⟩ := h.stack
  exact ⟨h.barrier, h.side, ⟨u :: above, by simp [Converter.openParen, hs],
    by simp [Converter.openParen, ha, hk]⟩, h.output, rfl, h.previous⟩

theorem closeParen (h : Above below base c d) :
    Agree SameCause (Above below base) (c.closeParen t) (d.closeParen u) := by
  obtain ⟨above, hs, hk⟩ := h.stack
  have hp := h.any_previous (p := (·.isOperator)) rfl
  obtain ⟨hkt, hkd⟩ := map_kind_takeWhile (q := fun w => !w.kind.isLeftParen)
    (fun t u h => by rw [h]) hk
  have hside : Side [] c.barrier := by
    rw [h.barrier]
    exact .left
  rw [hside.closeParen (List.append_nil _).symm, h.side.closeParen hs, hp]
  split
  · exact .error rfl
  · cases hd : above.dropWhile fun w => !w.kind.isLeftParen with
    | nil =>
      rw [hd] at hkd
      rw [List.map_eq_nil_iff.mp hkd.symm]
      exact .error rfl
    | cons l rest =>
      rw [hd, List.map_cons] at hkd
      obtain ⟨l', rest', hc, -, hrest⟩ := List.map_eq_cons_iff.mp hkd.symm
      rw [hc]
      refine .ok ⟨h.barrier, h.side, ⟨rest, rfl, ?_⟩, ?_, rfl, h.previous⟩
      · rw [List.append_nil, hrest]
      · simp only [List.map_append, List.map_reverse, h.output, hkt, List.append_assoc]

theorem accept (h : Above below base c d) (hk : t.kind = u.kind) (he : t.kind ≠ .equals) :
    Agree SameCause (Above below base) (c.accept t) (d.accept u) := by
  unfold Converter.accept
  rw [← hk]
  cases ht : t.kind with
  | operator op => exact .ok (h.operator op)
  | number value =>
    simp only [Converter.number, h.any_previous (p := (·.isRightParen)) rfl]
    split
    · exact .ok ((h.operator .mul).operand hk)
    · exact .ok (h.operand hk)
  | var =>
    simp only [Converter.var, h.any_previous (p := fun k => k.isOperand || k.isRightParen) rfl]
    split
    · exact .ok ((h.operator .mul).operand hk)
    · exact .ok (h.operand hk)
  | leftParen => exact .ok (h.openParen hk)
  | rightParen => exact h.closeParen
  | equals => exact absurd ht he
  | whitespace => exact .ok h

theorem moved (h : Above below base c d) : Above below base (c.moved t) (d.moved u) :=
  ⟨h.barrier, h.side, h.stack, h.output, h.signAllowed, h.previous⟩

theorem step (h : Above below base c d) (hk : t.kind = u.kind) (he : t.kind ≠ .equals) :
    Agree SameCause (Above below base) (c.step t) (d.step u) := by
  unfold Converter.step
  rw [← hk]
  split
  · exact .ok h
  · exact (h.moved.accept hk he).map fun e f hef =>
      ⟨hef.barrier, hef.side, hef.stack, hef.output, hef.signAllowed, .inl rfl⟩

theorem run {ts us : List Token} (h : Above below base c d)
    (hk : ts.map (·.kind) = us.map (·.kind)) (he : .equals ∉ ts.map (·.kind)) :
    Agree SameCause (Above below base) (ts.foldlM Converter.step c)
      (us.foldlM Converter.step d) := by
  induction ts generalizing us c d with
  | nil =>
    obtain rfl := List.map_eq_nil_iff.mp hk.symm
    exact .ok h
  | cons t ts ih =>
    obtain ⟨u, us, rfl, hu, hus⟩ := List.map_eq_cons_iff.mp hk.symm
    rw [List.map_cons, List.mem_cons, not_or] at he
    rw [List.foldlM_cons, List.foldlM_cons]
    exact (h.step hu.symm (Ne.symm he.1)).bind fun e f hef => ih hef hus.symm he.2

theorem flush (h : Above below base c d) :
    Agree SameCause (fun e f => f.stack = [] ∧ f.barrier = none ∧ f.output.map (·.kind) =
      (base.tail.map (·.kind)).reverse ++ e.output.map (·.kind) ++ below) c.flush d.flush := by
  obtain ⟨above, hs, hk⟩ := h.stack
  have hc : c.pending = c.stack := by simp [pending, h.barrier]
  have hd := h.side.pending hs
  have hopen : (above ++ base.tail).find? (·.kind.isLeftParen) = none ↔
      c.stack.find? (·.kind.isLeftParen) = none := by
    have hkinds (ts : List Token) : ts.find? (·.kind.isLeftParen) = none ↔
        ∀ k ∈ ts.map (·.kind), k.isLeftParen = false := by simp
    have htail : base.tail.find? (·.kind.isLeftParen) = none := by
      simpa [List.find?_eq_none] using h.side.tail_closed
    rw [List.find?_append, htail, Option.or_none, hkinds, hk, ← hkinds]
  unfold Converter.flush
  rw [hc, hd]
  cases hf : c.stack.find? (·.kind.isLeftParen) with
  | some w =>
    cases hg : (above ++ base.tail).find? (·.kind.isLeftParen) with
    | some v => exact .error rfl
    | none => simp [hopen.mp hg] at hf
  | none =>
    rw [hopen.mpr hf]
    refine .ok ⟨rfl, rfl, ?_⟩
    simp [h.output, hk]

theorem equals {c' : Converter} (h : Above [] [] c d) (hc : c.flush = .ok c')
    (ho : c'.output ≠ []) (ht : t.kind = .equals) :
    ∃ e s l, d.step t = .ok e ∧ s.kind = .operator .sub ∧
      Above (.equals :: c'.output.map (·.kind)) [l, s] {} e := by
  have hm : Above [] [] c (d.moved t) :=
    ⟨h.barrier, h.side, h.stack, h.output, h.signAllowed, h.previous⟩
  obtain ⟨d', hd, hs, -, hk⟩ := hm.flush.exists_of_ok hc
  have hkind : d'.output.map (·.kind) = c'.output.map (·.kind) := by simpa using hk
  have hne : d'.output.isEmpty = false := by
    rw [← List.isEmpty_map, hkind, List.isEmpty_map]
    simpa using ho
  have hstep : d.step t = .ok { d'.moveLeft t with previous := some .equals } := by
    have hbm : (d.moved t).barrier = none := h.side.barrier_eq_none
    rw [step_significant (by rw [ht]; rfl)]
    simp [Converter.accept, ht, Converter.equals, hbm, hd, Except.map]
  refine ⟨_, .synthetic (.operator .sub) t.position, .synthetic .leftParen (t.position + 1),
    hstep, rfl, ?_⟩
  rw [moveLeft_eq hs]
  refine ⟨rfl, .right rfl rfl, ⟨[], rfl, rfl⟩, ?_, rfl, .inr ⟨rfl, rfl⟩⟩
  simp [hne, hkind, ht]

end Above

theorem above_start : Above [] [] ({} : Converter) {} :=
  ⟨rfl, .left, ⟨[], rfl, rfl⟩, rfl, rfl, .inl rfl⟩

/-- Two sides that can be read alone can be read around an `=`, and the second is subtracted. -/
theorem run_sides {us vs as bs : List Token} {e : Token} {c c' k k' : Converter}
    (hus : us.foldlM step {} = .ok c) (hc : c.flush = .ok c') (hne : c'.output ≠ [])
    (hvs : vs.foldlM step {} = .ok k) (hk : k.flush = .ok k')
    (has : us.map (·.kind) = as.map (·.kind)) (hbs : vs.map (·.kind) = bs.map (·.kind))
    (hu : .equals ∉ us.map (·.kind)) (hv : .equals ∉ vs.map (·.kind))
    (he : e.kind = .equals) :
    ∃ d d', (as ++ e :: bs).foldlM step {} = .ok d ∧ d.flush = .ok d' ∧
      d'.output.map (·.kind) =
        .operator .sub :: k'.output.map (·.kind) ++ .equals :: c'.output.map (·.kind) := by
  obtain ⟨a, ha, hleft⟩ := (above_start.run has hu).exists_of_ok hus
  obtain ⟨b, s, l, hb, hs, hbelow⟩ := hleft.equals hc hne he
  obtain ⟨d, hd, hright⟩ := (hbelow.run hbs hv).exists_of_ok hvs
  obtain ⟨d', hd', -, -, hout⟩ := hright.flush.exists_of_ok hk
  refine ⟨d, d', ?_, hd', by simp [hout, hs]⟩
  rw [foldlM_append_of_ok ha, foldlM_cons_of_ok hb, hd]

end Converter

namespace Postfix

theorem map_kind_collapseAfter {us vs : List Token} (h : us.map (·.kind) = vs.map (·.kind))
    (b : Bool) : (collapseAfter b us).map (·.kind) = (collapseAfter b vs).map (·.kind) := by
  induction us generalizing vs b with
  | nil =>
    obtain rfl := List.map_eq_nil_iff.mp h.symm
    rfl
  | cons u us ih =>
    obtain ⟨v, vs, rfl, hv, hvs⟩ := List.map_eq_cons_iff.mp h.symm
    rw [collapseAfter, collapseAfter, hv]
    split
    · exact ih hvs.symm true
    · rw [List.map_cons, List.map_cons, hv, ih hvs.symm]

theorem map_kind_tidy {us vs : List Token} (h : us.map (·.kind) = vs.map (·.kind)) :
    (tidy us).map (·.kind) = (tidy vs).map (·.kind) := by
  have hfilter (ts : List Token) : (ts.filter (!·.kind.isEquals)).map (·.kind) =
      (ts.map (·.kind)).filter (!·.isEquals) := by
    rw [List.filter_map]
    rfl
  have hrev : us.reverse.map (·.kind) = vs.reverse.map (·.kind) := by
    rw [List.map_reverse, List.map_reverse, h]
  rw [tidy, tidy, hfilter, hfilter, map_kind_collapseAfter hrev]

theorem collapseAfter_append {t : Token} (ht : t.kind.isUnaryPlus = false) (b : Bool)
    (us vs : List Token) :
    collapseAfter b (us ++ t :: vs) = collapseAfter b us ++ t :: collapseAfter false vs := by
  induction us generalizing b with
  | nil => simp [collapseAfter, ht]
  | cons u us ih =>
    rw [List.cons_append, collapseAfter, collapseAfter]
    split
    · exact ih true
    · rw [ih, List.cons_append]

theorem tidy_sides_of_tidy {output left right : List Token}
    (h : output.map (·.kind) =
      .operator .sub :: right.map (·.kind) ++ .equals :: left.map (·.kind)) :
    (tidy output).map (·.kind) =
      (tidy left).map (·.kind) ++ (tidy right).map (·.kind) ++ [.operator .sub] := by
  let e := Token.synthetic .equals 0
  let s := Token.synthetic (.operator .sub) 0
  have hkinds : output.map (·.kind) = (s :: right ++ e :: left).map (·.kind) := by
    simp [h, e, s, Token.synthetic]
  have hrev : (s :: right ++ e :: left).reverse = left.reverse ++ e :: (right.reverse ++ [s]) := by
    simp
  have htidy : tidy (s :: right ++ e :: left) = tidy left ++ tidy right ++ [s] := by
    rw [tidy, hrev, collapseAfter_append rfl, collapseAfter_append rfl]
    simp [tidy, collapseAfter, e, s, Token.synthetic, Kind.isEquals]
  rw [map_kind_tidy hkinds, htidy]
  simp [s, Token.synthetic]

/-- Two token lists that are accepted make an equation that is accepted, and what comes out is the
difference of what comes out of each. -/
theorem convert_sides {us vs ts left right : List Token} (hl : convert (us.map .ok) = .ok left)
    (hr : convert (vs.map .ok) = .ok right) (hu : .equals ∉ significant us)
    (hv : .equals ∉ significant vs)
    (ht : significant ts = significant us ++ .equals :: significant vs) :
    ∃ out, convert (ts.map .ok) = .ok out ∧
      out.map (·.kind) = left.map (·.kind) ++ right.map (·.kind) ++ [.operator .sub] := by
  rw [convert_blanks] at hl hr ⊢
  rw [← map_kind_filter] at ht hu hv
  rw [← map_kind_filter us, ← map_kind_filter vs] at ht
  obtain ⟨as, rest, hts, has, hrest⟩ := List.map_eq_append_iff.mp ht
  obtain ⟨e, bs, rfl, he, hbs⟩ := List.map_eq_cons_iff.mp hrest
  obtain ⟨c, c', hc, hc', hca, rfl⟩ := convert_eq_ok_iff.mp hl
  obtain ⟨k, k', hk, hk', hka, rfl⟩ := convert_eq_ok_iff.mp hr
  rw [Converter.run_map_ok] at hc hk
  have hne : c'.output ≠ [] := by
    intro ho
    rw [ho] at hca
    cases hca
  obtain ⟨d, d', hd, hd', hout⟩ :=
    Converter.run_sides hc hc' hne hk hk' has.symm hbs.symm hu hv he
  have hkinds := tidy_sides_of_tidy hout
  obtain ⟨p, hp, hpk⟩ := checkArity_eq_ok_iff.mp hca
  obtain ⟨q, hq, hqk⟩ := checkArity_eq_ok_iff.mp hka
  refine ⟨tidy d'.output, convert_eq_ok_iff.mpr ⟨d, d', ?_, hd', ?_, rfl⟩, hkinds⟩
  · rw [hts, Converter.run_map_ok, hd]
  · apply checkArity_postorder (f := .binary .sub p q) ⟨rfl, hp, hq⟩
    rw [hkinds, hpk, hqk, Formula.postorder]

end Postfix
end Quadratics
