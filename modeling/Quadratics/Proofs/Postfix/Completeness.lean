import Quadratics.Evaluation
import Quadratics.Proofs.Postfix.Reading
import Quadratics.Proofs.Postfix.Tidying
/-! Every equation of the grammar is accepted, and comes out in the order of its formula. -/
namespace Quadratics

open Token (Kind)
open Infix

namespace Converter

theorem flush_eq {c : Converter} {waiting : List Token} (hp : c.pending = waiting)
    (ht : Tight 0 waiting) :
    c.flush =
      .ok { c with output := waiting.reverse ++ c.output, stack := [], barrier := none } := by
  have hf : waiting.find? (·.kind.isLeftParen) = none := by
    rw [List.find?_eq_none]
    intro t h
    simpa using ht.not_leftParen t h
  simp [flush, hp, hf]

theorem awaits_start : Awaits .sum ({} : Converter) :=
  ⟨rfl, rfl, by simp [Holds], by simp⟩

theorem moveLeft_eq {c : Converter} (hs : c.stack = []) (t : Token) :
    c.moveLeft t =
      { output := t :: (if c.output.isEmpty then [.synthetic (.number 0) t.position] else c.output)
        stack := [.synthetic .leftParen (t.position + 1), .synthetic (.operator .sub) t.position]
        signAllowed := true
        previous := c.previous
        position := max (max c.position t.position) (t.position + 1)
        barrier := some 1 } := by
  cases ho : c.output <;> simp [moveLeft, ho, emit, operator, openParen, hs, Token.synthetic]

def leftSide (ks : List Kind) : List Kind := if ks.isEmpty then [.number 0] else ks

theorem step_equals {c : Converter} {t : Token} (ht : t.kind = .equals) (hb : c.barrier = none)
    (hs : Tight 0 c.stack) :
    ∃ d l s, step c t = .ok d ∧ Awaits .sum d ∧ d.stack = [l, s] ∧ s.kind = .operator .sub ∧
      d.barrier = some 1 ∧
      d.output.map (·.kind) = .equals :: leftSide ((c.stack.reverse ++ c.output).map (·.kind)) := by
  have hp : (c.moved t).pending = c.stack := by simp [pending, moved, hb]
  have hf := flush_eq hp hs
  let flushed : Converter :=
    { c.moved t with output := c.stack.reverse ++ c.output, stack := [], barrier := none }
  have hm := moveLeft_eq (c := flushed) rfl t
  refine ⟨{ flushed.moveLeft t with previous := some t.kind },
    .synthetic .leftParen (t.position + 1), .synthetic (.operator .sub) t.position,
    ?_, ?_, ?_, rfl, ?_, ?_⟩
  · rw [step_significant (by rw [ht]; rfl)]
    simp only [accept, ht, equals]
    rw [hf]
    simp [moved, hb, Except.map, flushed]
  · rw [hm]
    refine ⟨rfl, by rw [ht]; rfl, ?_, by simp⟩
    intro w hw
    cases hw
    rfl
  · rw [hm]
  · rw [hm]
  · rw [hm]
    simp only [flushed, List.map_cons, ht, leftSide, List.isEmpty_map]
    split
    · rfl
    · rfl

theorem pending_eq {d : Converter} {pend : List Token} {l s : Token} (hd : d.stack = pend ++ [l, s])
    (hb : d.barrier = some 1) : d.pending = pend ++ [s] := by
  have hlen : d.stack.length - 1 - 1 = pend.length := by simp [hd]
  simp only [pending, hb, hlen]
  rw [hd, List.eraseIdx_append_of_length_le (Nat.le_refl _), Nat.sub_self]
  rfl

theorem flush_right {w : List Kind} {f g : Formula} {c : Converter} {l s : Token}
    {ts : List Token} (hw : Derives .sum w g) (hc : Awaits .sum c) (hs : c.stack = [l, s])
    (hk : s.kind = .operator .sub) (hb : c.barrier = some 1)
    (ho : c.output.map (·.kind) = .equals :: f.postorder.reverse) (hts : ts.map (·.kind) = w) :
    ∃ d e, ts.foldlM step c = .ok d ∧ d.flush = .ok e ∧
      e.output.reverse.map (·.kind) =
        f.postorder ++ .equals :: g.postorder ++ [.operator .sub] := by
  obtain ⟨pend, d, hd, hread⟩ := readable_of_derives hw c ts hc hts
  have hp : d.pending = pend ++ [s] :=
    pending_eq (by rw [hread.stack, hs]) (by rw [hread.barrier, hb])
  have htight : Tight 0 (pend ++ [s]) := by
    apply (hread.tight.mono (Nat.zero_le _)).append
    intro x hx
    obtain rfl := List.mem_singleton.mp hx
    exact ⟨.sub, hk, Nat.zero_le _⟩
  refine ⟨d, _, hd, flush_eq hp htight, ?_⟩
  have hout := hread.output
  calc
    (((pend ++ [s]).reverse ++ d.output).reverse).map (·.kind)
        = ((pend.reverse ++ d.output).map (·.kind)).reverse ++ [s.kind] := by simp
    _ = f.postorder ++ .equals :: g.postorder ++ [.operator .sub] := by simp [hout, ho, hk]

/-- Read to the end, an equation leaves its sides in order with the `=` between them. -/
theorem flush_equation {w : List Kind} {f : Formula} {ts : List Token} (h : Equation w f)
    (hts : ts.map (·.kind) = w) :
    ∃ c d, ts.foldlM step {} = .ok c ∧ c.flush = .ok d ∧
      (Postfix.tidy d.output).map (·.kind) = f.collapse.postorder := by
  cases h with
  | zero h =>
    obtain ⟨pend, c, hc, hread⟩ := readable_of_derives h {} ts awaits_start hts
    have hp : c.pending = pend := by
      simp [pending, hread.barrier, hread.stack]
    refine ⟨c, _, hc, flush_eq hp (hread.tight.mono (Nat.zero_le _)), ?_⟩
    apply Postfix.tidy_postorder h.proper
    have ho := congrArg List.reverse hread.output
    simpa using ho
  | @sides v w f g hl hr =>
    obtain ⟨us, vs, rfl, hus, hvs⟩ := List.map_eq_append_iff.mp hts
    obtain ⟨t, vs, rfl, ht, hvs⟩ := List.map_eq_cons_iff.mp hvs
    obtain ⟨pend, c, hc, hread⟩ := readable_of_derives hl {} us awaits_start hus
    have hstack : c.stack = pend := by simp [hread.stack]
    obtain ⟨d, l, s, hd, hnext, hs, hk, hb, hout⟩ := step_equals ht hread.barrier
      (hstack ▸ hread.tight.mono (Nat.zero_le _))
    have hleft : (c.stack.reverse ++ c.output).map (·.kind) = f.postorder.reverse := by
      rw [hstack, hread.output, List.map_nil, List.append_nil]
    rw [hleft, leftSide, if_neg (by simp [Formula.postorder_ne_nil])] at hout
    obtain ⟨e, e', he, hflush, hrev⟩ := flush_right hr hnext hs hk hb hout hvs
    refine ⟨e, e', ?_, hflush, Postfix.tidy_sides hl.proper hr.proper hrev⟩
    rw [foldlM_append_of_ok hc, foldlM_cons_of_ok hd, he]
  | right h =>
    obtain ⟨t, vs, rfl, ht, hvs⟩ := List.map_eq_cons_iff.mp hts
    obtain ⟨d, l, s, hd, hnext, hs, hk, hb, hout⟩ := step_equals ht (c := {}) rfl (by simp [Tight])
    obtain ⟨e, e', he, hflush, hrev⟩ :=
      flush_right (f := .number 0) h hnext hs hk hb hout hvs
    refine ⟨e, e', ?_, hflush, Postfix.tidy_sides (f := .number 0) trivial h.proper hrev⟩
    rw [foldlM_cons_of_ok hd, he]

end Converter

namespace Postfix

theorem convert_eq_ok_iff {items : List (Except EquationError Token)} {out : List Token} :
    convert items = .ok out ↔
      ∃ c d, Converter.run {} items = .ok c ∧ c.flush = .ok d ∧ checkArity out = .ok () ∧
        out = tidy d.output := by
  constructor
  · intro h
    obtain ⟨c, hc, h⟩ := bind_eq_ok.mp h
    obtain ⟨d, hd, h⟩ := bind_eq_ok.mp h
    obtain ⟨⟨⟩, ha, h⟩ := bind_eq_ok.mp h
    cases h
    exact ⟨c, d, hc, hd, ha, rfl⟩
  · rintro ⟨c, d, hc, hd, ha, rfl⟩
    simp [convert, hc, hd, ha, bind, Except.bind, pure, Except.pure]

theorem convert_blanks (ts : List Token) :
    convert (ts.map .ok) = convert ((ts.filter fun t => !t.kind.isWhitespace).map .ok) := by
  simp only [convert, Converter.run_map_ok]
  rw [Converter.foldlM_step_blanks]

theorem map_kind_filter (ts : List Token) :
    (ts.filter fun t => !t.kind.isWhitespace).map (·.kind) = significant ts := by
  rw [significant, List.filter_map]
  rfl

/-- The tokens of an equation without blanks come out in the order of its formula. -/
theorem convert_of_map_kind {w : List Kind} {f : Formula} {ts : List Token} (h : Equation w f)
    (hts : ts.map (·.kind) = w) :
    ∃ out, convert (ts.map .ok) = .ok out ∧ out.map (·.kind) = f.collapse.postorder := by
  obtain ⟨c, d, hc, hd, hout⟩ := Converter.flush_equation h hts
  refine ⟨tidy d.output, convert_eq_ok_iff.mpr ⟨c, d, ?_, hd, ?_, rfl⟩, hout⟩
  · rw [Converter.run_map_ok, hc]
  · exact checkArity_postorder (Formula.proper_collapse h.proper) hout

/-- Whatever blanks there are between its tokens, an equation of the grammar is accepted, and its
tokens come out as the operands and operators of its formula, plus signs collapsed. -/
theorem convert_equation {ts : List Token} {f : Formula} (h : Equation (significant ts) f) :
    ∃ out, convert (ts.map .ok) = .ok out ∧ out.map (·.kind) = f.collapse.postorder := by
  rw [convert_blanks]
  exact convert_of_map_kind h (map_kind_filter ts)

/-- `= ++(x) 2x^-2`, with two products that are not written and a plus sign too many. -/
theorem convert_equation_signs :
    let ts := [Kind.equals, .whitespace, .operator .add, .operator .add, .leftParen, .var,
      .rightParen, .whitespace, .number 2, .var, .operator .pow, .operator .sub,
      .number 2].map (Token.synthetic · 0)
    let f := Formula.binary .sub (.number 0) <| .binary .mul
      (.binary .mul (.unary .unaryPlus (.unary .unaryPlus .var)) (.number 2))
      (.binary .pow .var (.unary .unaryMinus (.number 2)))
    Equation (significant ts) f ∧
      ∃ out, convert (ts.map .ok) = .ok out ∧ out.map (·.kind) =
        [.number 0, .var, .operator .unaryPlus, .number 2, .operator .mul, .var, .number 2,
          .operator .unaryMinus, .operator .pow, .operator .mul, .operator .sub] := by
  intro ts f
  have hx : Derives .sum [.var] .var := .ofProduct (.ofPower (.ofSigned (.ofAtom .var)))
  have hp : Derives .product [.operator .add, .operator .add, .leftParen, .var, .rightParen]
      (.unary .unaryPlus (.unary .unaryPlus .var)) :=
    .ofPower (.ofSigned (.plus (.plus (.ofAtom (.paren hx)))))
  have hpow : Derives .power [.var, .operator .pow, .operator .sub, .number 2]
      (.binary .pow .var (.unary .unaryMinus (.number 2))) :=
    .pow (v := [.var]) (.ofAtom .var) (.ofSigned (.minus (.ofAtom (.number 2))))
  have h : Equation (significant ts) f :=
    .right (.ofProduct (.juxtapose (.juxtapose hp (.ofSigned (.ofAtom (.number 2))) rfl) hpow rfl))
  obtain ⟨out, hout, hk⟩ := convert_equation h
  exact ⟨h, out, hout, hk⟩

end Postfix
end Quadratics
