import Mathlib.Data.List.Chain
import Quadratics.Proofs.Postfix.Contributions
import Quadratics.Proofs.Postfix.Numbers
/-! What waits on the stack of the converter. Behind `=` a subtraction lies under all else with a
parenthesis on it; the other parentheses are those of the source that are open; and operators with
no parenthesis between them bind ever tighter. So no parenthesis comes out, and the count of values
meets operands and operators only. -/
namespace Quadratics

open Token (Kind)

namespace Converter

def opening (opened : List Token) (t : Token) : List Token :=
  match t.kind with
  | .leftParen => t :: opened
  | .rightParen => opened.tail
  | .number _ | .var | .operator _ | .equals | .whitespace => opened

/-- The parentheses that are open behind the tokens, the latest first. -/
def openAfter (ts : List Token) : List Token := ts.foldl opening []

def equalsOf (ts : List Token) : Option Token := ts.find? (·.kind.isEquals)

/-- What lies at the bottom of the stack, the latest first. -/
def bottom : Option Token → List Token
  | none => []
  | some e => [.synthetic .leftParen (e.position + 1), .synthetic (.operator .sub) e.position]

/-- Of two operators the upper one binds tighter, or as tight and from the right. -/
def Tightens (upper lower : Token) : Prop :=
  ∀ p q, upper.kind = .operator p → lower.kind = .operator q →
    q.precedence < p.precedence ∨ q.precedence = p.precedence ∧ p.rightAssociative = true

/-- The stack and the output while the parentheses in `opened` are open and `middle` is the `=` that
has been read. Like the stack, `opened` has the latest one first. -/
structure Stacked (middle : Option Token) (opened : List Token) (c : Converter) : Prop where
  barrier : c.barrier = middle.map fun _ => 1
  stack : ∃ above, c.stack = above ++ bottom middle ∧
    above.filter (!·.kind.isOperator) = opened
  ordered : c.stack.IsChain Tightens
  output : ∀ t ∈ c.output,
    t.kind ≠ .leftParen ∧ t.kind ≠ .rightParen ∧ t.kind ≠ .whitespace

variable {middle : Option Token} {opened ts us : List Token} {c d : Converter} {t : Token}

theorem openAfter_concat (ts : List Token) (t : Token) :
    openAfter (ts ++ [t]) = opening (openAfter ts) t := by
  simp [openAfter]

theorem equalsOf_concat (ts : List Token) (t : Token) :
    equalsOf (ts ++ [t]) = (equalsOf ts).or (if t.kind.isEquals then some t else none) := by
  cases ht : t.kind.isEquals <;> simp [equalsOf, List.find?_append, ht]

theorem kind_of_mem_openAfter (h : t ∈ openAfter ts) : t.kind = .leftParen := by
  induction ts using List.reverseRecOn with
  | nil => cases h
  | append_singleton ts u ih =>
    rw [openAfter_concat, opening] at h
    split at h
    · next hu =>
      rcases List.mem_cons.mp h with rfl | h
      · exact hu
      · exact ih h
    · exact ih (List.mem_of_mem_tail h)
    all_goals exact ih h

theorem filter_dropWhile {q r : Token → Bool} (h : ∀ t ∈ ts, q t = true → r t = false) :
    (ts.dropWhile q).filter r = ts.filter r := by
  have hnone : (ts.takeWhile q).filter r = [] :=
    List.filter_eq_nil_iff.mpr fun t ht => by
      simp [h t ((List.takeWhile_sublist _).subset ht) (List.mem_takeWhile_imp ht)]
  calc
    (ts.dropWhile q).filter r = (ts.takeWhile q ++ ts.dropWhile q).filter r := by
      rw [List.filter_append, hnone, List.nil_append]
    _ = ts.filter r := by rw [List.takeWhile_append_dropWhile]

theorem isOperator_of_yieldsTo {op : Operator} (h : yieldsTo op t = true) :
    t.kind.isOperator = true := by
  obtain ⟨o, hk, -⟩ := yieldsTo_iff.mp h
  rw [hk]
  rfl

theorem tightens_of_not_yieldsTo {op : Operator} {lower : Token}
    (h : yieldsTo op lower = false) : Tightens { t with kind := .operator op } lower := by
  rintro p q ⟨⟩ hq
  have hnot := mt yieldsTo_iff.mpr (Bool.eq_false_iff.mp h)
  simp only [hq, Kind.operator.injEq, exists_eq_left', not_or, not_and, not_lt,
    Bool.not_eq_false] at hnot
  rcases Nat.lt_or_eq_of_le hnot.1 with hlt | heq
  · exact .inl hlt
  · exact .inr ⟨heq, hnot.2 heq.symm⟩

theorem ordered_operator {op : Operator} (h : us.IsChain Tightens) :
    ({ t with kind := .operator op } :: us.dropWhile (yieldsTo op)).IsChain Tightens := by
  refine List.isChain_cons.mpr ⟨fun lower hl => ?_, h.suffix (List.dropWhile_suffix _)⟩
  apply tightens_of_not_yieldsTo
  have hhead := List.head?_dropWhile_not (yieldsTo op) us
  rwa [Option.mem_def.mp hl] at hhead

namespace Stacked

theorem side (h : Stacked middle opened c) : Side (bottom middle) c.barrier := by
  rw [h.barrier]
  cases middle with
  | none => exact .left
  | some e => exact .right rfl rfl

theorem isOperator_or_mem {above : List Token} (hf : above.filter (!·.kind.isOperator) = opened)
    (ht : t ∈ above) : t.kind.isOperator = true ∨ t ∈ opened := by
  cases hk : t.kind.isOperator with
  | true => exact .inl rfl
  | false => exact .inr (hf ▸ List.mem_filter.mpr ⟨ht, by simp [hk]⟩)

theorem output_operators (h : Stacked middle opened c)
    (hus : ∀ u ∈ us, u.kind.isOperator = true) :
    ∀ t ∈ us.reverse ++ c.output,
      t.kind ≠ .leftParen ∧ t.kind ≠ .rightParen ∧ t.kind ≠ .whitespace := by
  intro t ht
  rcases List.mem_append.mp ht with ht | ht
  · have hop := hus t (List.mem_reverse.mp ht)
    refine ⟨?_, ?_, ?_⟩ <;>
      · intro hk
        simp [hk, Kind.isOperator] at hop
  · exact h.output t ht

theorem operator (h : Stacked middle opened c) (op : Operator) :
    Stacked middle opened (c.operator t op) := by
  obtain ⟨above, hs, hf⟩ := h.stack
  let o := if c.signAllowed then op.toUnary.getD op else op
  have hdrop := (takeWhile_append_of_head? (h.side.holds o) above).2
  refine ⟨h.barrier, ⟨{ t with kind := .operator o } :: above.dropWhile (yieldsTo o), ?_, ?_⟩,
    ordered_operator h.ordered,
    h.output_operators fun u hu => isOperator_of_yieldsTo (List.mem_takeWhile_imp hu)⟩
  · simp only [Converter.operator, hs, List.cons_append]
    rw [hdrop]
  · rw [List.filter_cons_of_neg (by simp [Kind.isOperator]), filter_dropWhile, hf]
    exact fun u _ hu => by simp [isOperator_of_yieldsTo hu]

theorem operand (h : Stacked middle opened c) (ht : t.kind.isOperand = true) :
    Stacked middle opened (c.operand t) := by
  refine ⟨h.barrier, h.stack, h.ordered, List.forall_mem_cons.mpr ⟨?_, h.output⟩⟩
  refine ⟨?_, ?_, ?_⟩ <;>
    · intro hk
      simp [hk, Kind.isOperand] at ht

theorem openParen (h : Stacked middle opened c) (ht : t.kind = .leftParen) :
    Stacked middle (t :: opened) (c.openParen t) := by
  obtain ⟨above, hs, hf⟩ := h.stack
  refine ⟨h.barrier, ⟨t :: above, by simp [Converter.openParen, hs], ?_⟩, ?_, h.output⟩
  · rw [List.filter_cons_of_pos (by rw [ht]; rfl), hf]
  · refine List.isChain_cons.mpr ⟨?_, h.ordered⟩
    rintro lower - p q hp
    rw [ht] at hp
    cases hp

theorem closeParen (h : Stacked middle opened c) (hopen : ∀ u ∈ opened, u.kind = .leftParen)
    (hd : c.closeParen t = .ok d) : Stacked middle opened.tail d := by
  obtain ⟨above, hs, hf⟩ := h.stack
  have hops : ∀ u ∈ above, (!u.kind.isLeftParen) = true → u.kind.isOperator = true := by
    intro u hu hleft
    refine (isOperator_or_mem hf hu).resolve_right fun hmem => ?_
    simp [hopen u hmem, Kind.isLeftParen] at hleft
  have hdrop : (above.dropWhile fun w => !w.kind.isLeftParen).filter (!·.kind.isOperator) =
      opened := by
    rw [filter_dropWhile fun u hu hleft => by simp [hops u hu hleft], hf]
  have hsuffix := List.dropWhile_suffix (l := above) (fun w : Token => !w.kind.isLeftParen)
  have hhead := List.head?_dropWhile_not (fun w : Token => !w.kind.isLeftParen) above
  rw [h.side.closeParen hs] at hd
  split at hd
  · cases hd
  · split at hd
    · cases hd
    · next l below hl =>
      cases hd
      rw [hl] at hdrop hsuffix hhead
      have hparen : l.kind.isOperator = false := by
        cases hk : l.kind <;> simp_all [Kind.isLeftParen, Kind.isOperator]
      rw [List.filter_cons_of_pos (by simp [hparen])] at hdrop
      refine ⟨h.barrier, ⟨below, rfl, by rw [← hdrop, List.tail_cons]⟩, ?_,
        h.output_operators fun u hu => hops u ((List.takeWhile_sublist _).subset hu)
          (List.mem_takeWhile_imp (p := fun w : Token => !w.kind.isLeftParen) hu)⟩
      obtain ⟨front, hfront⟩ := hsuffix
      refine (hs ▸ h.ordered).suffix ⟨front ++ [l], ?_⟩
      rw [← hfront]
      simp

theorem flush (h : Stacked middle opened c) (hopen : ∀ u ∈ opened, u.kind = .leftParen)
    (hd : c.flush = .ok d) :
    opened = [] ∧ d.stack = [] ∧
      ∀ t ∈ d.output, t.kind ≠ .leftParen ∧ t.kind ≠ .rightParen ∧ t.kind ≠ .whitespace := by
  obtain ⟨above, hs, hf⟩ := h.stack
  have hp := h.side.pending hs
  unfold Converter.flush at hd
  split at hd
  · cases hd
  · next hnone =>
    cases hd
    rw [hp] at hnone ⊢
    have hclosed : ∀ u ∈ above, u.kind.isOperator = true := by
      intro u hu
      refine (isOperator_or_mem hf hu).resolve_right fun hmem => ?_
      have hleft := List.find?_eq_none.mp hnone u (List.mem_append_left _ hu)
      simp [hopen u hmem, Kind.isLeftParen] at hleft
    refine ⟨?_, rfl, h.output_operators ?_⟩
    · rw [← hf, List.filter_eq_nil_iff]
      exact fun u hu => by simp [hclosed u hu]
    · intro u hu
      rcases List.mem_append.mp hu with hu | hu
      · exact hclosed u hu
      · cases middle with
        | none => cases hu
        | some e =>
          obtain rfl := List.mem_singleton.mp hu
          rfl

theorem equals (h : Stacked none opened c) (hopen : ∀ u ∈ opened, u.kind = .leftParen)
    (ht : t.kind = .equals) (hd : c.equals t = .ok d) : Stacked (some t) opened d := by
  have hb : c.barrier.isSome = false := by simp [h.barrier]
  rw [Converter.equals, if_neg (by simp [hb])] at hd
  obtain ⟨flushed, hflush, rfl⟩ := map_eq_ok.mp hd
  obtain ⟨rfl, hs, hout⟩ := h.flush hopen hflush
  rw [moveLeft_eq hs]
  refine ⟨rfl, ⟨[], rfl, rfl⟩, ?_, List.forall_mem_cons.mpr ⟨by simp [ht], ?_⟩⟩
  · refine List.isChain_cons_cons.mpr ⟨?_, .singleton _⟩
    rintro p q ⟨⟩
  · split
    · simp [Token.synthetic]
    · exact hout

theorem accept (h : Stacked (equalsOf ts) (openAfter ts) c) (hw : t.kind.isWhitespace = false)
    (hd : c.accept t = .ok d) :
    Stacked (equalsOf (ts ++ [t])) (openAfter (ts ++ [t])) d := by
  have hopen : ∀ u ∈ openAfter ts, u.kind = .leftParen := fun u hu => kind_of_mem_openAfter hu
  rw [openAfter_concat, equalsOf_concat]
  cases hk : t.kind with
  | number value =>
    simp only [Converter.accept, hk, Converter.number] at hd
    have ht : t.kind.isOperand = true := by rw [hk]; rfl
    simp only [opening, hk, Kind.isEquals, Bool.false_eq_true, if_false, Option.or_none]
    split at hd
    · cases hd
      exact (h.operator .mul).operand ht
    · cases hd
      exact h.operand ht
  | var =>
    simp only [Converter.accept, hk, Converter.var] at hd
    have ht : t.kind.isOperand = true := by rw [hk]; rfl
    simp only [opening, hk, Kind.isEquals, Bool.false_eq_true, if_false, Option.or_none]
    split at hd
    · cases hd
      exact (h.operator .mul).operand ht
    · cases hd
      exact h.operand ht
  | operator op =>
    simp only [Converter.accept, hk] at hd
    cases hd
    simpa [opening, hk, Kind.isEquals] using h.operator op
  | leftParen =>
    simp only [Converter.accept, hk] at hd
    cases hd
    simpa [opening, hk, Kind.isEquals] using h.openParen hk
  | rightParen =>
    simp only [Converter.accept, hk] at hd
    simpa [opening, hk, Kind.isEquals] using h.closeParen hopen hd
  | equals =>
    simp only [Converter.accept, hk] at hd
    cases he : equalsOf ts with
    | none => simpa [opening, hk, Kind.isEquals] using (he ▸ h).equals hopen hk hd
    | some e =>
      -- a second `=` is refused
      have hb : c.barrier.isSome = true := by simp [h.barrier, he]
      simp [Converter.equals, hb] at hd
  | whitespace => simp [hk, Kind.isWhitespace] at hw

theorem step (h : Stacked (equalsOf ts) (openAfter ts) c) (hd : c.step t = .ok d) :
    Stacked (equalsOf (ts ++ [t])) (openAfter (ts ++ [t])) d := by
  cases hw : t.kind.isWhitespace with
  | true =>
    have hk : t.kind = .whitespace := by cases hq : t.kind <;> simp_all [Kind.isWhitespace]
    rw [Converter.step, if_pos hw] at hd
    cases hd
    simpa [openAfter_concat, equalsOf_concat, opening, hk, Kind.isEquals] using h
  | false =>
    rw [step_significant hw] at hd
    obtain ⟨next, hnext, rfl⟩ := map_eq_ok.mp hd
    have hm : Stacked (equalsOf ts) (openAfter ts) (c.moved t) :=
      ⟨h.barrier, h.stack, h.ordered, h.output⟩
    obtain ⟨hb, hs, ho, hout⟩ := hm.accept hw hnext
    exact ⟨hb, hs, ho, hout⟩

theorem run (h : Stacked (equalsOf ts) (openAfter ts) c) (hd : us.foldlM Converter.step c = .ok d) :
    Stacked (equalsOf (ts ++ us)) (openAfter (ts ++ us)) d := by
  induction us generalizing ts c with
  | nil =>
    cases hd
    simpa using h
  | cons u us ih =>
    obtain ⟨b, hs, hd⟩ := foldlM_cons_eq_ok.mp hd
    simpa using ih (h.step hs) hd

end Stacked

theorem stacked_start : Stacked (equalsOf []) (openAfter []) {} :=
  ⟨rfl, ⟨[], rfl, rfl⟩, .nil, by simp⟩

theorem exists_stacked {items : List (Except EquationError Token)} (h : run {} items = .ok c) :
    ∃ ts : List Token, items = ts.map .ok ∧ Stacked (equalsOf ts) (openAfter ts) c := by
  obtain ⟨ts, rfl⟩ := run_ok h
  rw [run_map_ok] at h
  exact ⟨ts, rfl, by simpa using stacked_start.run h⟩

end Converter

namespace Postfix

open Converter (Stacked equalsOf openAfter)

variable {items : List (Except EquationError Token)} {c d : Converter} {t : Token}

theorem output_of_flush (hc : Converter.run {} items = .ok c) (hd : c.flush = .ok d) :
    ∀ t ∈ d.output, t.kind ≠ .leftParen ∧ t.kind ≠ .rightParen ∧ t.kind ≠ .whitespace := by
  obtain ⟨ts, -, hs⟩ := Converter.exists_stacked hc
  exact (hs.flush (fun u hu => Converter.kind_of_mem_openAfter hu) hd).2.2

theorem comesOut_of_mem_tidy {output : List Token}
    (h : ∀ t ∈ output, t.kind ≠ .leftParen ∧ t.kind ≠ .rightParen ∧ t.kind ≠ .whitespace) :
    ∀ t ∈ tidy output, ComesOut t := by
  intro t ht
  obtain ⟨hmem, he⟩ := List.mem_filter.mp ht
  have hkind := h t (List.mem_reverse.mp ((collapseAfter_sublist false _).subset hmem))
  cases hk : t.kind with
  | number | var => exact .inl (by rw [hk]; rfl)
  | operator op => exact .inr ⟨op, hk⟩
  | leftParen | rightParen | whitespace => simp [hk] at hkind
  | equals => simp [hk, Kind.isEquals] at he

theorem cause_of_count {n : Nat} {e : EquationError} (ht : ComesOut t) (h : count n t = .error e)
    (shown : String) : e.cause ≠ .unexpectedToken shown := by
  unfold count at h
  split at h
  · cases h
  · cases h
  · next op _ =>
    generalize (if op.isUnary then 1 else 2) = consumed at h
    simp only at h
    split at h
    · cases h
      exact nofun
    · cases h
  · rcases ht with ht | ⟨op, ht⟩
    · cases hk : t.kind <;> simp_all [Kind.isOperand]
    · simp_all

theorem cause_of_foldlM_count {n : Nat} {ts : List Token} {e : EquationError}
    (ht : ∀ t ∈ ts, ComesOut t) (h : ts.foldlM count n = .error e) (shown : String) :
    e.cause ≠ .unexpectedToken shown := by
  induction ts generalizing n with
  | nil => cases h
  | cons t ts ih =>
    obtain ⟨ht, hts⟩ := List.forall_mem_cons.mp ht
    rw [List.foldlM_cons] at h
    rcases bind_eq_error.mp h with h | ⟨m, -, h⟩
    · exact cause_of_count ht h shown
    · exact ih hts h

theorem cause_of_checkArity {ts : List Token} {e : EquationError} (ht : ∀ t ∈ ts, ComesOut t)
    (h : checkArity ts = .error e) (shown : String) : e.cause ≠ .unexpectedToken shown := by
  unfold checkArity at h
  split at h
  · next hc =>
    cases h
    exact cause_of_foldlM_count ht hc shown
  · cases h
  · cases h
    exact nofun
  · cases h
    exact nofun

/-- As far as a stream is read, the stack holds the `-` and the `(` of its `=` under the open
parentheses and the operators between them, and no parenthesis or blank is out; nor is one in the
end, and so no token is unexpected when the values are counted. -/
theorem run_stacked :
    (∀ (items : List (Except EquationError Token)) (c : Converter),
      Converter.run {} items = .ok c →
        ∃ ts : List Token, items = ts.map .ok ∧ Stacked (equalsOf ts) (openAfter ts) c) ∧
    ∀ (items : List (Except EquationError Token)) (c d : Converter),
      Converter.run {} items = .ok c → c.flush = .ok d →
        (∀ t ∈ d.output, t.kind ≠ .leftParen ∧ t.kind ≠ .rightParen ∧ t.kind ≠ .whitespace) ∧
        ∀ e, checkArity (tidy d.output) = .error e → ∀ shown, e.cause ≠ .unexpectedToken shown := by
  refine ⟨fun items c hc => Converter.exists_stacked hc, fun items c d hc hd => ?_⟩
  have hout := output_of_flush hc hd
  exact ⟨hout, fun e he => cause_of_checkArity (comesOut_of_mem_tidy hout) he⟩

/-- In `x = 2 * (-x^` three operators wait around two parentheses, one of them the source's. In
`x =` an operand is missing. -/
theorem run_stacked_cases :
    (let paren : Token := ⟨.leftParen, "(", 8⟩
      let e : Token := ⟨.equals, "=", 2⟩
      let ts : List Token := [⟨.var, "x", 0⟩, e, ⟨.number 2, "2", 4⟩, ⟨.operator .mul, "*", 6⟩,
        paren, ⟨.operator .sub, "-", 9⟩, ⟨.var, "x", 10⟩, ⟨.operator .pow, "^", 11⟩]
      ∃ c, Converter.run {} (ts.map .ok) = .ok c ∧ Stacked (some e) [paren] c ∧
        c.stack.map (·.kind) = [.operator .pow, .leftParen, .operator .mul, .leftParen,
          .operator .sub]) ∧
    let ts : List Token := [⟨.var, "x", 0⟩, ⟨.equals, "=", 2⟩]
    ∃ c d e, Converter.run {} (ts.map .ok) = .ok c ∧ c.flush = .ok d ∧
      checkArity (tidy d.output) = .error e ∧ ∀ shown, e.cause ≠ .unexpectedToken shown := by
  constructor
  · intro paren e ts
    obtain ⟨c, hc, hk⟩ : ∃ c, Converter.run {} (ts.map .ok) = .ok c ∧ c.stack.map (·.kind) =
        [.operator .pow, .leftParen, .operator .mul, .leftParen, .operator .sub] := ⟨_, rfl, rfl⟩
    obtain ⟨us, hus, hs⟩ := run_stacked.1 _ c hc
    obtain rfl : ts = us := (List.map_inj_right fun _ _ => Except.ok.inj).mp hus
    exact ⟨c, hc, hs, hk⟩
  · intro ts
    exact ⟨_, _, _, rfl, rfl, rfl, (run_stacked.2 (ts.map .ok) _ _ rfl rfl).2 _ rfl⟩

end Postfix
end Quadratics
