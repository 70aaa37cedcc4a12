import Mathlib.Data.List.TakeWhile
import Quadratics.Proofs.Infix.Prefix
import Quadratics.Proofs.Postfix.Completeness
import Quadratics.Proofs.Steps
import Quadratics.Proofs.Token.Scanning
/-! What the converter accepts. It keeps account of open parentheses and of `=`, so that tokens it
accepts are an equation as soon as all neighbours fit. -/
namespace Quadratics

open Token (Kind)
open Infix

namespace Converter

/-- What lies under the tokens of a side on the stack, and the depth at which the right side is cut
off. -/
inductive Side : List Token → Option Nat → Prop where
  | left : Side [] none
  | right {l s : Token} (hl : l.kind = .leftParen) (hs : s.kind.isLeftParen = false) :
      Side [l, s] (some 1)

/-- `n` parentheses of the side are open. -/
structure Opened (base : List Token) (n : Nat) (c : Converter) : Prop where
  side : Side base c.barrier
  stack : ∃ above, c.stack = above ++ base ∧ above.countP (·.kind.isLeftParen) = n

theorem Side.holds {base : List Token} {barrier : Option Nat} (h : Side base barrier)
    (op : Operator) : Holds op base := by
  intro t ht
  cases h with
  | left => cases ht
  | right hl hs =>
    cases ht
    simp [yieldsTo, hl]

theorem Side.barrier_eq_none {barrier : Option Nat} (h : Side [] barrier) : barrier = none := by
  cases h
  rfl

theorem Side.tail_closed {base : List Token} {barrier : Option Nat} (h : Side base barrier) :
    ∀ t ∈ base.tail, t.kind.isLeftParen = false := by
  cases h with
  | left => simp
  | right hl hs => simpa using hs

theorem Side.pending {base above : List Token} {c : Converter} (h : Side base c.barrier)
    (hs : c.stack = above ++ base) : c.pending = above ++ base.tail := by
  generalize hb : c.barrier = barrier at h
  cases h with
  | left => simp [Converter.pending, hb, hs]
  | right hl hr => exact pending_eq hs hb

theorem Side.closeParen {base above : List Token} {c : Converter} (h : Side base c.barrier)
    (hs : c.stack = above ++ base) (t : Token) :
    c.closeParen t =
      if c.previous.any (·.isOperator) then .error ⟨.operatorBeforeClosing, some t.position⟩
      else
        match above.dropWhile (fun w => !w.kind.isLeftParen) with
        | [] => .error ⟨.unopenedParenthesis, some t.position⟩
        | _ :: below => .ok
            { c with
              output := (above.takeWhile (fun w => !w.kind.isLeftParen)).reverse ++ c.output
              stack := below ++ base
              signAllowed := false } := by
  generalize hb : c.barrier = barrier at h
  have hhead : ∀ w ∈ base.head?, (!w.kind.isLeftParen) = false := by
    cases h with
    | left => simp
    | right hl hr => simp [hl, Kind.isLeftParen]
  obtain ⟨htake, hdrop⟩ := takeWhile_append_of_head? hhead above
  rw [Converter.closeParen, hs, htake, hdrop, hb]
  cases above.dropWhile fun w => !w.kind.isLeftParen with
  | nil => cases h <;> rfl
  | cons l below => cases h <;> simp

theorem isLeftParen_of_yieldsTo {op : Operator} {t : Token} (h : yieldsTo op t = true) :
    t.kind.isLeftParen = false := by
  obtain ⟨o, hk, -⟩ := yieldsTo_iff.mp h
  rw [hk]
  rfl

theorem countP_dropWhile {q r : Token → Bool} {ts : List Token}
    (h : ∀ t, q t = true → r t = false) : (ts.dropWhile q).countP r = ts.countP r := by
  induction ts with
  | nil => rfl
  | cons t ts ih =>
    cases ht : q t with
    | true => simp [ht, ih, h t ht]
    | false => simp [ht]

variable {base : List Token} {n : Nat} {c d : Converter} {t : Token}

theorem Opened.operand (h : Opened base n c) : Opened base n (c.operand t) := ⟨h.side, h.stack⟩

theorem Opened.operator (h : Opened base n c) (op : Operator) :
    Opened base n (c.operator t op) := by
  obtain ⟨above, hs, hn⟩ := h.stack
  let o := if c.signAllowed then op.toUnary.getD op else op
  refine ⟨h.side, { t with kind := .operator o } :: above.dropWhile (yieldsTo o), ?_, ?_⟩
  · simp only [Converter.operator, hs, List.cons_append]
    rw [(takeWhile_append_of_head? (h.side.holds o) _).2]
  · rw [List.countP_cons_of_neg (by simp [Kind.isLeftParen]),
      countP_dropWhile fun t ht => isLeftParen_of_yieldsTo ht, hn]

theorem Opened.closeParen (h : Opened base n c) (hc : c.closeParen t = .ok d) :
    ∃ m, n = m + 1 ∧ Opened base m d := by
  obtain ⟨above, hs, hn⟩ := h.stack
  have hcount : (above.dropWhile fun w => !w.kind.isLeftParen).countP (·.kind.isLeftParen) = n := by
    rw [countP_dropWhile (by simp), hn]
  rw [h.side.closeParen hs] at hc
  split at hc
  · cases hc
  · split at hc
    · cases hc
    · next l below hd =>
      cases hc
      have hl : l.kind.isLeftParen = true := by
        simpa [hd] using List.head?_dropWhile_not (fun w : Token => !w.kind.isLeftParen) above
      rw [hd, List.countP_cons_of_pos (by exact hl)] at hcount
      exact ⟨_, hcount.symm, h.side, below, rfl, rfl⟩

theorem Opened.accept {c d : Converter} (h : Opened base n c) (hc : c.accept t = .ok d)
    (he : t.kind ≠ .equals ∨ c.barrier.isSome = true) :
    t.kind ≠ .equals ∧ ∃ m, Nests n t.kind m ∧ Opened base m d := by
  cases hk : t.kind with
  | number value =>
    simp only [Converter.accept, hk, Converter.number] at hc
    split at hc
    · cases hc
      exact ⟨by simp, n, rfl, (h.operator .mul).operand⟩
    · cases hc
      exact ⟨by simp, n, rfl, h.operand⟩
  | var =>
    simp only [Converter.accept, hk, Converter.var] at hc
    split at hc
    · cases hc
      exact ⟨by simp, n, rfl, (h.operator .mul).operand⟩
    · cases hc
      exact ⟨by simp, n, rfl, h.operand⟩
  | operator op =>
    simp only [Converter.accept, hk] at hc
    cases hc
    exact ⟨by simp, n, rfl, h.operator op⟩
  | leftParen =>
    simp only [Converter.accept, hk] at hc
    cases hc
    obtain ⟨above, hs, hn⟩ := h.stack
    refine ⟨by simp, n + 1, rfl, h.side, t :: above, by simp [openParen, hs], ?_⟩
    rw [List.countP_cons_of_pos (by rw [hk]; rfl), hn]
  | rightParen =>
    simp only [Converter.accept, hk] at hc
    obtain ⟨m, hm, hd⟩ := h.closeParen hc
    exact ⟨by simp, m, hm, hd⟩
  | equals =>
    have hb : c.barrier.isSome = true := he.resolve_left fun hne => hne hk
    simp [Converter.accept, hk, Converter.equals, hb] at hc
  | whitespace =>
    simp only [Converter.accept, hk] at hc
    cases hc
    exact ⟨by simp, n, rfl, h⟩

theorem Opened.step {c d : Converter} (h : Opened base n c) (hc : c.step t = .ok d)
    (he : t.kind ≠ .equals ∨ c.barrier.isSome = true) :
    t.kind ≠ .equals ∧ ∃ m, Nests n t.kind m ∧ Opened base m d := by
  cases hk : t.kind.isWhitespace with
  | true =>
    have hw : t.kind = .whitespace := by cases hq : t.kind <;> simp_all [Kind.isWhitespace]
    rw [Converter.step, if_pos hk] at hc
    cases hc
    rw [hw]
    exact ⟨by simp, n, rfl, h⟩
  | false =>
    rw [step_significant hk] at hc
    obtain ⟨e, ha, rfl⟩ := map_eq_ok.mp hc
    have hm : Opened base n (c.moved t) := ⟨h.side, h.stack⟩
    obtain ⟨hne, m, hn, ho⟩ := hm.accept ha he
    exact ⟨hne, m, hn, ho.side, ho.stack⟩

theorem Opened.flush (h : Opened base n c) (hc : c.flush = .ok d) :
    n = 0 ∧
      d = { c with output := c.pending.reverse ++ c.output, stack := [], barrier := none } := by
  unfold Converter.flush at hc
  split at hc
  · cases hc
  · next hp =>
    cases hc
    refine ⟨?_, rfl⟩
    obtain ⟨above, hs, rfl⟩ := h.stack
    rw [h.side.pending hs, List.find?_append, Option.or_eq_none_iff] at hp
    rw [List.countP_eq_zero]
    exact List.find?_eq_none.mp hp.1

variable {last : Option Kind} {u : List Kind} {ts : List Token}

theorem Opened.run {c d : Converter} (h : Opened base n c) (hu : Seen last n u)
    (hd : ts.foldlM Converter.step c = .ok d) (rest : List Kind)
    (hf : neighboursFit last (ts.map (·.kind) ++ rest) = true)
    (he : c.barrier = none → ∀ t ∈ ts, t.kind ≠ .equals) :
    ∃ m, Opened base m d ∧
      Seen ((ts.map (·.kind)).getLast?.or last) m (u ++ ts.map (·.kind)) ∧
      neighboursFit ((ts.map (·.kind)).getLast?.or last) rest = true := by
  induction ts generalizing c last n u with
  | nil =>
    cases hd
    exact ⟨n, h, by simpa using hu, hf⟩
  | cons t ts ih =>
    obtain ⟨b, hs, hd⟩ := foldlM_cons_eq_ok.mp hd
    have ht : t.kind ≠ .equals ∨ c.barrier.isSome = true := by
      cases hb : c.barrier with
      | none => exact .inl (he hb t List.mem_cons_self)
      | some depth => exact .inr rfl
    obtain ⟨hne, m, hm, hb⟩ := h.step hs ht
    simp only [List.map_cons, List.cons_append, neighboursFit, Bool.and_eq_true] at hf
    have hnext : b.barrier = none → ∀ t ∈ ts, t.kind ≠ .equals := by
      intro hn t ht
      refine he ?_ t (List.mem_cons_of_mem _ ht)
      have hside := hb.side
      generalize b.barrier = barrier at hn hside
      cases hside with
      | left => exact h.side.barrier_eq_none
      | right => cases hn
    obtain ⟨k, hk⟩ := ih hb (hu.token hf.1 hne hm) hd hf.2 hnext
    refine ⟨k, ?_⟩
    simpa [List.getLast?_cons, Option.or_some] using hk

theorem Opened.equals {c d : Converter} (h : Opened [] n c) (ht : t.kind = .equals)
    (hd : c.step t = .ok d) : n = 0 ∧ ∃ base, d.barrier = some 1 ∧ Opened base 0 d := by
  rw [step_significant (by rw [ht]; rfl)] at hd
  have hbm : (c.moved t).barrier = none := h.side.barrier_eq_none
  simp only [Converter.accept, ht, Converter.equals, hbm, Option.isSome_none, Bool.false_eq_true,
    if_false] at hd
  obtain ⟨f, hf, rfl⟩ := map_eq_ok.mp hd
  obtain ⟨e, he, rfl⟩ := map_eq_ok.mp hf
  have hm : Opened [] n (c.moved t) := ⟨h.side, h.stack⟩
  obtain ⟨hn, heq⟩ := hm.flush he
  rw [moveLeft_eq (by rw [heq])]
  exact ⟨hn, _, rfl, .right rfl rfl, [], rfl, rfl⟩

theorem opened_start : Opened [] 0 ({} : Converter) := ⟨.left, [], rfl, rfl⟩

theorem seen_start (last : Option Kind) (hl : last.any endsPhrase = false) : Seen last 0 [] :=
  .before Before.start.ofSumToSigned hl

theorem equation_of_flush {ts : List Token} {c d : Converter} (hc : ts.foldlM step {} = .ok c)
    (hd : c.flush = .ok d) (hf : neighboursFit none (ts.map (·.kind)) = true) :
    ∃ f, Equation (ts.map (·.kind)) f := by
  by_cases he : Kind.equals ∈ ts.map (·.kind)
  · obtain ⟨v, w, hvw, hv⟩ := List.eq_append_cons_of_mem he
    obtain ⟨us, vs, rfl, rfl, hvs⟩ := List.map_eq_append_iff.mp hvw
    obtain ⟨t, vs, rfl, ht, rfl⟩ := List.map_eq_cons_iff.mp hvs
    rw [List.foldlM_append] at hc
    obtain ⟨b, hus, hc⟩ := bind_eq_ok.mp hc
    obtain ⟨e, hs, hc⟩ := foldlM_cons_eq_ok.mp hc
    have hne : ∀ t ∈ us, t.kind ≠ .equals := fun t ht hk => hv (hk ▸ List.mem_map_of_mem ht)
    rw [hvw] at hf ⊢
    obtain ⟨m, hb, hl, hfit⟩ := opened_start.run (seen_start _ rfl) hus _ hf (fun _ => hne)
    obtain ⟨hm, base, hbar, ho⟩ := hb.equals ht hs
    simp only [neighboursFit, Bool.and_eq_true] at hfit
    obtain ⟨k, hk, hr, hend⟩ := ho.run (seen_start (some .equals) rfl) hc []
      (by simpa using hfit.2) (by simp [hbar])
    obtain ⟨g, hg⟩ := ((hk.flush hd).1 ▸ hr).derives hend
    cases hl with
    | before hl hlast =>
      -- only at the start of the equation `=` fits here
      have hnil : us = [] := by
        have hnone := hfit.1
        simp only [fits, hlast] at hnone
        simpa using hnone
      subst hnil
      exact ⟨_, .right hg⟩
    | behind hl hlast hany =>
      obtain ⟨f, hf⟩ := (hm ▸ hl).derives
      exact ⟨_, .sides hf hg⟩
  · have hne : ∀ t ∈ ts, t.kind ≠ .equals := fun t ht hk => he (hk ▸ List.mem_map_of_mem ht)
    obtain ⟨m, ho, hl, hend⟩ := opened_start.run (seen_start _ rfl) hc [] (by simpa using hf)
      (fun _ => hne)
    obtain ⟨f, hf⟩ := ((ho.flush hd).1 ▸ hl).derives hend
    exact ⟨f, .zero hf⟩

theorem run_ok {items : List (Except EquationError Token)} {c d : Converter}
    (h : c.run items = .ok d) : ∃ ts : List Token, items = ts.map .ok := by
  induction items generalizing c with
  | nil => exact ⟨[], rfl⟩
  | cons item items ih =>
    cases item with
    | error e => cases h
    | ok t =>
      obtain ⟨b, -, h⟩ := bind_eq_ok.mp h
      obtain ⟨ts, rfl⟩ := ih h
      exact ⟨t :: ts, rfl⟩

end Converter

namespace Postfix

/-- Of the token lists that are accepted, the equations are those whose neighbours fit. -/
theorem equation_of_convert {ts out : List Token} (h : convert (ts.map .ok) = .ok out)
    (hf : neighboursFit none (significant ts) = true) : ∃ f, Equation (significant ts) f := by
  rw [convert_blanks] at h
  obtain ⟨c, d, hc, hd, -⟩ := convert_eq_ok_iff.mp h
  rw [Converter.run_map_ok] at hc
  rw [← map_kind_filter] at hf ⊢
  exact Converter.equation_of_flush hc hd hf

/-- The equations are the texts that are accepted and in which every token fits the one before. -/
theorem ofString_equation_iff (source : String) :
    (∃ ts f, tokenize source = .ok ts ∧ Equation (significant ts) f) ↔
      (∃ out, ofString source = .ok out) ∧
        ∀ ts, tokenize source = .ok ts → neighboursFit none (significant ts) = true := by
  constructor
  · rintro ⟨ts, f, hts, hf⟩
    obtain ⟨out, hout, -⟩ := convert_of_map_kind hf (map_kind_filter ts)
    refine ⟨⟨out, ?_⟩, ?_⟩
    · rw [ofString, tokenize_eq_ok_iff.mp hts, convert_blanks, hout]
    · intro us hus
      cases hts.symm.trans hus
      exact neighboursFit_equation hf
  · rintro ⟨⟨out, hout⟩, hfit⟩
    obtain ⟨c, d, hc, -⟩ := convert_eq_ok_iff.mp hout
    obtain ⟨ts, hitems⟩ := Converter.run_ok hc
    have hts := tokenize_eq_ok_iff.mpr hitems
    rw [ofString, hitems] at hout
    obtain ⟨f, hf⟩ := equation_of_convert hout (hfit ts hts)
    exact ⟨ts, f, hts, hf⟩

/-- A second operand makes up for the one that a `+` at the end does not have. -/
theorem ofString_trailing_operator :
    ∃ ts out, tokenize "x 2 +" = .ok ts ∧ ofString "x 2 +" = .ok out ∧
      ∀ f, ¬ Equation (significant ts) f := by
  let two := Kind.number (Lexeme.decimal ['2']).toFloat
  have hs : Scanner.ofString "x 2 +" = ⟨['x', ' ', '2', ' ', '+'], 0⟩ := rfl
  have hts : tokenize "x 2 +" = .ok [⟨.var, "x", 0⟩, ⟨.whitespace, " ", 1⟩, ⟨two, "2", 2⟩,
      ⟨.whitespace, " ", 3⟩, ⟨.operator .add, "+", 4⟩] := by
    rw [tokenize_eq_ok_iff, hs]
    rw [Scanner.items_cons _ .var ['x'] rfl,
      Scanner.items_cons _ .whitespace [' '] rfl,
      Scanner.items_cons _ two ['2'] rfl,
      Scanner.items_cons _ .whitespace [' '] rfl,
      Scanner.items_cons _ (.operator .add) ['+'] rfl]
    simp
  refine ⟨_, [⟨.var, "x", 0⟩, ⟨two, "2", 2⟩, ⟨.operator .add, "+", 4⟩], hts, ?_, ?_⟩
  · rw [ofString, tokenize_eq_ok_iff.mp hts]
    rfl
  · intro f hf
    exact absurd (neighboursFit_equation hf) (by simp [neighboursFit, fits, significant, two,
      endsPhrase, startsPhrase, Kind.isOperand, Kind.isRightParen, Kind.isWhitespace])

end Postfix
end Quadratics
