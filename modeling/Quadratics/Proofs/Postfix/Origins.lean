import Quadratics.Proofs.Postfix.Acceptance
import Quadratics.Proofs.Postfix.Numbers
import Quadratics.Proofs.Token.Marks
/-! Where the tokens of the converter come from. Each one stands at a place of the source that tells
what it is, also if it is not written; only the parenthesis opened behind `=` may not, and it never
comes out. So the errors of the rearrangement point into the source. -/
namespace Quadratics

open Token (Kind)
open Infix (significant)

/-- What puts a token of the kind at the place: a token that is written, a sign as which it is read,
`=` with the zero and the `-` that it stands for, and an operand with the `*` before it. -/
inductive Site (source : String) : Kind → Nat → Prop where
  | written {t : Token} {k : Kind} (h : .ok t ∈ (Scanner.ofString source).items) (hk : t.kind = k)
      (hr : k ≠ .rightParen) (hw : k ≠ .whitespace) : Site source k t.position
  | sign {t : Token} {op sign : Operator} (h : .ok t ∈ (Scanner.ofString source).items)
      (hk : t.kind = .operator op) (hs : op.toUnary = some sign) :
      Site source (.operator sign) t.position
  | zero {t : Token} (h : .ok t ∈ (Scanner.ofString source).items) (hk : t.kind = .equals) :
      Site source (.number 0) t.position
  | difference {t : Token} (h : .ok t ∈ (Scanner.ofString source).items) (hk : t.kind = .equals) :
      Site source (.operator .sub) t.position
  | factor {p : Nat} (h : FactorAt source p) : Site source (.operator .mul) p

variable {source : String} {k : Kind} {p n : Nat} {op : Operator} {t u : Token}

namespace Site

theorem exists_tokenAt (h : Site source k p) : ∃ t, TokenAt source p t := by
  cases h with
  | written h | sign h | zero h | difference h => exact ⟨_, tokenAt_of_mem h⟩
  | factor h =>
    obtain ⟨before, t, after, k, -, -, -, ht⟩ := h
    exact ⟨t, ht⟩

theorem charAt_leftParen (h : Site source .leftParen p) : CharAt source p '(' := by
  cases h with
  | written h hk => exact charAt_of_mem h (by rw [hk]; rfl)

theorem operatorAt (h : Site source (.operator op) p) : OperatorAt source p op := by
  cases h with
  | written h hk => exact .inl (charAt_of_mem h (by rw [hk]; rfl))
  | @sign t written sign h hk hs =>
    -- a sign is written like the operator that it is read from
    have hchar : written.char = op.char := by cases written <;> cases hs <;> rfl
    exact .inl (charAt_of_mem h (by rw [hk, ← hchar]; rfl))
  | difference h hk => exact .inr (.inl ⟨rfl, charAt_of_mem h (by rw [hk]; rfl)⟩)
  | factor h => exact .inr (.inr ⟨rfl, h⟩)

theorem kind_cases (h : Site source k p) (hl : k.isLeftParen = false) :
    k.isOperand = true ∨ (∃ op, k = .operator op) ∨ k = .equals := by
  cases h with
  | written _ _ hr hw => cases k <;> simp_all [Kind.isOperand, Kind.isLeftParen]
  | sign | difference | factor => exact .inr (.inl ⟨_, rfl⟩)
  | zero => exact .inl rfl

end Site

namespace Converter

/-- All tokens that wait or have come out have a place in the source, but for the parenthesis under
the right side, and no place beyond `n` has been seen. -/
structure Sited (source : String) (base : List Token) (n : Nat) (c : Converter) : Prop where
  side : Side base c.barrier
  stack : ∃ above, c.stack = above ++ base ∧
    ∀ u ∈ above ++ base.tail, Site source u.kind u.position
  output : ∀ u ∈ c.output, Site source u.kind u.position ∧ u.kind.isLeftParen = false
  position : c.position ≤ n

variable {base : List Token} {c d : Converter} {e : EquationError} {before : List Token}
  {after : List (Except EquationError Token)}

theorem sited_start : Sited source [] 0 {} :=
  ⟨.left, ⟨[], rfl, by simp⟩, by simp, Nat.le_refl _⟩

namespace Sited

theorem operand (h : Sited source base n c) (ht : Site source t.kind t.position)
    (hk : t.kind.isLeftParen = false) : Sited source base n (c.operand t) :=
  ⟨h.side, h.stack, List.forall_mem_cons.mpr ⟨⟨ht, hk⟩, h.output⟩, h.position⟩

theorem output_append (h : Sited source base n c) {us : List Token}
    (hus : ∀ u ∈ us, Site source u.kind u.position ∧ u.kind.isLeftParen = false) :
    ∀ u ∈ us.reverse ++ c.output, Site source u.kind u.position ∧ u.kind.isLeftParen = false := by
  intro u hu
  rcases List.mem_append.mp hu with hu | hu
  · exact hus u (List.mem_reverse.mp hu)
  · exact h.output u hu

theorem operator (h : Sited source base n c) (hop : Site source (.operator op) t.position)
    (hsign : ∀ sign, op.toUnary = some sign → Site source (.operator sign) t.position) :
    Sited source base n (c.operator t op) := by
  obtain ⟨above, hs, hsite⟩ := h.stack
  let o := if c.signAllowed then op.toUnary.getD op else op
  have ho : Site source (.operator o) t.position := by
    simp only [o]
    split
    · cases hu : op.toUnary with
      | none => exact hop
      | some sign => exact hsign sign hu
    · exact hop
  obtain ⟨htake, hdrop⟩ := takeWhile_append_of_head? (h.side.holds o) above
  refine ⟨h.side, ⟨{ t with kind := .operator o } :: above.dropWhile (yieldsTo o), ?_, ?_⟩,
    h.output_append fun u hu => ?_, h.position⟩
  · simp only [Converter.operator, hs, List.cons_append]
    rw [hdrop]
  · exact List.forall_mem_cons.mpr
      ⟨ho, fun u hu => hsite u (((List.dropWhile_sublist _).append_right _).subset hu)⟩
  · -- what makes way is an operator above the side's base
    rw [hs, htake] at hu
    have hmem := (List.takeWhile_sublist _).subset hu
    exact ⟨hsite u (List.mem_append_left _ hmem),
      isLeftParen_of_yieldsTo (List.mem_takeWhile_imp hu)⟩

theorem factor (h : Sited source base n c) (hf : FactorAt source c.position)
    (ht : Site source t.kind t.position) (hk : t.kind.isLeftParen = false) :
    Sited source base n (c.juxtapose.operand t) :=
  (h.operator (.factor hf) (by rintro sign ⟨⟩)).operand ht hk

theorem openParen (h : Sited source base n c) (ht : Site source t.kind t.position) :
    Sited source base n (c.openParen t) := by
  obtain ⟨above, hs, hsite⟩ := h.stack
  refine ⟨h.side, ⟨t :: above, ?_, List.forall_mem_cons.mpr ⟨ht, hsite⟩⟩, h.output, h.position⟩
  rw [Converter.openParen, hs, List.cons_append]

theorem closeParen (h : Sited source base n c) (hc : c.closeParen t = .ok d) :
    Sited source base n d := by
  obtain ⟨above, hs, hsite⟩ := h.stack
  rw [h.side.closeParen hs] at hc
  split at hc
  · cases hc
  · split at hc
    · cases hc
    · next l below hd =>
      cases hc
      have hbelow : below.Sublist above :=
        (List.sublist_cons_self l below).trans (hd ▸ List.dropWhile_sublist _)
      refine ⟨h.side, ⟨below, rfl, fun u hu => hsite u ((hbelow.append_right _).subset hu)⟩,
        h.output_append fun u hu => ?_, h.position⟩
      have hmem := (List.takeWhile_sublist _).subset hu
      exact ⟨hsite u (List.mem_append_left _ hmem), by simpa using List.mem_takeWhile_imp hu⟩

theorem pending (h : Sited source base n c) :
    ∀ u ∈ c.pending, Site source u.kind u.position := by
  obtain ⟨above, hs, hsite⟩ := h.stack
  rw [h.side.pending hs]
  exact hsite

theorem flush (h : Sited source base n c) (hc : c.flush = .ok d) : Sited source [] n d := by
  unfold Converter.flush at hc
  split at hc
  · cases hc
  · next hnone =>
    cases hc
    refine ⟨.left, ⟨[], rfl, by simp⟩, h.output_append fun u hu => ?_, h.position⟩
    exact ⟨h.pending u hu, by simpa using List.find?_eq_none.mp hnone u hu⟩

theorem moveLeft (h : Sited source [] t.position c) (hs : c.stack = [])
    (ht : .ok t ∈ (Scanner.ofString source).items) (hk : t.kind = .equals) :
    ∃ base, Sited source base (t.position + 1) (c.moveLeft t) := by
  rw [moveLeft_eq hs]
  have hminus : Site source (.operator .sub) t.position := .difference ht hk
  have hzero : Site source (.number 0) t.position := .zero ht hk
  have hequals : Site source t.kind t.position :=
    .written ht rfl (by simp [hk]) (by simp [hk])
  refine ⟨_, .right rfl rfl, ⟨[], rfl, ?_⟩, ?_, ?_⟩
  · intro u hu
    obtain rfl := List.mem_singleton.mp hu
    exact hminus
  · refine List.forall_mem_cons.mpr ⟨⟨hequals, by rw [hk]; rfl⟩, ?_⟩
    split
    · intro u hu
      obtain rfl := List.mem_singleton.mp hu
      exact ⟨hzero, rfl⟩
    · exact h.output
  · have hp := h.position
    simp only
    omega

theorem mono (h : Sited source base n c) {m : Nat} (hm : n ≤ m) : Sited source base m c :=
  ⟨h.side, h.stack, h.output, h.position.trans hm⟩

end Sited

theorem Sited.factorOrOperand {q : Kind → Bool} (h : Sited source base t.position c)
    (hp : c.position = t.position) (hprevious : c.previous = (significant before).getLast?)
    (hitems : (Scanner.ofString source).items = before.map .ok ++ .ok t :: after)
    (hk : t.kind.isOperand = true) (hq : ∀ k, q k = true → multiplies k t.kind = true) :
    Sited source base t.position
      (if c.previous.any q then c.juxtapose.operand t else c.operand t) := by
  have ht : .ok t ∈ (Scanner.ofString source).items := by simp [hitems]
  have hsite : Site source t.kind t.position :=
    .written ht rfl (fun hr => by simp [hr, Kind.isOperand] at hk)
      fun hw => by simp [hw, Kind.isOperand] at hk
  have hleft : t.kind.isLeftParen = false := by
    cases hl : t.kind <;> simp_all [Kind.isOperand, Kind.isLeftParen]
  split
  · next hany =>
    rw [hprevious] at hany
    obtain ⟨k, hlast, hqk⟩ := (Option.any_eq_true q _).mp hany
    have hf : FactorAt source t.position :=
      ⟨before, t, after, k, hitems, hlast, hq k hqk, tokenAt_of_mem ht⟩
    exact h.factor (hp ▸ hf) hsite hleft
  · exact h.operand hsite hleft

theorem Sited.accept (h : Sited source base t.position c) (hp : c.position = t.position)
    (hprevious : c.previous = (significant before).getLast?)
    (hitems : (Scanner.ofString source).items = before.map .ok ++ .ok t :: after)
    (hc : c.accept t = .ok d) : ∃ base, Sited source base (t.position + 1) d := by
  have ht : .ok t ∈ (Scanner.ofString source).items := by simp [hitems]
  have hmono {base} (hd : Sited source base t.position d) :
      ∃ base, Sited source base (t.position + 1) d := ⟨base, hd.mono (Nat.le_succ _)⟩
  unfold Converter.accept at hc
  split at hc
  · next op hk =>
    cases hc
    exact hmono (h.operator (.written ht hk (by simp) (by simp)) fun sign hs => .sign ht hk hs)
  · next value hk =>
    cases hc
    exact hmono (h.factorOrOperand hp hprevious hitems (by rw [hk]; rfl) fun k hr => by rwa [hk])
  · next hk =>
    cases hc
    exact hmono (h.factorOrOperand hp hprevious hitems (by rw [hk]; rfl) fun k hr => by rwa [hk])
  · next hk =>
    cases hc
    exact hmono (h.openParen (.written ht rfl (by simp [hk]) (by simp [hk])))
  · exact hmono (h.closeParen hc)
  · next hk =>
    unfold Converter.equals at hc
    split at hc
    · cases hc
    · obtain ⟨flushed, hf, rfl⟩ := map_eq_ok.mp hc
      exact (h.flush hf).moveLeft (by rw [flush_eq_ok hf]) ht hk
  · cases hc
    exact hmono h

theorem points_closeParen (ht : .ok t ∈ (Scanner.ofString source).items)
    (hk : t.kind = .rightParen) (hc : c.closeParen t = .error e) : Points source e := by
  have hat : CharAt source t.position ')' := charAt_of_mem ht (by rw [hk]; rfl)
  unfold Converter.closeParen at hc
  split at hc
  · cases hc
    exact ⟨_, rfl, .operatorBeforeClosing hat⟩
  · split at hc
    · cases hc
      exact ⟨_, rfl, .unopened hat⟩
    · split at hc
      · cases hc
        exact ⟨_, rfl, .unopened hat⟩
      · cases hc

theorem Sited.points_flush (h : Sited source base n c) (hc : c.flush = .error e) :
    Points source e := by
  unfold Converter.flush at hc
  split at hc
  · next w hw =>
    cases hc
    have hsite := h.pending w (List.mem_of_find?_eq_some hw)
    have hk : w.kind = .leftParen := by
      have hl := List.find?_some hw
      cases hk : w.kind <;> simp_all [Kind.isLeftParen]
    rw [hk] at hsite
    exact ⟨_, rfl, .unclosed hsite.charAt_leftParen⟩
  · cases hc

theorem Sited.points_accept (h : Sited source base n c)
    (ht : .ok t ∈ (Scanner.ofString source).items) (hc : c.accept t = .error e) :
    Points source e := by
  unfold Converter.accept at hc
  split at hc
  · cases hc
  · cases hc
  · cases hc
  · cases hc
  · next hk => exact points_closeParen ht hk hc
  · next hk =>
    unfold Converter.equals at hc
    split at hc
    · cases hc
      exact ⟨_, rfl, .secondEquals (charAt_of_mem ht (by rw [hk]; rfl))⟩
    · exact h.points_flush (map_eq_error.mp hc)
  · cases hc

theorem Sited.step (h : Sited source base t.position c)
    (hprevious : c.previous = (significant before).getLast?)
    (hitems : (Scanner.ofString source).items = before.map .ok ++ .ok t :: after) :
    (∀ d, c.step t = .ok d → d.previous = (significant (before ++ [t])).getLast? ∧
      ∃ base, Sited source base (t.position + 1) d) ∧
    ∀ e, c.step t = .error e → Points source e := by
  have ht : .ok t ∈ (Scanner.ofString source).items := by simp [hitems]
  cases hb : t.kind.isWhitespace with
  | true =>
    rw [Converter.step, if_pos hb]
    refine ⟨?_, by rintro e ⟨⟩⟩
    rintro d ⟨⟩
    refine ⟨?_, base, h.mono (Nat.le_succ _)⟩
    rw [hprevious]
    simp [significant, hb]
  | false =>
    have hp : (c.moved t).position = t.position := Nat.max_eq_right h.position
    have hm : Sited source base t.position (c.moved t) := ⟨h.side, h.stack, h.output, hp.le⟩
    rw [step_significant hb]
    refine ⟨fun d hd => ?_, fun e he => hm.points_accept ht (map_eq_error.mp he)⟩
    obtain ⟨next, hnext, rfl⟩ := map_eq_ok.mp hd
    obtain ⟨base, hs⟩ := hm.accept hp hprevious hitems hnext
    refine ⟨?_, base, hs.side, hs.stack, hs.output, hs.position⟩
    simp [significant, hb]

/-- The converter follows the scanner and is never beyond it. -/
theorem Sited.run {s : Scanner} (h : Sited source base s.column c)
    (hprevious : c.previous = (significant before).getLast?)
    (hitems : (Scanner.ofString source).items = before.map .ok ++ s.items) :
    (∀ d, c.run s.items = .ok d → ∃ base n, Sited source base n d) ∧
      ∀ e, c.run s.items = .error e → Points source e := by
  induction s using Scanner.items.induct generalizing c before base with
  | case1 s hn =>
    rw [Scanner.items_of_next?_eq_none hn]
    refine ⟨?_, by rintro e ⟨⟩⟩
    rintro d ⟨⟩
    exact ⟨base, _, h⟩
  | case2 s item s' hn ih =>
    rw [Scanner.items_of_next? hn] at hitems ⊢
    cases item with
    | error e =>
      refine ⟨by rintro d ⟨⟩, ?_⟩
      rintro e ⟨⟩
      have he : .error e ∈ (Scanner.ofString source).items := by simp [hitems]
      obtain ⟨u, p, rfl, hat⟩ := Scanner.refused_at he
      exact ⟨p, rfl, .unknown hat⟩
    | ok t =>
      obtain ⟨hposition, hlongest, -, hcolumn⟩ := Scanner.next?_ok hn
      have hlength := List.length_pos_iff.mpr hlongest.isLexeme.ne_nil
      obtain ⟨hok, herror⟩ := (hposition ▸ h).step hprevious hitems
      have hrest (d : Converter) (hd : c.step t = .ok d) :
          (∀ f, d.run s'.items = .ok f → ∃ base n, Sited source base n f) ∧
            ∀ e, d.run s'.items = .error e → Points source e := by
        obtain ⟨hprevious, base, hs⟩ := hok d hd
        exact ih (hs.mono (by omega)) hprevious (by simpa using hitems)
      refine ⟨fun f hf => ?_, fun e he => ?_⟩
      · obtain ⟨d, hd, hf⟩ := bind_eq_ok.mp hf
        exact (hrest d hd).1 f hf
      · rcases bind_eq_error.mp he with he | ⟨d, hd, he⟩
        · exact herror e he
        · exact (hrest d hd).2 e he

end Converter

namespace Postfix

variable {e : EquationError} {ts out : List Token}

def Placed (source : String) (t : Token) : Prop :=
  Site source t.kind t.position ∧ (t.kind.isOperand = true ∨ ∃ op, t.kind = .operator op)

theorem placed_tidy
    (h : ∀ u ∈ ts, Site source u.kind u.position ∧ u.kind.isLeftParen = false) :
    ∀ u ∈ tidy ts, Placed source u := by
  intro u hu
  obtain ⟨hmem, hequals⟩ := List.mem_filter.mp hu
  obtain ⟨hs, hl⟩ := h u (List.mem_reverse.mp ((collapseAfter_sublist false _).subset hmem))
  refine ⟨hs, ?_⟩
  rcases hs.kind_cases hl with hk | hk | hk
  · exact .inl hk
  · exact .inr hk
  · simp [hk, Kind.isEquals] at hequals

theorem points_count (h : Placed source t) (hc : count n t = .error e) : Points source e := by
  obtain ⟨hs, hk⟩ := h
  unfold count at hc
  split at hc
  · cases hc
  · cases hc
  · next op hop =>
    generalize (if op.isUnary then 1 else 2) = consumed at hc
    simp only at hc
    split at hc
    · cases hc
      rw [hop] at hs
      exact ⟨_, rfl, .missingOperand hs.operatorAt⟩
    · cases hc
  · next hnumber hvar hoperator =>
    rcases hk with hk | ⟨op, hk⟩
    · cases hq : t.kind <;> simp_all [Kind.isOperand]
    · exact absurd hk (hoperator op)

theorem points_foldlM_count (h : ∀ u ∈ ts, Placed source u) (hc : ts.foldlM count n = .error e) :
    Points source e := by
  induction ts generalizing n with
  | nil => cases hc
  | cons t ts ih =>
    obtain ⟨ht, hts⟩ := List.forall_mem_cons.mp h
    rw [List.foldlM_cons] at hc
    rcases bind_eq_error.mp hc with hc | ⟨m, -, hc⟩
    · exact points_count ht hc
    · exact ih hts hc

theorem points_checkArity (h : ∀ u ∈ ts, Placed source u) (hc : checkArity ts = .error e) :
    e = ⟨.emptyEquation, none⟩ ∨ Points source e := by
  unfold checkArity at hc
  split at hc
  · next hcount =>
    cases hc
    exact .inr (points_foldlM_count h hcount)
  · cases hc
  · cases hc
    exact .inl rfl
  · next n hone hzero hcount =>
    -- values are left, so there is a last token
    cases hc
    cases hlast : ts.getLast? with
    | none =>
      rw [List.getLast?_eq_none_iff.mp hlast] at hcount
      cases hcount
      exact absurd rfl hzero
    | some u =>
      obtain ⟨t, ht⟩ := (h u (List.mem_of_getLast? hlast)).1.exists_tokenAt
      exact .inr ⟨u.position, rfl, .operands ht⟩

theorem sited_run :
    (∀ d, Converter.run {} (Scanner.ofString source).items = .ok d →
      ∃ base n, Converter.Sited source base n d) ∧
    ∀ e, Converter.run {} (Scanner.ofString source).items = .error e → Points source e := by
  have hnothing : (Scanner.ofString source).items =
      ([] : List Token).map .ok ++ (Scanner.ofString source).items := rfl
  exact Converter.sited_start.run (s := .ofString source) rfl hnothing

theorem placed_of_ofString (h : ofString source = .ok out) : ∀ u ∈ out, Placed source u := by
  obtain ⟨c, d, hc, hd, -, rfl⟩ := convert_eq_ok_iff.mp h
  obtain ⟨base, n, hs⟩ := sited_run.1 c hc
  exact placed_tidy (hs.flush hd).output

/-- Only an equation that comes to nothing is refused without a place. -/
theorem points_ofString (h : ofString source = .error e) :
    e = ⟨.emptyEquation, none⟩ ∨ Points source e := by
  rcases bind_eq_error.mp h with h | ⟨c, hc, h⟩
  · exact .inr (sited_run.2 e h)
  · obtain ⟨base, n, hs⟩ := sited_run.1 c hc
    rcases bind_eq_error.mp h with h | ⟨d, hd, h⟩
    · exact .inr (hs.points_flush h)
    · rcases bind_eq_error.mp h with h | ⟨u, -, h⟩
      · exact points_checkArity (placed_tidy (hs.flush hd).output) h
      · cases h

end Postfix
end Quadratics
