import Quadratics.Proofs.Postfix.Contributions
/-! What the converter holds while it reads one side of an equation: each token that was brought,
waiting or out, and the operands among them in the order in which they were read. -/
namespace Quadratics

open Token (Kind)
open Infix (significant)

namespace Converter

/-- What is remembered of the tokens read. -/
structure Follows (before : List Token) (c : Converter) : Prop where
  previous : c.previous = lastKind before
  signAllowed : c.signAllowed = signFollows (lastKind before)
  position : c.position = furthest reach before

/-- On a side above `base`, behind what is out in `tail`, the tokens of `all` wait or have come
out, the operands among them in order. -/
structure Carries (base tail all operands : List Token) (c : Converter) : Prop where
  side : Side base c.barrier
  parts : ∃ above out, c.stack = above ++ base ∧ c.output = out ++ tail ∧
    (∀ w ∈ above, w.kind.isLeftParen = true ∨ ∃ op, w.kind = .operator op) ∧
    (above.filter (!·.kind.isLeftParen) ++ out).Perm all ∧
    out.reverse.filter (·.kind.isOperand) = operands

variable {base tail all operands before : List Token} {c d : Converter} {t : Token}

namespace Carries

theorem perm {all' : List Token} (h : Carries base tail all operands c) (ha : all.Perm all') :
    Carries base tail all' operands c := by
  obtain ⟨above, out, hstack, hout, hwait, hperm, hops⟩ := h.parts
  exact ⟨h.side, above, out, hstack, hout, hwait, hperm.trans ha, hops⟩

theorem release (us rest : List Token) (h : Carries base tail all operands c)
    (hs : c.stack = us ++ rest ++ base) (hus : ∀ u ∈ us, u.kind.isLeftParen = false) :
    Carries base tail all operands
      { c with output := us.reverse ++ c.output, stack := rest ++ base } := by
  obtain ⟨above, out, hstack, hout, hwait, hperm, hops⟩ := h.parts
  obtain rfl : us ++ rest = above := List.append_cancel_right (hs.symm.trans hstack)
  have hkeep : us.filter (!·.kind.isLeftParen) = us :=
    List.filter_eq_self.mpr fun u hu => by simp [hus u hu]
  have hnone : us.filter (·.kind.isOperand) = [] := by
    rw [List.filter_eq_nil_iff]
    intro u hu
    obtain ⟨op, hop⟩ := (hwait u (List.mem_append_left _ hu)).resolve_left (by simp [hus u hu])
    simp [hop, Kind.isOperand]
  refine ⟨h.side, rest, us.reverse ++ out, rfl, by simp [hout],
    fun w hw => hwait w (List.mem_append_right _ hw), ?_, by simp [hnone, ← hops]⟩
  rw [List.filter_append, hkeep, List.append_assoc] at hperm
  exact (List.perm_append_comm_assoc _ _ _).trans
    (((List.reverse_perm us).append_right _).trans hperm)

theorem operator {o op : Operator} (h : Carries base tail all operands c)
    (ho : (if c.signAllowed then op.toUnary.getD op else op) = o) :
    Carries base tail ({ t with kind := .operator o } :: all) operands (c.operator t op) := by
  obtain ⟨above, -, hs, -⟩ := h.parts
  obtain ⟨htake, hdrop⟩ := takeWhile_append_of_head? (h.side.holds o) above
  have hsplit : c.stack = above.takeWhile (yieldsTo o) ++ above.dropWhile (yieldsTo o) ++ base := by
    rw [List.takeWhile_append_dropWhile, hs]
  have hr := h.release _ _ hsplit fun u hu => isLeftParen_of_yieldsTo (List.mem_takeWhile_imp hu)
  obtain ⟨above', out, hstack, hout, hwait, hperm, hops⟩ := hr.parts
  obtain rfl : above.dropWhile (yieldsTo o) = above' := List.append_cancel_right hstack
  refine ⟨h.side, { t with kind := .operator o } :: above.dropWhile (yieldsTo o), out, ?_, ?_, ?_,
    ?_, hops⟩
  · simp only [Converter.operator, ho, hs, hdrop, List.cons_append]
  · simp only [Converter.operator, ho, hs, htake]
    exact hout
  · exact List.forall_mem_cons.mpr ⟨.inr ⟨o, rfl⟩, hwait⟩
  · rw [List.filter_cons_of_pos (by rfl), List.cons_append]
    exact hperm.cons _

theorem operand (h : Carries base tail all operands c) (ht : t.kind.isOperand = true) :
    Carries base tail (t :: all) (operands ++ [t]) (c.operand t) := by
  obtain ⟨above, out, hs, hout, hwait, hperm, hops⟩ := h.parts
  refine ⟨h.side, above, t :: out, hs, by simp [Converter.operand, emit, hout], hwait, ?_, ?_⟩
  · exact List.perm_middle.trans (hperm.cons t)
  · simp [ht, ← hops]

theorem openParen (h : Carries base tail all operands c) (ht : t.kind.isLeftParen = true) :
    Carries base tail all operands (c.openParen t) := by
  obtain ⟨above, out, hs, hout, hwait, hperm, hops⟩ := h.parts
  refine ⟨h.side, t :: above, out, by simp [Converter.openParen, hs], hout, ?_, ?_, hops⟩
  · exact List.forall_mem_cons.mpr ⟨.inl ht, hwait⟩
  · rwa [List.filter_cons_of_neg (by simp [ht])]

theorem closeParen (h : Carries base tail all operands c) (hc : c.closeParen t = .ok d) :
    Carries base tail all operands d := by
  obtain ⟨above, -, hs, -⟩ := h.parts
  rw [h.side.closeParen hs] at hc
  split at hc
  · cases hc
  · split at hc
    · cases hc
    · next l below hdrop =>
      cases hc
      have hsplit :
          c.stack = above.takeWhile (fun w => !w.kind.isLeftParen) ++ (l :: below) ++ base := by
        rw [← hdrop, List.takeWhile_append_dropWhile, hs]
      have hl : l.kind.isLeftParen = true := by
        simpa [hdrop] using List.head?_dropWhile_not (fun w : Token => !w.kind.isLeftParen) above
      have hr := h.release _ _ hsplit fun u hu => by simpa using List.mem_takeWhile_imp hu
      obtain ⟨above', out, hstack, hout, hwait, hperm, hops⟩ := hr.parts
      obtain rfl : l :: below = above' := List.append_cancel_right hstack
      rw [List.filter_cons_of_neg (by simp [hl])] at hperm
      exact ⟨h.side, below, out, rfl, hout, fun w hw => hwait w (List.mem_cons_of_mem l hw), hperm,
        hops⟩

theorem flush (h : Carries base tail all operands c) (hd : c.flush = .ok d) :
    ∃ raw : List Token, raw.Perm all ∧ raw.filter (·.kind.isOperand) = operands ∧
      d = { c with
        output := base.tail.reverse ++ raw.reverse ++ tail
        stack := []
        barrier := none } := by
  obtain ⟨above, out, hs, hout, hwait, hperm, hops⟩ := h.parts
  have hp := h.side.pending hs
  unfold Converter.flush at hd
  split at hd
  · cases hd
  · next hnone =>
    cases hd
    rw [hp] at hnone
    have hclosed : ∀ w ∈ above, w.kind.isLeftParen = false := by
      intro w hw
      simpa using List.find?_eq_none.mp hnone w (List.mem_append_left _ hw)
    have hr := h.release above [] (by simp [hs]) hclosed
    obtain ⟨above', out', hstack, hout', -, hperm', hops'⟩ := hr.parts
    obtain rfl : [] = above' := List.append_cancel_right hstack
    refine ⟨out'.reverse, (List.reverse_perm out').trans hperm', hops', ?_⟩
    have hall : above.reverse ++ c.output = out' ++ tail := hout'
    simp [hp, hall]

end Carries

theorem remembered_closeParen (hc : c.closeParen t = .ok d) :
    d.signAllowed = false ∧ d.position = c.position := by
  unfold Converter.closeParen at hc
  split at hc
  · cases hc
  · split at hc
    · cases hc
    · split at hc
      · cases hc
      · cases hc
        exact ⟨rfl, rfl⟩

theorem Carries.factorOrOperand {q : Kind → Bool} (h : Carries base tail all operands c)
    (hprevious : c.previous = lastKind before) (hp : c.position = furthest reach (before ++ [t]))
    (hk : t.kind.isOperand = true) (hq : ∀ k, q k = multiplies k t.kind) :
    Carries base tail (all ++ brought reach before t) (operands ++ [t].filter (·.kind.isOperand))
      (if c.previous.any q then c.juxtapose.operand t else c.operand t) := by
  have hreleased : released (lastKind before) t = [t] := by
    cases ht : t.kind <;> simp_all [released, Kind.isOperand]
  have hany : c.previous.any q = (lastKind before).any (multiplies · t.kind) := by
    rw [hprevious, funext hq]
  rw [hany, brought, hreleased, product, ← hp, List.filter_cons_of_pos (by exact hk)]
  split
  · refine ((h.operator (o := .mul) (by simp [Operator.toUnary])).operand hk).perm ?_
    let star := Token.synthetic (.operator .mul) c.position
    have hcomm : ([t, star] ++ all).Perm (all ++ [t, star]) := List.perm_append_comm
    exact hcomm.trans ((List.Perm.swap _ _ _).append_left all)
  · exact (h.operand hk).perm (List.perm_append_singleton t all).symm

theorem Carries.accept (h : Carries base tail all operands c)
    (hprevious : c.previous = lastKind before)
    (hsign : c.signAllowed = signFollows (lastKind before))
    (hp : c.position = furthest reach (before ++ [t])) (hw : t.kind.isWhitespace = false)
    (hne : t.kind ≠ .equals) (hc : c.accept t = .ok d) :
    Carries base tail (all ++ brought reach before t) (operands ++ [t].filter (·.kind.isOperand))
        d ∧
      d.signAllowed = signFollows (some t.kind) ∧ d.position = c.position := by
  have hnone (ht : t.kind.isOperand = false) : product reach before t = [] := by
    have hm : ∀ k, multiplies k t.kind = false := by
      cases hk : t.kind <;> simp_all [multiplies, Kind.isOperand]
    cases hl : lastKind before <;> simp [product, hl, hm]
  cases hk : t.kind with
  | number value =>
    simp only [Converter.accept, hk] at hc
    cases hc
    refine ⟨h.factorOrOperand hprevious hp (by rw [hk]; rfl) fun k => by rw [hk]; rfl, ?_⟩
    unfold Converter.number
    split <;> exact ⟨rfl, rfl⟩
  | var =>
    simp only [Converter.accept, hk] at hc
    cases hc
    refine ⟨h.factorOrOperand hprevious hp (by rw [hk]; rfl) fun k => by rw [hk]; rfl, ?_⟩
    unfold Converter.var
    split <;> exact ⟨rfl, rfl⟩
  | operator op =>
    simp only [Converter.accept, hk] at hc
    cases hc
    have hop : t.kind.isOperand = false := by rw [hk]; rfl
    refine ⟨?_, rfl, rfl⟩
    rw [brought, hnone hop, List.filter_cons_of_neg (by simp [hop])]
    simp only [released, hk, ← hsign, List.nil_append, List.filter_nil, List.append_nil]
    exact (h.operator rfl).perm (List.perm_append_singleton _ all).symm
  | leftParen =>
    simp only [Converter.accept, hk] at hc
    cases hc
    have hop : t.kind.isOperand = false := by rw [hk]; rfl
    refine ⟨?_, rfl, rfl⟩
    rw [brought, hnone hop, List.filter_cons_of_neg (by simp [hop])]
    simpa [released, hk] using h.openParen (by rw [hk]; rfl)
  | rightParen =>
    simp only [Converter.accept, hk] at hc
    have hop : t.kind.isOperand = false := by rw [hk]; rfl
    refine ⟨?_, remembered_closeParen hc⟩
    rw [brought, hnone hop, List.filter_cons_of_neg (by simp [hop])]
    simpa [released, hk] using h.closeParen hc
  | equals => exact absurd hk hne
  | whitespace => simp [hk, Kind.isWhitespace] at hw

theorem Carries.step (h : Carries base tail all operands c) (hf : Follows before c)
    (hne : t.kind ≠ .equals) (hc : c.step t = .ok d) :
    Carries base tail (all ++ brought reach before t) (operands ++ [t].filter (·.kind.isOperand))
      d ∧ Follows (before ++ [t]) d := by
  cases hw : t.kind.isWhitespace with
  | true =>
    have hk : t.kind = .whitespace := by cases hq : t.kind <;> simp_all [Kind.isWhitespace]
    rw [Converter.step, if_pos hw] at hc
    cases hc
    have hnone : brought reach before t = [] := by
      cases hl : lastKind before <;> simp [brought, product, released, hl, hk, multiplies]
    refine ⟨by simpa [hnone, hk, Kind.isOperand] using h, ?_⟩
    have hl := lastKind_concat_blank before hw
    exact ⟨hl ▸ hf.previous, hl ▸ hf.signAllowed,
      hf.position.trans (furthest_concat_blank hw).symm⟩
  | false =>
    rw [step_significant hw] at hc
    obtain ⟨e, he, rfl⟩ := map_eq_ok.mp hc
    have hreach : reach t = t.position := by
      have hq : t.kind.isEquals = false := by cases hk : t.kind <;> simp_all [Kind.isEquals]
      simp [reach, hq]
    have hp : (c.moved t).position = furthest reach (before ++ [t]) := by
      rw [furthest_concat hw, hreach, ← hf.position]
      rfl
    have hm : Carries base tail all operands (c.moved t) := ⟨h.side, h.parts⟩
    obtain ⟨hd, hsign, hpos⟩ := hm.accept hf.previous hf.signAllowed hp hw hne he
    have hl := lastKind_concat before hw
    exact ⟨⟨hd.side, hd.parts⟩, hl.symm, hl.symm ▸ hsign, hpos.trans hp⟩

theorem Carries.run {ts : List Token} (h : Carries base tail all operands c) (hf : Follows before c)
    (hne : .equals ∉ ts.map (·.kind)) (hd : ts.foldlM Converter.step c = .ok d) :
    Carries base tail (all ++ broughtBy reach before ts)
      (operands ++ ts.filter (·.kind.isOperand)) d ∧ Follows (before ++ ts) d := by
  induction ts generalizing c all operands before with
  | nil =>
    cases hd
    simpa [broughtBy] using And.intro h hf
  | cons t ts ih =>
    obtain ⟨b, hs, hd⟩ := foldlM_cons_eq_ok.mp hd
    rw [List.map_cons, List.mem_cons, not_or] at hne
    obtain ⟨hb, hfb⟩ := h.step hf (Ne.symm hne.1) hs
    have hrun := ih hb hfb hne.2 hd
    rw [List.append_assoc, List.append_assoc, ← List.filter_append] at hrun
    simpa [broughtBy] using hrun

theorem Carries.equals (h : Carries [] [] all operands c) (hf : Follows before c)
    (ht : t.kind = .equals) (hc : c.step t = .ok d) :
    ∃ (raw : List Token) (l s : Token), raw.Perm all ∧ raw.filter (·.kind.isOperand) = operands ∧
      s = .synthetic (.operator .sub) t.position ∧
      Carries [l, s]
        (t :: (if raw.isEmpty then [.synthetic (.number 0) t.position] else raw).reverse) [] [] d ∧
      Follows (before ++ [t]) d := by
  have hw : t.kind.isWhitespace = false := by rw [ht]; rfl
  rw [step_significant hw] at hc
  have hbm : (c.moved t).barrier = none := h.side.barrier_eq_none
  simp only [Converter.accept, ht, Converter.equals, hbm, Option.isSome_none, Bool.false_eq_true,
    if_false] at hc
  obtain ⟨moved, hmoved, rfl⟩ := map_eq_ok.mp hc
  obtain ⟨e, he, rfl⟩ := map_eq_ok.mp hmoved
  have hm : Carries [] [] all operands (c.moved t) := ⟨h.side, h.parts⟩
  obtain ⟨raw, hperm, hops, rfl⟩ := hm.flush he
  have hl := lastKind_concat before hw
  refine ⟨raw, .synthetic .leftParen (t.position + 1), .synthetic (.operator .sub) t.position,
    hperm, hops, rfl, ?_⟩
  rw [moveLeft_eq rfl]
  refine ⟨⟨.right rfl rfl, [], [], rfl, ?_, by simp, by simp, rfl⟩, ?_⟩
  · cases raw <;> simp
  refine ⟨by rw [hl, ht], by rw [hl, ht]; rfl, ?_⟩
  rw [furthest_concat hw, ← hf.position, reach, ht]
  simp only [Kind.isEquals, Converter.moved, if_true]
  omega

theorem carries_start : Carries [] [] [] [] ({} : Converter) :=
  ⟨.left, [], [], rfl, rfl, by simp, by simp, rfl⟩

theorem follows_start : Follows [] ({} : Converter) := ⟨rfl, rfl, rfl⟩

end Converter

/-- A whole side: what was brought comes out, plus signs collapsed. -/
theorem Postfix.exists_brought {ts : List Token} {c d : Converter}
    (hc : ts.foldlM Converter.step {} = .ok c) (hd : c.flush = .ok d)
    (he : .equals ∉ ts.map (·.kind)) :
    ∃ raw : List Token, raw.Perm (broughtBy reach [] ts) ∧
      raw.filter (·.kind.isOperand) = ts.filter (·.kind.isOperand) ∧
      tidy d.output = collapsed raw := by
  obtain ⟨hcarries, -⟩ := Converter.carries_start.run Converter.follows_start he hc
  obtain ⟨raw, hperm, hops, rfl⟩ := hcarries.flush hd
  have htidy := tidy_one fun t (ht : t ∈ raw) => comesOut_of_mem_broughtBy (hperm.subset ht)
  exact ⟨raw, hperm, hops, by simpa using htidy⟩

end Quadratics
