import Quadratics.Proofs.Postfix.Carrying
/-! Tokens with `= 0` behind them: what comes out is what comes out of the tokens alone, minus zero,
and what is refused is refused for the same cause. -/
namespace Quadratics

open Token (Kind)
open Infix (significant)
open EquationError (SameCause)

namespace Converter

variable {c : Converter} {ts us : List Token}

theorem run_map_ok_append (c : Converter) (ts : List Token)
    (items : List (Except EquationError Token)) :
    c.run (ts.map .ok ++ items) = ts.foldlM step c >>= fun d => d.run items := by
  induction ts generalizing c with
  | nil => rfl
  | cons t ts ih =>
    rw [List.map_cons, List.cons_append, run, List.foldlM_cons]
    cases c.step t with
    | error e => rfl
    | ok d => exact ih d

theorem agree_foldlM (hk : significant ts = significant us) (he : .equals ∉ significant ts) :
    Agree SameCause (Above [] []) (ts.foldlM step {}) (us.foldlM step {}) := by
  rw [foldlM_step_blanks {} ts, foldlM_step_blanks {} us]
  refine above_start.run ?_ ?_
  · rw [Postfix.map_kind_filter, Postfix.map_kind_filter, hk]
  · rwa [Postfix.map_kind_filter]

theorem Above.equals_of_error {d : Converter} {t : Token} {a : EquationError}
    (h : Above [] [] c d) (hc : c.flush = .error a) (ht : t.kind = .equals) :
    ∃ b, d.step t = .error b ∧ a.SameCause b := by
  have hm : Above [] [] c (d.moved t) :=
    ⟨h.barrier, h.side, h.stack, h.output, h.signAllowed, h.previous⟩
  obtain ⟨b, hb, hab⟩ := hm.flush.exists_of_error hc
  have hbm : (d.moved t).barrier = none := h.side.barrier_eq_none
  refine ⟨b, ?_, hab⟩
  rw [step_significant (by rw [ht]; rfl)]
  simp [Converter.accept, ht, Converter.equals, hbm, hb, Except.map]

end Converter

namespace Postfix

variable {ts us out out' : List Token} {n : Nat}

theorem agree_count {t u : Token} (hk : t.kind = u.kind) (ht : ComesOut t) :
    Agree SameCause Eq (count n t) (count n u) := by
  unfold count
  rw [← hk]
  rcases ht with ht | ⟨op, ht⟩
  · cases hkind : t.kind with
    | number value => exact .ok rfl
    | var => exact .ok rfl
    | operator | leftParen | rightParen | equals | whitespace => simp [hkind, Kind.isOperand] at ht
  · simp only [ht]
    generalize (if op.isUnary = true then 1 else 2) = consumed
    split
    · exact .error rfl
    · exact .ok rfl

theorem agree_foldlM_count (hk : out.map (·.kind) = out'.map (·.kind))
    (ht : ∀ t ∈ out, ComesOut t) :
    Agree SameCause Eq (out.foldlM count n) (out'.foldlM count n) := by
  induction out generalizing out' n with
  | nil =>
    obtain rfl := List.map_eq_nil_iff.mp hk.symm
    exact .ok rfl
  | cons t out ih =>
    obtain ⟨u, out', rfl, hu, hout'⟩ := List.map_eq_cons_iff.mp hk.symm
    obtain ⟨ht, hout⟩ := List.forall_mem_cons.mp ht
    rw [List.foldlM_cons, List.foldlM_cons]
    refine (agree_count hu.symm ht).bind ?_
    rintro m _ rfl
    exact ih hout'.symm hout

theorem agree_checkArity
    (hk : out'.map (·.kind) = out.map (·.kind) ++ [.number 0, .operator .sub])
    (ht : ∀ t ∈ out, ComesOut t)
    (hne : ∀ e, checkArity out = .error e → e.cause ≠ .emptyEquation) :
    Agree SameCause Eq (checkArity out) (checkArity out') := by
  obtain ⟨os, rest, rfl, hos, hrest⟩ := List.map_eq_append_iff.mp hk
  obtain ⟨z, rest, rfl, hz, hrest⟩ := List.map_eq_cons_iff.mp hrest
  obtain ⟨s, rest, rfl, hs, hrest⟩ := List.map_eq_cons_iff.mp hrest
  obtain rfl := List.map_eq_nil_iff.mp hrest
  have hcount := agree_foldlM_count (n := 0) hos.symm ht
  cases hn : out.foldlM count 0 with
  | error e =>
    obtain ⟨e', he', hcause⟩ := hcount.exists_of_error hn
    rw [checkArity, checkArity, hn, foldlM_append_of_error he']
    exact .error hcause
  | ok n =>
    obtain ⟨_, hos', rfl⟩ := hcount.exists_of_ok hn
    have hzero : count n z = .ok (n + 1) := by simp [count, hz]
    cases n with
    | zero =>
      have hempty : checkArity out = .error ⟨.emptyEquation, none⟩ := by
        rw [checkArity, hn]
        rfl
      exact absurd rfl (hne _ hempty)
    | succ n =>
      have hsub : count (n + 1 + 1) s = .ok (n + 1) := by simp [count, hs, Operator.isUnary]
      have hall : (os ++ [z, s]).foldlM count 0 = .ok (n + 1) := by
        rw [foldlM_append_of_ok hos', foldlM_cons_of_ok hzero, foldlM_cons_of_ok hsub]
        rfl
      rw [checkArity, checkArity, hn, hall]
      cases n with
      | zero => exact .ok rfl
      | succ n => exact .error rfl

theorem agree_refused {e e' : EquationError} (hk : significant ts = significant us)
    (he : .equals ∉ significant ts) (hc : e.SameCause e') :
    ∃ a b, convert (ts.map .ok ++ [.error e]) = .error a ∧
      convert (us.map .ok ++ [.error e']) = .error b ∧ a.SameCause b := by
  have hagree := Converter.agree_foldlM hk he
  rw [convert, convert, Converter.run_map_ok_append, Converter.run_map_ok_append]
  generalize ts.foldlM Converter.step {} = x at hagree ⊢
  generalize us.foldlM Converter.step {} = y at hagree ⊢
  cases hagree with
  | error hcause => exact ⟨_, _, rfl, rfl, hcause⟩
  | ok _ => exact ⟨_, _, rfl, rfl, hc⟩

theorem convert_of_flush {c d : Converter} (hc : ts.foldlM Converter.step {} = .ok c)
    (hd : c.flush = .ok d) :
    convert (ts.map .ok) = (checkArity (tidy d.output)).map fun _ => tidy d.output := by
  rw [convert, Converter.run_map_ok, hc]
  simp only [bind, Except.bind, hd]
  cases checkArity (tidy d.output) <;> rfl

theorem convert_of_run_error {e : EquationError}
    (h : ts.foldlM Converter.step {} = .error e) : convert (ts.map .ok) = .error e := by
  rw [convert, Converter.run_map_ok, h]
  rfl

theorem convert_of_flush_error {c : Converter} {e : EquationError}
    (hc : ts.foldlM Converter.step {} = .ok c) (hd : c.flush = .error e) :
    convert (ts.map .ok) = .error e := by
  rw [convert, Converter.run_map_ok, hc]
  simp only [bind, Except.bind, hd]

theorem agree_zero_of_flush {c d : Converter} {as rest : List Token} {e : Token}
    (hc : ts.foldlM Converter.step {} = .ok c) (hd : c.flush = .ok d) (hout : d.output ≠ [])
    (has : as.map (·.kind) = ts.map (·.kind)) (he : e.kind = .equals)
    (hrest : rest.map (·.kind) = [.number 0]) (hts : .equals ∉ ts.map (·.kind))
    (hne : ∀ e, checkArity (tidy d.output) = .error e → e.cause ≠ .emptyEquation) :
    Agree SameCause
      (fun out out' => out'.map (·.kind) = out.map (·.kind) ++ [.number 0, .operator .sub])
      (convert (ts.map .ok)) (convert ((as ++ e :: rest).map .ok)) := by
  let zero := Token.synthetic (.number 0) 0
  obtain ⟨k, k', hk, hk', hkout⟩ : ∃ k k' : Converter,
      [zero].foldlM Converter.step {} = .ok k ∧ k.flush = .ok k' ∧ k'.output = [zero] :=
    ⟨_, _, rfl, rfl, rfl⟩
  obtain ⟨f, f', hf, hf', hkinds⟩ :=
    Converter.run_sides hc hd hout hk hk' has.symm hrest.symm hts (by decide) he
  have hzero : tidy [zero] = [zero] := rfl
  have htidy := tidy_sides_of_tidy hkinds
  rw [hkout, hzero, List.append_assoc] at htidy
  have hside : ∀ t ∈ tidy d.output, ComesOut t := by
    obtain ⟨raw, hperm, -, hraw⟩ := exists_brought hc hd hts
    rw [hraw]
    exact fun t ht =>
      comesOut_of_mem_broughtBy (hperm.subset ((List.destutter_sublist _ raw).subset ht))
  rw [convert_of_flush hc hd, convert_of_flush hf hf']
  exact (agree_checkArity htidy hside hne).map fun _ _ _ => htidy

theorem agree_zero_of_map_kind
    (hk : us.map (·.kind) = ts.map (·.kind) ++ [.equals, .number 0])
    (he : .equals ∉ ts.map (·.kind))
    (hne : ∀ e, convert (ts.map .ok) = .error e → e.cause ≠ .emptyEquation) :
    Agree SameCause
      (fun out out' => out'.map (·.kind) = out.map (·.kind) ++ [.number 0, .operator .sub])
      (convert (ts.map .ok)) (convert (us.map .ok)) := by
  obtain ⟨as, rest, rfl, has, hrest⟩ := List.map_eq_append_iff.mp hk
  obtain ⟨e, rest, rfl, hequals, hrest⟩ := List.map_eq_cons_iff.mp hrest
  have hrun := Converter.above_start.run has.symm he
  cases hc : ts.foldlM Converter.step {} with
  | error a =>
    obtain ⟨b, hb, hab⟩ := hrun.exists_of_error hc
    rw [convert_of_run_error hc, convert_of_run_error (foldlM_append_of_error hb _)]
    exact .error hab
  | ok c =>
    obtain ⟨d, hd, habove⟩ := hrun.exists_of_ok hc
    cases hf : c.flush with
    | error a =>
      obtain ⟨b, hb, hab⟩ := habove.equals_of_error hf hequals
      have hbehind : (as ++ e :: rest).foldlM Converter.step {} = .error b := by
        rw [foldlM_append_of_ok hd, foldlM_cons_of_error hb]
      rw [convert_of_flush_error hc hf, convert_of_run_error hbehind]
      exact .error hab
    | ok c' =>
      rw [convert_of_flush hc hf] at hne
      have harity : ∀ e, checkArity (tidy c'.output) = .error e → e.cause ≠ .emptyEquation :=
        fun e he => hne e (by rw [he]; rfl)
      -- with nothing out the equation would be empty
      have hout : c'.output ≠ [] := by
        intro hnil
        rw [hnil] at harity
        exact harity _ rfl rfl
      exact agree_zero_of_flush hc hf hout has hequals hrest he harity

theorem agree_zero (hk : significant us = significant ts ++ [.equals, .number 0])
    (he : .equals ∉ significant ts)
    (hne : ∀ e, convert (ts.map .ok) = .error e → e.cause ≠ .emptyEquation) :
    Agree SameCause
      (fun out out' => out'.map (·.kind) = out.map (·.kind) ++ [.number 0, .operator .sub])
      (convert (ts.map .ok)) (convert (us.map .ok)) := by
  rw [convert_blanks] at hne
  rw [convert_blanks ts, convert_blanks us]
  rw [← map_kind_filter] at he
  refine agree_zero_of_map_kind ?_ he hne
  rw [map_kind_filter, map_kind_filter, hk]

end Postfix
end Quadratics
