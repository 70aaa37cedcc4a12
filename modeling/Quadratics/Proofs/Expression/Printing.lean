import Mathlib.Control.Monad.Basic
import Quadratics.Proofs.Expression.Signs
import Quadratics.Proofs.Postfix.Arity
import Quadratics.Proofs.Postfix.Numbers
import Quadratics.Proofs.Token.Numerals
/-! The text of a tree is an equation that gives the tree again. -/
namespace Quadratics

open Token (Kind)
open Infix (Derives)

def Token.Kind.isInRange : Kind → Bool
  | .number value => value.isFinite
  | _ => true

namespace Formula

def printed : Formula → List Kind
  | .number value => [.number value]
  | .var => [.var]
  | .unary op operand => .operator (if op = .unaryMinus then .sub else .add) :: operand.printed
  | .binary op left right =>
    .leftParen :: (left.printed ++ .operator op :: right.printed) ++ [.rightParen]

/-- A tree is written as one operand, so that it can stand next to any operator. -/
theorem derives_printed {f : Formula} (h : f.Proper) : Derives .signed f.printed f := by
  induction f with
  | number value => exact .ofAtom (.number value)
  | var => exact .ofAtom .var
  | unary op operand ih =>
    obtain ⟨hu, ho⟩ := h
    cases op with
    | unaryMinus => exact .minus (ih ho)
    | unaryPlus => exact .plus (ih ho)
    | add | sub | mul | div | pow => cases hu
  | binary op left right ihl ihr =>
    obtain ⟨hu, hl, hr⟩ := h
    have hl := ihl hl
    have hr := Derives.ofSigned (ihr hr)
    refine .ofAtom (.paren ?_)
    cases op with
    | add => exact .add (.ofProduct (.ofPower (.ofSigned hl))) (.ofPower hr)
    | sub => exact .sub (.ofProduct (.ofPower (.ofSigned hl))) (.ofPower hr)
    | mul => exact .ofProduct (.mul (.ofPower (.ofSigned hl)) hr)
    | div => exact .ofProduct (.div (.ofPower (.ofSigned hl)) hr)
    | pow => exact .ofProduct (.ofPower (.pow hl hr))
    | unaryMinus | unaryPlus => cases hu

end Formula

namespace Expression

variable {e : Expression} {rest : List Char} {ks : List Kind}

/-- Every number is finite and has no sign, as it is when it has been read. -/
def Legible : Expression → Prop
  | .number value _ => value.isFinite = true ∧ value.abs = value
  | .var _ _ => True
  | .unary _ operand _ => operand.Legible
  | .binary _ left right _ => left.Legible ∧ right.Legible

theorem legible_of_postorder
    (h : ∀ value, .number value ∈ e.formula.postorder → value.isFinite = true ∧ value.abs = value) :
    e.Legible := by
  induction e with
  | number value position => exact h value List.mem_cons_self
  | var multiplier position => trivial
  | unary op operand position ih => exact ih fun value hv => h value (List.mem_append_left _ hv)
  | binary op left right position ihl ihr =>
    refine ⟨ihl fun value hv => h value ?_, ihr fun value hv => h value ?_⟩
    · exact List.mem_append_left _ (List.mem_append_left _ hv)
    · exact List.mem_append_left _ (List.mem_append_right _ hv)

theorem toList_var (position : Nat) : (var 1 position).text.toList = ['X'] := by
  have h : (var 1 position).text = "X" := rfl
  rw [h]
  rfl

theorem toList_unary (op : Operator) (operand : Expression) (position : Nat) :
    (unary op operand position).text.toList =
      (if op = .unaryMinus then '-' else '+') :: operand.text.toList := by
  rw [text, String.toList_append]
  split <;> rfl

theorem toList_binary (op : Operator) (left right : Expression) (position : Nat) :
    (binary op left right position).text.toList =
      '(' :: left.text.toList ++ ' ' :: op.symbol.toList ++ ' ' :: right.text.toList ++ [')'] := by
  simp [text]

theorem toList_symbol {op : Operator} (h : op.isUnary = false) :
    ∃ c, op.symbol.toList = [c] ∧ Lexeme.symbol? c = some (.operator op) ∧
      Text.isBlank c = false := by
  cases op with
  | add => exact ⟨'+', rfl, rfl, by decide⟩
  | sub => exact ⟨'-', rfl, rfl, by decide⟩
  | mul => exact ⟨'*', rfl, rfl, by decide⟩
  | div => exact ⟨'/', rfl, rfl, by decide⟩
  | pow => exact ⟨'^', rfl, rfl, by decide⟩
  | unaryMinus | unaryPlus => cases h

theorem exists_text_cons (hw : e.Written) (hl : e.Legible) :
    ∃ c cs, e.text.toList = c :: cs ∧ Text.isBlank c = false := by
  cases e with
  | number value position =>
    obtain ⟨d, hd, -⟩ := Number.plainChars_abs hl.1
    obtain ⟨c, cs, hc, hdigit⟩ := Lexeme.exists_chars_cons d
    refine ⟨c, cs, ?_, Lexeme.isBlank_of_isDigit hdigit⟩
    rw [text, Number.plain, String.toList_ofList, ← hc, ← hd, hl.2]
  | var multiplier position =>
    cases hw
    exact ⟨'X', [], toList_var position, by decide⟩
  | unary op operand position =>
    refine ⟨_, _, toList_unary op operand position, ?_⟩
    split <;> decide
  | binary op left right position =>
    exact ⟨_, _, toList_binary op left right position, by decide⟩

theorem scans_text (hw : e.Written) (hl : e.Legible) (hp : e.Proper) (hr : Lexeme.Ends rest)
    (h : Scans rest ks) : Scans (e.text.toList ++ rest) (e.formula.printed ++ ks) := by
  induction e generalizing rest ks with
  | number value position =>
    obtain ⟨d, hd, hv⟩ := Number.plainChars_abs hl.1
    rw [hl.2] at hd hv
    rw [text, Number.plain, String.toList_ofList, hd, formula, Formula.printed, ← hv]
    exact h.decimal d hr
  | var multiplier position =>
    cases hw
    rw [toList_var, formula, Formula.printed]
    exact h.symbol (c := 'X') rfl (by decide) rfl
  | unary op operand position ih =>
    have ho := ih hw hl hp.2 hr h
    rw [toList_unary, formula, Formula.printed]
    split
    · exact ho.symbol (c := '-') rfl (by decide) rfl
    · exact ho.symbol (c := '+') rfl (by decide) rfl
  | binary op left right position ihl ihr =>
    obtain ⟨hu, hpl, hpr⟩ := hp
    obtain ⟨c, hc, hs, hb⟩ := toList_symbol hu
    obtain ⟨b, bs, hright, hblank⟩ := exists_text_cons hw.2 hl.2
    have hclose := h.symbol (c := ')') rfl (by decide) rfl
    have hr := ihr hw.2 hl.2 hpr (by simp [Lexeme.Ends]) hclose
    have hop := (hr.blank (by simp [hright, hblank])).symbol hs hb rfl
    have hl := ihl hw.1 hl.1 hpl (by simp [Lexeme.Ends]) (hop.blank (by simp [hb]))
    have hopen := hl.symbol (c := '(') rfl (by decide) rfl
    rw [toList_binary, hc, formula, Formula.printed]
    simpa using hopen

theorem legible_of_build {source : String} {tokens : List Token}
    (hf : ∀ t value, .ok t ∈ (Scanner.ofString source).items → t.kind = .number value →
      value.isFinite = true)
    (ht : Postfix.ofString source = .ok tokens) (h : tokens.map (·.kind) = e.formula.postorder) :
    e.Legible := by
  apply legible_of_postorder
  intro value hv
  rw [← h] at hv
  obtain ⟨t, hmem, hk⟩ := List.mem_map.mp hv
  by_cases hz : value = 0
  · subst hz
    exact ⟨rfl, rfl⟩
  · have hitem := Postfix.mem_of_convert ht hk hz hmem
    obtain ⟨d, rfl⟩ := Scanner.number_of_mem_items hitem hk
    exact ⟨hf t _ hitem hk, Number.abs_toFloat d⟩

/-- The text of a tree gives the tree again, wherever its tokens stand and but for plus signs under
plus signs, which are written and then collapsed. -/
theorem text_reads_back {source : String} {tokens : List Token}
    (hf : ∀ t value, .ok t ∈ (Scanner.ofString source).items → t.kind = .number value →
      value.isFinite = true)
    (ht : Postfix.ofString source = .ok tokens) (hb : build tokens = .ok e) :
    ∃ tokens' e', Postfix.ofString e.text = .ok tokens' ∧ build tokens' = .ok e' ∧
      e.Written ∧ e'.Written ∧ e'.formula.collapse = e.formula.collapse := by
  obtain ⟨f, hp, hk⟩ := Postfix.exists_formula_of_convert ht
  obtain ⟨hu, rfl⟩ := unmixed_of_build hp hk hb
  have hw := written_build hb
  have hscan := scans_text hw (legible_of_build hf ht hk) hp (by simp [Lexeme.Ends]) Scans.nil
  obtain ⟨ts, hts, hsig⟩ := hscan 0
  rw [List.append_nil] at hts hsig
  have hderives : Infix.Equation (Infix.significant ts) e.formula := by
    rw [hsig]
    exact .zero (.ofProduct (.ofPower (.ofSigned (Formula.derives_printed hp))))
  obtain ⟨tokens', hout, hkinds⟩ := Postfix.convert_equation hderives
  obtain ⟨e', he, hf', hw'⟩ :=
    build_postorder (Formula.proper_collapse hp) (Formula.unmixed_collapse hu) hkinds
  refine ⟨tokens', e', ?_, he, hw, hw', by rw [hf', Formula.collapse_collapse]⟩
  rw [Postfix.ofString, Scanner.ofString, hts, hout]

/-- `+(+x) * 2.50 = -(-x)^-2`. -/
theorem text_reads_back_signs :
    ∃ tokens e, Postfix.ofString "+(+x) * 2.50 = -(-x)^-2" = .ok tokens ∧ build tokens = .ok e ∧
      e.text = "((+X * 2.5) - (--X ^ -2))" ∧
      ∃ tokens' e', Postfix.ofString e.text = .ok tokens' ∧ build tokens' = .ok e' ∧
        e.Written ∧ e'.Written ∧ e'.formula.collapse = e.formula.collapse := by
  have hall : (Scanner.ofString "+(+x) * 2.50 = -(-x)^-2").items.all
      (fun item => item.toOption.all (·.kind.isInRange)) = true := by decide +kernel
  have hrun : (Postfix.ofString "+(+x) * 2.50 = -(-x)^-2" >>= build).map text =
      .ok "((+X * 2.5) - (--X ^ -2))" := by decide +kernel
  obtain ⟨e, he, htext⟩ := map_eq_ok.mp hrun
  obtain ⟨tokens, ht, hb⟩ := bind_eq_ok.mp he
  refine ⟨tokens, e, ht, hb, htext, text_reads_back ?_ ht hb⟩
  rintro ⟨kind, text, position⟩ value hmem rfl
  exact List.all_eq_true.mp hall _ hmem

end Expression
end Quadratics
