import Quadratics.Proofs.Infix
import Quadratics.Proofs.Token.Lexemes
/-! What stands in a source at the places to which errors point. -/
namespace Quadratics

open Token (Kind)
open Infix (significant)

def Operator.char : Operator → Char
  | .add | .unaryPlus => '+'
  | .sub | .unaryMinus => '-'
  | .mul => '*'
  | .div => '/'
  | .pow => '^'

def Token.Kind.char? : Kind → Option Char
  | .operator op => some op.char
  | .leftParen => some '('
  | .rightParen => some ')'
  | .equals => some '='
  | .number _ | .var | .whitespace => none

theorem IsLexeme.eq_singleton {k : Kind} {cs : List Char} {c : Char} (h : IsLexeme k cs)
    (hc : k.char? = some c) : cs = [c] := by
  cases h with
  | number | var | whitespace => cases hc
  | add | sub | mul | div | pow | leftParen | rightParen | equals =>
    cases hc
    rfl

/-- The character with so many characters before it. -/
def CharAt (source : String) (p : Nat) (c : Char) : Prop := source.toList[p]? = some c

/-- A token of the source with its first character at the place. -/
structure TokenAt (source : String) (p : Nat) (t : Token) : Prop where
  mem : .ok t ∈ (Scanner.ofString source).items
  position : t.position = p
  first : ∃ c, t.chars.head? = some c ∧ CharAt source p c

/-- Whether a token is multiplied with the one before it: a number if that is `)`, a variable also
if it is an operand. -/
def multiplies (before : Kind) : Kind → Bool
  | .number _ => before.isRightParen
  | .var => before.isOperand || before.isRightParen
  | _ => false

/-- An operand starts there with a `*` before it that is not written. -/
def FactorAt (source : String) (p : Nat) : Prop :=
  ∃ before t after k, (Scanner.ofString source).items = before.map .ok ++ .ok t :: after ∧
    (significant before).getLast? = some k ∧ multiplies k t.kind = true ∧ TokenAt source p t

/-- The operator is written there, or it is the `-` that `=` stands for, or the `*` that is not
written. -/
def OperatorAt (source : String) (p : Nat) (op : Operator) : Prop :=
  CharAt source p op.char ∨ op = .sub ∧ CharAt source p '=' ∨ op = .mul ∧ FactorAt source p

/-- What an error of the cause points to. -/
inductive Marks (source : String) : Cause → Nat → Prop where
  | unknown {c : Char} {p : Nat} (h : CharAt source p c) : Marks source (.unknownCharacter c) p
  | operatorBeforeClosing {p : Nat} (h : CharAt source p ')') :
      Marks source .operatorBeforeClosing p
  | unopened {p : Nat} (h : CharAt source p ')') : Marks source .unopenedParenthesis p
  | unclosed {p : Nat} (h : CharAt source p '(') : Marks source .unclosedParenthesis p
  | secondEquals {p : Nat} (h : CharAt source p '=') : Marks source .secondEquals p
  | missingOperand {op : Operator} {p : Nat} (h : OperatorAt source p op) :
      Marks source (.missingOperand op) p
  | operands {t : Token} {p : Nat} (h : TokenAt source p t) :
      Marks source .operandsWithoutOperator p
  | mixedSigns {p : Nat} (h : CharAt source p '+' ∨ CharAt source p '-') :
      Marks source .mixedSigns p
  | algebra {cause : Cause} {p : Nat} (hc : cause.stage = .simplification)
      (h : CharAt source p '*' ∨ CharAt source p '/' ∨ CharAt source p '^' ∨ FactorAt source p) :
      Marks source cause p

/-- The error has a place, and the place is what the cause says. -/
def Points (source : String) (e : EquationError) : Prop :=
  ∃ p, e.position = some p ∧ Marks source e.cause p

variable {source : String} {p : Nat} {c : Char} {t : Token} {op : Operator}

theorem charAt_append {us cs : List Char} (h : source.toList = us ++ c :: cs) :
    CharAt source us.length c := by
  rw [CharAt, h, List.getElem?_append_right (Nat.le_refl _), Nat.sub_self]
  rfl

theorem CharAt.lt (h : CharAt source p c) : p < source.length := by
  obtain ⟨hlt, -⟩ := List.getElem?_eq_some_iff.mp h
  rwa [String.length_toList] at hlt

theorem TokenAt.lt (h : TokenAt source p t) : p < source.length := by
  obtain ⟨c, -, hc⟩ := h.first
  exact hc.lt

theorem FactorAt.lt (h : FactorAt source p) : p < source.length := by
  obtain ⟨before, t, after, k, -, -, -, ht⟩ := h
  exact ht.lt

theorem OperatorAt.lt (h : OperatorAt source p op) : p < source.length := by
  rcases h with hc | ⟨-, hc⟩ | ⟨-, hf⟩
  · exact hc.lt
  · exact hc.lt
  · exact hf.lt

theorem Marks.lt {cause : Cause} (h : Marks source cause p) : p < source.length := by
  cases h with
  | unknown h | operatorBeforeClosing h | unopened h | unclosed h | secondEquals h => exact h.lt
  | missingOperand h => exact h.lt
  | operands h => exact h.lt
  | mixedSigns h => exact h.elim CharAt.lt CharAt.lt
  | algebra _ h =>
    rcases h with h | h | h | h
    · exact h.lt
    · exact h.lt
    · exact h.lt
    · exact h.lt

namespace Scanner

theorem split_at_token (h : .ok t ∈ (ofString source).items) :
    IsLexeme t.kind t.chars ∧
      ∃ us vs, source.toList = us ++ (t.chars ++ vs) ∧ t.position = us.length := by
  obtain ⟨ts, rest, htakes, hend⟩ := takes_items (ofString source)
  have ht : t ∈ ts := by
    rcases hend with ⟨-, hitems⟩ | ⟨c, cs, -, -, hitems⟩
    · simpa [hitems] using h
    · simpa [hitems] using h
  obtain ⟨before, after, rfl⟩ := List.append_of_mem ht
  refine ⟨(htakes.longest before t after rfl).isLexeme,
    Token.written before, Token.written after ++ rest, ?_, ?_⟩
  · have hcovers : source.toList = _ := htakes.covers
    rw [hcovers, Token.written, List.flatMap_append, ← Token.written, ← Token.written,
      written_cons, List.append_assoc, List.append_assoc]
  · rw [htakes.position before t after rfl]
    exact Nat.zero_add _

theorem refused_at {e : EquationError} (h : .error e ∈ (ofString source).items) :
    ∃ c p, e = ⟨.unknownCharacter c, some p⟩ ∧ CharAt source p c := by
  obtain ⟨ts, rest, htakes, hend⟩ := takes_items (ofString source)
  rcases hend with ⟨-, hitems⟩ | ⟨c, cs, rfl, -, hitems⟩
  · simp [hitems] at h
  · refine ⟨c, (Token.written ts).length, ?_, ?_⟩
    · rw [hitems] at h
      simpa [ofString] using h
    · exact charAt_append htakes.covers

end Scanner

theorem tokenAt_of_mem (h : .ok t ∈ (Scanner.ofString source).items) :
    TokenAt source t.position t := by
  obtain ⟨hlexeme, us, vs, hsource, hposition⟩ := Scanner.split_at_token h
  obtain ⟨c, cs, hc⟩ := List.exists_cons_of_ne_nil hlexeme.ne_nil
  refine ⟨h, rfl, c, by rw [hc]; rfl, ?_⟩
  rw [hc] at hsource
  exact hposition ▸ charAt_append hsource

theorem charAt_of_mem (h : .ok t ∈ (Scanner.ofString source).items)
    (hc : t.kind.char? = some c) : CharAt source t.position c := by
  obtain ⟨d, hd, hat⟩ := (tokenAt_of_mem h).first
  rw [(Scanner.split_at_token h).1.eq_singleton hc] at hd
  cases hd
  exact hat

end Quadratics
