import Mathlib.Algebra.Group.Nat.Defs
import Quadratics.Proofs.Infix
import Quadratics.Proofs.Token.Scanning
/-! Decimals as they are written, read again by the scanner, and the tokens of a text put together
from lexemes. -/
namespace Quadratics

open Token (Kind)
open Number (Decimal)
open Infix (significant)

namespace Lexeme

theorem all_isDigit_toDigits (n : Nat) : ∀ c ∈ Nat.toDigits 10 n, c.isDigit = true :=
  fun _ hc => Nat.isDigit_of_mem_toDigits (by decide) (by decide) hc

theorem all_isDigit_fraction (places n : Nat) :
    ∀ c ∈ Number.fraction places n, c.isDigit = true := by
  intro c hc
  rcases List.mem_append.mp hc with hc | hc
  · obtain ⟨-, rfl⟩ := List.mem_replicate.mp hc
    decide
  · exact all_isDigit_toDigits n c hc

theorem length_fraction {places n : Nat} (hp : 0 < places) (hn : n < 10 ^ places) :
    (Number.fraction places n).length = places := by
  have hle := (Nat.length_toDigits_le_iff (b := 10) (by decide) hp).mpr hn
  simp only [Number.fraction, List.length_append, List.length_replicate]
  omega

theorem ofDigitChars_fraction (places n : Nat) :
    Nat.ofDigitChars 10 (Number.fraction places n) 0 = n := by
  rw [Number.fraction, Nat.ofDigitChars_append, Nat.ofDigitChars_replicate_zero, Nat.mul_zero,
    Nat.ofDigitChars_ten_toDigits]

def Ends (rest : List Char) : Prop := ∀ c ∈ rest.head?, c.isDigit = false ∧ c ≠ '.'

theorem takeWhile_digits {ds : List Char} (rest : List Char) (hd : ∀ c ∈ ds, c.isDigit = true)
    (hr : ∀ c ∈ rest.head?, c.isDigit = false) :
    (ds ++ rest).takeWhile Char.isDigit = ds ∧ (ds ++ rest).dropWhile Char.isDigit = rest := by
  rw [List.takeWhile_append_of_pos hd, List.dropWhile_append_of_pos hd]
  cases rest with
  | nil => simp
  | cons c cs => simp [hr c rfl]

theorem takeWhile_before_point (n : Nat) (rest : List Char) :
    (Nat.toDigits 10 n ++ '.' :: rest).takeWhile Char.isDigit = Nat.toDigits 10 n ∧
      (Nat.toDigits 10 n ++ '.' :: rest).dropWhile Char.isDigit = '.' :: rest := by
  refine takeWhile_digits _ (all_isDigit_toDigits n) ?_
  intro c hc
  cases hc
  rfl

theorem decimal_chars (d : Decimal) : decimal d.chars = d := by
  obtain ⟨digits, places⟩ := d
  rw [decimal, Decimal.chars, Nat.pow_eq]
  split
  · next h =>
    obtain rfl : places = 0 := h
    obtain ⟨-, hdrop⟩ := takeWhile_digits [] (all_isDigit_toDigits digits) (by simp)
    rw [List.append_nil] at hdrop
    rw [hdrop, List.filter_eq_self.mpr (all_isDigit_toDigits digits), Nat.ofDigitChars_ten_toDigits]
    rfl
  · next h =>
    have hp : 0 < places := Nat.pos_of_ne_zero h
    have hten : 0 < 10 ^ places := Nat.pow_pos (by decide)
    have hlen := length_fraction hp (Nat.mod_lt digits hten)
    rw [(takeWhile_before_point _ _).2, List.filter_append,
      List.filter_eq_self.mpr (all_isDigit_toDigits _), List.filter_cons_of_neg (by decide),
      List.filter_eq_self.mpr (all_isDigit_fraction places _), Nat.ofDigitChars_append,
      Nat.ofDigitChars_ten_toDigits, Nat.ofDigitChars_eq_ofDigitChars_zero, ofDigitChars_fraction,
      hlen, Nat.div_add_mod]
    simp [hlen]

theorem numeral_chars (d : Decimal) {rest : List Char} (hr : Ends rest) :
    numeral (d.chars ++ rest) = d.chars := by
  have hdigit : ∀ c ∈ rest.head?, c.isDigit = false := fun c hc => (hr c hc).1
  obtain ⟨digits, places⟩ := d
  rw [Decimal.chars, Nat.pow_eq]
  split
  · obtain ⟨htake, hdrop⟩ := takeWhile_digits rest (all_isDigit_toDigits digits) hdigit
    rw [numeral]
    simp only [htake, hdrop]
    split
    · exact absurd rfl (hr '.' rfl).2
    · rfl
  · have hplaces := (takeWhile_digits rest
      (all_isDigit_fraction places (digits % 10 ^ places)) hdigit).1
    rw [List.append_assoc, List.cons_append, numeral]
    simp only [(takeWhile_before_point _ _).1, (takeWhile_before_point _ _).2, hplaces]
    rw [if_neg (by simp [Nat.toDigits_ne_nil])]

theorem isBlank_of_isDigit {c : Char} (h : c.isDigit = true) : Text.isBlank c = false := by
  simp only [Char.isDigit, Bool.and_eq_true, decide_eq_true_eq] at h
  have hlow : 48 ≤ c.toNat := UInt32.le_iff_toNat_le.mp h.1
  have hhigh : c.toNat ≤ 57 := UInt32.le_iff_toNat_le.mp h.2
  simp only [Text.isBlank, Text.blankRanges, List.any_cons, List.any_nil, Bool.or_false,
    Bool.or_eq_false_iff, Bool.and_eq_false_iff, decide_eq_false_iff_not]
  omega

theorem symbol?_of_isDigit {c : Char} (h : c.isDigit = true) : symbol? c = none := by
  unfold symbol?
  split <;> first | rfl | exact absurd h (by decide)

theorem exists_chars_cons (d : Decimal) : ∃ c cs, d.chars = c :: cs ∧ c.isDigit = true := by
  have first (n : Nat) (rest : List Char) :
      ∃ c cs, Nat.toDigits 10 n ++ rest = c :: cs ∧ c.isDigit = true := by
    cases hd : Nat.toDigits 10 n with
    | nil => exact absurd hd Nat.toDigits_ne_nil
    | cons c cs => exact ⟨c, cs ++ rest, rfl, all_isDigit_toDigits n c (by simp [hd])⟩
  rw [Decimal.chars]
  split
  · simpa using first d.digits []
  · exact first _ _

theorem first?_chars (d : Decimal) {rest : List Char} (hr : Ends rest) :
    first? (d.chars ++ rest) = some (.number d.toFloat, d.chars) := by
  have hn := numeral_chars d hr
  have hdec := decimal_chars d
  obtain ⟨c, cs, hc, hdigit⟩ := exists_chars_cons d
  rw [hc] at hn hdec ⊢
  simp only [List.cons_append, first?, isBlank_of_isDigit hdigit, symbol?_of_isDigit hdigit]
  rw [← List.cons_append, hn]
  simp [hdec]

end Lexeme

/-- From whatever column on, the text is scanned to its end as tokens of these kinds and blanks. -/
def Scans (cs : List Char) (ks : List Kind) : Prop :=
  ∀ column, ∃ ts : List Token, Scanner.items ⟨cs, column⟩ = ts.map .ok ∧ significant ts = ks

namespace Scans

variable {rest : List Char} {ks : List Kind}

theorem nil : Scans [] [] := fun column => ⟨[], Scanner.items_nil column, rfl⟩

theorem lexeme (text : List Char) (kind : Kind)
    (hl : Lexeme.first? (text ++ rest) = some (kind, text)) (h : Scans rest ks) :
    Scans (text ++ rest) (if kind.isWhitespace then ks else kind :: ks) := by
  intro column
  obtain ⟨ts, hts, hks⟩ := h (column + text.length)
  refine ⟨⟨kind, String.ofList text, column⟩ :: ts, ?_, ?_⟩
  · rw [Scanner.items_cons column kind text hl, List.drop_left, hts]
    rfl
  · cases hk : kind.isWhitespace <;> simp_all [significant]

theorem blank (hr : ∀ c ∈ rest.head?, Text.isBlank c = false) (h : Scans rest ks) :
    Scans (' ' :: rest) ks := by
  refine lexeme [' '] .whitespace ?_ h
  have hb : Text.isBlank ' ' = true := by decide
  cases rest with
  | nil => rfl
  | cons c cs => simp [Lexeme.first?, hb, hr c rfl]

theorem symbol {c : Char} {kind : Kind} (hs : Lexeme.symbol? c = some kind)
    (hb : Text.isBlank c = false) (hk : kind.isWhitespace = false) (h : Scans rest ks) :
    Scans (c :: rest) (kind :: ks) := by
  have hl : Lexeme.first? ([c] ++ rest) = some (kind, [c]) := by
    simp [Lexeme.first?, hb, hs]
  simpa [hk] using lexeme [c] kind hl h

theorem decimal (d : Decimal) (hr : Lexeme.Ends rest) (h : Scans rest ks) :
    Scans (d.chars ++ rest) (.number d.toFloat :: ks) :=
  lexeme d.chars _ (Lexeme.first?_chars d hr) h

end Scans
end Quadratics
