import Mathlib.Data.List.TakeWhile
import Quadratics.Proofs.Token.Joining
/-! The scanner loses nothing, and at each place it takes the longest text that may be a token. -/
namespace Quadratics

open Token (Kind)

/-- Digits with at most one point among them, and at least one digit. -/
structure IsNumeral (cs : List Char) : Prop where
  chars : ∀ c ∈ cs, c.isDigit = true ∨ c = '.'
  points : cs.count '.' ≤ 1
  digit : ∃ c ∈ cs, c.isDigit = true

/-- What may be written for a token of a kind. -/
inductive IsLexeme : Kind → List Char → Prop where
  | number {cs : List Char} (h : IsNumeral cs) :
      IsLexeme (.number (Lexeme.decimal cs).toFloat) cs
  | var {c : Char} (h : c = 'x' ∨ c = 'X') : IsLexeme .var [c]
  | add : IsLexeme (.operator .add) ['+']
  | sub : IsLexeme (.operator .sub) ['-']
  | mul : IsLexeme (.operator .mul) ['*']
  | div : IsLexeme (.operator .div) ['/']
  | pow : IsLexeme (.operator .pow) ['^']
  | leftParen : IsLexeme .leftParen ['(']
  | rightParen : IsLexeme .rightParen [')']
  | equals : IsLexeme .equals ['=']
  | whitespace {cs : List Char} (hn : cs ≠ []) (h : ∀ c ∈ cs, Text.isBlank c = true) :
      IsLexeme .whitespace cs

/-- The longest start of a text that is a lexeme. -/
structure Longest (kind : Kind) (text cs : List Char) : Prop where
  isLexeme : IsLexeme kind text
  isPrefix : text <+: cs
  longest : ∀ other word, IsLexeme other word → word <+: cs → word.length ≤ text.length

variable {kind : Kind} {c : Char} {cs ds text word : List Char}

theorem length_le_takeWhile {p : Char → Bool} (hw : word <+: cs) (h : ∀ c ∈ word, p c = true) :
    word.length ≤ (cs.takeWhile p).length := by
  obtain ⟨rest, rfl⟩ := hw
  rw [List.takeWhile_append_of_pos h, List.length_append]
  exact Nat.le_add_right _ _

theorem IsNumeral.ne_nil (h : IsNumeral cs) : cs ≠ [] := by
  obtain ⟨c, hc, -⟩ := h.digit
  exact List.ne_nil_of_mem hc

theorem count_point_digits (hd : ∀ c ∈ ds, c.isDigit = true) : ds.count '.' = 0 := by
  rw [List.count_eq_zero]
  intro h
  exact absurd (hd '.' h) (by decide)

theorem isNumeral_digits (hd : ∀ c ∈ ds, c.isDigit = true) (hn : ds ≠ []) : IsNumeral ds := by
  obtain ⟨c, rest, rfl⟩ := List.exists_cons_of_ne_nil hn
  refine ⟨fun c hc => .inl (hd c hc), ?_, c, List.mem_cons_self, hd c List.mem_cons_self⟩
  rw [count_point_digits hd]
  exact Nat.zero_le 1

theorem isNumeral_point {ps : List Char} (hd : ∀ c ∈ ds, c.isDigit = true)
    (hp : ∀ c ∈ ps, c.isDigit = true) (hn : ds ≠ [] ∨ ps ≠ []) : IsNumeral (ds ++ '.' :: ps) where
  chars := by
    intro c hc
    simp only [List.mem_append, List.mem_cons] at hc
    rcases hc with hc | hc | hc
    · exact .inl (hd c hc)
    · exact .inr hc
    · exact .inl (hp c hc)
  points := by
    rw [List.count_append, List.count_cons_self, count_point_digits hd, count_point_digits hp]
  digit := by
    rcases hn with hn | hn
    · obtain ⟨c, hc⟩ := List.exists_mem_of_ne_nil _ hn
      exact ⟨c, by simp [hc], hd c hc⟩
    · obtain ⟨c, hc⟩ := List.exists_mem_of_ne_nil _ hn
      exact ⟨c, by simp [hc], hp c hc⟩

theorem IsNumeral.digits_or_point (h : IsNumeral word) :
    ∃ ds, (∀ c ∈ ds, c.isDigit = true) ∧
      (word = ds ∧ ds ≠ [] ∨
        ∃ ps, word = ds ++ '.' :: ps ∧ (∀ c ∈ ps, c.isDigit = true) ∧ (ds ≠ [] ∨ ps ≠ [])) := by
  have hw := List.takeWhile_append_dropWhile (p := Char.isDigit) (l := word)
  have hhead := List.head?_dropWhile_not Char.isDigit word
  have hds : ∀ c ∈ word.takeWhile Char.isDigit, c.isDigit = true :=
    fun c hc => List.mem_takeWhile_imp hc
  refine ⟨word.takeWhile Char.isDigit, hds, ?_⟩
  generalize word.takeWhile Char.isDigit = ds at hw hds
  cases hd : word.dropWhile Char.isDigit with
  | nil =>
    rw [hd, List.append_nil] at hw
    exact .inl ⟨hw.symm, hw ▸ h.ne_nil⟩
  | cons c ps =>
    rw [hd] at hw hhead
    subst hw
    have hc : c.isDigit = false := by simpa using hhead
    obtain rfl : c = '.' := by simpa [hc] using h.chars c (by simp)
    -- a second point would be one too many
    have hcount : ps.count '.' = 0 := by
      have hp := h.points
      rw [List.count_append, List.count_cons_self] at hp
      omega
    refine .inr ⟨ps, rfl, ?_, ?_⟩
    · intro c hc
      refine (h.chars c (by simp [hc])).resolve_right ?_
      rintro rfl
      exact List.count_eq_zero.mp hcount hc
    · by_contra hn
      rw [not_or, not_not, not_not] at hn
      obtain ⟨rfl, rfl⟩ := hn
      obtain ⟨c, hc, hdigit⟩ := h.digit
      obtain rfl := List.mem_singleton.mp hc
      exact absurd hdigit (by decide)

namespace Lexeme

theorem isNumeral_numeral (h : numeral cs ≠ []) : IsNumeral (numeral cs) := by
  have digits (us : List Char) : ∀ c ∈ us.takeWhile Char.isDigit, c.isDigit = true :=
    fun c hc => List.mem_takeWhile_imp hc
  unfold numeral at h ⊢
  simp only at h ⊢
  split at h
  · split at h
    · exact absurd rfl h
    · next hne =>
      rw [if_neg hne]
      refine isNumeral_point (digits _) (digits _) ?_
      rw [Bool.and_eq_true, List.isEmpty_iff, List.isEmpty_iff,
        Classical.not_and_iff_not_or_not] at hne
      exact hne
  · exact isNumeral_digits (digits _) h

theorem length_le_numeral (h : IsNumeral word) (hw : word <+: cs) :
    word.length ≤ (numeral cs).length := by
  obtain ⟨rest, rfl⟩ := hw
  obtain ⟨ds, hd, ⟨rfl, hn⟩ | ⟨ps, rfl, hp, hn⟩⟩ := h.digits_or_point
  · -- the digits at the start are digits of the numeral
    refine (length_le_takeWhile (List.prefix_append word rest) hd).trans ?_
    have hne : ((word ++ rest).takeWhile Char.isDigit).isEmpty = false := by
      obtain ⟨c, us, rfl⟩ := List.exists_cons_of_ne_nil hn
      simp [hd c List.mem_cons_self]
    unfold numeral
    simp only [hne]
    split
    · simp
    · exact Nat.le_refl _
  · have hpoint : ∀ c ∈ ('.' :: (ps ++ rest)).head?, c.isDigit = false := by
      rintro c ⟨⟩
      decide
    obtain ⟨htake, hdrop⟩ := takeWhile_digits ('.' :: (ps ++ rest)) hd hpoint
    have hplaces : (ps ++ rest).takeWhile Char.isDigit = ps ++ rest.takeWhile Char.isDigit :=
      List.takeWhile_append_of_pos hp
    rw [List.append_assoc, List.cons_append]
    unfold numeral
    simp only [htake, hdrop, hplaces]
    rw [if_neg (by rcases hn with hn | hn <;> simp [hn])]
    simp

theorem isLexeme_of_symbol? (h : symbol? c = some kind) : IsLexeme kind [c] := by
  unfold symbol? at h
  split at h <;> cases h
  · exact .var (.inl rfl)
  · exact .var (.inr rfl)
  · exact .add
  · exact .sub
  · exact .mul
  · exact .div
  · exact .pow
  · exact .leftParen
  · exact .rightParen
  · exact .equals

end Lexeme

namespace IsLexeme

theorem ne_nil (h : IsLexeme kind text) : text ≠ [] := by
  cases h with
  | number h => exact h.ne_nil
  | whitespace hn h => exact hn
  | _ => exact List.cons_ne_nil _ _

/-- Whether the first character is blank or a symbol decides what the lexeme is. -/
theorem cons_cases (h : IsLexeme kind (c :: cs)) :
    (kind = .whitespace ∧ ∀ d ∈ c :: cs, Text.isBlank d = true) ∨
      Text.isBlank c = false ∧
        (Lexeme.symbol? c = some kind ∧ cs = [] ∨
          Lexeme.symbol? c = none ∧ IsNumeral (c :: cs)) := by
  generalize hw : c :: cs = word at h
  cases h with
  | number h =>
    subst hw
    refine .inr ?_
    rcases h.chars c List.mem_cons_self with hc | rfl
    · exact ⟨Lexeme.isBlank_of_isDigit hc, .inr ⟨Lexeme.symbol?_of_isDigit hc, h⟩⟩
    · exact ⟨by decide, .inr ⟨rfl, h⟩⟩
  | var h =>
    cases hw
    rcases h with rfl | rfl
    · exact .inr ⟨by decide, .inl ⟨rfl, rfl⟩⟩
    · exact .inr ⟨by decide, .inl ⟨rfl, rfl⟩⟩
  | whitespace hn h =>
    subst hw
    exact .inl ⟨rfl, h⟩
  | _ =>
    cases hw
    exact .inr ⟨by decide, .inl ⟨rfl, rfl⟩⟩

end IsLexeme

namespace Lexeme

theorem exists_prefix_cons (h : IsLexeme kind word) (hw : word <+: c :: cs) :
    ∃ us, word = c :: us ∧ us <+: cs := by
  obtain ⟨d, us, rfl⟩ := List.exists_cons_of_ne_nil h.ne_nil
  obtain ⟨rfl, hus⟩ := List.cons_prefix_cons.mp hw
  exact ⟨us, rfl, hus⟩

theorem longest_of_first? (h : first? cs = some (kind, text)) : Longest kind text cs := by
  cases cs with
  | nil => cases h
  | cons c cs =>
    simp only [first?] at h
    split at h
    · next hb =>
      cases h
      refine ⟨.whitespace (by simp [hb]) fun d hd => List.mem_takeWhile_imp hd,
        List.takeWhile_prefix _, ?_⟩
      intro other word hl hw
      obtain ⟨us, rfl, -⟩ := exists_prefix_cons hl hw
      rcases hl.cons_cases with ⟨-, hall⟩ | ⟨hc, -⟩
      · exact length_le_takeWhile hw hall
      · rw [hb] at hc
        cases hc
    · next hb =>
      split at h
      · next k hs =>
        cases h
        refine ⟨isLexeme_of_symbol? hs, by simp, ?_⟩
        intro other word hl hw
        obtain ⟨us, rfl, -⟩ := exists_prefix_cons hl hw
        rcases hl.cons_cases with ⟨-, hall⟩ | ⟨-, ⟨-, rfl⟩ | ⟨hc, -⟩⟩
        · exact absurd (hall c List.mem_cons_self) hb
        · exact Nat.le_refl _
        · rw [hs] at hc
          cases hc
      · next hs =>
        split at h
        · cases h
        · next hn =>
          cases h
          refine ⟨.number (isNumeral_numeral hn), numeral_isPrefix _, ?_⟩
          intro other word hl hw
          obtain ⟨us, rfl, -⟩ := exists_prefix_cons hl hw
          rcases hl.cons_cases with ⟨-, hall⟩ | ⟨-, ⟨hc, -⟩ | ⟨-, hnum⟩⟩
          · exact absurd (hall c List.mem_cons_self) hb
          · rw [hs] at hc
            cases hc
          · exact length_le_numeral hnum hw

theorem first?_eq_none (h : first? (c :: cs) = none) (hw : word <+: c :: cs) :
    ¬ IsLexeme kind word := by
  intro hl
  obtain ⟨us, rfl, -⟩ := exists_prefix_cons hl hw
  simp only [first?] at h
  split at h
  · cases h
  · next hb =>
    split at h
    · cases h
    · next hs =>
      split at h
      · next hn =>
        rcases hl.cons_cases with ⟨-, hall⟩ | ⟨-, ⟨hc, -⟩ | ⟨-, hnum⟩⟩
        · exact absurd (hall c List.mem_cons_self) hb
        · rw [hs] at hc
          cases hc
        · have hle := length_le_numeral hnum hw
          rw [hn] at hle
          exact absurd hle (by simp)
      · cases h

end Lexeme

def Token.chars (t : Token) : List Char := t.text.toList

def Token.written (ts : List Token) : List Char := ts.flatMap Token.chars

open Token (written)

theorem written_cons (t : Token) (ts : List Token) : written (t :: ts) = t.chars ++ written ts :=
  List.flatMap_cons

namespace Scanner

/-- `ts` are written in front of `rest`, each at its place and each the longest lexeme there. -/
structure Takes (s : Scanner) (ts : List Token) (rest : List Char) : Prop where
  covers : s.rest = written ts ++ rest
  position : ∀ before t after, ts = before ++ t :: after →
    t.position = s.column + (written before).length
  longest : ∀ before t after, ts = before ++ t :: after →
    Longest t.kind t.chars (written (t :: after) ++ rest)

variable {s s' : Scanner} {t u : Token} {ts before after : List Token} {rest : List Char}

theorem takes_nil (s : Scanner) : s.Takes [] s.rest :=
  ⟨rfl, fun before t after h => absurd h (by simp), fun before t after h => absurd h (by simp)⟩

theorem next?_ok (h : s.next? = some (.ok t, s')) :
    t.position = s.column ∧ Longest t.kind t.chars s.rest ∧ s.rest = t.chars ++ s'.rest ∧
      s'.column = s.column + t.chars.length := by
  unfold next? at h
  split at h
  · cases h
  · split at h
    · next kind text hl =>
      cases h
      have hchars : (⟨kind, String.ofList text, s.column⟩ : Token).chars = text :=
        String.toList_ofList
      rw [hchars]
      exact ⟨rfl, Lexeme.longest_of_first? hl, (Lexeme.append_drop_of_first? hl).symm, rfl⟩
    · cases h

theorem next?_error {e : EquationError} (h : s.next? = some (.error e, s')) :
    ∃ c cs, s.rest = c :: cs ∧ Lexeme.first? s.rest = none ∧
      e = ⟨.unknownCharacter c, some s.column⟩ ∧ s'.rest = [] := by
  unfold next? at h
  split at h
  · cases h
  · next c cs hs =>
    split at h
    · cases h
    · next hf =>
      cases h
      exact ⟨c, cs, hs, hf, rfl, rfl⟩

theorem rest_eq_nil (h : s.next? = none) : s.rest = [] := by
  unfold next? at h
  split at h
  · assumption
  · split at h <;> cases h

theorem Takes.cons (hn : s.next? = some (.ok t, s')) (h : s'.Takes ts rest) :
    s.Takes (t :: ts) rest := by
  obtain ⟨hpos, hlongest, hrest, hcolumn⟩ := next?_ok hn
  have hcovers : s.rest = written (t :: ts) ++ rest := by
    rw [hrest, h.covers, written_cons, List.append_assoc]
  refine ⟨hcovers, ?_, ?_⟩
  · intro before u after hu
    cases before with
    | nil =>
      cases hu
      exact hpos
    | cons v before =>
      cases hu
      rw [h.position before u after rfl, hcolumn, written_cons, List.length_append, Nat.add_assoc]
  · intro before u after hu
    cases before with
    | nil =>
      cases hu
      exact hcovers ▸ hlongest
    | cons v before =>
      cases hu
      exact h.longest before u after rfl

/-- The scanner comes to the end, or to a character at which no lexeme starts. -/
theorem takes_items (s : Scanner) :
    ∃ ts rest, s.Takes ts rest ∧
      (rest = [] ∧ s.items = ts.map .ok ∨
        ∃ c cs, rest = c :: cs ∧ Lexeme.first? rest = none ∧
          s.items = ts.map .ok ++
            [.error ⟨.unknownCharacter c, some (s.column + (written ts).length)⟩]) := by
  induction s using items.induct with
  | case1 s hn => exact ⟨[], s.rest, takes_nil s, .inl ⟨rest_eq_nil hn, items_of_next?_eq_none hn⟩⟩
  | case2 s item s' hn ih =>
    rw [items_of_next? hn]
    cases item with
    | error e =>
      obtain ⟨c, cs, hs, hf, rfl, hnil⟩ := next?_error hn
      obtain ⟨rest', column⟩ := s'
      obtain rfl : rest' = [] := hnil
      exact ⟨[], s.rest, takes_nil s, .inr ⟨c, cs, hs, hf, by simp [written]⟩⟩
    | ok t =>
      obtain ⟨ts, rest, htakes, hend⟩ := ih
      refine ⟨t :: ts, rest, htakes.cons hn, ?_⟩
      obtain ⟨-, -, -, hcolumn⟩ := next?_ok hn
      rcases hend with ⟨hrest, hitems⟩ | ⟨c, cs, hrest, hf, hitems⟩
      · exact .inl ⟨hrest, by rw [hitems, List.map_cons]⟩
      · refine .inr ⟨c, cs, hrest, hf, ?_⟩
        rw [hitems, hcolumn, written_cons, List.length_append, Nat.add_assoc, List.map_cons,
          List.cons_append]

/-- Two blank tokens would be one. -/
theorem Takes.blank_apart (h : s.Takes ts rest) (hts : ts = before ++ t :: u :: after)
    (ht : t.kind = .whitespace) : u.kind ≠ .whitespace := by
  intro hu
  have hlongest := h.longest before t (u :: after) hts
  have hnext := (h.longest (before ++ [t]) u after (by simp [hts])).isLexeme
  have hfirst := hlongest.isLexeme
  rw [ht] at hfirst
  rw [hu] at hnext
  have hboth : IsLexeme .whitespace (t.chars ++ u.chars) := by
    cases hfirst with
    | whitespace hn hb =>
      cases hnext with
      | whitespace hn' hb' =>
        refine .whitespace (by simp [hn]) fun c hc => ?_
        exact (List.mem_append.mp hc).elim (hb c) (hb' c)
  have hprefix : t.chars ++ u.chars <+: written (t :: u :: after) ++ rest := by
    simp [written_cons]
  have hle := hlongest.longest _ _ hboth hprefix
  have hpos := List.length_pos_iff.mpr hnext.ne_nil
  rw [List.length_append] at hle
  omega

/-- What the call gets that follows `n` others; a call that gets nothing changes nothing. -/
def call (s : Scanner) : Nat → Option (Except EquationError Token)
  | 0 => s.next?.map Prod.fst
  | n + 1 =>
    match s.next? with
    | some (_, t) => t.call n
    | none => s.call n

theorem call_eq (s : Scanner) (n : Nat) : s.call n = s.items[n]? := by
  induction n generalizing s with
  | zero =>
    cases hn : s.next? with
    | none => simp [call, hn, items_of_next?_eq_none hn]
    | some p =>
      obtain ⟨item, t⟩ := p
      simp [call, hn, items_of_next? hn]
  | succ n ih =>
    cases hn : s.next? with
    | none => simp [call, hn, ih, items_of_next?_eq_none hn]
    | some p =>
      obtain ⟨item, t⟩ := p
      simp [call, hn, ih, items_of_next? hn]

/-- Calls get the tokens that a text is made of, each the longest lexeme at its place, and after
them nothing, or one refusal of the first character at which no lexeme starts and then nothing. -/
theorem calls_cover (source : String) :
    ∃ ts rest, (ofString source).Takes ts rest ∧ (∀ t ∈ ts, t.text ≠ "") ∧
      (∀ before t u after, ts = before ++ t :: u :: after → t.kind = .whitespace →
        u.kind ≠ .whitespace) ∧
      (rest = [] ∧ (∀ n, (ofString source).call n = (ts.map .ok)[n]?) ∨
        ∃ c cs, rest = c :: cs ∧ (∀ kind word, word <+: rest → ¬ IsLexeme kind word) ∧
          ∃ e : EquationError, e.cause.stage = .lexical ∧
            e.message = s!"unknown character '{c}'" ∧ e.position = some (written ts).length ∧
            ∀ n, (ofString source).call n = (ts.map .ok ++ [.error e])[n]?) := by
  obtain ⟨ts, rest, h, hend⟩ := takes_items (ofString source)
  refine ⟨ts, rest, h, ?_, fun before t u after => h.blank_apart, ?_⟩
  · intro t ht hempty
    obtain ⟨before, after, hts⟩ := List.append_of_mem ht
    have hne := (h.longest before t after hts).isLexeme.ne_nil
    exact hne (by rw [Token.chars, hempty]; rfl)
  · rcases hend with ⟨hrest, hitems⟩ | ⟨c, cs, hrest, hf, hitems⟩
    · exact .inl ⟨hrest, fun n => by rw [call_eq, hitems]⟩
    · refine .inr ⟨c, cs, hrest, ?_, ⟨.unknownCharacter c, _⟩, rfl, rfl, rfl, fun n => ?_⟩
      · rw [hrest] at hf ⊢
        exact fun kind word hw => Lexeme.first?_eq_none hf hw
      · rw [call_eq, hitems, ofString, Nat.zero_add]

end Scanner

end Quadratics
