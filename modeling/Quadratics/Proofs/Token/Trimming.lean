import Mathlib.Data.List.Basic
import Quadratics.Proofs.Token.Lexemes
import Quadratics.Report.Forms
/-! Blanks around a text change none of its tokens, and neither does `= 0` behind it, be it read to
its end or to a character that is refused. -/
namespace Quadratics

open Token (Kind)
open Infix (significant)

/-- The text is made of blanks and of the lexemes of these tokens, up to a character that starts
no lexeme. -/
inductive Refused : List Char → List Kind → Char → Prop where
  | here {c : Char} {cs : List Char} (h : Lexeme.first? (c :: cs) = none) : Refused (c :: cs) [] c
  | lexeme {text cs : List Char} {kind : Kind} {ks : List Kind} {c : Char}
      (hl : Lexeme.first? (text ++ cs) = some (kind, text)) (h : Refused cs ks c) :
      Refused (text ++ cs) (if kind.isWhitespace then ks else kind :: ks) c

variable {cs rest text bs : List Char} {ks : List Kind} {kind : Kind} {c : Char}

namespace Lexeme

theorem ends_of_isBlank (h : ∀ c ∈ rest, Text.isBlank c = true) : Ends rest := by
  intro c hc
  have hb := h c (List.mem_of_mem_head? hc)
  refine ⟨Bool.eq_false_iff.mpr fun hd => ?_, ?_⟩
  · rw [isBlank_of_isDigit hd] at hb
    cases hb
  · rintro rfl
    exact absurd hb (by decide)

theorem first?_append_eq_none (hr : Ends rest) (h : first? (c :: cs) = none) :
    first? (c :: (cs ++ rest)) = none := by
  have hn := numeral_append hr (c :: cs)
  rw [List.cons_append] at hn
  cases hb : Text.isBlank c with
  | true => simp [first?, hb] at h
  | false => simpa only [first?, hb, hn, Bool.false_eq_true, if_false] using h

theorem first?_blanks (hb : ∀ c ∈ bs, Text.isBlank c = true) (hne : bs ≠ [])
    (hcs : ∀ c ∈ cs.head?, Text.isBlank c = false) :
    first? (bs ++ cs) = some (.whitespace, bs) := by
  obtain ⟨c, bs, rfl⟩ := List.exists_cons_of_ne_nil hne
  have htake : (c :: bs ++ cs).takeWhile Text.isBlank = c :: bs := by
    rw [List.takeWhile_append_of_pos hb]
    cases cs with
    | nil => simp
    | cons d cs => simp [hcs d rfl]
  rw [List.cons_append] at htake ⊢
  simp only [first?, hb c List.mem_cons_self, if_true, htake]

theorem first?_whitespace (h : first? cs = some (.whitespace, text)) :
    text = cs.takeWhile Text.isBlank := by
  unfold first? at h
  split at h
  · cases h
  · split at h
    · cases h
      rfl
    · split at h
      · next hs =>
        cases h
        exact absurd hs (symbol?_ne_whitespace _)
      · split at h <;> cases h

theorem head?_of_first?_whitespace (h : first? (text ++ cs) = some (.whitespace, text)) :
    ∀ c ∈ cs.head?, Text.isBlank c = false := by
  have hdrop := List.takeWhile_append_dropWhile (p := Text.isBlank) (l := text ++ cs)
  rw [← first?_whitespace h, List.append_cancel_left_eq] at hdrop
  have hhead := List.head?_dropWhile_not Text.isBlank (text ++ cs)
  rw [hdrop] at hhead
  intro c hc
  rw [Option.mem_def.mp hc] at hhead
  simpa using hhead

end Lexeme

theorem Scanner.next?_of_items {s : Scanner} {item : Except EquationError Token}
    {items : List (Except EquationError Token)} (h : s.items = item :: items) :
    ∃ s', s.next? = some (item, s') ∧ s'.items = items := by
  cases hn : s.next? with
  | none => simp [items_of_next?_eq_none hn] at h
  | some next =>
    rw [items_of_next? hn] at h
    cases h
    exact ⟨next.2, rfl, rfl⟩

namespace Refused

theorem ne_nil (h : Refused cs ks c) : cs ≠ [] := by
  cases h with
  | here h => exact List.cons_ne_nil _ _
  | lexeme hl h => exact List.append_ne_nil_of_left_ne_nil (Lexeme.first?_ne_nil hl) _

theorem append (hr : Lexeme.Ends rest) (h : Refused cs ks c) : Refused (cs ++ rest) ks c := by
  induction h with
  | here h => exact .here (Lexeme.first?_append_eq_none hr h)
  | @lexeme text cs kind ks c hl h ih =>
    have happ : Lexeme.first? (text ++ (cs ++ rest)) = some (kind, text) := by
      cases hk : kind.isWhitespace with
      | true =>
        obtain rfl : kind = .whitespace := by cases kind <;> simp_all [Kind.isWhitespace]
        have hhead : ∀ d ∈ (cs ++ rest).head?, Text.isBlank d = false := by
          rw [List.head?_append_of_ne_nil _ h.ne_nil]
          exact Lexeme.head?_of_first?_whitespace hl
        exact Lexeme.first?_blanks (Lexeme.all_isBlank_of_first? hl) (Lexeme.first?_ne_nil hl) hhead
      | false =>
        rw [← List.append_assoc]
        exact Lexeme.first?_append hr hk hl
    rw [List.append_assoc]
    exact .lexeme happ ih

theorem of_items {s : Scanner} {ts : List Token} {p : Option Nat}
    (h : s.items = ts.map .ok ++ [.error ⟨.unknownCharacter c, p⟩]) :
    Refused s.rest (significant ts) c := by
  induction ts generalizing s with
  | nil =>
    obtain ⟨s', hn, -⟩ := Scanner.next?_of_items h
    obtain ⟨d, cs, hs, hf, he, -⟩ := Scanner.next?_error hn
    cases he
    rw [hs] at hf ⊢
    exact .here hf
  | cons t ts ih =>
    obtain ⟨s', hn, hitems⟩ := Scanner.next?_of_items h
    have hrest := ih hitems
    unfold Scanner.next? at hn
    split at hn
    · cases hn
    · split at hn
      · next kind text hl =>
        cases hn
        have hcs := Lexeme.append_drop_of_first? hl
        rw [← hcs] at hl
        have hlexeme := Refused.lexeme hl hrest
        rw [hcs] at hlexeme
        cases hk : kind.isWhitespace <;> simpa [significant, hk] using hlexeme
      · cases hn

theorem equals_mem (h : Refused cs ks c) (hk : .equals ∈ ks) : '=' ∈ cs := by
  induction h with
  | here h => cases hk
  | @lexeme text cs kind ks c hl h ih =>
    split at hk
    · exact List.mem_append_right _ (ih hk)
    · rcases List.mem_cons.mp hk with rfl | hk
      · exact List.mem_append_left _ (Lexeme.equals_mem_of_first? hl)
      · exact List.mem_append_right _ (ih hk)

theorem items (h : Refused cs ks c) (column : Nat) :
    ∃ (ts : List Token) (p : Nat), Scanner.items ⟨cs, column⟩ =
      ts.map .ok ++ [.error ⟨.unknownCharacter c, some p⟩] ∧ significant ts = ks := by
  induction h generalizing column with
  | @here c cs h =>
    refine ⟨[], column, ?_, rfl⟩
    have hnext : Scanner.next? ⟨c :: cs, column⟩ =
        some (.error ⟨.unknownCharacter c, some column⟩, ⟨[], column⟩) := by
      simp only [Scanner.next?, h]
    rw [Scanner.items_of_next? hnext, Scanner.items_nil]
    rfl
  | @lexeme text cs kind ks c hl h ih =>
    obtain ⟨ts, p, hts, hks⟩ := ih (column + text.length)
    refine ⟨⟨kind, String.ofList text, column⟩ :: ts, p, ?_, ?_⟩
    · rw [Scanner.items_cons column kind text hl, List.drop_left, hts]
      rfl
    · cases hk : kind.isWhitespace <;> simp_all [significant]

end Refused

theorem lexed_or_refused (s : Scanner) :
    (∃ ks, Lexed s.rest ks) ∨ ∃ ks c, Refused s.rest ks c := by
  obtain ⟨ts, rest, -, ⟨-, hitems⟩ | ⟨c, cs, -, -, hitems⟩⟩ := s.takes_items
  · exact .inl ⟨_, Lexed.of_items hitems⟩
  · exact .inr ⟨_, _, Refused.of_items hitems⟩

theorem exists_trim (cs : List Char) :
    ∃ before after, cs = before ++ (Text.trim cs ++ after) ∧
      (∀ c ∈ before, Text.isBlank c = true) ∧ (∀ c ∈ after, Text.isBlank c = true) ∧
      ∀ c ∈ (Text.trim cs).head?, Text.isBlank c = false := by
  have blanks (ds : List Char) : ∀ c ∈ ds.takeWhile Text.isBlank, Text.isBlank c = true :=
    fun c hc => List.mem_takeWhile_imp hc
  have hstart := List.takeWhile_append_dropWhile (p := Text.isBlank) (l := cs)
  have hhead := List.head?_dropWhile_not Text.isBlank cs
  rw [Text.trim, Text.trimStart]
  generalize cs.dropWhile Text.isBlank = ds at hstart hhead
  have hend : Text.trimEnd ds ++ (ds.reverse.takeWhile Text.isBlank).reverse = ds := by
    rw [Text.trimEnd, ← List.reverse_append, List.takeWhile_append_dropWhile, List.reverse_reverse]
  refine ⟨cs.takeWhile Text.isBlank, (ds.reverse.takeWhile Text.isBlank).reverse,
    by rw [hend, hstart], blanks cs, fun c hc => blanks _ c (List.mem_reverse.mp hc), ?_⟩
  intro c hc
  rw [← hend, List.head?_append, Option.mem_def.mp hc] at hhead
  simpa using hhead

theorem sourceForm_of_not_mem {source : String} (h : '=' ∉ source.toList) :
    Report.sourceForm source = String.ofList (Text.trim source.toList) ++ " = 0" := by
  obtain ⟨before, after, hsource, -⟩ := exists_trim source.toList
  refine if_neg fun hmem => h ?_
  rw [List.contains_iff_mem] at hmem
  rw [hsource]
  simp [hmem]

/-- The text with the blanks around it left out and `= 0` behind it is read as the text is, and
then goes on with a zero on the other side. -/
theorem reads_sourceForm {source : String} (h : '=' ∉ source.toList) :
    (∃ ks, Lexed source.toList ks ∧ .equals ∉ ks ∧
      Lexed (Report.sourceForm source).toList (ks ++ [.equals, .number 0])) ∨
    ∃ ks c, Refused source.toList ks c ∧ .equals ∉ ks ∧
      Refused (Report.sourceForm source).toList ks c := by
  obtain ⟨before, after, hsource, hb, ha, hhead⟩ := exists_trim source.toList
  have hform : (Report.sourceForm source).toList =
      Text.trim source.toList ++ ' ' :: '=' :: ' ' :: ['0'] := by
    rw [sourceForm_of_not_mem h, String.toList_append, String.toList_ofList]
    rfl
  rw [hform]
  generalize Text.trim source.toList = trimmed at hsource hhead
  rw [hsource] at h ⊢
  have hno : '=' ∉ trimmed := fun hmem => h (by simp [hmem])
  have hends := Lexeme.ends_of_isBlank ha
  rcases lexed_or_refused ⟨trimmed, 0⟩ with ⟨ks, hl⟩ | ⟨ks, c, hr⟩
  · have hfirst : Lexeme.first? (['0'] ++ []) = some (.number 0, ['0']) := rfl
    have hzero : Lexed ['0'] [.number 0] := .token rfl hfirst .nil
    have hafter : Lexed after [] := by simpa using Lexed.nil.blanks ha
    have happ := hl.append hends hafter
    rw [List.append_nil] at happ
    exact .inl ⟨ks, happ.blanks hb, mt hl.equals_mem hno, hl.equation hzero⟩
  · have hne : trimmed ≠ [] := hr.ne_nil
    have happ : Refused (trimmed ++ after) ks c := hr.append hends
    have hfull : Refused (before ++ (trimmed ++ after)) ks c := by
      by_cases hb' : before = []
      · rwa [hb']
      · have hfirst : ∀ d ∈ (trimmed ++ after).head?, Text.isBlank d = false := by
          rwa [List.head?_append_of_ne_nil _ hne]
        exact .lexeme (Lexeme.first?_blanks hb hb' hfirst) happ
    have hform : Refused (trimmed ++ ' ' :: '=' :: ' ' :: ['0']) ks c :=
      hr.append (by simp [Lexeme.Ends])
    exact .inr ⟨ks, c, hfull, mt hr.equals_mem hno, hform⟩

end Quadratics
