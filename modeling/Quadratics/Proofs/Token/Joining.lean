import Quadratics.Proofs.Token.Numerals
/-! Texts put together: the tokens of a text are those of its parts where no lexeme reaches across,
and blanks do not matter. -/
namespace Quadratics

open Token (Kind)
open Infix (significant)

namespace Lexeme

variable {cs rest text : List Char} {kind : Kind}

theorem numeral_append (hr : Ends rest) (cs : List Char) : numeral (cs ++ rest) = numeral cs := by
  have hdigit : ∀ c ∈ rest.head?, c.isDigit = false := fun c hc => (hr c hc).1
  obtain ⟨htake, hdrop⟩ := takeWhile_append_of_head? hdigit cs
  rw [numeral, numeral, htake, hdrop]
  cases hp : cs.dropWhile Char.isDigit with
  | nil =>
    simp only [List.nil_append]
    split
    · exact absurd rfl (hr '.' rfl).2
    · rfl
  | cons c places =>
    by_cases hc : c = '.'
    · subst hc
      simp [(takeWhile_append_of_head? hdigit places).1]
    · simp [hc]

theorem first?_append (hr : Ends rest) (hk : kind.isWhitespace = false)
    (h : first? cs = some (kind, text)) : first? (cs ++ rest) = some (kind, text) := by
  cases cs with
  | nil => cases h
  | cons c cs =>
    have hn := numeral_append hr (c :: cs)
    rw [List.cons_append] at hn
    simp only [first?, List.cons_append, hn] at h ⊢
    split at h
    · cases h
      cases hk
    · next hb => simpa [hb] using h

theorem numeral_isPrefix (cs : List Char) : numeral cs <+: cs := by
  rw [numeral]
  have hcs := List.takeWhile_append_dropWhile (p := Char.isDigit) (l := cs)
  split
  · next rest hd =>
    simp only
    split
    · exact List.nil_prefix
    · refine ⟨rest.dropWhile Char.isDigit, ?_⟩
      rw [List.append_assoc, List.cons_append, List.takeWhile_append_dropWhile, ← hd, hcs]
  · exact List.takeWhile_prefix _

theorem append_drop_of_first? (h : first? cs = some (kind, text)) :
    text ++ cs.drop text.length = cs := by
  apply List.prefix_iff_eq_append.mp
  unfold first? at h
  split at h
  · cases h
  · split at h
    · cases h
      exact List.takeWhile_prefix _
    · split at h
      · cases h
        exact ⟨_, rfl⟩
      · split at h
        · cases h
        · cases h
          exact numeral_isPrefix _

theorem symbol?_ne_whitespace (c : Char) : symbol? c ≠ some .whitespace := by
  unfold symbol?
  split <;> simp

theorem all_isBlank_of_first? (h : first? cs = some (.whitespace, text)) :
    ∀ c ∈ text, Text.isBlank c = true := by
  unfold first? at h
  split at h
  · cases h
  · split at h
    · cases h
      exact List.all_eq_true.mp List.all_takeWhile
    · split at h
      · next hs =>
        cases h
        exact absurd hs (symbol?_ne_whitespace _)
      · split at h <;> cases h

theorem equals_mem_of_first? (h : first? cs = some (.equals, text)) : '=' ∈ text := by
  unfold first? at h
  split at h
  · cases h
  · split at h
    · cases h
    · split at h
      · next hs =>
        cases h
        unfold symbol? at hs
        split at hs <;> first | exact List.mem_cons_self | cases hs
      · split at h <;> cases h

theorem dropWhile_of_first? (h : first? cs = some (kind, text)) (hk : kind.isWhitespace = false) :
    cs.dropWhile Text.isBlank = cs := by
  cases cs with
  | nil => rfl
  | cons c cs =>
    unfold first? at h
    split at h
    · cases h
    · next hcs =>
      cases hcs
      split at h
      · cases h
        cases hk
      · next hb => simp [hb]

end Lexeme

theorem Scans.of_dropWhile {cs : List Char} {ks : List Kind}
    (h : Scans (cs.dropWhile Text.isBlank) ks) : Scans cs ks := by
  have hcs := List.takeWhile_append_dropWhile (p := Text.isBlank) (l := cs)
  cases cs with
  | nil => exact h
  | cons c cs =>
    cases hb : Text.isBlank c with
    | false => simpa [hb] using h
    | true =>
      have hl : Lexeme.first? (c :: cs) = some (.whitespace, (c :: cs).takeWhile Text.isBlank) := by
        simp [Lexeme.first?, hb]
      rw [← hcs]
      exact Scans.lexeme _ .whitespace (by rwa [hcs]) h

/-- The text is made of blanks and of the lexemes of these tokens. -/
inductive Lexed : List Char → List Kind → Prop where
  | nil : Lexed [] []
  | blank {c : Char} {cs : List Char} {ks : List Kind} (hb : Text.isBlank c = true)
      (h : Lexed cs ks) : Lexed (c :: cs) ks
  | token {text cs : List Char} {kind : Kind} {ks : List Kind} (hk : kind.isWhitespace = false)
      (hl : Lexeme.first? (text ++ cs) = some (kind, text)) (h : Lexed cs ks) :
      Lexed (text ++ cs) (kind :: ks)

namespace Lexed

variable {cs rest : List Char} {ks ls : List Kind}

theorem blanks {bs : List Char} (hb : ∀ c ∈ bs, Text.isBlank c = true) (h : Lexed cs ks) :
    Lexed (bs ++ cs) ks := by
  induction bs with
  | nil => exact h
  | cons c bs ih =>
    obtain ⟨hc, hbs⟩ := List.forall_mem_cons.mp hb
    exact .blank hc (ih hbs)

theorem of_items {s : Scanner} {ts : List Token} (h : s.items = ts.map .ok) :
    Lexed s.rest (significant ts) := by
  induction s using Scanner.items.induct generalizing ts with
  | case1 s hn =>
    rw [Scanner.items_of_next?_eq_none hn] at h
    obtain rfl := List.map_eq_nil_iff.mp h.symm
    unfold Scanner.next? at hn
    split at hn
    · next hs =>
      rw [hs]
      exact .nil
    · split at hn <;> cases hn
  | case2 s item s' hn ih =>
    rw [Scanner.items_of_next? hn] at h
    obtain ⟨t, ts, rfl, rfl, hts⟩ := List.map_eq_cons_iff.mp h.symm
    have hrest := ih hts.symm
    unfold Scanner.next? at hn
    split at hn
    · cases hn
    · split at hn
      · next kind text hl =>
        cases hn
        have hcs := Lexeme.append_drop_of_first? hl
        cases hk : kind.isWhitespace with
        | true =>
          obtain rfl : kind = .whitespace := by cases kind <;> simp_all [Kind.isWhitespace]
          have hb := hrest.blanks (Lexeme.all_isBlank_of_first? hl)
          rw [hcs] at hb
          exact hb
        | false =>
          rw [← hcs] at hl
          have ht := Lexed.token hk hl hrest
          rw [hcs] at ht
          simpa [significant, hk] using ht
      · cases hn

/-- No lexeme reaches across if the second text does not continue a numeral. -/
theorem append (hr : Lexeme.Ends rest) (h : Lexed cs ks) (hrest : Lexed rest ls) :
    Lexed (cs ++ rest) (ks ++ ls) := by
  induction h with
  | nil => exact hrest
  | blank hb h ih => exact .blank hb ih
  | token hk hl h ih =>
    have hl' := Lexeme.first?_append hr hk hl
    rw [List.append_assoc] at hl' ⊢
    exact .token hk hl' ih

theorem symbol {c : Char} {kind : Kind} (hs : Lexeme.symbol? c = some kind)
    (hb : Text.isBlank c = false) (h : Lexed cs ks) : Lexed (c :: cs) (kind :: ks) := by
  have hl : Lexeme.first? ([c] ++ cs) = some (kind, [c]) := by simp [Lexeme.first?, hb, hs]
  refine token ?_ hl h
  cases kind with
  | whitespace => exact absurd hs (Lexeme.symbol?_ne_whitespace c)
  | number | var | operator | leftParen | rightParen | equals => rfl

theorem scans (h : Lexed cs ks) : Scans cs ks := by
  apply Scans.of_dropWhile
  induction h with
  | nil => exact Scans.nil
  | blank hb h ih => simpa [hb] using ih
  | @token text cs kind ks hk hl h ih =>
    rw [Lexeme.dropWhile_of_first? hl hk]
    have ht := Scans.lexeme text kind hl (Scans.of_dropWhile ih)
    simpa [hk] using ht

theorem equals_mem (h : Lexed cs ks) (hk : .equals ∈ ks) : '=' ∈ cs := by
  induction h with
  | nil => cases hk
  | blank hb h ih => exact List.mem_cons_of_mem _ (ih hk)
  | @token text cs kind ks _ hl h ih =>
    rcases List.mem_cons.mp hk with rfl | hk
    · exact List.mem_append_left _ (Lexeme.equals_mem_of_first? hl)
    · exact List.mem_append_right _ (ih hk)

theorem equation (hl : Lexed cs ks) (hr : Lexed rest ls) :
    Lexed (cs ++ ' ' :: '=' :: ' ' :: rest) (ks ++ .equals :: ls) :=
  hl.append (by simp [Lexeme.Ends])
    (.blank (by decide) (.symbol rfl (by decide) (.blank (by decide) hr)))

end Lexed
end Quadratics
