import Quadratics.Proofs.Token.Trimming
/-! Blanks between tokens and the letter case of variables change none of the tokens. No lexeme
comes to be across a gap, and none gets longer where nothing new is behind it. -/
namespace Quadratics

open Token (Kind)
open Infix (significant)

variable {text rest rest' word more cs bs : List Char} {kind : Kind} {c : Char} {t : Token}
  {ts : List Token} {s s' : Scanner}

theorem IsNumeral.append_singleton (h : IsNumeral word) (h' : IsNumeral (word ++ c :: more)) :
    IsNumeral (word ++ [c]) where
  chars := fun d hd => h'.chars d (by simp at hd ⊢; tauto)
  points := by
    have hsub : (word ++ [c]).Sublist (word ++ c :: more) := by simp
    exact (hsub.count_le '.').trans h'.points
  digit := by
    obtain ⟨d, hd, hdigit⟩ := h.digit
    exact ⟨d, List.mem_append_left _ hd, hdigit⟩

namespace Lexeme

/-- The text behind may change if no character comes up that a numeral can go on with. -/
theorem numeral_replace (h : numeral (text ++ rest) = text) (hne : text ≠ [])
    (hr : ∀ c ∈ rest'.head?, c ∈ rest.head? ∨ c.isDigit = false ∧ c ≠ '.') :
    numeral (text ++ rest') = text := by
  have hnum : IsNumeral text := by
    have hn := isNumeral_numeral (h.symm ▸ hne)
    rwa [h] at hn
  have hlength := length_le_numeral hnum (List.prefix_append text rest')
  obtain ⟨more, hmore⟩ : text <+: numeral (text ++ rest') :=
    List.prefix_of_prefix_length_le (List.prefix_append text rest') (numeral_isPrefix _) hlength
  cases more with
  | nil => rw [← hmore, List.append_nil]
  | cons c more =>
    exfalso
    have hlong : IsNumeral (text ++ c :: more) := by
      rw [hmore]
      exact isNumeral_numeral (by rw [← hmore]; simp)
    have hprefix := numeral_isPrefix (text ++ rest')
    rw [← hmore, List.prefix_append_right_inj] at hprefix
    obtain ⟨behind, rfl⟩ := hprefix
    rcases hr c (by simp) with hc | ⟨hdigit, hpoint⟩
    · -- the numeral would have been longer before
      obtain ⟨behind', rfl⟩ := List.head?_eq_some_iff.mp hc
      have hle := length_le_numeral (hnum.append_singleton hlong)
        (show text ++ [c] <+: text ++ c :: behind' by simp)
      rw [h, List.length_append, List.length_singleton] at hle
      omega
    · rcases hlong.chars c (by simp) with hc | hc
      · rw [hdigit] at hc
        cases hc
      · exact hpoint hc

theorem first?_replace (h : first? (text ++ rest) = some (kind, text))
    (hk : kind.isWhitespace = false)
    (hr : ∀ c ∈ rest'.head?, c ∈ rest.head? ∨ c.isDigit = false ∧ c ≠ '.') :
    first? (text ++ rest') = some (kind, text) := by
  have hne := first?_ne_nil h
  obtain ⟨c, us, rfl⟩ := List.exists_cons_of_ne_nil hne
  have hn (hc : numeral (c :: us ++ rest) = c :: us) : numeral (c :: us ++ rest') = c :: us :=
    numeral_replace hc hne hr
  rw [List.cons_append] at h ⊢
  simp only [first?, List.cons_append] at h hn ⊢
  split at h
  · obtain ⟨rfl, -⟩ := Prod.mk.inj (Option.some.inj h)
    cases hk
  · next hb =>
    rw [if_neg hb]
    split at h
    · simp only [h]
    · split at h
      · cases h
      · obtain ⟨rfl, htext⟩ := Prod.mk.inj (Option.some.inj h)
        simp only [htext, hn htext]

end Lexeme

theorem Scanner.first?_of_next? (h : s.next? = some (.ok t, s')) :
    Lexeme.first? (t.chars ++ s'.rest) = some (t.kind, t.chars) := by
  obtain ⟨-, -, hrest, -⟩ := next?_ok h
  rw [← hrest]
  unfold next? at h
  split at h
  · cases h
  · split at h
    · next kind text hl =>
      cases h
      rw [hl, Token.chars, String.toList_ofList]
    · cases h

/-- The texts of tokens in their order, any blanks before, between and behind them, and each
variable in either letter case. -/
inductive Respaced : List Token → List Char → Prop where
  | nil {bs : List Char} (hb : ∀ c ∈ bs, Text.isBlank c = true) : Respaced [] bs
  | token (bs text : List Char) {cs : List Char} {t : Token} {ts : List Token}
      (hb : ∀ c ∈ bs, Text.isBlank c = true)
      (ht : text = t.chars ∨ t.kind = .var ∧ (text = ['x'] ∨ text = ['X']))
      (h : Respaced ts cs) : Respaced (t :: ts) (bs ++ (text ++ cs))

namespace Respaced

theorem head? (h : Respaced ts cs) (hs : s.items = ts.map .ok) :
    ∀ c ∈ cs.head?, c ∈ s.rest.head? ∨ c.isDigit = false ∧ c ≠ '.' := by
  have blank {bs : List Char} (hb : ∀ c ∈ bs, Text.isBlank c = true) :
      ∀ c ∈ bs.head?, c.isDigit = false ∧ c ≠ '.' := Lexeme.ends_of_isBlank hb
  cases h with
  | nil hb => exact fun c hc => .inr (blank hb c hc)
  | @token bs text cs t ts hb ht h =>
    cases bs with
    | cons b bs => exact fun c hc => .inr (blank hb c hc)
    | nil =>
      obtain ⟨s', hn, -⟩ := Scanner.next?_of_items hs
      obtain ⟨-, hlongest, hrest, -⟩ := Scanner.next?_ok hn
      have hne := hlongest.isLexeme.ne_nil
      intro c hc
      rcases ht with rfl | ⟨-, rfl | rfl⟩
      · left
        rw [hrest, List.head?_append_of_ne_nil _ hne]
        rwa [List.nil_append, List.head?_append_of_ne_nil _ hne] at hc
      · cases hc
        exact .inr (by decide)
      · cases hc
        exact .inr (by decide)

theorem lexed (h : Respaced ts cs) (hs : s.items = ts.map .ok) : Lexed cs (significant ts) := by
  induction h generalizing s with
  | nil hb => simpa [significant] using Lexed.nil.blanks hb
  | @token bs text cs t ts hb ht h ih =>
    obtain ⟨s', hn, hitems⟩ := Scanner.next?_of_items hs
    have hfirst := Scanner.first?_of_next? hn
    have hrest := ih hitems
    refine Lexed.blanks hb ?_
    cases hk : t.kind.isWhitespace with
    | true =>
      have hblank : t.kind = .whitespace := by
        cases hkind : t.kind <;> simp [hkind, Kind.isWhitespace] at hk ⊢
      obtain rfl : text = t.chars := ht.resolve_right fun hv => by simp [hv.1] at hblank
      rw [hblank] at hfirst
      simpa [significant, hk] using hrest.blanks (Lexeme.all_isBlank_of_first? hfirst)
    | false =>
      have htoken : Lexeme.first? (text ++ cs) = some (t.kind, text) := by
        rcases ht with rfl | ⟨hv, rfl | rfl⟩
        · exact Lexeme.first?_replace hfirst hk (h.head? hitems)
        · rw [hv]
          rfl
        · rw [hv]
          rfl
      simpa [significant, hk] using Lexed.token hk htoken hrest

end Respaced

end Quadratics
