import Mathlib.Data.List.Forall2
import Mathlib.Data.List.TakeWhile
import Quadratics.Proofs.Task.Lines
/-! What a line of a task file says, and how its lines make up sections. -/
namespace Quadratics.Task

def IsGap (cs : List Char) : Prop := ∀ c ∈ cs, c = ' ' ∨ c = '\t'

/-- A letter or an underscore, and then digits as well. -/
def IsIdentifier (cs : List Char) : Prop :=
  ∃ c rest, cs = c :: rest ∧ (c.isAlpha = true ∨ c = '_') ∧
    ∀ d ∈ rest, d.isAlphanum = true ∨ d = '_'

/-- A line with nothing on it but a name. -/
def IsTitle (line name : List Char) : Prop :=
  ∃ before after, IsGap before ∧ IsIdentifier name ∧ IsGap after ∧ line = before ++ name ++ after

/-- A line with a key, a colon and anything behind it. -/
def IsPair (line key rest : List Char) : Prop :=
  ∃ before after, IsGap before ∧ IsIdentifier key ∧ IsGap after ∧
    line = before ++ key ++ after ++ ':' :: rest

def Gives (line : List Char) (pair : String × String) : Prop :=
  ∃ key rest, IsPair line key rest ∧ pair = (String.ofList key, String.ofList (Text.trim rest))

/-- Titles, each with the pairs up to the next one, of which there is at least one. -/
inductive Sections : List (List Char) → List Section → Prop where
  | nil : Sections [] []
  | cons {title name : List Char} {body lines : List (List Char)}
      {pairs : List (String × String)} {document : List Section} (ht : IsTitle title name)
      (hb : List.Forall₂ Gives body pairs) (hne : body ≠ []) (h : Sections lines document) :
      Sections (title :: (body ++ lines)) ((String.ofList name, pairs) :: document)

/-- The first line is a title, all lines are titles or pairs, and a pair follows every title. -/
structure Orderly (lines : List (List Char)) : Prop where
  first : ∀ line ∈ lines.head?, ∃ name, IsTitle line name
  each : ∀ line ∈ lines, (∃ name, IsTitle line name) ∨ ∃ key rest, IsPair line key rest
  followed : ∀ before title after, lines = before ++ title :: after →
    (∃ name, IsTitle title name) → ∃ line ∈ after.head?, ∃ key rest, IsPair line key rest

variable {line key name rest : List Char}

theorem isGap_iff {cs : List Char} : IsGap cs ↔ ∀ c ∈ cs, isSpace c = true := by
  simp [IsGap, isSpace]

theorem IsIdentifier.cons (h : IsIdentifier key) :
    ∃ c cs, key = c :: cs ∧ isKeyStart c = true ∧ ∀ d ∈ key, isKeyCharacter d = true := by
  obtain ⟨c, cs, rfl, hc, hcs⟩ := h
  refine ⟨c, cs, rfl, by simpa [isKeyStart] using hc, List.forall_mem_cons.mpr ⟨?_, ?_⟩⟩
  · rcases hc with hc | rfl
    · simp [isKeyCharacter, Char.isAlphanum, hc]
    · rfl
  · simpa [isKeyCharacter] using hcs

theorem isKeyCharacter_of_isSpace {c : Char} (h : isSpace c = true) :
    isKeyCharacter c = false ∧ isKeyStart c = false := by
  simp only [isSpace, Bool.or_eq_true, beq_iff_eq] at h
  rcases h with rfl | rfl <;> decide

theorem span_append {α : Type} {p : α → Bool} {us vs : List α} (hu : ∀ c ∈ us, p c = true)
    (hv : ∀ c ∈ vs.head?, p c = false) :
    (us ++ vs).takeWhile p = us ∧ (us ++ vs).dropWhile p = vs := by
  rw [List.takeWhile_append_of_pos hu, List.dropWhile_append_of_pos hu]
  cases vs with
  | nil => simp
  | cons c vs => simp [hv c rfl]

/-- The key of a line is all of its first identifier. -/
theorem key?_append {before after : List Char} (hb : IsGap before) (hk : IsIdentifier key)
    (ha : IsGap after)
    (hr : ∀ c ∈ rest.head?, isSpace c = false ∧ isKeyCharacter c = false) :
    key? (before ++ key ++ after ++ rest) = some (key, rest) := by
  rw [isGap_iff] at hb ha
  obtain ⟨c, cs, hcons, hc, hall⟩ := hk.cons
  have hfirst : ∀ d ∈ (key ++ (after ++ rest)).head?, isSpace d = false := by
    intro d hd
    rw [hcons, List.cons_append] at hd
    cases hd
    cases hs : isSpace c
    · rfl
    · simp [(isKeyCharacter_of_isSpace hs).2] at hc
  have hnext : ∀ d ∈ (after ++ rest).head?, isKeyCharacter d = false := by
    intro d hd
    cases after with
    | nil => exact (hr d hd).2
    | cons e after =>
      cases hd
      exact (isKeyCharacter_of_isSpace (ha d List.mem_cons_self)).1
  have hstart : (before ++ key ++ after ++ rest).dropWhile isSpace = key ++ (after ++ rest) := by
    rw [List.append_assoc, List.append_assoc, (span_append hb hfirst).2]
  obtain ⟨htake, hdrop⟩ := span_append hall hnext
  have hrest := (span_append ha fun d hd => (hr d hd).1).2
  rw [key?, hstart, htake, hdrop, hrest, hcons]
  simp [hc]

theorem key?_eq_some (h : key? line = some (key, rest)) :
    ∃ before after, IsGap before ∧ IsIdentifier key ∧ IsGap after ∧
      line = before ++ key ++ after ++ rest := by
  have hgap (cs : List Char) : IsGap (cs.takeWhile isSpace) :=
    isGap_iff.mpr fun c hc => List.mem_takeWhile_imp hc
  cases hstart : line.dropWhile isSpace with
  | nil => simp [key?, hstart] at h
  | cons c cs =>
    simp only [key?, hstart, Option.ite_none_right_eq_some, Option.some.injEq, Prod.mk.injEq] at h
    obtain ⟨hc, rfl, rfl⟩ := h
    refine ⟨line.takeWhile isSpace, ((c :: cs).dropWhile isKeyCharacter).takeWhile isSpace,
      hgap line, ?_, hgap _, ?_⟩
    · have hword : isKeyCharacter c = true := by
        simp only [isKeyStart, isKeyCharacter, Char.isAlphanum, Bool.or_eq_true] at hc ⊢
        tauto
      refine ⟨c, cs.takeWhile isKeyCharacter, by rw [List.takeWhile_cons, if_pos hword],
        by simpa [isKeyStart] using hc, fun d hd => ?_⟩
      simpa [isKeyCharacter] using List.mem_takeWhile_imp hd
    · rw [List.append_assoc _ _ (List.dropWhile _ _), List.takeWhile_append_dropWhile,
        List.append_assoc, List.takeWhile_append_dropWhile, ← hstart,
        List.takeWhile_append_dropWhile]

theorem IsTitle.key? (h : IsTitle line name) : key? line = some (name, []) := by
  obtain ⟨before, after, hb, hk, ha, rfl⟩ := h
  rw [← List.append_nil (before ++ name ++ after)]
  exact key?_append hb hk ha (by simp)

theorem IsPair.key? (h : IsPair line key rest) : key? line = some (key, ':' :: rest) := by
  obtain ⟨before, after, hb, hk, ha, rfl⟩ := h
  exact key?_append hb hk ha (by simp [isSpace, isKeyCharacter])

theorem IsTitle.not_gives (h : IsTitle line name) (pair : String × String) : ¬ Gives line pair := by
  rintro ⟨key, rest, hp, -⟩
  cases h.key?.symm.trans hp.key?

theorem entry_title (h : IsTitle line name) : entry line = .title (String.ofList name) := by
  rw [entry, h.key?]
  rfl

theorem span_line {cs : List Char} (hr : '\r' ∉ cs) :
    cs.takeWhile (· ≠ '\r') = cs ∧ cs.dropWhile (· ≠ '\r') = [] := by
  have hall : ∀ c ∈ cs, decide (c ≠ '\r') = true := fun c hc =>
    decide_eq_true (ne_of_mem_of_not_mem hc hr)
  have hspan := span_append hall fun c (hc : c ∈ [].head?) => nomatch hc
  rwa [List.append_nil] at hspan

theorem entry_pair (hr : '\r' ∉ line) (h : IsPair line key rest) :
    entry line = .pair (String.ofList key) (String.ofList (Text.trim rest)) [] := by
  have hrest : '\r' ∉ rest := by
    obtain ⟨before, after, -, -, -, rfl⟩ := h
    exact fun hmem => hr (by simp [hmem])
  obtain ⟨htake, hdrop⟩ := span_line hrest
  rw [entry, h.key?]
  simp only [htake, hdrop]

theorem isTitle_of_entry {title : String} (hr : '\r' ∉ line) (h : entry line = .title title) :
    ∃ name, title = String.ofList name ∧ IsTitle line name := by
  unfold entry at h
  split at h
  · cases h
  · cases h
  · next key rest hne hkey =>
    split at h
    · next hend =>
      cases h
      obtain ⟨before, after, hb, hk, ha, rfl⟩ := key?_eq_some hkey
      have hrest : rest = [] := by
        rw [endsLine, Bool.or_eq_true, List.isEmpty_iff, beq_iff_eq] at hend
        refine hend.resolve_right fun hr' => hr ?_
        simp [hr']
      exact ⟨key, rfl, before, after, hb, hk, ha, by rw [hrest, List.append_nil]⟩
    · cases h

theorem gives_of_entry {word value : String} {left : List Char} (hr : '\r' ∉ line)
    (h : entry line = .pair word value left) : left = [] ∧ Gives line (word, value) := by
  unfold entry at h
  split at h
  · cases h
  · next key rest hkey =>
    cases h
    obtain ⟨before, after, hb, hk, ha, rfl⟩ := key?_eq_some hkey
    have hrest : '\r' ∉ rest := fun hmem => hr (by simp [hmem])
    obtain ⟨htake, hdrop⟩ := span_line hrest
    rw [htake, hdrop]
    exact ⟨rfl, key, rest, ⟨before, after, hb, hk, ha, rfl⟩, rfl⟩
  · split at h
    · cases h
    · cases h

end Quadratics.Task
