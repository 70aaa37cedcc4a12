import Mathlib.Data.List.Basic
import Quadratics.Task.Document
/-! The lines of a task file that say something. -/
namespace Quadratics.Task

/-- A carriage return stands only in front of a line feed. -/
def CarriagesEnd (cs : List Char) : Prop :=
  ∀ before after, cs = before ++ '\r' :: after → after.head? = some '\n'

theorem carriagesEnd_cons (c : Char) (cs : List Char) :
    CarriagesEnd (c :: cs) ↔ (c = '\r' → cs.head? = some '\n') ∧ CarriagesEnd cs := by
  constructor
  · intro h
    refine ⟨?_, fun before after hcs => h (c :: before) after (by rw [hcs]; rfl)⟩
    rintro rfl
    exact h [] cs rfl
  · rintro ⟨hc, hcs⟩ before after h
    rcases List.cons_eq_append_iff.mp h with ⟨rfl, hcons⟩ | ⟨before, rfl, happ⟩
    · cases hcons
      exact hc rfl
    · exact hcs before after happ

instance : DecidablePred CarriagesEnd
  | [] => isTrue fun before after h => by simp at h
  | c :: cs =>
    have := instDecidablePredListCharCarriagesEnd cs
    decidable_of_iff' _ (carriagesEnd_cons c cs)

def marks : List (List Char) := [['/', '/'], ['#'], ['%'], [';']]

/-- A blank line or a comment. -/
def Skipped (line : List Char) : Prop :=
  Text.trim line = [] ∨ ∃ mark ∈ marks, mark <+: Text.trim line

instance : DecidablePred Skipped := fun line =>
  inferInstanceAs (Decidable (Text.trim line = [] ∨ ∃ mark ∈ marks, mark <+: Text.trim line))

/-- The lines of a text that are not skipped, without the ends of the lines. -/
def kept (text : String) : List (List Char) :=
  ((text.toList.filter (· ≠ '\r')).splitOn '\n').filter (¬ Skipped ·)

theorem isComment_iff (cs : List Char) : isComment cs = true ↔ ∃ mark ∈ marks, mark <+: cs := by
  unfold isComment
  split
  · simp [marks]
  · simp [marks]
  · simp [marks]
  · simp [marks]
  · next hslashes hhash hpercent hsemicolon =>
    refine ⟨fun h => absurd h (by decide), ?_⟩
    rintro ⟨mark, hmark, rest, rfl⟩
    simp only [marks, List.mem_cons, List.not_mem_nil, or_false] at hmark
    rcases hmark with rfl | rfl | rfl | rfl
    · exact absurd rfl (hslashes rest)
    · exact absurd rfl (hhash rest)
    · exact absurd rfl (hpercent rest)
    · exact absurd rfl (hsemicolon rest)

theorem isSkipped_iff (line : List Char) : isSkipped line = true ↔ Skipped line := by
  rw [isSkipped, Skipped, Bool.or_eq_true, List.isEmpty_iff, isComment_iff]

variable {current cs : List Char}

theorem CarriagesEnd.not_mem {as bs : List Char} (h : CarriagesEnd (as ++ bs)) (hn : '\n' ∉ as)
    (hb : bs.head? ≠ some '\n') : '\r' ∉ as := by
  intro hr
  obtain ⟨before, after, rfl⟩ := List.append_of_mem hr
  have hnext := h before (after ++ bs) (by simp)
  rw [List.head?_append] at hnext
  cases after with
  | nil => exact hb hnext
  | cons a after =>
    cases hnext
    exact hn (by simp)

theorem filter_carriages (h : '\r' ∉ cs) : cs.filter (· ≠ '\r') = cs := by
  rw [List.filter_eq_self]
  intro c hc
  simpa using ne_of_mem_of_not_mem hc h

theorem endLine_eq_filter (h : CarriagesEnd (current.reverse ++ '\n' :: cs))
    (hn : '\n' ∉ current) : Text.endLine current = current.reverse.filter (· ≠ '\r') := by
  cases current with
  | nil => rfl
  | cons c current =>
    rw [List.mem_cons, not_or] at hn
    rw [List.reverse_cons, List.append_assoc] at h
    have hr := h.not_mem (by simpa using hn.2) (by simpa using Ne.symm hn.1)
    rw [List.reverse_cons, List.filter_append, filter_carriages hr]
    by_cases hc : c = '\r'
    · subst hc
      simp [Text.endLine]
    · simp [Text.endLine, hc]

theorem filter_linesAfter {p : List Char → Bool} (hp : p [] = false)
    (h : CarriagesEnd (current.reverse ++ cs)) (hn : '\n' ∉ current) :
    (Text.linesAfter current cs).filter p =
      (((current.reverse ++ cs).filter (· ≠ '\r')).splitOn '\n').filter p := by
  induction cs generalizing current with
  | nil =>
    have hr := h.not_mem (by simpa using hn) (by simp)
    rw [List.append_nil, filter_carriages hr, List.splitOn_eq_singleton (by simpa using hn),
      Text.linesAfter]
    cases current with
    | nil => simp [hp]
    | cons c current => rfl
  | cons c cs ih =>
    rw [Text.linesAfter]
    split
    · next hc =>
      subst hc
      have hline : '\n' ∉ current.reverse.filter (· ≠ '\r') := by simp [hn]
      have hcs : CarriagesEnd ([].reverse ++ cs) := fun before after hcs =>
        h (current.reverse ++ '\n' :: before) after (by simpa using hcs)
      rw [List.filter_append, List.filter_cons_of_pos (a := '\n') (by simp),
        List.splitOn_append_cons_self_of_not_mem hline, ← endLine_eq_filter h hn,
        List.filter_cons, List.filter_cons, ih hcs List.not_mem_nil]
      rfl
    · next hc =>
      have happ : current.reverse ++ c :: cs = (c :: current).reverse ++ cs := by simp
      rw [happ] at h ⊢
      exact ih h (by simp [Ne.symm hc, hn])

theorem filter_lines {text : String} (h : CarriagesEnd text.toList) :
    (Text.lines text.toList).filter (!isSkipped ·) = kept text := by
  have hp : (!isSkipped []) = false := rfl
  rw [Text.lines, filter_linesAfter hp h (by simp), kept]
  congr 1
  funext line
  rw [Bool.eq_iff_iff]
  simp [← isSkipped_iff]

theorem mem_of_mem_splitOn {a c : Char} {line : List Char} (hl : line ∈ cs.splitOn a)
    (hc : c ∈ line) : c ∈ cs := by
  induction cs generalizing line with
  | nil =>
    rw [List.splitOn_nil, List.mem_singleton] at hl
    exact hl ▸ hc
  | cons d cs ih =>
    rw [List.splitOn_cons_eq_if_modifyHead] at hl
    split at hl
    · rcases List.mem_cons.mp hl with rfl | hl
      · cases hc
      · exact List.mem_cons_of_mem d (ih hl hc)
    · cases hs : cs.splitOn a with
      | nil => simp [hs] at hl
      | cons first rest =>
        rw [hs, List.modifyHead_cons, List.mem_cons] at hl
        rcases hl with rfl | hl
        · rcases List.mem_cons.mp hc with rfl | hc
          · exact List.mem_cons_self
          · exact List.mem_cons_of_mem d (ih (hs ▸ List.mem_cons_self) hc)
        · exact List.mem_cons_of_mem d (ih (hs ▸ List.mem_cons_of_mem first hl) hc)

theorem not_mem_kept {text : String} {line : List Char} (h : line ∈ kept text) : '\r' ∉ line := by
  intro hr
  have hmem := mem_of_mem_splitOn (List.mem_of_mem_filter h) hr
  simp at hmem

end Quadratics.Task
