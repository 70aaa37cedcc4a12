import Quadratics.Proofs.Steps
import Quadratics.Token.Scanner
/-! The scanner lexeme by lexeme. -/
namespace Quadratics

/-- The longest start with a property does not reach into a second list that starts without it. -/
theorem takeWhile_append_of_head? {α : Type} {p : α → Bool} {vs : List α}
    (h : ∀ a ∈ vs.head?, p a = false) (us : List α) :
    (us ++ vs).takeWhile p = us.takeWhile p ∧ (us ++ vs).dropWhile p = us.dropWhile p ++ vs := by
  induction us with
  | nil =>
    cases vs with
    | nil => simp
    | cons a vs => simp [h a rfl]
  | cons a us ih => cases ha : p a <;> simp [ha, ih]

namespace Scanner

variable {s t : Scanner} {item : Except EquationError Token}

theorem items_of_next?_eq_none (h : s.next? = none) : s.items = [] := by
  rw [items]
  split
  · rfl
  · next hs => cases h.symm.trans hs

theorem items_of_next? (h : s.next? = some (item, t)) : s.items = item :: t.items := by
  rw [items]
  split
  · next hs => cases h.symm.trans hs
  · next hs =>
    cases h.symm.trans hs
    rfl

@[simp] theorem items_nil (column : Nat) : items ⟨[], column⟩ = [] := items_of_next?_eq_none rfl

theorem items_cons {cs : List Char} (column : Nat) (kind : Token.Kind) (text : List Char)
    (h : Lexeme.first? cs = some (kind, text)) :
    items ⟨cs, column⟩ = .ok ⟨kind, String.ofList text, column⟩ ::
      items ⟨cs.drop text.length, column + text.length⟩ := by
  apply items_of_next?
  cases cs with
  | nil => simp [Lexeme.first?] at h
  | cons c cs => simp only [next?, h]

/-- What holds of the next item wherever the scanner stands holds of all items. -/
theorem forall_mem_items {P : Except EquationError Token → Prop}
    (h : ∀ s item t, next? s = some (item, t) → P item) (s : Scanner) :
    ∀ item ∈ s.items, P item := by
  induction s using items.induct with
  | case1 s hn => simp [items_of_next?_eq_none hn]
  | case2 s item t hn ih =>
    rw [items_of_next? hn]
    exact List.forall_mem_cons.mpr ⟨h s item t hn, ih⟩

end Scanner

theorem mapM_id_eq_ok {items : List (Except EquationError Token)} {ts : List Token} :
    items.mapM id = .ok ts ↔ items = ts.map .ok := by
  induction items generalizing ts with
  | nil => cases ts <;> simp [pure, Except.pure]
  | cons item items ih =>
    rw [mapM_cons_eq_ok]
    constructor
    · rintro ⟨u, us, rfl, hus, rfl⟩
      rw [ih.mp hus]
      rfl
    · intro h
      obtain ⟨u, us, rfl, rfl, rfl⟩ := List.map_eq_cons_iff.mp h.symm
      exact ⟨u, us, rfl, ih.mpr rfl, rfl⟩

theorem tokenize_eq_ok_iff {source : String} {ts : List Token} :
    tokenize source = .ok ts ↔ (Scanner.ofString source).items = ts.map .ok := mapM_id_eq_ok

end Quadratics
