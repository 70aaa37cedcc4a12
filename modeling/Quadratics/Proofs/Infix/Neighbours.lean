import Mathlib.Data.List.Basic
import Quadratics.Proofs.Infix
/-! Which kinds of tokens stand side by side in an equation. -/
namespace Quadratics.Infix

open Token (Kind)

def startsPhrase : Kind → Bool
  | .number _ | .var | .leftParen | .operator .add | .operator .sub => true
  | _ => false

/-- Whether the second kind may stand directly behind the first one. `none` is the start of an
equation, and behind the first one its end. -/
def fits (before after : Option Kind) : Bool :=
  if before.any endsPhrase then
    match after with
    | none | some .var | some .rightParen | some .equals => true
    | some (.operator op) => !op.isUnary
    | some (.number _) => before.any (·.isRightParen)
    | some .leftParen | some .whitespace => false
  else
    match after with
    | some .equals => before.isNone
    | after => after.any startsPhrase

def neighboursFit (before : Option Kind) : List Kind → Bool
  | [] => fits before none
  | k :: ks => fits before (some k) && neighboursFit (some k) ks

theorem fits_start {before after : Option Kind} (hb : before.any endsPhrase = false)
    (ha : after.any startsPhrase = true) : fits before after = true := by
  cases after with
  | none => simp at ha
  | some k => cases k <;> simp_all [fits, startsPhrase]

theorem Derives.head? {p : Phrase} {w : List Kind} {f : Formula} (h : Derives p w f) :
    w.head?.any startsPhrase = true := by
  have grow {v w : List Kind} (h : v.head?.any startsPhrase = true) :
      (v ++ w).head?.any startsPhrase = true := by
    cases v with
    | nil => simp at h
    | cons k v => exact h
  induction h with
  | number value => rfl
  | var => rfl
  | paren h ih => rfl
  | ofAtom h ih => exact ih
  | minus h ih => rfl
  | plus h ih => rfl
  | ofSigned h ih => exact ih
  | pow hl hr ih _ => exact grow ih
  | ofPower h ih => exact ih
  | mul hl hr ih _ => exact grow ih
  | div hl hr ih _ => exact grow ih
  | juxtapose hl hr hj ih _ => exact grow ih
  | ofProduct h ih => exact ih
  | add hl hr ih _ => exact grow ih
  | sub hl hr ih _ => exact grow ih

theorem fits_operator {before : Option Kind} {op : Operator} (hb : before.any endsPhrase = true)
    (hop : op.isUnary = false) : fits before (some (.operator op)) = true := by
  simp [fits, hb, hop]

theorem fits_juxtaposable {v w : List Kind} (hv : v.getLast?.any endsPhrase = true)
    (hj : juxtaposable v w = true) : fits v.getLast? w.head? = true := by
  cases w with
  | nil => simp [juxtaposable] at hj
  | cons k w => cases k <;> simp_all [juxtaposable, fits]

def Fitting (w : List Kind) : Prop :=
  ∀ before rest, fits before w.head? = true →
    neighboursFit before (w ++ rest) = neighboursFit w.getLast? rest

theorem fitting_singleton (k : Kind) : Fitting [k] := by
  intro before rest hb
  have hk : fits before (some k) = true := hb
  simp [neighboursFit, hk]

theorem Fitting.append {v w : List Kind} (hv : Fitting v) (hw : Fitting w)
    (hl : v ≠ []) (hr : w ≠ []) (hf : fits v.getLast? w.head? = true) : Fitting (v ++ w) := by
  intro before rest hb
  rw [List.head?_append_of_ne_nil v hl] at hb
  rw [List.append_assoc, hv before _ hb, hw _ rest hf, List.getLast?_append_of_ne_nil v hr]

theorem Derives.ne_nil {p : Phrase} {w : List Kind} {f : Formula} (h : Derives p w f) :
    w ≠ [] := by
  rintro rfl
  simpa using h.head?

theorem Fitting.sign {p : Phrase} {w : List Kind} {f : Formula} {op : Operator}
    (hw : Fitting w) (h : Derives p w f) : Fitting (.operator op :: w) :=
  (fitting_singleton _).append hw (by simp) h.ne_nil (fits_start rfl h.head?)

theorem Fitting.infix {p q : Phrase} {v w : List Kind} {f g : Formula} {op : Operator}
    (hv : Fitting v) (hw : Fitting w) (hl : Derives p v f) (hr : Derives q w g)
    (hop : op.isUnary = false) : Fitting (v ++ .operator op :: w) :=
  hv.append (hw.sign hr) hl.ne_nil (by simp) (fits_operator hl.getLast? hop)

theorem Fitting.paren {w : List Kind} {f : Formula} (hw : Fitting w) (h : Derives .sum w f) :
    Fitting (.leftParen :: w ++ [.rightParen]) := by
  have hopen : Fitting (.leftParen :: w) :=
    (fitting_singleton _).append hw (by simp) h.ne_nil (fits_start rfl h.head?)
  have hlast : (.leftParen :: w).getLast? = w.getLast? :=
    List.getLast?_append_of_ne_nil [_] h.ne_nil
  refine hopen.append (fitting_singleton _) (by simp) (by simp) ?_
  rw [hlast]
  simp [fits, h.getLast?]

theorem Derives.fitting {p : Phrase} {w : List Kind} {f : Formula} (h : Derives p w f) :
    Fitting w := by
  induction h with
  | number value => exact fitting_singleton _
  | var => exact fitting_singleton _
  | paren h ih => exact ih.paren h
  | ofAtom h ih => exact ih
  | minus h ih => exact ih.sign h
  | plus h ih => exact ih.sign h
  | ofSigned h ih => exact ih
  | pow hl hr ihl ihr => exact ihl.infix ihr hl hr rfl
  | ofPower h ih => exact ih
  | mul hl hr ihl ihr => exact ihl.infix ihr hl hr rfl
  | div hl hr ihl ihr => exact ihl.infix ihr hl hr rfl
  | juxtapose hl hr hj ihl ihr =>
    exact ihl.append ihr hl.ne_nil hr.ne_nil (fits_juxtaposable hl.getLast? hj)
  | ofProduct h ih => exact ih
  | add hl hr ihl ihr => exact ihl.infix ihr hl hr rfl
  | sub hl hr ihl ihr => exact ihl.infix ihr hl hr rfl

theorem neighboursFit_side {w : List Kind} {f : Formula} (h : Derives .sum w f)
    {before : Option Kind} (hb : before.any endsPhrase = false) :
    neighboursFit before w = true := by
  have hf := h.fitting before [] (fits_start hb h.head?)
  rw [List.append_nil] at hf
  simp [hf, neighboursFit, fits, h.getLast?]

theorem neighboursFit_equation {w : List Kind} {f : Formula} (h : Equation w f) :
    neighboursFit none w = true := by
  cases h with
  | zero h => exact neighboursFit_side h rfl
  | @sides v w f g hl hr =>
    have he : fits v.getLast? (some .equals) = true := by simp [fits, hl.getLast?]
    rw [hl.fitting none _ (fits_start rfl hl.head?), neighboursFit, he,
      neighboursFit_side hr rfl, Bool.true_and]
  | right h =>
    rw [neighboursFit, neighboursFit_side h rfl]
    rfl

end Quadratics.Infix
