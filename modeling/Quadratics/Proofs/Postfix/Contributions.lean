import Mathlib.Data.List.Destutter
import Quadratics.Proofs.Postfix.Sides
import Quadratics.Proofs.Token.Marks
/-! What the tokens of a stream bring into its rearrangement: each operand and operator itself, a
plus or minus perhaps as a sign, and before a factor the `*` that is not written. -/
namespace Quadratics

open Token (Kind)
open Infix (significant)

/-- Whether a plus or minus is a sign behind a token of the kind, or at the start. -/
def signFollows : Option Kind → Bool
  | none | some (.operator _) | some .leftParen | some .equals => true
  | some (.number _) | some .var | some .rightParen | some .whitespace => false

def lastKind (ts : List Token) : Option Kind := (significant ts).getLast?

def furthest (place : Token → Nat) (ts : List Token) : Nat :=
  ((ts.filter (!·.kind.isWhitespace)).map place).foldl max 0

/-- The place of a token, but for `=` the one behind it, where the converter opens a parenthesis. -/
def reach (t : Token) : Nat := if t.kind.isEquals then t.position + 1 else t.position

def released (before : Option Kind) (t : Token) : List Token :=
  match t.kind with
  | .number _ | .var => [t]
  | .operator op =>
    [{ t with kind := .operator (if signFollows before then op.toUnary.getD op else op) }]
  | .leftParen | .rightParen | .equals | .whitespace => []

/-- The `*` before a factor, at the largest place up to the factor. -/
def product (place : Token → Nat) (before : List Token) (t : Token) : List Token :=
  if (lastKind before).any (multiplies · t.kind) then
    [.synthetic (.operator .mul) (furthest place (before ++ [t]))]
  else []

def ComesOut (t : Token) : Prop := t.kind.isOperand = true ∨ ∃ op, t.kind = .operator op

def brought (place : Token → Nat) (before : List Token) (t : Token) : List Token :=
  product place before t ++ released (lastKind before) t

def broughtBy (place : Token → Nat) (before : List Token) : List Token → List Token
  | [] => []
  | t :: ts => brought place before t ++ broughtBy place (before ++ [t]) ts

variable {place : Token → Nat} {before ts : List Token} {t u : Token}

theorem lastKind_concat (before : List Token) (ht : t.kind.isWhitespace = false) :
    lastKind (before ++ [t]) = some t.kind := by
  simp [lastKind, significant, ht]

theorem lastKind_concat_blank (before : List Token) (ht : t.kind.isWhitespace = true) :
    lastKind (before ++ [t]) = lastKind before := by
  simp [lastKind, significant, ht]

theorem furthest_concat (ht : t.kind.isWhitespace = false) :
    furthest place (before ++ [t]) = max (furthest place before) (place t) := by
  simp [furthest, ht]

theorem furthest_concat_blank (ht : t.kind.isWhitespace = true) :
    furthest place (before ++ [t]) = furthest place before := by
  simp [furthest, ht]

theorem comesOut_of_mem_brought (h : u ∈ brought place before t) : ComesOut u := by
  rcases List.mem_append.mp h with h | h
  · unfold product at h
    split at h
    · obtain rfl := List.mem_singleton.mp h
      exact .inr ⟨.mul, rfl⟩
    · cases h
  · unfold released at h
    split at h
    · next hk =>
      obtain rfl := List.mem_singleton.mp h
      exact .inl (by rw [hk]; rfl)
    · next hk =>
      obtain rfl := List.mem_singleton.mp h
      exact .inl (by rw [hk]; rfl)
    · obtain rfl := List.mem_singleton.mp h
      exact .inr ⟨_, rfl⟩
    all_goals cases h

theorem comesOut_of_mem_broughtBy (h : u ∈ broughtBy place before ts) : ComesOut u := by
  induction ts generalizing before with
  | nil => cases h
  | cons t ts ih => exact (List.mem_append.mp h).elim comesOut_of_mem_brought ih

def collapsed (ts : List Token) : List Token :=
  ts.destutter fun t u => ¬ (t.kind.isUnaryPlus = true ∧ u.kind.isUnaryPlus = true)

namespace Postfix

theorem collapseAfter_eq_collapsed (ts : List Token) : collapseAfter false ts = collapsed ts := by
  have htail (t : Token) (ts : List Token) :
      ts.destutter' (fun t u => ¬ (t.kind.isUnaryPlus = true ∧ u.kind.isUnaryPlus = true)) t =
        t :: collapseAfter t.kind.isUnaryPlus ts := by
    induction ts generalizing t with
    | nil => rfl
    | cons u ts ih =>
      simp only [List.destutter'_cons, collapseAfter, ih, Bool.and_eq_true, ite_not]
      split
      · next hplus => rw [hplus.1]
      · rfl
  cases ts with
  | nil => rfl
  | cons t ts =>
    rw [collapsed, List.destutter_cons', htail]
    simp [collapseAfter]

theorem filter_not_isEquals (h : ∀ t ∈ ts, ComesOut t) :
    (collapsed ts).filter (!·.kind.isEquals) = collapsed ts := by
  rw [List.filter_eq_self]
  intro t ht
  rcases h t ((List.destutter_sublist _ ts).subset ht) with hk | ⟨op, hk⟩
  · cases hq : t.kind <;> simp_all [Kind.isOperand, Kind.isEquals]
  · simp [hk, Kind.isEquals]

theorem tidy_one (h : ∀ t ∈ ts, ComesOut t) : tidy ts.reverse = collapsed ts := by
  rw [tidy, List.reverse_reverse, collapseAfter_eq_collapsed, filter_not_isEquals h]

end Postfix
end Quadratics
