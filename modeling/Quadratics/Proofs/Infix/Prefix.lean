import Quadratics.Proofs.Infix.Neighbours
/-! One side of an equation read from left to right: what has been read is a start of a phrase, as
long as neighbours fit and parentheses are closed only when they are open. -/
namespace Quadratics.Infix

open Token (Kind)

/-- With `n` parentheses open, a phrase may start behind the tokens read. Of what is open around it,
each part is complete up to the operator before the next part. -/
inductive Before : Nat → Phrase → List Kind → Prop where
  | start : Before 0 .sum []
  | paren {n : Nat} {u : List Kind} (h : Before n .signed u) :
      Before (n + 1) .sum (u ++ [.leftParen])
  | ofSum {n : Nat} {u : List Kind} (h : Before n .sum u) : Before n .product u
  | term {n : Nat} {u v : List Kind} {f : Formula} {op : Operator} (h : Before n .sum u)
      (hv : Derives .sum v f) (hop : op = .add ∨ op = .sub) :
      Before n .product (u ++ v ++ [.operator op])
  | ofProduct {n : Nat} {u : List Kind} (h : Before n .product u) : Before n .power u
  | factor {n : Nat} {u v : List Kind} {f : Formula} {op : Operator} (h : Before n .product u)
      (hv : Derives .product v f) (hop : op = .mul ∨ op = .div) :
      Before n .power (u ++ v ++ [.operator op])
  | ofPower {n : Nat} {u : List Kind} (h : Before n .power u) : Before n .signed u
  | exponent {n : Nat} {u v : List Kind} {f : Formula} (h : Before n .power u)
      (hv : Derives .signed v f) : Before n .power (u ++ v ++ [.operator .pow])
  | nextExponent {n : Nat} {u v w : List Kind} {f g : Formula} (h : Before n .product u)
      (hv : Derives .product v f) (hw : Derives .signed w g) (hj : juxtaposable v w = true) :
      Before n .power (u ++ v ++ w ++ [.operator .pow])
  | sign {n : Nat} {u : List Kind} {op : Operator} (h : Before n .signed u)
      (hop : op = .add ∨ op = .sub) : Before n .signed (u ++ [.operator op])

/-- Where a product may start, a signed atom has been read, or one side by side with the product
before it. -/
inductive Behind : Nat → List Kind → Prop where
  | signed {n : Nat} {u v : List Kind} {f : Formula} (h : Before n .power u)
      (hv : Derives .signed v f) : Behind n (u ++ v)
  | factor {n : Nat} {u v w : List Kind} {f g : Formula} (h : Before n .product u)
      (hv : Derives .product v f) (hw : Derives .signed w g) (hj : juxtaposable v w = true) :
      Behind n (u ++ v ++ w)

def Ends (n : Nat) (p : Phrase) (u : List Kind) : Prop :=
  ∃ v w f, u = v ++ w ∧ Before n p v ∧ Derives p w f

theorem juxtaposable_append {v w : List Kind} (h : juxtaposable v w = true) (rest : List Kind) :
    juxtaposable v (w ++ rest) = true := by
  cases w with
  | nil => simp [juxtaposable] at h
  | cons k w => cases k <;> exact h

variable {n : Nat} {u v : List Kind} {f : Formula}

theorem Before.behind (h : Before n .signed u) (hv : Derives .signed v f) : Behind n (u ++ v) := by
  generalize hp : Phrase.signed = p at h
  induction h generalizing v f with
  | ofPower h _ => exact .signed h hv
  | sign h hop ih =>
    rw [List.append_assoc]
    rcases hop with rfl | rfl
    · exact ih (.plus hv) rfl
    · exact ih (.minus hv) rfl
  | start | paren | ofSum | term | ofProduct | factor | exponent | nextExponent => cases hp

theorem Before.endsProduct (h : Before n .power u) (hv : Derives .power v f) :
    Ends n .product (u ++ v) := by
  generalize hp : Phrase.power = p at h
  induction h generalizing v f with
  | ofProduct h _ => exact ⟨_, _, _, rfl, h, .ofPower hv⟩
  | factor h ha hop _ =>
    rw [List.append_assoc, List.append_assoc]
    rcases hop with rfl | rfl
    · exact ⟨_, _, _, rfl, h, .mul ha hv⟩
    · exact ⟨_, _, _, rfl, h, .div ha hv⟩
  | exponent h ha ih =>
    rw [List.append_assoc, List.append_assoc]
    exact ih (.pow ha hv) rfl
  | nextExponent h ha hb hj _ =>
    rw [List.append_assoc, List.append_assoc, List.append_assoc]
    exact ⟨_, _, _, rfl, h, .juxtapose ha (.pow hb hv) (juxtaposable_append hj _)⟩
  | start | paren | ofSum | term | ofPower | sign => cases hp

theorem Before.endsSum (h : Before n .product u) (hv : Derives .product v f) :
    Ends n .sum (u ++ v) := by
  cases h with
  | ofSum h => exact ⟨_, _, _, rfl, h, .ofProduct hv⟩
  | term h ha hop =>
    rw [List.append_assoc, List.append_assoc]
    rcases hop with rfl | rfl
    · exact ⟨_, _, _, rfl, h, .add ha hv⟩
    · exact ⟨_, _, _, rfl, h, .sub ha hv⟩

theorem Behind.endsProduct (h : Behind n u) : Ends n .product u := by
  cases h with
  | signed h hv => exact h.endsProduct (.ofSigned hv)
  | factor h hv hw hj =>
    rw [List.append_assoc]
    exact ⟨_, _, _, rfl, h, .juxtapose hv (.ofSigned hw) hj⟩

theorem Behind.endsSum (h : Behind n u) : Ends n .sum u := by
  obtain ⟨v, w, f, rfl, hb, hw⟩ := h.endsProduct
  exact hb.endsSum hw

theorem Before.ofSumToSigned (h : Before n .sum u) : Before n .signed u :=
  .ofPower (.ofProduct (.ofSum h))

theorem Behind.derives (h : Behind 0 u) : ∃ f, Derives .sum u f := by
  obtain ⟨v, w, f, rfl, hb, hw⟩ := h.endsSum
  cases hb with
  | start => exact ⟨f, hw⟩

def Nests (n : Nat) (k : Kind) (m : Nat) : Prop :=
  match k with
  | .leftParen => m = n + 1
  | .rightParen => n = m + 1
  | _ => m = n

theorem Behind.operator {op : Operator} (h : Behind n u) (hop : op.isUnary = false) :
    Before n .signed (u ++ [.operator op]) := by
  cases op with
  | pow =>
    cases h with
    | signed h hv => exact .ofPower (.exponent h hv)
    | factor h hv hw hj => exact .ofPower (.nextExponent h hv hw hj)
  | mul =>
    obtain ⟨v, w, f, rfl, hb, hw⟩ := h.endsProduct
    exact .ofPower (.factor hb hw (.inl rfl))
  | div =>
    obtain ⟨v, w, f, rfl, hb, hw⟩ := h.endsProduct
    exact .ofPower (.factor hb hw (.inr rfl))
  | add =>
    obtain ⟨v, w, f, rfl, hb, hw⟩ := h.endsSum
    exact .ofPower (.ofProduct (.term hb hw (.inl rfl)))
  | sub =>
    obtain ⟨v, w, f, rfl, hb, hw⟩ := h.endsSum
    exact .ofPower (.ofProduct (.term hb hw (.inr rfl)))
  | unaryMinus => cases hop
  | unaryPlus => cases hop

theorem Behind.juxtaposed {k : Kind} (h : Behind n u) (hk : Derives .signed [k] f)
    (hf : k = .var ∨ u.getLast?.any (·.isRightParen) = true ∧ ∃ value, k = .number value) :
    Behind n (u ++ [k]) := by
  obtain ⟨v, w, g, rfl, hb, hw⟩ := h.endsProduct
  refine .factor hb hw hk ?_
  rcases hf with rfl | ⟨hr, value, rfl⟩
  · rfl
  · rw [List.getLast?_append_of_ne_nil v hw.ne_nil] at hr
    exact hr

theorem Behind.close {m : Nat} (h : Behind (m + 1) u) : Behind m (u ++ [.rightParen]) := by
  obtain ⟨v, w, f, rfl, hb, hw⟩ := h.endsSum
  cases hb with
  | paren hb =>
    have hp := hb.behind (.ofAtom (.paren hw))
    simpa using hp

/-- What has been read of a side, the last token of it, or the one before the side, at hand. -/
inductive Seen (last : Option Kind) (n : Nat) (u : List Kind) : Prop where
  | before (h : Before n .signed u) (hl : last.any endsPhrase = false)
  | behind (h : Behind n u) (hl : last = u.getLast?) (he : last.any endsPhrase = true)

theorem Behind.seen {k : Kind} (h : Behind n (u ++ [k])) (hk : endsPhrase k = true) :
    Seen (some k) n (u ++ [k]) :=
  .behind h (by simp) hk

theorem Seen.token {last : Option Kind} {k : Kind} {m : Nat} (h : Seen last n u)
    (hf : fits last (some k) = true) (hk : k ≠ .equals) (hn : Nests n k m) :
    Seen (some k) m (u ++ [k]) := by
  cases h with
  | before h hl =>
    simp only [fits, hl] at hf
    cases k with
    | number value =>
      cases hn
      exact (h.behind (.ofAtom (.number value))).seen rfl
    | var =>
      cases hn
      exact (h.behind (.ofAtom .var)).seen rfl
    | operator op =>
      cases hn
      refine .before (.sign h ?_) rfl
      cases op <;> simp_all [startsPhrase]
    | leftParen =>
      cases hn
      exact .before (Before.paren h).ofSumToSigned rfl
    | rightParen => simp [startsPhrase] at hf
    | equals => exact absurd rfl hk
    | whitespace => simp [startsPhrase] at hf
  | behind h hl he =>
    simp only [fits, he] at hf
    cases k with
    | number value =>
      cases hn
      exact (h.juxtaposed (.ofAtom (.number value)) (.inr ⟨hl ▸ hf, value, rfl⟩)).seen rfl
    | var =>
      cases hn
      exact (h.juxtaposed (.ofAtom .var) (.inl rfl)).seen rfl
    | operator op =>
      cases hn
      exact .before (h.operator (by simpa using hf)) rfl
    | leftParen => simp at hf
    | rightParen =>
      cases hn
      exact h.close.seen rfl
    | equals => exact absurd rfl hk
    | whitespace => simp at hf

theorem Seen.derives {last : Option Kind} (h : Seen last 0 u) (hf : fits last none = true) :
    ∃ f, Derives .sum u f := by
  cases h with
  | before h hl => simp [fits, hl] at hf
  | behind h hl he => exact h.derives

end Quadratics.Infix
