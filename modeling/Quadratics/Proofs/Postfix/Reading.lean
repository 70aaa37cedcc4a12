import Quadratics.Postfix
import Quadratics.Proofs.Infix
import Quadratics.Proofs.Steps
/-! What a converter has done after a phrase of the grammar: the operands are out, the operators
that wait stand above the old stack, and applying them gives the formula of the phrase. -/
namespace Quadratics

namespace Infix.Phrase

/-- Operators at the top of a phrase bind at least that tight. -/
def level : Phrase → Nat
  | .atom => 6
  | .signed => 5
  | .power => 4
  | .product => 3
  | .sum => 2

def operator : Phrase → Operator
  | .atom | .signed => .unaryMinus
  | .power => .pow
  | .product => .mul
  | .sum => .add

theorem operator_eq_or_lt {p q : Phrase} (h : q.level ≤ p.level) :
    q.operator = p.operator ∨ q.operator.precedence < p.operator.precedence := by
  revert h
  cases p <;> cases q <;> decide

end Infix.Phrase

namespace Converter

open Token (Kind)
open Infix

theorem run_map_ok (c : Converter) (ts : List Token) : c.run (ts.map .ok) = ts.foldlM step c := by
  induction ts generalizing c with
  | nil => rfl
  | cons t ts ih =>
    simp only [List.map_cons, run, List.foldlM_cons, ih]
    rfl

theorem foldlM_step_blanks (c : Converter) (ts : List Token) :
    ts.foldlM step c = (ts.filter fun t => !t.kind.isWhitespace).foldlM step c := by
  induction ts generalizing c with
  | nil => rfl
  | cons t ts ih =>
    cases hb : t.kind.isWhitespace with
    | true =>
      have hs : step c t = .ok c := by simp [step, hb]
      simp only [List.foldlM_cons, hs, List.filter_cons, hb]
      exact ih c
    | false =>
      simp only [List.foldlM_cons, List.filter_cons, hb]
      exact bind_congr fun d => ih d

def moved (c : Converter) (t : Token) : Converter :=
  { c with position := max c.position t.position }

theorem step_significant {c : Converter} {t : Token} (h : t.kind.isWhitespace = false) :
    step c t = ((c.moved t).accept t).map fun d => { d with previous := some t.kind } := by
  simp [step, h, moved]

/-- Operators only, of a precedence of `n` or more. -/
def Tight (n : Nat) (ts : List Token) : Prop :=
  ∀ t ∈ ts, ∃ op, t.kind = .operator op ∧ n ≤ op.precedence

theorem Tight.mono {m n : Nat} {ts : List Token} (h : Tight n ts) (hm : m ≤ n) : Tight m ts := by
  intro t ht
  obtain ⟨op, hk, hp⟩ := h t ht
  exact ⟨op, hk, Nat.le_trans hm hp⟩

theorem Tight.append {n : Nat} {us vs : List Token} (hu : Tight n us) (hv : Tight n vs) :
    Tight n (us ++ vs) := by
  intro t ht
  exact (List.mem_append.mp ht).elim (hu t) (hv t)

theorem Tight.not_leftParen {n : Nat} {ts : List Token} (h : Tight n ts) :
    ∀ t ∈ ts, (!t.kind.isLeftParen) = true := by
  intro t ht
  obtain ⟨op, hk, -⟩ := h t ht
  rw [hk]
  rfl

/-- The top of the stack, if it is an operator, stays under `op`. -/
def Holds (op : Operator) (stack : List Token) : Prop :=
  ∀ t ∈ stack.head?, yieldsTo op t = false

theorem yieldsTo_iff {incoming : Operator} {t : Token} :
    yieldsTo incoming t = true ↔ ∃ op, t.kind = .operator op ∧
      (incoming.precedence < op.precedence ∨
        incoming.precedence = op.precedence ∧ incoming.rightAssociative = false) := by
  unfold yieldsTo
  split
  · next op hk => simp [hk]
  · next hk =>
    constructor
    · intro h
      cases h
    · rintro ⟨op, ho, -⟩
      exact absurd ho (hk op)

theorem yieldsTo_of_isUnary {incoming : Operator} (h : incoming.isUnary = true) (t : Token) :
    yieldsTo incoming t = false := by
  rw [Bool.eq_false_iff]
  intro hy
  obtain ⟨op, -, hp⟩ := yieldsTo_iff.mp hy
  revert h hp
  cases incoming <;> cases op <;> decide

theorem takeWhile_waiting {p : Token → Bool} {pend stack : List Token}
    (hp : ∀ t ∈ pend, p t = true) (hs : ∀ t ∈ stack.head?, p t = false) :
    (pend ++ stack).takeWhile p = pend := by
  rw [List.takeWhile_append_of_pos hp]
  cases stack with
  | nil => simp
  | cons t ts => simp [hs t rfl]

theorem dropWhile_waiting {p : Token → Bool} {pend stack : List Token}
    (hp : ∀ t ∈ pend, p t = true) (hs : ∀ t ∈ stack.head?, p t = false) :
    (pend ++ stack).dropWhile p = stack := by
  rw [List.dropWhile_append_of_pos hp]
  cases stack with
  | nil => rfl
  | cons t ts => simp [hs t rfl]

theorem operator_eq {c : Converter} {t : Token} {op o : Operator} {pend stack : List Token}
    (ho : (if c.signAllowed then op.toUnary.getD op else op) = o) (hc : c.stack = pend ++ stack)
    (hp : ∀ w ∈ pend, yieldsTo o w = true) (hs : Holds o stack) :
    c.operator t op =
      { c with
        output := pend.reverse ++ c.output
        stack := { t with kind := .operator o } :: stack
        signAllowed := true } := by
  simp only [operator, ho, hc, takeWhile_waiting hp hs, dropWhile_waiting hp hs]

/-- A phrase may start: no operand stands directly before it, and nothing that waits is applied
before the operators of the phrase. -/
structure Awaits (p : Phrase) (c : Converter) : Prop where
  signAllowed : c.signAllowed = true
  previous : c.previous.any (fun k => k.isOperand || k.isRightParen) = false
  stack : Holds p.operator c.stack
  barrier : ∀ n ∈ c.barrier, n < c.stack.length

/-- `d` is behind a phrase that started at `c`; `pend` are its operators that wait. -/
structure Reads (p : Phrase) (w : List Kind) (f : Formula) (pend : List Token)
    (c d : Converter) : Prop where
  stack : d.stack = pend ++ c.stack
  tight : Tight p.level pend
  output : (pend.reverse ++ d.output).map (·.kind) =
    f.postorder.reverse ++ c.output.map (·.kind)
  signAllowed : d.signAllowed = false
  previous : d.previous = w.getLast?
  barrier : d.barrier = c.barrier

theorem Reads.lift {p q : Phrase} {w : List Kind} {f : Formula} {pend : List Token}
    {c d : Converter} (h : Reads p w f pend c d) (hq : q.level ≤ p.level) :
    Reads q w f pend c d :=
  { h with tight := h.tight.mono hq }

theorem step_operand {p : Phrase} {c : Converter} {t : Token} (h : Awaits p c)
    (ht : t.kind.isOperand = true) :
    step c t = .ok { (c.moved t).operand t with previous := some t.kind } := by
  cases hk : t.kind with
  | number value =>
    have hr : c.previous.any (·.isRightParen) = false := by
      have hp := h.previous
      cases hc : c.previous with
      | none => rfl
      | some k => simp_all
    simp [step_significant, hk, Kind.isWhitespace, accept, number, moved, hr, Except.map]
  | var =>
    simp [step_significant, hk, Kind.isWhitespace, accept, var, moved, h.previous, Except.map]
  | operator op => simp [hk, Kind.isOperand] at ht
  | leftParen => simp [hk, Kind.isOperand] at ht
  | rightParen => simp [hk, Kind.isOperand] at ht
  | equals => simp [hk, Kind.isOperand] at ht
  | whitespace => simp [hk, Kind.isOperand] at ht

theorem reads_operand {c : Converter} {t : Token} {k : Kind} {f : Formula} (ht : t.kind = k)
    (hf : f.postorder = [k]) :
    Reads .atom [k] f [] c { (c.moved t).operand t with previous := some t.kind } where
  stack := rfl
  tight := by simp [Tight]
  output := by simp [operand, emit, moved, hf, ht]
  signAllowed := rfl
  previous := by simp [ht]
  barrier := rfl

theorem step_sign {c : Converter} {t : Token} {op sign : Operator} (h : Awaits .signed c)
    (ht : t.kind = .operator op) (hs : op.toUnary = some sign) :
    ∃ d, step c t = .ok d ∧ Awaits .signed d ∧
      d.stack = { t with kind := .operator sign } :: c.stack ∧ d.output = c.output ∧
      d.barrier = c.barrier := by
  have hu : sign.isUnary = true := by cases op <;> cases hs <;> rfl
  have ho : (if (c.moved t).signAllowed then op.toUnary.getD op else op) = sign := by
    simp [moved, h.signAllowed, hs]
  have hc : (c.moved t).stack = [] ++ c.stack := rfl
  have he := operator_eq (t := t) ho hc (by simp) (fun w _ => yieldsTo_of_isUnary hu w)
  refine ⟨{ (c.moved t).operator t op with previous := some t.kind }, ?_, ?_, ?_, ?_, rfl⟩
  · simp [step_significant, ht, Kind.isWhitespace, accept, Except.map]
  · rw [he]
    refine ⟨rfl, by simp [ht, Kind.isOperand, Kind.isRightParen], ?_, ?_⟩
    · exact fun w _ => yieldsTo_of_isUnary rfl w
    · exact fun n hn => Nat.lt_succ_of_lt (h.barrier n hn)
  · rw [he]
  · rw [he]
    rfl

theorem step_leftParen {p : Phrase} {c : Converter} {t : Token} (h : Awaits p c)
    (ht : t.kind = .leftParen) :
    ∃ d, step c t = .ok d ∧ Awaits .sum d ∧ d.stack = t :: c.stack ∧ d.output = c.output ∧
      d.barrier = c.barrier := by
  refine ⟨{ (c.moved t).openParen t with previous := some t.kind }, ?_, ?_, rfl, rfl, rfl⟩
  · simp [step_significant, ht, Kind.isWhitespace, accept, Except.map]
  · refine ⟨rfl, by simp [ht, Kind.isOperand, Kind.isRightParen], ?_, ?_⟩
    · intro w hw
      cases hw
      simp [yieldsTo, ht]
    · exact fun n hn => Nat.lt_succ_of_lt (h.barrier n hn)

theorem step_rightParen {w : List Kind} {f : Formula} {pend : List Token} {b c d : Converter}
    {l r : Token} (h : Reads .sum w f pend c d) (hl : l.kind = .leftParen)
    (hr : r.kind = .rightParen) (hc : c.stack = l :: b.stack) (ho : c.output = b.output)
    (hb : c.barrier = b.barrier) (hd : ∀ n ∈ b.barrier, n < b.stack.length)
    (hw : w.getLast?.any (·.isOperator) = false) :
    ∃ e, step d r = .ok e ∧ Reads .atom (.leftParen :: w ++ [.rightParen]) f [] b e := by
  have hs : ∀ t ∈ c.stack.head?, (!t.kind.isLeftParen) = false := by
    intro t ht
    rw [hc] at ht
    cases ht
    simp [hl, Kind.isLeftParen]
  have htake := takeWhile_waiting h.tight.not_leftParen hs
  have hdrop := dropWhile_waiting h.tight.not_leftParen hs
  have hne : ¬ b.barrier = some b.stack.length := by
    intro he
    exact absurd (hd _ he) (Nat.lt_irrefl _)
  refine ⟨{ d.moved r with
    output := pend.reverse ++ d.output
    stack := b.stack
    signAllowed := false
    previous := some r.kind }, ?_, ?_⟩
  · rw [step_significant (by rw [hr]; rfl)]
    simp only [accept, hr, closeParen, moved, h.previous, hw, h.stack, h.barrier, htake, hdrop, hb]
    simp only [hc, if_neg hne]
    rfl
  · constructor
    · rfl
    · simp [Tight]
    · simpa [ho] using h.output
    · rfl
    · rw [List.getLast?_concat, hr]
    · exact h.barrier.trans hb

/-- `op` makes a `p` of a `q` and an `r`: it ranks with the operators of a `p`, lets out all that a
`q` leaves waiting, and stays below the operators of an `r`. -/
structure Joins (op : Operator) (p q r : Phrase) : Prop where
  binary : op.isUnary = false
  precedence : op.precedence = p.operator.precedence
  associative : op.rightAssociative = p.operator.rightAssociative
  level : p.level ≤ op.precedence
  left : p.level ≤ q.level
  right : p.level ≤ r.level
  lets : ∀ o : Operator, q.level ≤ o.precedence →
    op.precedence < o.precedence ∨ op.precedence = o.precedence ∧ op.rightAssociative = false
  stays : ∀ t : Token, t.kind = .operator op → yieldsTo r.operator t = false

theorem joins_pow : Joins .pow .power .signed .power := by
  refine ⟨rfl, rfl, rfl, by decide, by decide, by decide, ?_, ?_⟩
  · intro o
    cases o <;> simp [Phrase.level, Operator.precedence]
  · intro t ht
    simp [yieldsTo, ht, Phrase.operator, Operator.rightAssociative]

theorem joins_mul : Joins .mul .product .product .power := by
  refine ⟨rfl, rfl, rfl, by decide, by decide, by decide, ?_, ?_⟩
  · intro o
    cases o <;> simp [Phrase.level, Operator.precedence, Operator.rightAssociative]
  · intro t ht
    simp [yieldsTo, ht, Phrase.operator, Operator.precedence]

theorem joins_div : Joins .div .product .product .power :=
  { joins_mul with
    stays := fun t ht => by simp [yieldsTo, ht, Phrase.operator, Operator.precedence] }

theorem joins_add : Joins .add .sum .sum .product := by
  refine ⟨rfl, rfl, rfl, by decide, by decide, by decide, ?_, ?_⟩
  · intro o
    cases o <;> simp [Operator.precedence, Operator.rightAssociative]
  · intro t ht
    simp [yieldsTo, ht, Phrase.operator, Operator.precedence]

theorem joins_sub : Joins .sub .sum .sum .product :=
  { joins_add with
    stays := fun t ht => by simp [yieldsTo, ht, Phrase.operator, Operator.precedence] }

def afterInfix (c : Converter) (t : Token) (op : Operator) : Converter :=
  { c.operator t op with previous := some (.operator op) }

/-- The first phrase is complete, all its operators are out, and the operator itself waits. -/
theorem afterInfix_spec {p q r : Phrase} {w : List Kind} {f : Formula} {pend : List Token}
    {c d : Converter} {t : Token} {op : Operator} (hc : Awaits p c) (h : Reads q w f pend c d)
    (hj : Joins op p q r) (ht : t.kind = .operator op) :
    Awaits r (d.afterInfix t op) ∧ (d.afterInfix t op).stack = t :: c.stack ∧
      (d.afterInfix t op).output.map (·.kind) =
        f.postorder.reverse ++ c.output.map (·.kind) ∧
      (d.afterInfix t op).barrier = c.barrier := by
  have hp : ∀ x ∈ pend, yieldsTo op x = true := by
    intro x hx
    obtain ⟨o, hk, hl⟩ := h.tight x hx
    exact yieldsTo_iff.mpr ⟨o, hk, hj.lets o hl⟩
  have hs : Holds op c.stack := by
    intro x hx
    have := hc.stack x hx
    simpa only [yieldsTo, hj.precedence, hj.associative] using this
  have ho : (if d.signAllowed then op.toUnary.getD op else op) = op := by simp [h.signAllowed]
  have he := operator_eq (t := t) ho h.stack hp hs
  have ht' : ({ t with kind := .operator op } : Token) = t := by rw [← ht]
  rw [ht'] at he
  rw [afterInfix, he]
  refine ⟨⟨rfl, rfl, ?_, ?_⟩, rfl, h.output, h.barrier⟩
  · intro x hx
    cases hx
    exact hj.stays t ht
  · intro n hn
    exact Nat.lt_succ_of_lt (hc.barrier n (h.barrier ▸ hn))

theorem step_operator {c : Converter} {t : Token} {op : Operator} (ht : t.kind = .operator op) :
    step c t = .ok ((c.moved t).afterInfix t op) := by
  rw [step_significant (by rw [ht]; rfl), ht]
  simp only [accept, ht]
  rfl

theorem Reads.moved {p : Phrase} {w : List Kind} {f : Formula} {pend : List Token}
    {c d : Converter} (h : Reads p w f pend c d) (t : Token) :
    Reads p w f pend c (d.moved t) :=
  ⟨h.stack, h.tight, h.output, h.signAllowed, h.previous, h.barrier⟩

theorem Reads.binary {p q r : Phrase} {u v w : List Kind} {f g : Formula} {pend pend' : List Token}
    {c d e : Converter} {t : Token} {op : Operator} (hc : Awaits p c) (h : Reads q v f pend c d)
    (hj : Joins op p q r) (ht : t.kind = .operator op)
    (h' : Reads r w g pend' (d.afterInfix t op) e) (hu : u.getLast? = w.getLast?) :
    Reads p u (.binary op f g) (pend' ++ [t]) c e := by
  obtain ⟨-, hstack, hout, hbar⟩ := afterInfix_spec hc h hj ht
  constructor
  · rw [h'.stack, hstack, List.append_assoc]
    rfl
  · apply (h'.tight.mono hj.right).append
    intro x hx
    obtain rfl := List.mem_singleton.mp hx
    exact ⟨op, ht, hj.level⟩
  · have ho := h'.output
    simp only [List.reverse_append, List.reverse_cons, List.reverse_nil, List.nil_append,
      List.cons_append, List.map_cons, Formula.postorder, ht, ho, hout]
    simp
  · exact h'.signAllowed
  · rw [h'.previous, hu]
  · rw [h'.barrier, hbar]

/-- Two factors side by side are read as if a `*` stood between them. -/
theorem step_juxtapose {v w : List Kind} {c : Converter} {t : Token}
    (hp : c.previous = v.getLast?) (hv : v.getLast?.any (fun k => k.isOperand || k.isRightParen))
    (hj : juxtaposable v (t.kind :: w) = true) :
    step c t =
      step ((c.moved t).afterInfix (.synthetic (.operator .mul) (c.moved t).position) .mul) t := by
  cases hk : t.kind with
  | var =>
    simp only [step_significant (t := t) (by rw [hk]; rfl), accept, hk, var, moved, hp, hv]
    simp [juxtapose, afterInfix, operand, emit, operator, Kind.isOperand, Kind.isRightParen,
      Except.map]
  | number value =>
    have hr : v.getLast?.any (·.isRightParen) = true := by simpa [juxtaposable, hk] using hj
    simp only [step_significant (t := t) (by rw [hk]; rfl), accept, hk, number, moved, hp, hr]
    simp [juxtapose, afterInfix, operand, emit, operator, Kind.isRightParen, Except.map]
  | operator op => simp [juxtaposable, hk] at hj
  | leftParen => simp [juxtaposable, hk] at hj
  | rightParen => simp [juxtaposable, hk] at hj
  | equals => simp [juxtaposable, hk] at hj
  | whitespace => simp [juxtaposable, hk] at hj

/-- Wherever the phrase may start, its tokens are accepted and it has been read behind them. -/
def Readable (p : Phrase) (w : List Kind) (f : Formula) : Prop :=
  ∀ (c : Converter) (ts : List Token), Awaits p c → ts.map (·.kind) = w →
    ∃ pend d, ts.foldlM step c = .ok d ∧ Reads p w f pend c d

theorem holds_of_level {p q : Phrase} {stack : List Token} (hl : q.level ≤ p.level)
    (h : Holds q.operator stack) : Holds p.operator stack := by
  intro t ht
  rcases Phrase.operator_eq_or_lt hl with he | hlt
  · rw [← he]
    exact h t ht
  · rw [Bool.eq_false_iff]
    intro hy
    obtain ⟨op, hk, hp⟩ := yieldsTo_iff.mp hy
    have hq : yieldsTo q.operator t = true := yieldsTo_iff.mpr ⟨op, hk, .inl (by omega)⟩
    rw [h t ht] at hq
    cases hq

theorem Readable.lift {p q : Phrase} {w : List Kind} {f : Formula} (h : Readable p w f)
    (hl : q.level ≤ p.level) : Readable q w f := by
  intro c ts hc hts
  obtain ⟨pend, d, hd, hr⟩ := h c ts { hc with stack := holds_of_level hl hc.stack } hts
  exact ⟨pend, d, hd, hr.lift hl⟩

theorem readable_operand {k : Kind} {f : Formula} (hk : k.isOperand = true)
    (hf : f.postorder = [k]) : Readable .atom [k] f := by
  intro c ts hc hts
  obtain ⟨t, rfl, ht⟩ := List.map_eq_singleton_iff.mp hts
  refine ⟨[], _, ?_, reads_operand ht hf⟩
  rw [foldlM_cons_of_ok (step_operand hc (by rw [ht]; exact hk))]
  rfl

theorem Readable.paren {w : List Kind} {f : Formula} (h : Readable .sum w f)
    (hw : w.getLast?.any endsPhrase = true) :
    Readable .atom (.leftParen :: w ++ [.rightParen]) f := by
  intro b ts hb hts
  obtain ⟨us, rs, rfl, hus, hrs⟩ := List.map_eq_append_iff.mp hts
  obtain ⟨l, us, rfl, hl, hus⟩ := List.map_eq_cons_iff.mp hus
  obtain ⟨r, rfl, hr⟩ := List.map_eq_singleton_iff.mp hrs
  obtain ⟨c, hstep, hc, hstack, hout, hbar⟩ := step_leftParen hb hl
  obtain ⟨pend, d, hd, hread⟩ := h c us hc hus
  have hop : w.getLast?.any (·.isOperator) = false := by
    cases hk : w.getLast? with
    | none => rfl
    | some k =>
      cases k <;> simp_all [endsPhrase, Kind.isOperand, Kind.isRightParen, Kind.isOperator]
  obtain ⟨e, he, hread'⟩ := step_rightParen hread hl hr hstack hout hbar hb.barrier hop
  refine ⟨[], e, ?_, hread'⟩
  rw [List.cons_append, foldlM_cons_of_ok hstep, foldlM_append_of_ok hd, foldlM_cons_of_ok he]
  rfl

theorem Readable.sign {w : List Kind} {f : Formula} {op sign : Operator} (h : Readable .signed w f)
    (hs : op.toUnary = some sign) (hw : w.getLast?.any endsPhrase = true) :
    Readable .signed (.operator op :: w) (.unary sign f) := by
  intro b ts hb hts
  obtain ⟨t, us, rfl, ht, hus⟩ := List.map_eq_cons_iff.mp hts
  obtain ⟨c, hstep, hc, hstack, hout, hbar⟩ := step_sign hb ht hs
  obtain ⟨pend, d, hd, hread⟩ := h c us hc hus
  refine ⟨pend ++ [{ t with kind := .operator sign }], d, ?_, ?_⟩
  · rw [foldlM_cons_of_ok hstep, hd]
  · constructor
    · rw [hread.stack, hstack, List.append_assoc]
      rfl
    · apply hread.tight.append
      intro x hx
      obtain rfl := List.mem_singleton.mp hx
      exact ⟨sign, rfl, by cases op <;> cases hs <;> decide⟩
    · have ho := hread.output
      rw [hout] at ho
      simp only [List.reverse_append, List.reverse_cons, List.reverse_nil, List.nil_append,
        List.cons_append, List.map_cons, Formula.postorder, ho]
    · exact hread.signAllowed
    · exact hread.previous.trans (getLast?_append_of_any [_] hw).symm
    · rw [hread.barrier, hbar]

theorem Readable.infix {p q r : Phrase} {v w : List Kind} {f g : Formula} {op : Operator}
    (hv : Readable q v f) (hw : Readable r w g) (hj : Joins op p q r)
    (hlast : w.getLast?.any endsPhrase = true) :
    Readable p (v ++ .operator op :: w) (.binary op f g) := by
  intro c ts hc hts
  obtain ⟨us, vs, rfl, hus, hvs⟩ := List.map_eq_append_iff.mp hts
  obtain ⟨t, vs, rfl, ht, hvs⟩ := List.map_eq_cons_iff.mp hvs
  obtain ⟨pend, d, hd, hread⟩ := hv c us { hc with stack := holds_of_level hj.left hc.stack } hus
  obtain ⟨hnext, -⟩ := afterInfix_spec hc (hread.moved t) hj ht
  obtain ⟨pend', e, he, hread'⟩ := hw _ vs hnext hvs
  refine ⟨_, e, ?_, (hread.moved t).binary hc hj ht hread' ?_⟩
  · rw [foldlM_append_of_ok hd, foldlM_cons_of_ok (step_operator ht), he]
  · rw [getLast?_append_of_any v (getLast?_append_of_any [_] hlast ▸ hlast)]
    exact getLast?_append_of_any [_] hlast

theorem Readable.juxtapose {v w : List Kind} {f g : Formula} (hv : Readable .product v f)
    (hw : Readable .power w g)
    (hend : v.getLast?.any endsPhrase = true) (hlast : w.getLast?.any endsPhrase = true)
    (hj : juxtaposable v w = true) : Readable .product (v ++ w) (.binary .mul f g) := by
  intro c ts hc hts
  obtain ⟨us, vs, rfl, hus, hvs⟩ := List.map_eq_append_iff.mp hts
  obtain ⟨pend, d, hd, hread⟩ := hv c us hc hus
  cases vs with
  | nil => simp [← hvs] at hlast
  | cons t vs =>
    let star := Token.synthetic (.operator .mul) (d.moved t).position
    obtain ⟨hnext, -⟩ := afterInfix_spec (t := star) hc (hread.moved t) joins_mul rfl
    obtain ⟨pend', e, he, hread'⟩ := hw _ (t :: vs) hnext hvs
    have hstep : step d t = step ((d.moved t).afterInfix star .mul) t := by
      refine step_juxtapose hread.previous hend (w := vs.map (·.kind)) ?_
      rw [← hvs] at hj
      exact hj
    refine ⟨_, e, ?_, (hread.moved t).binary hc joins_mul rfl hread'
      (getLast?_append_of_any v hlast)⟩
    rw [foldlM_append_of_ok hd, List.foldlM_cons, hstep, ← List.foldlM_cons, he]

theorem readable_of_derives {p : Phrase} {w : List Kind} {f : Formula} (h : Derives p w f) :
    Readable p w f := by
  induction h with
  | number value => exact readable_operand rfl rfl
  | var => exact readable_operand rfl rfl
  | paren h ih => exact ih.paren h.getLast?
  | ofAtom h ih => exact ih.lift (by decide)
  | minus h ih => exact ih.sign rfl h.getLast?
  | plus h ih => exact ih.sign rfl h.getLast?
  | ofSigned h ih => exact ih.lift (by decide)
  | pow hl hr ihl ihr => exact ihl.infix ihr joins_pow hr.getLast?
  | ofPower h ih => exact ih.lift (by decide)
  | mul hl hr ihl ihr => exact ihl.infix ihr joins_mul hr.getLast?
  | div hl hr ihl ihr => exact ihl.infix ihr joins_div hr.getLast?
  | juxtapose hl hr hj ihl ihr => exact ihl.juxtapose ihr hl.getLast? hr.getLast? hj
  | ofProduct h ih => exact ih.lift (by decide)
  | add hl hr ihl ihr => exact ihl.infix ihr joins_add hr.getLast?
  | sub hl hr ihl ihr => exact ihl.infix ihr joins_sub hr.getLast?

end Converter
end Quadratics
