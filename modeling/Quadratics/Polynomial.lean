import Quadratics.Error
import Quadratics.Number.Binary
import Quadratics.Number.Power
/-! Sums of monomials with 32-bit powers, negative ones included. Terms stand in descending order of
power, one for each power; a coefficient that has become zero stays. Products, quotients and powers
need a monomial and refuse a result that leaves the range of a power or of a coefficient. -/
namespace Quadratics

/-- `coefficient * x ^ power`. -/
structure Term where
  power : Int32
  coefficient : Float
deriving DecidableEq

structure Polynomial where
  terms : List Term
deriving DecidableEq

def power? (n : Int) : Option Int32 :=
  if Int32.minValue.toInt ≤ n ∧ n ≤ Int32.maxValue.toInt then some (Int32.ofInt n) else none

theorem toInt_power? {n : Int} {p : Int32} (h : power? n = some p) : p.toInt = n := by
  unfold power? at h
  split at h
  · next hn =>
    cases h
    exact Int32.toInt_ofInt_of_le hn.1 (Int.lt_of_le_of_lt hn.2 (by decide))
  · simp at h

def refuse {α : Type} (cause : Cause) (position : Nat) : Except Failure α :=
  .error (.rejected ⟨cause, some position⟩)

namespace Polynomial

def constant (value : Float) : Polynomial := ⟨[⟨0, value⟩]⟩

def var (multiplier : Float) : Polynomial := ⟨[⟨1, multiplier⟩]⟩

def insert (t : Term) : List Term → List Term
  | [] => [t]
  | u :: us =>
    if u.power < t.power then t :: u :: us
    else if u.power = t.power then ⟨u.power, u.coefficient + t.coefficient⟩ :: us
    else u :: insert t us

/-- The sum of terms in any order, coefficients of one power added from left to right: what a stable
sort and the sum of neighbours of one power give, see `ofTerms_eq_coalesce`. -/
def ofTerms (ts : List Term) : Polynomial := ⟨ts.foldl (fun sorted t => insert t sorted) []⟩

def isMonomial (p : Polynomial) : Bool := p.terms.length == 1

def neg (p : Polynomial) : Polynomial := ⟨p.terms.map fun t => ⟨t.power, -t.coefficient⟩⟩

def merge : List Term → List Term → List Term
  | [], us => us
  | ts, [] => ts
  | t :: ts, u :: us =>
    if u.power < t.power then t :: merge ts (u :: us)
    else if t.power < u.power then u :: merge (t :: ts) us
    else ⟨t.power, t.coefficient + u.coefficient⟩ :: merge ts us
termination_by ts us => ts.length + us.length

def add (p q : Polynomial) : Polynomial := ⟨merge p.terms q.terms⟩

def sub (p q : Polynomial) : Polynomial := p.add q.neg

def ensureFinite (p : Polynomial) (position : Nat) : Except Failure Polynomial :=
  if p.terms.all (·.coefficient.isFinite) then .ok p else refuse .coefficientOverflow position

def shifted (power shift : Int32) (coefficient : Float) (position : Nat) :
    Except Failure Term :=
  match power? (power.toInt + shift.toInt) with
  | some p => .ok ⟨p, coefficient⟩
  | none => refuse .powerOverflow position

def scale (p : Polynomial) (m : Term) (position : Nat) : Except Failure Polynomial := do
  let ts ← p.terms.mapM fun t => shifted t.power m.power (t.coefficient * m.coefficient) position
  ensureFinite ⟨ts⟩ position

/-- One factor at least has to be a monomial. -/
def mul (p q : Polynomial) (position : Nat) : Except Failure Polynomial :=
  match p.terms, q.terms with
  | _, [m] => p.scale m position
  | [m], _ => q.scale m position
  | _, _ => refuse .productOfPolynomials position

/-- A term over a monomial. The lowest power of all has no negative, and there is no answer then. -/
def divided (m : Term) (position : Nat) (t : Term) : Except Failure Term :=
  if m.power = Int32.minValue then .error .overflow
  else shifted t.power (-m.power) (t.coefficient / m.coefficient) position

def div (p q : Polynomial) (position : Nat) : Except Failure Polynomial :=
  match q.terms with
  | [m] =>
    if m.coefficient == 0 then refuse .zeroDivisor position
    else do
      let ts ← p.terms.mapM (divided m position)
      ensureFinite ⟨ts⟩ position
  | _ => refuse .polynomialDivisor position

/-- The exponent as an integer: a constant, whole, and at most `2 ^ 31 - 1` either way. -/
def exponent (q : Polynomial) (position : Nat) : Except Failure Int :=
  match q.terms with
  | [e] =>
    if e.power ≠ 0 then refuse .variableExponent position
    else
      match Number.toInt? e.coefficient with
      | none => refuse .fractionalExponent position
      | some n =>
        if Int32.maxValue.toInt < n.natAbs then refuse .exponentTooLarge position else .ok n
  | _ => refuse .variableExponent position

def pow (p q : Polynomial) (position : Nat) : Except Failure Polynomial := do
  let n ← q.exponent position
  match p.terms with
  | [base] =>
    if base.coefficient == 0 && n < 0 then refuse .zeroToNegativePower position
    else
      match power? (base.power.toInt * n) with
      | some power => ensureFinite ⟨[⟨power, Number.power base.coefficient n⟩]⟩ position
      | none => refuse .powerOverflow position
  | _ => refuse .powerOfPolynomial position

end Polynomial
end Quadratics
