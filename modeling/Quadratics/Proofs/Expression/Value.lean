import Quadratics.Proofs.Expression.Building
import Quadratics.Proofs.Polynomial.Value
/-! The value of a tree, computed from the leaves up with rational numbers, and its polynomial. They
agree as long as no operation on coefficients rounds. -/
namespace Quadratics.Expression

open Number (Operation)

def unaryValue? (op : Operator) (a : ℚ) : Option ℚ :=
  match op with
  | .unaryMinus => some (-a)
  | .unaryPlus => some a
  | .add | .sub | .mul | .div | .pow => none

/-- Nothing is divided by zero, exponents are whole, and zero has no negative power. -/
def binaryValue? (op : Operator) (a b : ℚ) : Option ℚ :=
  match op with
  | .add => some (a + b)
  | .sub => some (a - b)
  | .mul => some (a * b)
  | .div => if b = 0 then none else some (a / b)
  | .pow => if b.den = 1 ∧ ¬ (a = 0 ∧ b.num < 0) then some (a ^ b.num) else none
  | .unaryMinus | .unaryPlus => none

def value? (x : ℚ) : Expression → Option ℚ
  | .number value _ => Number.value? value
  | .var multiplier _ => do return (← Number.value? multiplier) * x
  | .unary op operand _ => do unaryValue? op (← operand.value? x)
  | .binary op left right _ => do binaryValue? op (← left.value? x) (← right.value? x)

/-- The numbers in the tree, those in front of a variable left out. -/
def literals : Expression → List Float
  | .number value _ => [value]
  | .var _ _ => []
  | .unary _ operand _ => operand.literals
  | .binary _ left right _ => left.literals ++ right.literals

def unaryOperations (op : Operator) (p : Polynomial) : List Operation :=
  match op with
  | .unaryMinus => p.negOperations
  | _ => []

def binaryOperations (op : Operator) (p q : Polynomial) (position : Nat) : List Operation :=
  match op with
  | .add => p.addOperations q
  | .sub => p.subOperations q
  | .mul => p.mulOperations q
  | .div => p.divOperations q
  | .pow => p.powOperations q position
  | .unaryMinus | .unaryPlus => []

def operations : Expression → List Operation
  | .number _ _ | .var _ _ => []
  | .unary op operand _ =>
    operand.operations ++
      match operand.fold with
      | .ok p => unaryOperations op p
      | .error _ => []
  | .binary op left right position =>
    left.operations ++ right.operations ++
      match left.fold, right.fold with
      | .ok p, .ok q => binaryOperations op p q position
      | _, _ => []

variable {x a b : ℚ} {p q r : Polynomial} {op : Operator} {position : Nat}

theorem value?_constant {c : Float} (h : Number.value? c = some a) :
    (Polynomial.constant c).value? x = some a := by
  have ht : (⟨0, c⟩ : Term).value? x = some (a * x ^ (0 : Int)) := Polynomial.value?_term a h
  rw [Polynomial.value?, Polynomial.constant, Polynomial.sum?_singleton, ht, zpow_zero, mul_one]

theorem value?_var {c : Float} (h : Number.value? c = some a) :
    (Polynomial.var c).value? x = some (a * x) := by
  have ht : (⟨1, c⟩ : Term).value? x = some (a * x ^ (1 : Int)) := Polynomial.value?_term a h
  rw [Polynomial.value?, Polynomial.var, Polynomial.sum?_singleton, ht, zpow_one]

theorem value?_applyUnary (hp : p.value? x = some a) (h : ∀ o ∈ unaryOperations op p, o.Exact)
    (hr : applyUnary op p position = .ok r) :
    ∃ c, unaryValue? op a = some c ∧ r.value? x = some c := by
  cases op with
  | unaryMinus =>
    cases hr
    exact ⟨-a, rfl, Polynomial.value?_neg hp h⟩
  | unaryPlus =>
    cases hr
    exact ⟨a, rfl, hp⟩
  | add | sub | mul | div | pow => cases hr

theorem value?_applyBinary (hx : x ≠ 0) (hp : p.value? x = some a) (hq : q.value? x = some b)
    (h : ∀ o ∈ binaryOperations op p q position, o.Exact)
    (hr : applyBinary op p q position = .ok r) :
    ∃ c, binaryValue? op a b = some c ∧ r.value? x = some c := by
  cases op with
  | add =>
    cases hr
    exact ⟨a + b, rfl, Polynomial.value?_add hp hq h⟩
  | sub =>
    cases hr
    exact ⟨a - b, rfl, Polynomial.value?_sub hp hq h⟩
  | mul => exact ⟨a * b, rfl, Polynomial.value?_mul hx hp hq h hr⟩
  | div =>
    obtain ⟨hb, hv⟩ := Polynomial.value?_div hx hp hq h hr
    exact ⟨a / b, if_neg hb, hv⟩
  | pow =>
    obtain ⟨n, hn, hz, hv⟩ := Polynomial.value?_pow hx hp h hr
    obtain rfl : b = n := by simpa [hq] using hn
    exact ⟨a ^ n, by simp [binaryValue?, hz], hv⟩
  | unaryMinus | unaryPlus => cases hr

theorem value?_fold {e : Expression} (hw : e.Written) (hl : ∀ v ∈ e.literals, v.isFinite = true)
    (hp : e.fold = .ok p) (h : ∀ o ∈ e.operations, o.Exact) (hx : x ≠ 0) :
    ∃ a, e.value? x = some a ∧ p.value? x = some a := by
  induction e generalizing p with
  | number v position =>
    cases hp
    obtain ⟨a, ha⟩ := Number.isFinite_iff.mp (hl v List.mem_cons_self)
    exact ⟨a, ha, value?_constant ha⟩
  | var m position =>
    cases hp
    cases hw
    exact ⟨1 * x, by simp [value?, Number.value?_one], value?_var Number.value?_one⟩
  | unary op operand position ih =>
    obtain ⟨q, hq, hp⟩ := bind_eq_ok.mp hp
    simp only [operations, hq, List.mem_append] at h
    obtain ⟨a, ha, hqa⟩ := ih hw hl hq fun o ho => h o (.inl ho)
    obtain ⟨c, hc, hpc⟩ := value?_applyUnary hqa (fun o ho => h o (.inr ho)) hp
    exact ⟨c, by simp [value?, ha, hc], hpc⟩
  | binary op left right position ihl ihr =>
    obtain ⟨q, hq, hp⟩ := bind_eq_ok.mp hp
    obtain ⟨r, hr, hp⟩ := bind_eq_ok.mp hp
    simp only [operations, hq, hr, List.mem_append] at h
    simp only [literals, List.mem_append] at hl
    obtain ⟨a, ha, hqa⟩ := ihl hw.1 (fun v hv => hl v (.inl hv)) hq fun o ho => h o (.inl (.inl ho))
    obtain ⟨b, hb, hrb⟩ := ihr hw.2 (fun v hv => hl v (.inr hv)) hr fun o ho => h o (.inl (.inr ho))
    obtain ⟨c, hc, hpc⟩ := value?_applyBinary hx hqa hrb (fun o ho => h o (.inr ho)) hp
    exact ⟨c, by simp [value?, ha, hb, hc], hpc⟩

/-- Where no operation rounds, the polynomial of a tree has the value of the tree, and the tree has
a value: it divides by nothing that is zero and raises no zero to a negative power. -/
theorem value?_build {ts : List Token} {e : Expression} (hb : build ts = .ok e)
    (hl : ∀ v ∈ e.literals, v.isFinite = true) (hp : e.fold = .ok p)
    (h : ∀ o ∈ e.operations, o.Exact) (hx : x ≠ 0) :
    ∃ a, e.value? x = some a ∧ p.value? x = some a :=
  value?_fold (written_build hb) hl hp h hx

deriving instance DecidableEq for Except

/-- `6x ^ 2 / 3 - x ^ -1` is `2x ^ 2 - x ^ -1`, 15/2 at two. -/
theorem value?_build_quotient :
    let ts := [Token.Kind.number 6, .var, .number 2, .operator .pow, .operator .mul, .number 3,
      .operator .div, .var, .number 1, .operator .unaryMinus, .operator .pow,
      .operator .sub].map (Token.synthetic · 0)
    let dividend := binary .mul (number 6 0) (binary .pow (var 1 0) (number 2 0) 0) 0
    let e := binary .sub (binary .div dividend (number 3 0) 0)
      (binary .pow (var 1 0) (unary .unaryMinus (number 1 0) 0) 0) 0
    let p : Polynomial := ⟨[⟨2, 2⟩, ⟨-1, -1⟩]⟩
    build ts = .ok e ∧ e.fold = .ok p ∧ (∀ o ∈ e.operations, o.Exact) ∧
      e.value? 2 = some (15 / 2) ∧ p.value? 2 = some (15 / 2) := by
  intro ts dividend e p
  have hb : build ts = .ok e := rfl
  have hp : e.fold = .ok p := by decide +kernel
  have ho : ∀ o ∈ e.operations, o.Exact := by decide +kernel
  have hl : ∀ v ∈ e.literals, v.isFinite = true := by decide +kernel
  have he : e.value? 2 = some (15 / 2) := by decide +kernel
  obtain ⟨a, ha, hpa⟩ := value?_build hb hl hp ho (x := 2) (by decide)
  rw [he] at ha
  cases ha
  exact ⟨hb, hp, ho, he, hpa⟩

end Quadratics.Expression
