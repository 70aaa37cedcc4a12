import Quadratics.Error
/-! Computations in steps, each of which may fail: when all succeed, so does each one, and the first
failure is that of the whole. Two runs that agree step by step agree in the end. -/
namespace Quadratics

variable {ε α β : Type}

theorem bind_eq_ok {x : Except ε α} {f : α → Except ε β} {b : β} :
    x >>= f = .ok b ↔ ∃ a, x = .ok a ∧ f a = .ok b := by
  cases x with
  | error e => simp [bind, Except.bind]
  | ok a => simp [bind, Except.bind]

theorem map_eq_ok {x : Except ε α} {f : α → β} {b : β} :
    x.map f = .ok b ↔ ∃ a, x = .ok a ∧ f a = b := by
  cases x with
  | error e => simp [Except.map]
  | ok a => simp [Except.map]

theorem mapM_cons_eq_ok {f : α → Except ε β} {a : α} {as : List α} {bs : List β} :
    (a :: as).mapM f = .ok bs ↔ ∃ b cs, f a = .ok b ∧ as.mapM f = .ok cs ∧ bs = b :: cs := by
  rw [List.mapM_cons]
  constructor
  · intro h
    obtain ⟨b, hb, h⟩ := bind_eq_ok.mp h
    obtain ⟨cs, hcs, h⟩ := bind_eq_ok.mp h
    cases h
    exact ⟨b, cs, hb, hcs, rfl⟩
  · rintro ⟨b, cs, hb, hcs, rfl⟩
    rw [hb, hcs]
    rfl

theorem exists_of_mem_mapM {f : α → Except ε β} {a : α} {as : List α} {bs : List β}
    (h : as.mapM f = .ok bs) (ha : a ∈ as) : ∃ b ∈ bs, f a = .ok b := by
  induction as generalizing bs with
  | nil => cases ha
  | cons a' as ih =>
    obtain ⟨b, cs, hb, hcs, rfl⟩ := mapM_cons_eq_ok.mp h
    rcases List.mem_cons.mp ha with rfl | ha
    · exact ⟨b, List.mem_cons_self, hb⟩
    · obtain ⟨c, hc, hac⟩ := ih hcs ha
      exact ⟨c, List.mem_cons_of_mem b hc, hac⟩

theorem foldlM_cons_eq_ok {f : β → α → Except ε β} {a : α} {as : List α} {b c : β} :
    (a :: as).foldlM f b = .ok c ↔ ∃ d, f b a = .ok d ∧ as.foldlM f d = .ok c := by
  rw [List.foldlM_cons, bind_eq_ok]

theorem foldlM_cons_of_ok {f : β → α → Except ε β} {a : α} {b c : β} (h : f b a = .ok c)
    (as : List α) : (a :: as).foldlM f b = as.foldlM f c := by
  rw [List.foldlM_cons, h]
  rfl

theorem foldlM_append_of_ok {f : β → α → Except ε β} {us : List α} {b c : β}
    (h : us.foldlM f b = .ok c) (vs : List α) : (us ++ vs).foldlM f b = vs.foldlM f c := by
  rw [List.foldlM_append, h]
  rfl

theorem bind_eq_error {x : Except ε α} {f : α → Except ε β} {e : ε} :
    x >>= f = .error e ↔ x = .error e ∨ ∃ a, x = .ok a ∧ f a = .error e := by
  cases x with
  | error e' => simp [bind, Except.bind]
  | ok a => simp [bind, Except.bind]

theorem map_eq_error {x : Except ε α} {f : α → β} {e : ε} :
    x.map f = .error e ↔ x = .error e := by
  cases x with
  | error e' => simp [Except.map]
  | ok a => simp [Except.map]

theorem mapM_eq_error {f : α → Except ε β} {as : List α} {e : ε} (h : as.mapM f = .error e) :
    ∃ a ∈ as, f a = .error e := by
  induction as with
  | nil => cases h
  | cons a as ih =>
    rw [List.mapM_cons] at h
    rcases bind_eq_error.mp h with h | ⟨b, -, h⟩
    · exact ⟨a, List.mem_cons_self, h⟩
    · rcases bind_eq_error.mp h with h | ⟨bs, -, h⟩
      · obtain ⟨a', ha, he⟩ := ih h
        exact ⟨a', List.mem_cons_of_mem _ ha, he⟩
      · cases h

theorem foldlM_append_of_error {f : β → α → Except ε β} {us : List α} {b : β} {e : ε}
    (h : us.foldlM f b = .error e) (vs : List α) : (us ++ vs).foldlM f b = .error e := by
  rw [List.foldlM_append, h]
  rfl

theorem foldlM_cons_of_error {f : β → α → Except ε β} {a : α} {b : β} {e : ε}
    (h : f b a = .error e) (as : List α) : (a :: as).foldlM f b = .error e := by
  rw [List.foldlM_cons, h]
  rfl

/-- The first fault is the outcome; without any there is a result, and it has the property. -/
inductive Checked (P : α → Prop) : List ε → Except ε α → Prop where
  | ok {a : α} (h : P a) : Checked P [] (.ok a)
  | error (e : ε) (es : List ε) : Checked P (e :: es) (.error e)

namespace Checked

variable {P : α → Prop} {es : List ε} {x : Except ε α}

theorem exists_of_nil (h : Checked P ([] : List ε) x) : ∃ a, x = .ok a ∧ P a := by
  cases h with
  | ok hp => exact ⟨_, rfl, hp⟩

theorem eq_error {e : ε} (h : Checked P es x) (he : es.head? = some e) : x = .error e := by
  cases h with
  | ok hp => cases he
  | error e' es => exact congrArg Except.error (Option.some.inj he)

theorem map {Q : β → Prop} {f : α → β} (h : Checked P es x) (hf : ∀ a, P a → Q (f a)) :
    Checked Q es (x.map f) := by
  cases h with
  | ok hp => exact .ok (hf _ hp)
  | error e es => exact .error e es

theorem bind {Q : β → Prop} {fs : List ε} {f : α → Except ε β} (h : Checked P es x)
    (hf : ∀ a, P a → Checked Q fs (f a)) : Checked Q (es ++ fs) (x >>= f) := by
  cases h with
  | ok hp => exact hf _ hp
  | error e es => exact .error e (es ++ fs)

/-- The faults of a run are those of its steps, where each step keeps the property for what has been
read so far. -/
theorem foldlM {P : List α → β → Prop} {f : β → α → Except ε β} {faults : α → List ε}
    (step : ∀ read b a, P read b → Checked (P (read ++ [a])) (faults a) (f b a))
    {read : List α} {b : β} (h : P read b) (as : List α) :
    Checked (P (read ++ as)) (as.flatMap faults) (as.foldlM f b) := by
  induction as generalizing read b with
  | nil => exact .ok (by rwa [List.append_nil])
  | cons a as ih =>
    rw [List.flatMap_cons, List.foldlM_cons]
    refine (step read b a h).bind fun c hc => ?_
    rw [List.append_cons]
    exact ih hc

end Checked

/-- Both fail, with failures that are related, or both succeed, with results that are. -/
inductive Agree {ε ε' α α' : Type} (E : ε → ε' → Prop) (R : α → α' → Prop) :
    Except ε α → Except ε' α' → Prop where
  | error {e : ε} {e' : ε'} (h : E e e') : Agree E R (.error e) (.error e')
  | ok {a : α} {a' : α'} (h : R a a') : Agree E R (.ok a) (.ok a')

namespace Agree

variable {ε' α' β' : Type} {E : ε → ε' → Prop} {R : α → α' → Prop} {S : β → β' → Prop}
  {x : Except ε α} {y : Except ε' α'}

theorem exists_of_ok {a : α} (h : Agree E R x y) (hx : x = .ok a) : ∃ a', y = .ok a' ∧ R a a' := by
  cases h with
  | error he => cases hx
  | ok hr =>
    cases hx
    exact ⟨_, rfl, hr⟩

theorem exists_of_error {e : ε} (h : Agree E R x y) (hx : x = .error e) :
    ∃ e', y = .error e' ∧ E e e' := by
  cases h with
  | error he =>
    cases hx
    exact ⟨_, rfl, he⟩
  | ok hr => cases hx

theorem refl (x : Except ε α) : Agree Eq Eq x x := by
  cases x with
  | error e => exact .error rfl
  | ok a => exact .ok rfl

theorem bind {f : α → Except ε β} {g : α' → Except ε' β'} (h : Agree E R x y)
    (hf : ∀ a a', R a a' → Agree E S (f a) (g a')) : Agree E S (x >>= f) (y >>= g) := by
  cases h with
  | error he => exact .error he
  | ok hr => exact hf _ _ hr

theorem map {f : α → β} {g : α' → β'} (h : Agree E R x y)
    (hf : ∀ a a', R a a' → S (f a) (g a')) : Agree E S (x.map f) (y.map g) := by
  cases h with
  | error he => exact .error he
  | ok hr => exact .ok (hf _ _ hr)

theorem mapM {f : α → Except ε β} {g : α → Except ε' β} (h : ∀ a, Agree E Eq (f a) (g a))
    (as : List α) : Agree E Eq (as.mapM f) (as.mapM g) := by
  induction as with
  | nil => exact .ok rfl
  | cons a as ih =>
    rw [List.mapM_cons, List.mapM_cons]
    refine (h a).bind ?_
    rintro b _ rfl
    refine ih.bind ?_
    rintro bs _ rfl
    exact .ok rfl

end Agree

def EquationError.SameCause (e e' : EquationError) : Prop := e.cause = e'.cause

def Failure.SameCause : Failure → Failure → Prop
  | .rejected e, .rejected e' => e.SameCause e'
  | .overflow, .overflow => True
  | _, _ => False

end Quadratics
