import Mathlib.Logic.Basic

/-!
# Fallible computations

When a sequence of fallible computations succeeds, and the errors it can end in.
-/

namespace McuSimulator.Base

universe u v w

variable {ε : Type u} {α β : Type v}

/-- A sequence succeeds exactly when both parts do. -/
theorem bind_eq_ok {x : Except ε α} {f : α → Except ε β} {b : β} :
    x >>= f = .ok b ↔ ∃ a, x = .ok a ∧ f a = .ok b := by
  cases x with
  | error e => simp [bind, Except.bind]
  | ok a => simp [bind, Except.bind]

/-- If the computation fails, its error is one of these. -/
def FailsIn (P : ε → Prop) (x : Except ε α) : Prop := ∀ e, x = .error e → P e

section FailsIn

variable {P : ε → Prop}

/-- A value is no failure. -/
theorem failsIn_ok (a : α) : FailsIn P (.ok a : Except ε α) := by
  intro e h
  cases h

/-- A failure that has the property. -/
theorem failsIn_error {e : ε} (h : P e) : FailsIn P (.error e : Except ε α) := by
  intro e' he
  cases he
  exact h

/-- A sequence fails in no other way than its parts. -/
theorem FailsIn.bind {x : Except ε α} {f : α → Except ε β} (hx : FailsIn P x)
    (hf : ∀ a, FailsIn P (f a)) : FailsIn P (x >>= f) := by
  cases x with
  | error e => exact failsIn_error (hx e rfl)
  | ok a => exact hf a

end FailsIn

/-- The computation fails, with one of these errors. -/
def FailsWith (P : ε → Prop) (x : Except ε α) : Prop := ∃ e, x = .error e ∧ P e

/-- The computations are the same, unless the first fails with one of these errors. -/
def EqUnless (P : ε → Prop) (x y : Except ε α) : Prop := FailsWith P x ∨ x = y

section FailsWith

variable {P : ε → Prop} {x y : Except ε α}

/-- A value does not fail. -/
theorem not_failsWith_ok (a : α) : ¬ FailsWith P (.ok a : Except ε α) := by
  rintro ⟨e, h, -⟩
  cases h

/-- A failure fails with the property exactly where it has it. -/
theorem failsWith_error {e : ε} : FailsWith P (.error e : Except ε α) ↔ P e := by
  constructor
  · rintro ⟨e', he, hp⟩
    cases he
    exact hp
  · exact fun h ↦ ⟨e, rfl, h⟩

/-- What fails in one way only does not fail in another one. -/
theorem FailsIn.not_failsWith (h : FailsIn P x) {Q : ε → Prop} (hq : ∀ e, P e → ¬ Q e) :
    ¬ FailsWith Q x := by
  rintro ⟨e, he, hqe⟩
  exact hq e (h e he) hqe

/-- A sequence fails where its first part does, or the rest does after it. -/
theorem failsWith_bind {f : α → Except ε β} :
    FailsWith P (x >>= f) ↔ FailsWith P x ∨ ∃ a, x = .ok a ∧ FailsWith P (f a) := by
  cases x with
  | error e => simp [bind, Except.bind, failsWith_error]
  | ok a => simp [bind, Except.bind, not_failsWith_ok]

/-- A second part that never fails so leaves it to the first. -/
theorem failsWith_bind_left {f : α → Except ε β} (hf : ∀ a, ¬ FailsWith P (f a)) :
    FailsWith P (x >>= f) ↔ FailsWith P x := by
  rw [failsWith_bind]
  exact or_iff_left fun ⟨a, _, h⟩ ↦ hf a h

/-- A computation is equal to itself. -/
theorem EqUnless.refl (x : Except ε α) : EqUnless P x x := .inr rfl

/-- Sequences of equal parts are equal, unless they fail with the property. -/
theorem EqUnless.bind {f g : α → Except ε β} (h : EqUnless P x y)
    (hf : ∀ a, EqUnless P (f a) (g a)) : EqUnless P (x >>= f) (y >>= g) := by
  rcases h with hx | rfl
  · exact .inl (failsWith_bind.mpr (.inl hx))
  · cases x with
    | error e => exact .inr rfl
    | ok a => exact hf a

end FailsWith

end McuSimulator.Base
