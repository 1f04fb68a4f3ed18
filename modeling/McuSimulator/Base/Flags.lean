import Mathlib.Logic.Basic

/-!
# Flags in a word

A flag is a mask. What setting and clearing flags does to these flags and to others, and a flag of
one bit as that bit.
-/

namespace McuSimulator.Base

variable {w : Nat} {x a b : BitVec w}

/-! ### Other flags -/

/-- Setting one flag leaves another one. -/
theorem or_and_of_disjoint (h : a &&& b = 0) : (x ||| a) &&& b = x &&& b := by
  rw [BitVec.and_or_distrib_right, h]
  exact BitVec.or_zero

/-- Clearing one flag leaves another one. -/
theorem and_not_and_of_disjoint (h : ~~~a &&& b = b) : x &&& ~~~a &&& b = x &&& b := by
  rw [BitVec.and_assoc, h]

/-! ### The same flags -/

/-- A flag that has been set is set. -/
theorem or_and_ne_zero (h : a ≠ 0) : (x ||| a) &&& a ≠ 0 := by
  intro heq
  apply h
  rw [BitVec.and_or_distrib_right, BitVec.and_self] at heq
  exact (BitVec.or_eq_zero_iff.mp heq).2

/-- A flag that has been cleared is clear. -/
theorem and_not_and_self (x a : BitVec w) : x &&& ~~~a &&& a = 0 := by
  rw [BitVec.and_assoc, BitVec.not_and_self]
  exact BitVec.and_zero

/-- A flag of one bit is set where that bit is. -/
theorem and_twoPow_ne_zero (x : BitVec w) {n : Nat} (hn : n < w) :
    x &&& BitVec.twoPow w n ≠ 0 ↔ x.getLsbD n = true := by
  have hpow : BitVec.twoPow w n ≠ 0 := by
    intro h
    have hbit := congrArg (fun y : BitVec w ↦ y.getLsbD n) h
    simp [hn] at hbit
  rw [BitVec.and_twoPow]
  split
  case isTrue h => exact iff_of_true hpow h
  case isFalse h => exact iff_of_false (not_not_intro rfl) h

end McuSimulator.Base
