import Mathlib.Algebra.Group.Int.Defs
import Mathlib.Logic.Function.Iterate

/-!
# Shifts bit by bit

A shift or rotation by `n` places against `n` of them by one place. The bit that leaves the word
at one place is carried along, so that the carry of a long shift is the bit that left it last.
-/

namespace McuSimulator.Base

/-- The kinds of shift. -/
inductive ShiftKind where
  /-- To the left, zeros in. -/
  | left
  /-- To the right, zeros in. -/
  | right
  /-- To the right, the sign in. -/
  | arithmetic
  /-- To the right, the bit that leaves in. -/
  | rotate
  deriving DecidableEq, Repr

namespace ShiftKind

variable {w : Nat}

/-- `n` places at once. -/
def shift (k : ShiftKind) (v : BitVec w) (n : Nat) : BitVec w :=
  match k with
  | left => v <<< n
  | right => v >>> n
  | arithmetic => v.sshiftRight n
  | rotate => v.rotateRight n

/-- The bit that leaves the word at the next place. -/
def out (k : ShiftKind) (v : BitVec w) : Bool :=
  match k with
  | left => v.msb
  | _ => v.getLsbD 0

/-- One place, with the bit that leaves the word. -/
def once (k : ShiftKind) (p : BitVec w × Bool) : BitVec w × Bool := (k.shift p.1 1, k.out p.1)

/-- `n` times one place, from a carry that is kept if there are none. -/
def times (k : ShiftKind) (n : Nat) (v : BitVec w) (carry : Bool) : BitVec w × Bool :=
  k.once^[n] (v, carry)

/-! ### Long shifts -/

/-- The bits of a rotated word go round. -/
theorem getLsbD_rotateRight_mod (v : BitVec w) (n : Nat) {i : Nat} (hi : i < w) :
    (v.rotateRight n).getLsbD i = v.getLsbD ((i + n) % w) := by
  have hn : n % w < w := Nat.mod_lt n (by omega)
  have hsum : (i + n) % w = (i + n % w) % w := (Nat.add_mod_mod i n w).symm
  rw [BitVec.getLsbD_rotateRight, hsum]
  by_cases hlt : i < w - n % w
  · have hon : (i + n % w) % w = i + n % w := Nat.mod_eq_of_lt (by omega)
    rw [hon]
    simp [hlt, Nat.add_comm]
  · have hback : (i + n % w) % w = i - (w - n % w) := by
      rw [Nat.mod_eq_sub_mod (by omega), Nat.mod_eq_of_lt (by omega)]
      omega
    rw [hback]
    simp [hlt, hi]

/-- By no place at all. -/
@[simp] theorem shift_zero (k : ShiftKind) (v : BitVec w) : k.shift v 0 = v := by
  cases k <;> simp [shift, BitVec.rotateRight_def]

/-- Rotating by one place more is rotating once more. -/
theorem rotateRight_succ (v : BitVec w) (n : Nat) :
    v.rotateRight (n + 1) = (v.rotateRight n).rotateRight 1 := by
  apply BitVec.eq_of_getLsbD_eq
  intro i hi
  have hone : (i + 1) % w < w := Nat.mod_lt _ (by omega)
  rw [getLsbD_rotateRight_mod _ _ hi, getLsbD_rotateRight_mod _ _ hi,
    getLsbD_rotateRight_mod _ _ hone, Nat.mod_add_mod, Nat.add_assoc, Nat.add_comm 1 n]

private theorem shift_succ (k : ShiftKind) (v : BitVec w) (n : Nat) :
    k.shift v (n + 1) = k.shift (k.shift v n) 1 := by
  cases k with
  | left => exact BitVec.shiftLeft_add v n 1
  | right => exact BitVec.shiftRight_add v n 1
  | arithmetic => exact BitVec.sshiftRight_add
  | rotate => exact rotateRight_succ v n

/-- Places one by one are places at once, and the carry is the bit that left last. -/
theorem times_succ (k : ShiftKind) (n : Nat) (v : BitVec w) (carry : Bool) :
    k.times (n + 1) v carry = (k.shift v (n + 1), k.out (k.shift v n)) := by
  induction n with
  | zero => rw [times, Function.iterate_one, once, shift_zero]
  | succ n ih => rw [times, Function.iterate_succ_apply', ← times, ih, once, ← shift_succ]

/-- No steps leave the word and the carry. -/
@[simp] theorem times_zero (k : ShiftKind) (v : BitVec w) (carry : Bool) :
    k.times 0 v carry = (v, carry) := rfl

/-! ### The bit that leaves last -/

/-- The bit that the step `n + 1` to the left shifts out is the one `n` places below the top, if
any. -/
theorem out_left (v : BitVec w) (n : Nat) :
    left.out (left.shift v n) = (decide (n < w) && v.getLsbD (w - 1 - n)) := by
  rw [out, shift, BitVec.msb_shiftLeft, BitVec.getMsbD]

/-- The bit that the step `n + 1` to the right shifts out is bit `n`. -/
theorem out_right (v : BitVec w) (n : Nat) : right.out (right.shift v n) = v.getLsbD n := by
  simp [out, shift]

/-- The arithmetic shift goes on shifting out the sign. -/
theorem out_arithmetic (v : BitVec w) (n : Nat) (hw : 0 < w) :
    arithmetic.out (arithmetic.shift v n) = if n < w then v.getLsbD n else v.msb := by
  have hle : ¬ w ≤ 0 := by omega
  simp [out, shift, BitVec.getLsbD_sshiftRight, hle]

/-- The rotation shifts out the bits in turn, again and again. -/
theorem out_rotate (v : BitVec w) (n : Nat) (hw : 0 < w) :
    rotate.out (rotate.shift v n) = v.getLsbD (n % w) := by
  rw [out, shift, getLsbD_rotateRight_mod v n hw, Nat.zero_add]
  simp

/-! ### Past the width -/

/-- By the width or more, nothing is left. -/
theorem shift_left_of_le {n : Nat} (v : BitVec w) (h : w ≤ n) : left.shift v n = 0 :=
  BitVec.shiftLeft_eq_zero h

/-- By the width or more, nothing is left. -/
theorem shift_right_of_le {n : Nat} (v : BitVec w) (h : w ≤ n) : right.shift v n = 0 :=
  BitVec.ushiftRight_eq_zero h

/-- From the last place on only the sign is left. -/
theorem shift_arithmetic_of_le {n : Nat} (v : BitVec w) (h : w ≤ n) :
    arithmetic.shift v n = v.sshiftRight (w - 1) := by
  apply BitVec.eq_of_getLsbD_eq
  intro i hi
  rw [shift, BitVec.getLsbD_sshiftRight, BitVec.getLsbD_sshiftRight, if_neg (by omega)]
  by_cases hzero : i = 0
  · subst hzero
    rw [if_pos (by omega), BitVec.msb_eq_getLsbD_last, Nat.add_zero]
  · rw [if_neg (by omega)]

end ShiftKind

/-! ### Signed fields -/

/-- A field moved to the top of a word and back by fewer places is extended with its sign, and
scaled by the places that are left. -/
theorem sshiftRight_shiftLeft_setWidth {n : Nat} (x : BitVec n) {m k : Nat} (h : k ≤ m) :
    (x.setWidth (n + m) <<< m).sshiftRight k = BitVec.ofInt (n + m) (2 ^ (m - k) * x.toInt) := by
  have hpow : (2 : Int) ^ m = 2 ^ (m - k) * 2 ^ k := by rw [← Int.pow_add, Nat.sub_add_cancel h]
  have hpos : (2 : Int) ^ k ≠ 0 := Int.pow_ne_zero (by decide)
  rw [← BitVec.shiftLeftZeroExtend_eq, BitVec.sshiftRight_eq, BitVec.toInt_shiftLeftZeroExtend,
    Int.shiftRight_eq_div_pow, Int.natCast_pow, hpow, ← Int.mul_assoc]
  exact congrArg (BitVec.ofInt _) ((Int.mul_ediv_cancel _ hpos).trans (Int.mul_comm ..))

/-- A field extended with its sign and doubled. -/
theorem signExtend_shiftLeft_one {n : Nat} (x : BitVec n) (w : Nat) :
    x.signExtend w <<< 1 = BitVec.ofInt w (2 * x.toInt) := by
  have htwo : BitVec.twoPow w 1 = BitVec.ofInt w 2 := by
    apply BitVec.eq_of_toNat_eq
    simp [BitVec.toNat_twoPow]
  rw [BitVec.shiftLeft_eq_mul_twoPow, htwo, BitVec.signExtend, ← BitVec.ofInt_mul, Int.mul_comm]

end McuSimulator.Base
