import McuSimulator.Base.BitShift
import McuSimulator.Cpu.Arithmetic

/-!
# Shifts

The register and the immediate shifts against shifts by one place. Both handlers tell apart an
amount of 0, below 32, of 32 and above; the iterated shift has none of these cases.
-/

namespace McuSimulator.Cpu

open McuSimulator.Base McuSimulator.Memory

/-! ### Encodings -/

/-- The operation field of a register shift. -/
def aluShiftOp : ShiftKind → BitVec 4
  | .left => 0x2
  | .right => 0x3
  | .arithmetic => 0x4
  | .rotate => 0x7

/-- The kinds of immediate shift, by their operation field. -/
def immShiftKind : Fin 3 → ShiftKind
  | 0 => .left
  | 1 => .right
  | 2 => .arithmetic

/-- The encodings of `exec_shift_imm`. -/
def encodeShiftImm (op : Fin 3) (imm : BitVec 5) (rm rd : BitVec 3) : BitVec 16 :=
  0b000#3 ++ BitVec.ofNat 2 op ++ imm ++ rm ++ rd

/-- The amount that an immediate stands for: 0 is 32 in the shifts to the right. -/
def immShiftAmount (op : Fin 3) (imm : BitVec 5) : Nat :=
  if imm = 0 ∧ op ≠ 0 then 32 else imm.toNat

private theorem immShiftAmount_le (op : Fin 3) (imm : BitVec 5) : immShiftAmount op imm ≤ 32 := by
  have hlt : imm.toNat < 32 := imm.isLt
  rw [immShiftAmount]
  split <;> omega

private theorem immShiftAmount_of_eq_zero {op : Fin 3} {imm : BitVec 5} (hop : op ≠ 0)
    (h : imm.toNat = 0) : immShiftAmount op imm = 32 :=
  if_pos ⟨BitVec.eq_of_toNat_eq h, hop⟩

private theorem immShiftAmount_of_ne_zero {op : Fin 3} {imm : BitVec 5} (h : imm.toNat ≠ 0) :
    immShiftAmount op imm = imm.toNat := by
  apply if_neg
  rintro ⟨rfl, -⟩
  exact h rfl

/-- The amount of a shift to the right. -/
def rightAmount (imm : BitVec 5) : Nat := if imm = 0 then 32 else imm.toNat

/-- To the right an amount of zero stands for 32. -/
theorem immShiftAmount_right {op : Fin 3} (hop : op ≠ 0) (imm : BitVec 5) :
    immShiftAmount op imm = rightAmount imm := by
  simp [immShiftAmount, rightAmount, hop]

namespace CortexM0

/-- After a shift: the value in `rd`, N and Z describe it, C is the carry, and V is kept. -/
def shifted (s : CortexM0) (rd : RegIndex) (r : BitVec 32 × Bool) : CortexM0 :=
  { s with
    regs := Function.update s.regs rd r.1
    apsr := { n := r.1.msb, z := decide (r.1 = 0), c := r.2, v := s.apsr.v } }

/-! ### The handlers -/

section

variable (s : CortexM0) (rd : RegIndex)

/-- How both handlers end. -/
theorem finish_eq_shifted (c : Bool) (result : BitVec 32) :
    (s.setApsr ({ s.apsr with c := c }.updateNz result)).setReg rd result =
      s.shifted rd (result, c) := by
  rw [shifted, BitVec.msb_eq_getLsbD_last]
  rfl

/-- The amount of a register shift is the low byte. -/
theorem toNat_lowByte (b : BitVec 32) : (b.extractLsb' 0 8).toNat = b.toNat % 256 := by
  rw [BitVec.extractLsb'_toNat, Nat.shiftRight_zero]

/-- `LSL` by a register shifts to the left, one bit at a time. -/
theorem execAluShift_left (a b : BitVec 32) :
    s.execAluShift 0x2 rd a b = s.shifted rd (ShiftKind.left.times (b.toNat % 256) a s.apsr.c) := by
  rw [← toNat_lowByte b]
  generalize hsh : (b.extractLsb' 0 8).toNat = sh
  have hexec : s.execAluShift 0x2 rd a b = s.shifted rd (if 32 ≤ sh then 0 else a <<< sh,
      if 0 < sh then
        if sh < 32 then a.getLsbD (32 - sh) else if sh = 32 then a.getLsbD 0 else false
      else s.apsr.c) := by
    rw [← finish_eq_shifted, ← hsh]
    rfl
  rw [hexec]
  congr 1
  cases sh with
  | zero => simp
  | succ n =>
    rw [ShiftKind.times_succ, ShiftKind.out_left, if_pos (Nat.succ_pos n)]
    congr 1
    · split
      · rw [ShiftKind.shift_left_of_le a (by assumption)]
      · rfl
    · rcases Nat.lt_trichotomy (n + 1) 32 with hlt | heq | hgt
      · rw [if_pos hlt, decide_eq_true (by omega), Bool.true_and]
        congr 1
        omega
      · rw [if_neg (by omega), if_pos heq, decide_eq_true (by omega), Bool.true_and]
        congr 1
        omega
      · rw [if_neg (by omega), if_neg (by omega), decide_eq_false (by omega), Bool.false_and]

/-- `LSR` by a register shifts to the right, one bit at a time. -/
theorem execAluShift_right (a b : BitVec 32) :
    s.execAluShift 0x3 rd a b =
      s.shifted rd (ShiftKind.right.times (b.toNat % 256) a s.apsr.c) := by
  rw [← toNat_lowByte b]
  generalize hsh : (b.extractLsb' 0 8).toNat = sh
  have hexec : s.execAluShift 0x3 rd a b = s.shifted rd (if 32 ≤ sh then 0 else a >>> sh,
      if 0 < sh then
        if sh < 32 then a.getLsbD (sh - 1) else if sh = 32 then a.getLsbD 31 else false
      else s.apsr.c) := by
    rw [← finish_eq_shifted, ← hsh]
    rfl
  rw [hexec]
  congr 1
  cases sh with
  | zero => simp
  | succ n =>
    rw [ShiftKind.times_succ, ShiftKind.out_right, if_pos (Nat.succ_pos n),
      Nat.add_sub_cancel]
    congr 1
    · split
      · rw [ShiftKind.shift_right_of_le a (by assumption)]
      · rfl
    · rcases Nat.lt_trichotomy (n + 1) 32 with hlt | heq | hgt
      · rw [if_pos hlt]
      · rw [if_neg (by omega), if_pos heq]
        congr 1
        omega
      · rw [if_neg (by omega), if_neg (by omega), BitVec.getLsbD_of_ge a n (by omega)]

/-- `ASR` by a register shifts arithmetically, one bit at a time. -/
theorem execAluShift_arithmetic (a b : BitVec 32) :
    s.execAluShift 0x4 rd a b =
      s.shifted rd (ShiftKind.arithmetic.times (b.toNat % 256) a s.apsr.c) := by
  rw [← toNat_lowByte b]
  generalize hsh : (b.extractLsb' 0 8).toNat = sh
  have hexec : s.execAluShift 0x4 rd a b = s.shifted rd
      (if 32 ≤ sh then a.sshiftRight 31 else a.sshiftRight sh,
        if 0 < sh then if sh < 32 then a.getLsbD (sh - 1) else a.getLsbD 31 else s.apsr.c) := by
    rw [← finish_eq_shifted, ← hsh]
    rfl
  rw [hexec]
  congr 1
  cases sh with
  | zero => simp
  | succ n =>
    rw [ShiftKind.times_succ, ShiftKind.out_arithmetic _ _ (by decide),
      if_pos (Nat.succ_pos n), Nat.add_sub_cancel]
    congr 1
    · split
      · rw [ShiftKind.shift_arithmetic_of_le a (by assumption)]
      · rfl
    · rcases Nat.lt_trichotomy (n + 1) 32 with hlt | heq | hgt
      · rw [if_pos hlt, if_pos (by omega)]
      · have hn : n = 31 := by omega
        rw [if_neg (by omega), if_pos (by omega), hn]
      · rw [if_neg (by omega), if_neg (by omega), BitVec.msb_eq_getLsbD_last]

/-- The rotation by whole turns is no rotation, but its carry is the top bit. -/
theorem execAluShift_rotate (a b : BitVec 32) :
    s.execAluShift 0x7 rd a b =
      s.shifted rd (ShiftKind.rotate.times (b.toNat % 256) a s.apsr.c) := by
  rw [← toNat_lowByte b]
  generalize hsh : (b.extractLsb' 0 8).toNat = sh
  have hexec : s.execAluShift 0x7 rd a b =
      if sh = 0 then s.shifted rd (a, s.apsr.c)
      else if sh % 32 = 0 then s.shifted rd (a, a.getLsbD 31)
      else s.shifted rd (a >>> (sh % 32) ||| a <<< (32 - sh % 32), a.getLsbD (sh % 32 - 1)) := by
    rw [← finish_eq_shifted, ← finish_eq_shifted, ← finish_eq_shifted, ← hsh]
    rfl
  rw [hexec]
  cases sh with
  | zero => simp
  | succ n =>
    have hvalue : a >>> ((n + 1) % 32) ||| a <<< (32 - (n + 1) % 32) =
        ShiftKind.rotate.shift a (n + 1) :=
      BitVec.rotateRight_def.symm
    rw [ShiftKind.times_succ, ShiftKind.out_rotate _ _ (by decide), if_neg (by omega), ← hvalue]
    by_cases hturn : (n + 1) % 32 = 0
    · have hlast : n % 32 = 31 := by omega
      rw [if_pos hturn, hturn, hlast, BitVec.ushiftRight_zero, BitVec.shiftLeft_eq_zero (by decide),
        BitVec.or_zero]
    · have hlast : (n + 1) % 32 - 1 = n % 32 := by omega
      rw [if_neg hturn, hlast]

/-- A register shift is one-place shifts, as many as the low byte of the amount says. -/
theorem execAluShift_eq_times (k : ShiftKind) (a b : BitVec 32) :
    s.execAluShift (aluShiftOp k) rd a b =
      s.shifted rd (k.times (b.toNat % 256) a s.apsr.c) := by
  cases k with
  | left => exact execAluShift_left s rd a b
  | right => exact execAluShift_right s rd a b
  | arithmetic => exact execAluShift_arithmetic s rd a b
  | rotate => exact execAluShift_rotate s rd a b

/-! ### The immediate shifts -/

variable {instr : BitVec 16}

/-- `LSL` by an immediate shifts to the left, one bit at a time. -/
theorem execShiftImm_left (hop : instr.extractLsb' 11 2 = 0#2) :
    s.execShiftImm instr = .ok () (s.shifted (reg3 instr 0)
      (ShiftKind.left.times (instr.extractLsb' 6 5).toNat (s.regs (reg3 instr 3)) s.apsr.c)) := by
  have hlt := (instr.extractLsb' 6 5).isLt
  unfold execShiftImm
  rw [hop]
  simp only [finish_eq_shifted]
  generalize (instr.extractLsb' 6 5).toNat = n at hlt
  cases n with
  | zero => rfl
  | succ n =>
    have hbit : 32 - (n + 1) = 32 - 1 - n := by omega
    rw [ShiftKind.times_succ, ShiftKind.out_left, decide_eq_true (by omega), Bool.true_and, ← hbit]
    rfl

/-- `LSR` by an immediate shifts to the right, one bit at a time. -/
theorem execShiftImm_right (hop : instr.extractLsb' 11 2 = 1#2) :
    s.execShiftImm instr = .ok () (s.shifted (reg3 instr 0)
      (ShiftKind.right.times (immShiftAmount 1 (instr.extractLsb' 6 5)) (s.regs (reg3 instr 3))
        s.apsr.c)) := by
  unfold execShiftImm
  rw [hop]
  simp only [finish_eq_shifted]
  cases hn : (instr.extractLsb' 6 5).toNat with
  | zero =>
    rw [immShiftAmount_of_eq_zero (by decide) hn, ShiftKind.times_succ, ShiftKind.out_right,
      ShiftKind.shift_right_of_le _ (by decide)]
    rfl
  | succ n =>
    rw [immShiftAmount_of_ne_zero (by omega), hn, ShiftKind.times_succ, ShiftKind.out_right]
    rfl

/-- `ASR` by an immediate shifts arithmetically, one bit at a time. -/
theorem execShiftImm_arithmetic (hop : instr.extractLsb' 11 2 = 2#2) :
    s.execShiftImm instr = .ok () (s.shifted (reg3 instr 0)
      (ShiftKind.arithmetic.times (immShiftAmount 2 (instr.extractLsb' 6 5)) (s.regs (reg3 instr 3))
        s.apsr.c)) := by
  have hlt := (instr.extractLsb' 6 5).isLt
  unfold execShiftImm
  rw [hop]
  simp only [finish_eq_shifted]
  cases hn : (instr.extractLsb' 6 5).toNat with
  | zero =>
    rw [immShiftAmount_of_eq_zero (by decide) hn, ShiftKind.times_succ,
      ShiftKind.out_arithmetic _ _ (by decide), ShiftKind.shift_arithmetic_of_le _ (by decide)]
    rfl
  | succ n =>
    have hlow : n < 32 := by omega
    rw [immShiftAmount_of_ne_zero (by omega), hn, ShiftKind.times_succ,
      ShiftKind.out_arithmetic _ _ (by decide), if_pos hlow]
    rfl

/-- An immediate shift is one-place shifts, as many as the immediate stands for. -/
theorem execShiftImm_eq_times {op : Fin 3} (hop : instr.extractLsb' 11 2 = BitVec.ofNat 2 op) :
    s.execShiftImm instr = .ok () (s.shifted (reg3 instr 0) ((immShiftKind op).times
      (immShiftAmount op (instr.extractLsb' 6 5)) (s.regs (reg3 instr 3)) s.apsr.c)) := by
  match op with
  | 0 =>
    rw [execShiftImm_left s hop, immShiftAmount, if_neg (fun h ↦ h.2 rfl)]
    rfl
  | 1 => exact execShiftImm_right s hop
  | 2 => exact execShiftImm_arithmetic s hop

end

end CortexM0

/-! ### The instructions -/

section

variable (s : CortexM0)

private theorem execute_encodeAlu_shift (k : ShiftKind) (rm rd : BitVec 3) :
    s.execute (encodeAlu (aluShiftOp k) rm rd) =
      .ok () (s.execAluShift (aluShiftOp k) (rd.setWidth 4) (s.regs (rd.setWidth 4))
        (s.regs (rm.setWidth 4))) := by
  obtain ⟨hop, hrm, hrd⟩ := encodeAlu_fields (aluShiftOp k) rm rd
  rw [execute_encodeAlu, CortexM0.execAlu, hop, reg3, reg3, hrm, hrd]
  cases k <;> rfl

private theorem encodeShiftImm_fields (op : Fin 3) (imm : BitVec 5) (rm rd : BitVec 3) :
    (encodeShiftImm op imm rm rd).extractLsb' 11 2 = BitVec.ofNat 2 op ∧
    (encodeShiftImm op imm rm rd).extractLsb' 6 5 = imm ∧
    (encodeShiftImm op imm rm rd).extractLsb' 3 3 = rm ∧
    (encodeShiftImm op imm rm rd).extractLsb' 0 3 = rd := by
  refine ⟨?_, ?_, ?_, ?_⟩
  · rw [encodeShiftImm, BitVec.extractLsb'_append_eq_of_le (by decide),
      BitVec.extractLsb'_append_eq_of_le (by decide),
      BitVec.extractLsb'_append_eq_of_le (by decide),
      BitVec.extractLsb'_append_eq_of_add_le (by decide), BitVec.extractLsb'_eq_self]
  · rw [encodeShiftImm, BitVec.extractLsb'_append_eq_of_le (by decide),
      BitVec.extractLsb'_append_eq_of_le (by decide),
      BitVec.extractLsb'_append_eq_of_add_le (by decide), BitVec.extractLsb'_eq_self]
  · rw [encodeShiftImm, BitVec.extractLsb'_append_eq_of_le (by decide),
      BitVec.extractLsb'_append_eq_of_add_le (by decide), BitVec.extractLsb'_eq_self]
  · rw [encodeShiftImm, BitVec.extractLsb'_append_eq_of_add_le (by decide),
      BitVec.extractLsb'_eq_self]

private theorem execute_encodeShiftImm (op : Fin 3) (imm : BitVec 5) (rm rd : BitVec 3) :
    s.execute (encodeShiftImm op imm rm rd) =
      .ok () (s.shifted (rd.setWidth 4) ((immShiftKind op).times (immShiftAmount op imm)
        (s.regs (rm.setWidth 4)) s.apsr.c)) := by
  obtain ⟨hop, himm, hrm, hrd⟩ := encodeShiftImm_fields op imm rm rd
  have htop : (encodeShiftImm op imm rm rd).extractLsb' 11 5 = 0b000#3 ++ BitVec.ofNat 2 op := by
    rw [encodeShiftImm, BitVec.extractLsb'_append_eq_of_le (by decide),
      BitVec.extractLsb'_append_eq_of_le (by decide),
      BitVec.extractLsb'_append_eq_of_le (by decide), BitVec.extractLsb'_eq_self]
  have hle : ∀ op : Fin 3, 0b000#3 ++ BitVec.ofNat 2 op ≤ (0x02 : BitVec 5) := by decide
  have hdecode : decode (encodeShiftImm op imm rm rd) = .shiftImm := by
    unfold decode
    rw [htop]
    exact if_pos (hle op)
  unfold CortexM0.execute
  rw [hdecode]
  dsimp only
  rw [CortexM0.execShiftImm_eq_times s hop, himm, reg3, reg3, hrm, hrd]

/-- A register shift is one-place shifts, as many as the amount modulo 256 says. An immediate
shift is the register shift by what the immediate stands for, and so are its one-place shifts. -/
theorem shift_bit_by_bit :
    (∀ (k : ShiftKind) (rm rd : BitVec 3), s.execute (encodeAlu (aluShiftOp k) rm rd) =
      .ok () (s.shifted (rd.setWidth 4) (k.times ((s.regs (rm.setWidth 4)).toNat % 256)
        (s.regs (rd.setWidth 4)) s.apsr.c))) ∧
    ∀ (op : Fin 3) (imm : BitVec 5) (rm rd : BitVec 3),
      s.execute (encodeShiftImm op imm rm rd) =
        .ok () (s.execAluShift (aluShiftOp (immShiftKind op)) (rd.setWidth 4)
          (s.regs (rm.setWidth 4)) (BitVec.ofNat 32 (immShiftAmount op imm))) ∧
      s.execute (encodeShiftImm op imm rm rd) =
        .ok () (s.shifted (rd.setWidth 4) ((immShiftKind op).times (immShiftAmount op imm)
          (s.regs (rm.setWidth 4)) s.apsr.c)) := by
  constructor
  · intro k rm rd
    rw [execute_encodeAlu_shift, CortexM0.execAluShift_eq_times]
  · intro op imm rm rd
    have hle := immShiftAmount_le op imm
    have hamount : (BitVec.ofNat 32 (immShiftAmount op imm)).toNat % 256 =
        immShiftAmount op imm := by
      rw [BitVec.toNat_ofNat]
      omega
    rw [execute_encodeShiftImm, CortexM0.execAluShift_eq_times, hamount]
    exact ⟨rfl, rfl⟩

end

end McuSimulator.Cpu
