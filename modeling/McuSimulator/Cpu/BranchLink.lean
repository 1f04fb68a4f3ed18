import McuSimulator.Cpu.Instruction
import McuSimulator.Cpu.ProgramCounter

/-!
# Branch with link

The two halves of BL. The upper one leaves the target's high part in `bl_offset_`, the lower one
adds the rest, and BX LR comes back.
-/

namespace McuSimulator.Cpu

open McuSimulator.Memory

/-! ### Encodings -/

/-- The first halfword of BL with offset `d`. -/
def blHigh (d : Int) : BitVec 16 := 0xF000#16 ||| (BitVec.ofInt 16 (d >>> (12 : Nat)) &&& 0x7FF#16)

/-- The second halfword. -/
def blLow (d : Int) : BitVec 16 := 0xF800#16 ||| (BitVec.ofInt 16 (d >>> (1 : Nat)) &&& 0x7FF#16)

/-- A masked field below five bits. -/
theorem or_mask_eq_append (top : BitVec 5) (x : BitVec 16) :
    (top ++ 0#11) ||| (x &&& 0x7FF#16) = top ++ x.setWidth 11 := by
  apply BitVec.eq_of_toNat_eq
  have hmask : (0x7FF#16).toNat = 2 ^ 11 - 1 := rfl
  rw [BitVec.toNat_or, BitVec.toNat_append, BitVec.toNat_append, BitVec.toNat_and,
    BitVec.toNat_setWidth, hmask, Nat.and_two_pow_sub_one_eq_mod, BitVec.toNat_zero, Nat.or_zero]

private theorem setWidth_ofInt (n : Int) : (BitVec.ofInt 16 n).setWidth 11 = BitVec.ofInt 11 n := by
  apply BitVec.eq_of_toNat_eq
  rw [BitVec.toNat_setWidth, BitVec.toNat_ofInt, BitVec.toNat_ofInt]
  omega

private theorem blHigh_eq (d : Int) : blHigh d = 0b11110#5 ++ BitVec.ofInt 11 (d / 4096) := by
  rw [blHigh, ← setWidth_ofInt, ← or_mask_eq_append, Int.shiftRight_eq_div_pow]
  rfl

private theorem blLow_eq (d : Int) : blLow d = 0b11111#5 ++ BitVec.ofInt 11 (d / 2) := by
  rw [blLow, ← setWidth_ofInt, ← or_mask_eq_append, Int.shiftRight_eq_div_pow]
  rfl

/-- The leading byte of an opcode with a field of eleven bits. -/
theorem leadingByte_append (top : BitVec 5) (field : BitVec 11) :
    (top ++ field).toNat >>> 8 = 8 * top.toNat + field.toNat / 256 := by
  have hlt := field.isLt
  rw [BitVec.toNat_append, ← Nat.shiftLeft_add_eq_or_of_lt hlt, Nat.shiftLeft_eq,
    Nat.shiftRight_eq_div_pow]
  omega

/-- Where the format follows from the top five bits and any three more, it follows from the top
five. -/
theorem decode_append_field (top : BitVec 5) {f : Format}
    (hall : ∀ k : Fin 8, decode (BitVec.ofNat 16 (256 * (8 * top.toNat + k))) = f)
    (field : BitVec 11) : decode (top ++ field) = f := by
  have hlt := field.isLt
  rw [decode_of_leadingByte (leadingByte_append top field)]
  exact hall ⟨field.toNat / 256, by omega⟩

/-- The field below the top five bits. -/
theorem field_append (top : BitVec 5) (field : BitVec 11) :
    (top ++ field).extractLsb' 0 11 = field := by
  rw [BitVec.extractLsb'_append_eq_of_add_le (by decide), BitVec.extractLsb'_eq_self]

private theorem instruction_blUpper (field : BitVec 11) :
    instruction (0b11110#5 ++ field) = .blUpper field := by
  have hdecode : decode (0b11110#5 ++ field) = .blUpper := decode_append_field _ (by decide) field
  rw [instruction, hdecode]
  exact congrArg Instruction.blUpper (field_append _ field)

private theorem instruction_blLower (field : BitVec 11) :
    instruction (0b11111#5 ++ field) = .blLower field := by
  have hdecode : decode (0b11111#5 ++ field) = .blLower := decode_append_field _ (by decide) field
  rw [instruction, hdecode]
  exact congrArg Instruction.blLower (field_append _ field)

/-- The two fields make up the offset. -/
theorem bl_fields {d : Int} (hlo : -2 ^ 22 ≤ d) (hhi : d < 2 ^ 22) (heven : d % 2 = 0) :
    4096 * (BitVec.ofInt 11 (d / 4096)).toInt +
      (2 * (BitVec.ofInt 11 (d / 2)).toNat : Nat) = d := by
  have hhigh : (BitVec.ofInt 11 (d / 4096)).toInt = d / 4096 :=
    BitVec.toInt_ofInt_eq_self (by decide) (by omega) (by omega)
  have hlow : ((BitVec.ofInt 11 (d / 2)).toNat : Int) = d / 2 % 2048 := by
    rw [BitVec.toNat_ofInt]
    omega
  rw [hhigh, Int.natCast_mul, hlow]
  omega

/-- Clearing the Thumb bit undoes setting it. -/
theorem or_one_and_not_one (a : BitVec 32) : (a ||| 1) &&& ~~~1 = a &&& ~~~1 := by
  apply BitVec.eq_of_getLsbD_eq
  intro i hi
  cases i with
  | zero => simp
  | succ i => simp

namespace CortexM0

/-! ### There and back -/

/-- The upper half in one step. -/
theorem step_blUpper {s : CortexM0} {field : BitVec 11} (hs : s.halted = false)
    (hread : s.mem.read16 s.pc = .ok (0b11110#5 ++ field)) :
    s.step = .ok true { s.advancePc with
      blOffset := s.pc + 4 + BitVec.ofInt 32 (4096 * field.toInt)
      cycles := s.cycles + 1 } := by
  have hfour : s.pc + 2 + 2 = s.pc + 4 := BitVec.add_assoc ..
  have hrun : (instruction (0b11110#5 ++ field)).run s.advancePc =
      .ok () { s.advancePc with
        blOffset := s.pc + 4 + BitVec.ofInt 32 (4096 * field.toInt) } := by
    rw [instruction_blUpper, Instruction.run, advancePc_pc, hfour]
  exact step_of_run hs hread hrun hs

/-- The lower half in one step. -/
theorem step_blLower {s : CortexM0} {field : BitVec 11} (hs : s.halted = false)
    (hread : s.mem.read16 s.pc = .ok (0b11111#5 ++ field)) :
    s.step = .ok true { (s.advancePc.setReg .lr ((s.pc + 2) ||| 1)).setPc
        (s.blOffset + BitVec.ofNat 32 (2 * field.toNat)) with cycles := s.cycles + 1 } := by
  have hrun : (instruction (0b11111#5 ++ field)).run s.advancePc =
      .ok () ((s.advancePc.setReg .lr ((s.pc + 2) ||| 1)).setPc
        (s.blOffset + BitVec.ofNat 32 (2 * field.toNat))) := by
    rw [instruction_blLower, Instruction.run, advancePc_pc]
    rfl
  exact step_of_run hs hread hrun hs

private theorem linked_lr (s : CortexM0) (v a : BitVec 32) :
    ((s.setReg .lr v).setPc a).regs .lr = v :=
  ((s.setReg .lr v).setReg_of_ne (by decide) _).trans (s.setReg_self ..)

private theorem linked_regs (s : CortexM0) {r : RegIndex} (hpc : r ≠ .pc) (hlr : r ≠ .lr)
    (v a : BitVec 32) : ((s.setReg .lr v).setPc a).regs r = s.regs r :=
  ((s.setReg .lr v).setReg_of_ne hpc _).trans (s.setReg_of_ne hlr _)

/-- BX to an address with the Thumb bit. -/
theorem step_bx {s : CortexM0} {a : BitVec 32} (hs : s.halted = false) (ha : IsEven a)
    (hlr : s.regs .lr = a ||| 1) (hread : s.mem.read16 s.pc = .ok 0x4770) :
    s.step = .ok true { s.advancePc.setPc a with cycles := s.cycles + 1 } := by
  have hreg : s.advancePc.regs .lr = a ||| 1 := (s.setReg_of_ne (by decide) _).trans hlr
  have hinstr : instruction 0x4770 = .bx .lr := by decide
  have hrun : (instruction 0x4770).run s.advancePc = .ok () (s.advancePc.setPc a) := by
    rw [hinstr, Instruction.run, hreg, exchange, if_pos (by simp), or_one_and_not_one,
      ha.and_not_one]
  exact step_of_run hs hread hrun hs

/-- BL jumps to its target and leaves the address behind it in LR, with the Thumb bit, and nothing
else but PC and the cycle count changes. BX LR then goes on behind the BL. -/
theorem branch_and_link {s : CortexM0} {d : Int} (hs : s.halted = false) (heven : IsEven s.pc)
    (hlo : -2 ^ 22 ≤ d) (hhi : d < 2 ^ 22) (hd : d % 2 = 0)
    (hhigh : s.mem.read16 s.pc = .ok (blHigh d))
    (hlow : s.mem.read16 (s.pc + 2) = .ok (blLow d)) :
    ∃ t u, s.step = .ok true t ∧ t.step = .ok true u ∧
      u.pc = s.pc + 4 + BitVec.ofInt 32 d ∧ u.regs .lr = (s.pc + 4) ||| 1 ∧
      (∀ r, r ≠ .pc → r ≠ .lr → u.regs r = s.regs r) ∧ u.apsr = s.apsr ∧ u.mem = s.mem ∧
      u.halted = false ∧ u.cycles = s.cycles + 2 ∧
      ∀ v : CortexM0, v.halted = false → v.regs .lr = u.regs .lr →
        v.mem.read16 v.pc = .ok 0x4770 →
        ∃ w, v.step = .ok true w ∧ w.pc = s.pc + 4 ∧ w.halted = false := by
  have hfour : s.pc + 2 + 2 = s.pc + 4 := BitVec.add_assoc ..
  have hback : IsEven (s.pc + 4) := (isEven_add heven).mpr (by decide)
  rw [blHigh_eq] at hhigh
  rw [blLow_eq] at hlow
  have hfirst := step_blUpper hs hhigh
  generalize ht : ({ s.advancePc with
      blOffset := s.pc + 4 + BitVec.ofInt 32 (4096 * (BitVec.ofInt 11 (d / 4096)).toInt)
      cycles := s.cycles + 1 } : CortexM0) = t at hfirst
  have htpc : t.pc = s.pc + 2 := by
    rw [← ht]
    exact s.advancePc_pc
  have hoffset : t.blOffset + BitVec.ofNat 32 (2 * (BitVec.ofInt 11 (d / 2)).toNat) =
      s.pc + 4 + BitVec.ofInt 32 d := by
    rw [← ht]
    dsimp only
    rw [BitVec.add_assoc, ← BitVec.ofInt_natCast, ← BitVec.ofInt_add, bl_fields hlo hhi hd]
  have htarget : IsEven (s.pc + 4 + BitVec.ofInt 32 d) := by
    rw [isEven_add hback, isEven_iff, BitVec.toNat_ofInt]
    omega
  have hsecond := step_blLower (s := t) (by rw [← ht]; exact hs) (by rw [htpc, ← ht]; exact hlow)
  rw [htpc, hfour, hoffset] at hsecond
  have hlink := linked_lr t.advancePc ((s.pc + 4) ||| 1) (s.pc + 4 + BitVec.ofInt 32 d)
  refine ⟨t, _, hfirst, hsecond, ?_, hlink, ?_, ?_, ?_, ?_, ?_, ?_⟩
  · exact (setPc_pc (t.advancePc.setReg .lr ((s.pc + 4) ||| 1)) _).trans htarget.and_not_one
  · intro r hpc hlr
    have htr : t.regs r = s.regs r := by
      rw [← ht]
      exact s.setReg_of_ne hpc _
    exact (linked_regs t.advancePc hpc hlr ..).trans ((t.setReg_of_ne hpc _).trans htr)
  · rw [← ht]
    rfl
  · rw [← ht]
    rfl
  · rw [← ht]
    exact hs
  · rw [← ht]
    exact BitVec.add_assoc ..
  · intro v hv hlr hread
    have hpc := (setPc_pc v.advancePc (s.pc + 4)).trans hback.and_not_one
    exact ⟨_, step_bx hv hback (hlr.trans hlink) hread, hpc, hv⟩

/-- The code bytes of BL to itself. -/
def branchLinkProgram : FlatMemoryBus :=
  FlatMemoryBus.clear.memcpy 0 [0xFF, 0xF7, 0xFE, 0xFF]

/-- The offset is -4. -/
theorem branch_and_link_self :
    ∃ t u, (new branchLinkProgram).step = .ok true t ∧ t.step = .ok true u ∧ u.pc = 0 ∧
      u.regs .lr = 5 := by
  obtain ⟨t, u, ht, hu, hpc, hlr, -⟩ :=
    branch_and_link (s := new branchLinkProgram) (d := -4) rfl (by decide) (by decide) (by decide)
      (by decide) (by rfl) (by rfl)
  exact ⟨t, u, ht, hu, hpc, hlr⟩

end CortexM0

end McuSimulator.Cpu
