import McuSimulator.Cpu.Run
import McuSimulator.Cpu.Shift
import McuSimulator.Memory.ReadOverWrite

/-!
# Instructions

What `execute` carries out, as instructions with their operands and a meaning of their own: shifts
one place at a time, one adder for the arithmetic, loads and stores of a width at an address. Every
opcode stands for an instruction, and executing it is running that.
-/

namespace McuSimulator.Cpu

open McuSimulator.Base McuSimulator.Memory

/-! ### Syntax -/

/-- The second operand of an operation. -/
inductive Operand where
  | reg (r : RegIndex)
  | imm (v : BitVec 32)
  deriving DecidableEq, Repr

/-- The operations of the ALU format. -/
inductive AluOp where
  | and | eor | lsl | lsr | asr | adc | sbc | ror | tst | neg | cmp | cmn | orr | mul | bic | mvn
  deriving DecidableEq, Repr

/-- How a load or a store finds its address. -/
inductive Address where
  /-- A register and an immediate. -/
  | imm (rb : RegIndex) (off : BitVec 32)
  /-- Two registers. -/
  | reg (rb ro : RegIndex)
  /-- The address of the instruction plus 4, down to a whole word, and an immediate. -/
  | pc (off : BitVec 32)
  deriving DecidableEq, Repr

/-- The instructions. -/
inductive Instruction where
  /-- LSL, LSR, ASR by an immediate. -/
  | shift (kind : ShiftKind) (rd rm : RegIndex) (amount : Nat)
  /-- ADD, SUB of two operands. -/
  | addSub (sub : Bool) (rd rn : RegIndex) (operand : Operand)
  /-- MOV of an immediate. -/
  | mov (rd : RegIndex) (imm : BitVec 32)
  /-- CMP with an immediate. -/
  | cmp (rd : RegIndex) (imm : BitVec 32)
  /-- ADD, SUB in place. -/
  | accumulate (sub : Bool) (rd : RegIndex) (imm : BitVec 32)
  | alu (op : AluOp) (rd rm : RegIndex)
  /-- ADD, CMP and MOV of any registers. -/
  | addHi (rd rm : RegIndex)
  | cmpHi (rd rm : RegIndex)
  | movHi (rd rm : RegIndex)
  | bx (rm : RegIndex)
  | blx (rm : RegIndex)
  /-- LDR, STR and their byte and halfword forms. -/
  | transfer (load : Bool) (width : Width) (rt : RegIndex) (address : Address)
  /-- ADD Rd, SP or PC. -/
  | addSpPc (sp : Bool) (rd : RegIndex) (imm : BitVec 32)
  /-- ADD, SUB of SP. -/
  | adjustSp (sub : Bool) (imm : BitVec 32)
  /-- NOP and its like, and BKPT. -/
  | nop
  | push (lr : Bool) (rlist : BitVec 8)
  | pop (pc : Bool) (rlist : BitVec 8)
  /-- LDM and STM. -/
  | block (load : Bool) (rb : RegIndex) (rlist : BitVec 8)
  | branchCond (cond : BitVec 4) (off : Int)
  | branch (off : Int)
  /-- The two halves of BL, with their fields. -/
  | blUpper (field : BitVec 11)
  | blLower (field : BitVec 11)
  | undefined (opcode : BitVec 16)
  deriving DecidableEq, Repr

/-! ### Meaning -/

namespace CortexM0

/-- N and Z set by a value. -/
def setNz (s : CortexM0) (v : BitVec 32) : CortexM0 := s.setApsr (s.apsr.updateNz v)

/-- A value in a register, with N and Z set by it. -/
def setResult (s : CortexM0) (rd : RegIndex) (v : BitVec 32) : CortexM0 := (s.setNz v).setReg rd v

/-- The flags of a sum. -/
def setSumFlags (s : CortexM0) (a b : BitVec 32) (cin : Bool) : CortexM0 :=
  s.setApsr (addFlags s.apsr a b cin)

/-- A sum in a register, with its flags. -/
def setSum (s : CortexM0) (rd : RegIndex) (a b : BitVec 32) (cin : Bool) : CortexM0 :=
  (s.setSumFlags a b cin).setReg rd (add32 a b cin).1

/-- The value of an operand. -/
def operand (s : CortexM0) : Operand → BitVec 32
  | .reg r => s.regs r
  | .imm v => v

/-- The address, in the state after `fetch`. -/
def address (s : CortexM0) : Address → BitVec 32
  | .imm rb off => s.regs rb + off
  | .reg rb ro => s.regs rb + s.regs ro
  | .pc off => ((s.pc + 2) &&& ~~~3) + off

/-- The target of BX and BLX: without the Thumb bit the CPU halts. -/
def exchange (s : CortexM0) (v : BitVec 32) : CortexM0 :=
  if v.getLsbD 0 then s.setPc (v &&& ~~~1) else { s.setPc (v &&& ~~~1) with halted := true }

private theorem exchange_regs (s : CortexM0) (v : BitVec 32) :
    (s.exchange v).regs = (s.setPc (v &&& ~~~1)).regs := by
  unfold exchange
  split <;> rfl

/-- The PC after `exchange` is the value without its lowest bit. -/
theorem exchange_pc (s : CortexM0) (v : BitVec 32) : (s.exchange v).pc = v &&& ~~~1 := by
  rw [pc, exchange_regs]
  exact (setPc_pc ..).trans (by rw [BitVec.and_assoc, BitVec.and_self])

/-- The other registers are as before `exchange`. -/
theorem exchange_of_ne (s : CortexM0) {r : RegIndex} (h : r ≠ .pc) (v : BitVec 32) :
    (s.exchange v).regs r = s.regs r := by
  rw [exchange_regs]
  exact s.setReg_of_ne h _

/-- The flags are as before `exchange`. -/
theorem exchange_apsr (s : CortexM0) (v : BitVec 32) : (s.exchange v).apsr = s.apsr := by
  unfold exchange
  split <;> rfl

/-- An even value halts the core. -/
theorem exchange_halted (s : CortexM0) (v : BitVec 32) :
    (s.exchange v).halted = (s.halted || !v.getLsbD 0) := by
  unfold exchange
  cases v.getLsbD 0 with
  | false => simp
  | true =>
    rw [if_pos rfl, Bool.not_true, Bool.or_false]
    rfl

/-- An operation of the ALU format, on the values of its two registers. -/
def alu (s : CortexM0) (rd : RegIndex) (a b : BitVec 32) : AluOp → CortexM0
  | .and => s.setResult rd (a &&& b)
  | .eor => s.setResult rd (a ^^^ b)
  | .lsl => s.shifted rd (ShiftKind.left.times (b.toNat % 256) a s.apsr.c)
  | .lsr => s.shifted rd (ShiftKind.right.times (b.toNat % 256) a s.apsr.c)
  | .asr => s.shifted rd (ShiftKind.arithmetic.times (b.toNat % 256) a s.apsr.c)
  | .adc => s.setSum rd a b s.apsr.c
  | .sbc => s.setSum rd a (~~~b) s.apsr.c
  | .ror => s.shifted rd (ShiftKind.rotate.times (b.toNat % 256) a s.apsr.c)
  | .tst => s.setNz (a &&& b)
  | .neg => s.setSum rd 0 (~~~b) true
  | .cmp => s.setSumFlags a (~~~b) true
  | .cmn => s.setSumFlags a b false
  | .orr => s.setResult rd (a ||| b)
  | .mul => s.setResult rd (a * b)
  | .bic => s.setResult rd (a &&& ~~~b)
  | .mvn => s.setResult rd (~~~b)

end CortexM0

namespace Instruction

open CortexM0

/-- What an instruction does, in the state after `fetch`. -/
def run (s : CortexM0) : Instruction → Outcome Unit
  | shift kind rd rm amount => .ok () (s.shifted rd (kind.times amount (s.regs rm) s.apsr.c))
  | addSub false rd rn operand => .ok () (s.setSum rd (s.regs rn) (s.operand operand) false)
  | addSub true rd rn operand => .ok () (s.setSum rd (s.regs rn) (~~~s.operand operand) true)
  | mov rd imm => .ok () (s.setResult rd imm)
  | cmp rd imm => .ok () (s.setSumFlags (s.regs rd) (~~~imm) true)
  | accumulate false rd imm => .ok () (s.setSum rd (s.regs rd) imm false)
  | accumulate true rd imm => .ok () (s.setSum rd (s.regs rd) (~~~imm) true)
  | alu op rd rm => .ok () (s.alu rd (s.regs rd) (s.regs rm) op)
  | addHi rd rm => .ok () (s.setReg rd (s.regs rd + s.regs rm))
  | cmpHi rd rm => .ok () (s.setSumFlags (s.regs rd) (~~~s.regs rm) true)
  | movHi rd rm => .ok () (s.setReg rd (s.regs rm))
  | bx rm => .ok () (s.exchange (s.regs rm))
  | blx rm => .ok () ((s.setReg .lr (s.pc ||| 1)).exchange (s.regs rm))
  | transfer true width rt address =>
    s.loadReg rt ((width.read s.mem (s.address address)).map (·.setWidth 32))
  | transfer false width rt address =>
    s.storeMem (width.write s.mem (s.address address) ((s.regs rt).setWidth (8 * width.bytes)))
  | addSpPc true rd imm => .ok () (s.setReg rd (s.sp + imm))
  | addSpPc false rd imm => .ok () (s.setReg rd (((s.pc + 2) &&& ~~~3) + imm))
  | adjustSp false imm => .ok () (s.setReg .sp (s.sp + imm))
  | adjustSp true imm => .ok () (s.setReg .sp (s.sp - imm))
  | nop => .ok () s
  | push true rlist => s.pushReg .lr (pushRegs rlist (List.range 8).reverse)
  | push false rlist => pushRegs rlist (List.range 8).reverse s
  | pop pc rlist =>
    match popRegs rlist (List.range 8) s with
    | .error f s => .error f s
    | .ok () s => if pc then s.popPc else .ok () s
  | block load rb rlist =>
    match ldmStmLoop load rlist (List.range 8) (s.regs rb) s with
    | .error f s => .error f s
    | .ok addr s => .ok () (if !rlist.getLsbD rb.toNat || load then s.setReg rb addr else s)
  | branchCond cond off =>
    .ok () (if s.conditionPasses cond then s.setPc (s.pc + 2 + BitVec.ofInt 32 off) else s)
  | branch off => .ok () (s.setPc (s.pc + 2 + BitVec.ofInt 32 off))
  | blUpper field =>
    .ok () { s with blOffset := s.pc + 2 + BitVec.ofInt 32 (4096 * field.toInt) }
  | blLower field =>
    .ok () ((s.setReg .lr (s.pc ||| 1)).setPc (s.blOffset + BitVec.ofNat 32 (2 * field.toNat)))
  | undefined opcode => .error (.undefinedInstruction opcode) s

end Instruction

/-! ### The instruction of an opcode -/

/-- The operation that the ALU field names. -/
def AluOp.ofField (op : BitVec 4) : AluOp :=
  match op with
  | 0x0 => .and
  | 0x1 => .eor
  | 0x2 => .lsl
  | 0x3 => .lsr
  | 0x4 => .asr
  | 0x5 => .adc
  | 0x6 => .sbc
  | 0x7 => .ror
  | 0x8 => .tst
  | 0x9 => .neg
  | 0xA => .cmp
  | 0xB => .cmn
  | 0xC => .orr
  | 0xD => .mul
  | 0xE => .bic
  | _ => .mvn

/-- The instruction that an opcode of a format stands for. -/
def Format.instruction (format : Format) (instr : BitVec 16) : Instruction :=
  match format with
  | .shiftImm =>
    let imm : BitVec 5 := instr.extractLsb' 6 5
    match instr.extractLsb' 11 2 with
    | 0 => .shift .left (reg3 instr 0) (reg3 instr 3) imm.toNat
    | 1 => .shift .right (reg3 instr 0) (reg3 instr 3) (rightAmount imm)
    | _ => .shift .arithmetic (reg3 instr 0) (reg3 instr 3) (rightAmount imm)
  | .addSub => .addSub (instr.getLsbD 9) (reg3 instr 0) (reg3 instr 3)
      (if instr.getLsbD 10 then .imm ((instr.extractLsb' 6 3).setWidth 32) else .reg (reg3 instr 6))
  | .imm8 =>
    let imm : BitVec 32 := (instr.extractLsb' 0 8).setWidth 32
    match instr.extractLsb' 11 2 with
    | 0 => .mov (reg3 instr 8) imm
    | 1 => .cmp (reg3 instr 8) imm
    | 2 => .accumulate false (reg3 instr 8) imm
    | _ => .accumulate true (reg3 instr 8) imm
  | .alu => .alu (.ofField (instr.extractLsb' 6 4)) (reg3 instr 0) (reg3 instr 3)
  | .hiRegBx =>
    match instr.extractLsb' 8 2 with
    | 0 => .addHi (hiDest instr) (hiSource instr)
    | 1 => .cmpHi (hiDest instr) (hiSource instr)
    | 2 => .movHi (hiDest instr) (hiSource instr)
    | _ => if instr.getLsbD 7 then .blx (hiSource instr) else .bx (hiSource instr)
  | .ldrPc => .transfer true .word (reg3 instr 8) (.pc ((instr.extractLsb' 0 8).setWidth 32 <<< 2))
  | .ldrStrReg => .transfer (instr.getLsbD 11) (if instr.getLsbD 10 then .byte else .word)
      (reg3 instr 0) (.reg (reg3 instr 3) (reg3 instr 6))
  | .ldrStrImm =>
    let off : BitVec 32 := (instr.extractLsb' 6 5).setWidth 32
    if instr.getLsbD 12 then
      .transfer (instr.getLsbD 11) .byte (reg3 instr 0) (.imm (reg3 instr 3) off)
    else .transfer (instr.getLsbD 11) .word (reg3 instr 0) (.imm (reg3 instr 3) (off <<< 2))
  | .ldrhStrhImm => .transfer (instr.getLsbD 11) .half (reg3 instr 0)
      (.imm (reg3 instr 3) ((instr.extractLsb' 6 5).setWidth 32 <<< 1))
  | .ldrStrSp => .transfer (instr.getLsbD 11) .word (reg3 instr 8)
      (.imm .sp ((instr.extractLsb' 0 8).setWidth 32 <<< 2))
  | .addSpPc => .addSpPc (instr.getLsbD 11) (reg3 instr 8)
      ((instr.extractLsb' 0 8).setWidth 32 <<< 2)
  | .spOps => .adjustSp (instr.getLsbD 7) ((instr.extractLsb' 0 7).setWidth 32 <<< 2)
  | .hint | .bkpt => .nop
  | .pushPop =>
    if instr.getLsbD 11 then .pop (instr.getLsbD 8) (instr.extractLsb' 0 8)
    else .push (instr.getLsbD 8) (instr.extractLsb' 0 8)
  | .ldmStm => .block (instr.getLsbD 11) (reg3 instr 8) (instr.extractLsb' 0 8)
  | .branchCond => .branchCond (instr.extractLsb' 8 4) (2 * (instr.extractLsb' 0 8).toInt)
  | .branch => .branch (2 * (instr.extractLsb' 0 11).toInt)
  | .blUpper => .blUpper (instr.extractLsb' 0 11)
  | .blLower => .blLower (instr.extractLsb' 0 11)
  | .undefined => .undefined instr

/-- The instruction that an opcode stands for. -/
def instruction (instr : BitVec 16) : Instruction := (decode instr).instruction instr

/-! ### Executing is running -/

/-- The values of two bits. -/
theorem twoBits_cases : ∀ x : BitVec 2, x = 0#2 ∨ x = 1#2 ∨ x = 2#2 ∨ x = 3#2 := by decide

/-- The values of four bits. -/
theorem fourBits_cases : ∀ x : BitVec 4, x = 0#4 ∨ x = 1#4 ∨ x = 2#4 ∨ x = 3#4 ∨ x = 4#4 ∨
    x = 5#4 ∨ x = 6#4 ∨ x = 7#4 ∨ x = 8#4 ∨ x = 9#4 ∨ x = 10#4 ∨ x = 11#4 ∨ x = 12#4 ∨
    x = 13#4 ∨ x = 14#4 ∨ x = 15#4 := by
  decide

/-- The fourth operation of the first format is another format. -/
theorem shiftOp_ne_three {instr : BitVec 16} (h : decode instr = .shiftImm) :
    instr.extractLsb' 11 2 ≠ 3#2 := by
  have hbyte : instr.toNat >>> 8 < 24 :=
    leadingByte_of_decode (P := (· < 24)) (by decide +kernel) h
  intro hop
  have hnat := congrArg BitVec.toNat hop
  rw [BitVec.extractLsb'_toNat, Nat.shiftRight_eq_div_pow, show (3#2).toNat = 3 from rfl] at hnat
  rw [Nat.shiftRight_eq_div_pow] at hbyte
  omega

section

variable (s : CortexM0) {instr : BitVec 16}

open CortexM0

private theorem run_of_shiftImm (h : instr.extractLsb' 11 2 ≠ 3#2) :
    s.execShiftImm instr = (Format.shiftImm.instruction instr).run s := by
  unfold Format.instruction
  rcases twoBits_cases (instr.extractLsb' 11 2) with hop | hop | hop | hop
  · rw [execShiftImm_left s hop, hop]
    rfl
  · rw [execShiftImm_right s hop, hop, immShiftAmount_right (by decide)]
    rfl
  · rw [execShiftImm_arithmetic s hop, hop, immShiftAmount_right (by decide)]
    rfl
  · exact absurd hop h

private theorem run_of_addSub (instr : BitVec 16) :
    .ok () (s.execAddSub instr) = (Format.addSub.instruction instr).run s := by
  unfold Format.instruction execAddSub
  simp only [subOverflow_eq_addOverflow]
  cases instr.getLsbD 9 <;> cases instr.getLsbD 10 <;> rfl

private theorem run_of_imm8 (instr : BitVec 16) :
    .ok () (s.execImm8 instr) = (Format.imm8.instruction instr).run s := by
  unfold Format.instruction execImm8
  simp only [subOverflow_eq_addOverflow]
  rcases twoBits_cases (instr.extractLsb' 11 2) with hop | hop | hop | hop <;> rw [hop] <;> rfl

private theorem run_of_alu (instr : BitVec 16) :
    .ok () (s.execAlu instr) = (Format.alu.instruction instr).run s := by
  unfold Format.instruction execAlu
  dsimp only
  rcases fourBits_cases (instr.extractLsb' 6 4) with hop | hop | hop | hop | hop | hop | hop | hop |
    hop | hop | hop | hop | hop | hop | hop | hop <;> rw [hop]
  · rfl
  · rfl
  · exact congrArg (EStateM.Result.ok ()) (execAluShift_left ..)
  · exact congrArg (EStateM.Result.ok ()) (execAluShift_right ..)
  · exact congrArg (EStateM.Result.ok ()) (execAluShift_arithmetic ..)
  · rfl
  · rfl
  · exact congrArg (EStateM.Result.ok ()) (execAluShift_rotate ..)
  · rfl
  · have hneg (a b : BitVec 32) : s.execAluArith 0x9 (reg3 instr 0) a b =
        s.setSum (reg3 instr 0) 0 (~~~b) true := by
      rw [setSum, setSumFlags, addFlags, ← subOverflow_eq_addOverflow, ← negOverflow_eq]
      rfl
    exact congrArg (EStateM.Result.ok ()) (hneg (s.regs (reg3 instr 0)) _)
  · have hcmp (a b : BitVec 32) : s.execAluArith 0xA (reg3 instr 0) a b =
        s.setSumFlags a (~~~b) true := by
      rw [setSumFlags, addFlags, ← subOverflow_eq_addOverflow]
      rfl
    exact congrArg (EStateM.Result.ok ()) (hcmp (s.regs (reg3 instr 0)) _)
  · rfl
  · rfl
  · rfl
  · rfl
  · rfl

private theorem run_of_hiRegBx (instr : BitVec 16) :
    .ok () (s.execHiRegBx instr) = (Format.hiRegBx.instruction instr).run s := by
  unfold Format.instruction execHiRegBx
  simp only [subOverflow_eq_addOverflow]
  rcases twoBits_cases (instr.extractLsb' 8 2) with hop | hop | hop | hop <;> rw [hop]
  · rfl
  · rfl
  · rfl
  · cases instr.getLsbD 7 <;> rfl

private theorem map_setWidth_self (e : Except BusFault (BitVec 32)) :
    e.map (·.setWidth 32) = e := by
  cases e with
  | error e => rfl
  | ok v => exact congrArg Except.ok (BitVec.setWidth_eq v)

/-- The common end of the handlers of words and bytes. -/
theorem transfer_eq_run (load byte : Bool) (rt : RegIndex) (address : Address) :
    s.transfer load byte rt (s.address address) =
      (Instruction.transfer load (if byte then .byte else .word) rt address).run s := by
  cases load <;> cases byte
  · show s.storeMem (s.mem.write32 _ (s.regs rt)) =
      s.storeMem (s.mem.write32 _ ((s.regs rt).setWidth 32))
    rw [BitVec.setWidth_eq]
  · rfl
  · exact congrArg (s.loadReg rt) (map_setWidth_self _).symm
  · rfl

private theorem run_of_ldrStrImm (instr : BitVec 16) :
    s.execLdrStrImm instr = (Format.ldrStrImm.instruction instr).run s := by
  unfold Format.instruction execLdrStrImm
  dsimp only
  cases instr.getLsbD 12
  · exact transfer_eq_run s _ false _ (.imm _ _)
  · exact transfer_eq_run s _ true _ (.imm _ _)

private theorem run_of_pushPop (instr : BitVec 16) :
    s.execPushPop instr = (Format.pushPop.instruction instr).run s := by
  unfold Format.instruction execPushPop
  dsimp only
  cases instr.getLsbD 11
  · cases instr.getLsbD 8 <;> rfl
  · rfl

private theorem run_of_ldrhStrhImm (instr : BitVec 16) :
    s.execLdrhStrhImm instr = (Format.ldrhStrhImm.instruction instr).run s := by
  unfold Format.instruction execLdrhStrhImm
  dsimp only
  cases instr.getLsbD 11 <;> rfl

private theorem run_of_addSpPc (instr : BitVec 16) :
    .ok () (s.execAddSpPc instr) = (Format.addSpPc.instruction instr).run s := by
  unfold Format.instruction execAddSpPc
  dsimp only
  cases instr.getLsbD 11 <;> rfl

private theorem run_of_spOps (instr : BitVec 16) :
    .ok () (s.execSpOps instr) = (Format.spOps.instruction instr).run s := by
  unfold Format.instruction execSpOps
  dsimp only
  cases instr.getLsbD 7 <;> rfl

private theorem run_of_branchCond (instr : BitVec 16) :
    .ok () (s.execBranchCond instr) = (Format.branchCond.instruction instr).run s := by
  unfold Format.instruction execBranchCond
  dsimp only
  rw [signExtend_shiftLeft_one]
  rfl

private theorem run_of_branch (instr : BitVec 16) :
    .ok () (s.execBranch instr) = (Format.branch.instruction instr).run s := by
  have hoff := sshiftRight_shiftLeft_setWidth (instr.extractLsb' 0 11) (show 20 ≤ 21 by decide)
  exact congrArg (fun off ↦ (EStateM.Result.ok () (s.setPc (s.pc + 2 + off)) : Outcome Unit)) hoff

private theorem run_of_blUpper (instr : BitVec 16) :
    .ok () (s.execBlUpper instr) = (Format.blUpper.instruction instr).run s := by
  have hoff := sshiftRight_shiftLeft_setWidth (instr.extractLsb' 0 11) (show 9 ≤ 21 by decide)
  exact congrArg
    (fun off ↦ (EStateM.Result.ok () { s with blOffset := s.pc + 2 + off } : Outcome Unit)) hoff

private theorem run_of_blLower (instr : BitVec 16) :
    .ok () (s.execBlLower instr) = (Format.blLower.instruction instr).run s := by
  have hoff (x : BitVec 11) :
      (x.setWidth 32 : BitVec 32) <<< 1 = BitVec.ofNat 32 (2 * x.toNat) := by
    have hlt := x.isLt
    apply BitVec.eq_of_toNat_eq
    rw [BitVec.toNat_shiftLeft, BitVec.toNat_setWidth, BitVec.toNat_ofNat, Nat.shiftLeft_eq]
    omega
  exact congrArg
    (fun off ↦ (EStateM.Result.ok () ((s.setReg .lr (s.pc ||| 1)).setPc (s.blOffset + off)) :
      Outcome Unit)) (hoff (instr.extractLsb' 0 11))

/-- Executing an opcode is running the instruction that it stands for. -/
theorem execute_eq_run (instr : BitVec 16) : s.execute instr = (instruction instr).run s := by
  unfold execute instruction
  cases h : decode instr with
  | shiftImm => exact run_of_shiftImm s (shiftOp_ne_three h)
  | addSub => exact run_of_addSub s instr
  | imm8 => exact run_of_imm8 s instr
  | alu => exact run_of_alu s instr
  | hiRegBx => exact run_of_hiRegBx s instr
  | ldrPc => exact transfer_eq_run s true false _ (.pc _)
  | ldrStrReg => exact transfer_eq_run s _ _ _ (.reg _ _)
  | ldrStrImm => exact run_of_ldrStrImm s instr
  | ldrhStrhImm => exact run_of_ldrhStrhImm s instr
  | ldrStrSp => exact transfer_eq_run s _ false _ (.imm .sp _)
  | addSpPc => exact run_of_addSpPc s instr
  | spOps => exact run_of_spOps s instr
  | pushPop => exact run_of_pushPop s instr
  | branchCond => exact run_of_branchCond s instr
  | branch => exact run_of_branch s instr
  | blUpper => exact run_of_blUpper s instr
  | blLower => exact run_of_blLower s instr
  | ldmStm | hint | bkpt | undefined => rfl

end

/-- A step, when the instruction that the opcode stands for returns and does not halt. -/
theorem CortexM0.step_of_run {s t : CortexM0} {instr : BitVec 16} (hs : s.halted = false)
    (hread : s.mem.read16 s.pc = .ok instr)
    (hrun : (instruction instr).run s.advancePc = .ok () t) (ht : t.halted = false) :
    s.step = .ok true { t with cycles := t.cycles + 1 } := by
  rw [step_of_fetch hs hread, execute_eq_run, hrun]
  dsimp only
  rw [ht]
  rfl

end McuSimulator.Cpu
