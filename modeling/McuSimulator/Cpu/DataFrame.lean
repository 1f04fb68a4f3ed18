import McuSimulator.Cpu.Instruction

/-!
# What instructions leave alone

Each instruction has at most one destination, or moves data between registers and memory, and it
has an effect on the flags: none, N and Z, those and the carry, or all four. Both are read off the
instruction, and running it changes nothing else.
-/

namespace McuSimulator.Cpu

open McuSimulator.Base McuSimulator.Memory

/-! ### Destinations and flags -/

/-- What an instruction does to the flags. -/
inductive FlagEffect where
  | none
  | nz
  | nzc
  | nzcv
  deriving DecidableEq, Repr

/-- The flags that are left alone. -/
def FlagEffect.Keeps (f g : Apsr) : FlagEffect → Prop
  | none => g = f
  | nz => g.c = f.c ∧ g.v = f.v
  | nzc => g.v = f.v
  | nzcv => True

/-- The flags that an operation of the ALU format sets. -/
def AluOp.flagEffect : AluOp → FlagEffect
  | and | eor | tst | orr | mul | bic | mvn => .nz
  | lsl | lsr | asr | ror => .nzc
  | adc | sbc | neg | cmp | cmn => .nzcv

namespace Instruction

/-- The instruction computes from registers and immediates, and PC goes on by 2. -/
def DataProcessing : Instruction → Prop
  | shift .. | addSub .. | mov .. | cmp .. | accumulate .. | alu .. | addHi .. | cmpHi .. | movHi ..
  | addSpPc .. | adjustSp .. => True
  | _ => False

/-- The destination register of a data-processing instruction. A comparison has none. -/
def dest : Instruction → Option RegIndex
  | shift _ rd _ _ | addSub _ rd _ _ | mov rd _ | accumulate _ rd _ => some rd
  | alu .tst _ _ | alu .cmp _ _ | alu .cmn _ _ => none
  | alu _ rd _ | addHi rd _ | movHi rd _ | addSpPc _ rd _ => some rd
  | adjustSp _ _ => some .sp
  | _ => none

/-- The flags that an instruction sets. -/
def flagEffect : Instruction → FlagEffect
  | shift .. => .nzc
  | mov .. => .nz
  | addSub .. | cmp .. | accumulate .. | cmpHi .. => .nzcv
  | alu op _ _ => op.flagEffect
  | _ => .none

end Instruction

/-- The formats that compute. The hi-register format is one when it is ADD, CMP or MOV, and not of
PC. -/
def IsDataProcessing (instr : BitVec 16) : Prop :=
  match decode instr with
  | .shiftImm | .addSub | .imm8 | .alu | .addSpPc | .spOps => True
  | .hiRegBx => instr.extractLsb' 8 2 ≠ 3#2 ∧ hiDest instr ≠ .pc
  | _ => False

/-! ### One instruction -/

/-- Nothing but one register and the flags may differ. -/
structure SameBut (d : Option RegIndex) (s t : CortexM0) : Prop where
  regs : ∀ r, d ≠ some r → t.regs r = s.regs r
  cycles : t.cycles = s.cycles
  halted : t.halted = s.halted
  blOffset : t.blOffset = s.blOffset
  mem : t.mem = s.mem

namespace SameBut

variable (s : CortexM0) (f : Apsr) (rd : RegIndex) (v : BitVec 32)

private theorem setApsr (d : Option RegIndex) : SameBut d s (s.setApsr f) :=
  ⟨fun _ _ ↦ rfl, rfl, rfl, rfl, rfl⟩

private theorem setReg : SameBut (some rd) s (s.setReg rd v) :=
  ⟨fun _ hr ↦ s.setReg_of_ne (fun h ↦ hr (congrArg some h.symm)) v, rfl, rfl, rfl, rfl⟩

private theorem setApsr_setReg : SameBut (some rd) s ((s.setApsr f).setReg rd v) :=
  ⟨fun _ hr ↦ (s.setApsr f).setReg_of_ne (fun h ↦ hr (congrArg some h.symm)) v,
    rfl, rfl, rfl, rfl⟩

private theorem shifted (r : BitVec 32 × Bool) : SameBut (some rd) s (s.shifted rd r) :=
  ⟨fun _ hr ↦ Function.update_of_ne (fun h ↦ hr (congrArg some h.symm)) .., rfl, rfl, rfl, rfl⟩

end SameBut

namespace CortexM0

private theorem alu_sameBut (s : CortexM0) (rd rm : RegIndex) (a b : BitVec 32) (op : AluOp) :
    SameBut (Instruction.alu op rd rm).dest s (s.alu rd a b op) := by
  cases op with
  | and | eor | orr | mul | bic | mvn | adc | sbc | neg => exact .setApsr_setReg ..
  | lsl | lsr | asr | ror => exact .shifted ..
  | tst | cmp | cmn => exact .setApsr ..

private theorem alu_flags (s : CortexM0) (rd : RegIndex) (a b : BitVec 32) (op : AluOp) :
    op.flagEffect.Keeps s.apsr (s.alu rd a b op).apsr := by
  cases op with
  | and | eor | orr | mul | bic | mvn | tst => exact ⟨rfl, rfl⟩
  | lsl | lsr | asr | ror => rfl
  | adc | sbc | neg | cmp | cmn => trivial

end CortexM0

/-- A data-processing instruction returns, and changes its destination and the flags at most. -/
theorem Instruction.run_sameBut {i : Instruction} (h : i.DataProcessing) (s : CortexM0) :
    ∃ t, i.run s = .ok () t ∧ SameBut i.dest s t := by
  cases i with
  | shift kind rd rm amount => exact ⟨_, rfl, .shifted ..⟩
  | addSub sub rd rn operand =>
    cases sub with
    | false => exact ⟨_, rfl, .setApsr_setReg ..⟩
    | true => exact ⟨_, rfl, .setApsr_setReg ..⟩
  | mov rd imm => exact ⟨_, rfl, .setApsr_setReg ..⟩
  | cmp rd imm => exact ⟨_, rfl, .setApsr ..⟩
  | accumulate sub rd imm =>
    cases sub with
    | false => exact ⟨_, rfl, .setApsr_setReg ..⟩
    | true => exact ⟨_, rfl, .setApsr_setReg ..⟩
  | alu op rd rm => exact ⟨_, rfl, s.alu_sameBut ..⟩
  | addHi rd rm => exact ⟨_, rfl, .setReg ..⟩
  | cmpHi rd rm => exact ⟨_, rfl, .setApsr ..⟩
  | movHi rd rm => exact ⟨_, rfl, .setReg ..⟩
  | addSpPc sp rd imm =>
    cases sp with
    | false => exact ⟨_, rfl, .setReg ..⟩
    | true => exact ⟨_, rfl, .setReg ..⟩
  | adjustSp sub imm =>
    cases sub with
    | false => exact ⟨_, rfl, .setReg ..⟩
    | true => exact ⟨_, rfl, .setReg ..⟩
  | _ => exact h.elim

/-- The formats that compute stand for data-processing instructions whose destination is not
PC. -/
theorem dataProcessing_of_format {instr : BitVec 16} (h : IsDataProcessing instr) :
    (instruction instr).DataProcessing ∧ (instruction instr).dest ≠ some .pc := by
  have hlow (lo : Nat) : some (reg3 instr lo) ≠ some .pc :=
    fun he ↦ reg3_ne_pc instr lo (Option.some.inj he)
  unfold IsDataProcessing at h
  unfold instruction Format.instruction
  cases hd : decode instr with
  | shiftImm =>
    dsimp only
    split <;> exact ⟨trivial, hlow 0⟩
  | addSub => exact ⟨trivial, hlow 0⟩
  | imm8 =>
    dsimp only
    split
    case h_2 => exact ⟨trivial, nofun⟩
    all_goals exact ⟨trivial, hlow 8⟩
  | alu =>
    refine ⟨trivial, ?_⟩
    dsimp only
    cases AluOp.ofField (instr.extractLsb' 6 4) with
    | tst | cmp | cmn => exact nofun
    | _ => exact hlow 0
  | hiRegBx =>
    rw [hd] at h
    obtain ⟨hop, hpc⟩ := h
    have hrd : some (hiDest instr) ≠ some .pc := fun he ↦ hpc (Option.some.inj he)
    dsimp only
    split
    case h_2 => exact ⟨trivial, nofun⟩
    case h_4 h0 h1 h2 =>
      rcases twoBits_cases (instr.extractLsb' 8 2) with he | he | he | he <;> contradiction
    all_goals exact ⟨trivial, hrd⟩
  | addSpPc => exact ⟨trivial, hlow 8⟩
  | spOps => exact ⟨trivial, by simp [Instruction.dest, RegIndex.sp, RegIndex.pc]⟩
  | _ =>
    rw [hd] at h
    exact h.elim

/-! ### Flags -/

namespace CortexM0

private theorem pushReg_apsr {s : CortexM0} (r : RegIndex) {k : CortexM0 → Outcome Unit}
    (h : ∀ t, (endState (k t)).apsr = t.apsr) : (endState (s.pushReg r k)).apsr = s.apsr :=
  bus_keeps apsr (s := s.setReg .sp (s.sp - 4)) fun _ ↦ h _

private theorem pushRegs_apsr (rlist : BitVec 8) (is : List Nat) (s : CortexM0) :
    (endState (pushRegs rlist is s)).apsr = s.apsr := by
  induction is generalizing s with
  | nil => rfl
  | cons i is ih =>
    rw [pushRegs]
    split
    · exact pushReg_apsr _ ih
    · exact ih s

private theorem popRegs_apsr (rlist : BitVec 8) (is : List Nat) (s : CortexM0) :
    (endState (popRegs rlist is s)).apsr = s.apsr := by
  induction is generalizing s with
  | nil => rfl
  | cons i is ih =>
    rw [popRegs]
    split
    · exact bus_keeps apsr fun v ↦ ih _
    · exact ih s

private theorem popPc_apsr (s : CortexM0) : (endState s.popPc).apsr = s.apsr := by
  apply bus_keeps apsr
  intro newPc
  rw [endState_ok]
  split <;> rfl

private theorem ldmStmLoop_apsr (load : Bool) (rlist : BitVec 8) (is : List Nat) (addr : BitVec 32)
    (s : CortexM0) : (endState (ldmStmLoop load rlist is addr s)).apsr = s.apsr := by
  induction is generalizing s addr with
  | nil => rfl
  | cons i is ih =>
    rw [ldmStmLoop]
    split
    · split
      · exact bus_keeps apsr fun v ↦ ih _ _
      · exact bus_keeps apsr fun m ↦ ih _ _
    · exact ih addr s

end CortexM0

open CortexM0 in
/-- An instruction sets the flags that it is to set, also when it faults. -/
theorem Instruction.run_flags (i : Instruction) (s : CortexM0) :
    i.flagEffect.Keeps s.apsr (endState (i.run s)).apsr := by
  cases i with
  | shift kind rd rm amount => rfl
  | mov rd imm => exact ⟨rfl, rfl⟩
  | addSub sub rd rn operand => trivial
  | cmp rd imm => trivial
  | accumulate sub rd imm => trivial
  | cmpHi rd rm => trivial
  | alu op rd rm => exact s.alu_flags rd _ _ op
  | addHi rd rm => rfl
  | movHi rd rm => rfl
  | bx rm => exact s.exchange_apsr _
  | blx rm => exact (s.setReg .lr (s.pc ||| 1)).exchange_apsr _
  | transfer load width rt address =>
    cases load with
    | false => exact bus_keeps apsr fun m ↦ rfl
    | true => exact bus_keeps apsr fun v ↦ rfl
  | addSpPc sp rd imm => cases sp <;> rfl
  | adjustSp sub imm => cases sub <;> rfl
  | nop => rfl
  | push lr rlist =>
    cases lr with
    | false => exact pushRegs_apsr rlist _ s
    | true => exact pushReg_apsr .lr (pushRegs_apsr rlist _)
  | pop pc rlist =>
    have hloop := popRegs_apsr rlist (List.range 8) s
    show (endState (Instruction.run s (pop pc rlist))).apsr = s.apsr
    rw [run]
    split
    case h_1 he => rwa [he] at hloop
    case h_2 he =>
      rw [he] at hloop
      split
      · exact (popPc_apsr _).trans hloop
      · exact hloop
  | block load rb rlist =>
    have hloop := ldmStmLoop_apsr load rlist (List.range 8) (s.regs rb) s
    show (endState (Instruction.run s (block load rb rlist))).apsr = s.apsr
    rw [run]
    split
    case h_1 he => rwa [he] at hloop
    case h_2 he =>
      rw [he] at hloop
      rw [endState_ok]
      split <;> exact hloop
  | branchCond cond off =>
    show (if s.conditionPasses cond then _ else s).apsr = s.apsr
    split <;> rfl
  | branch off => rfl
  | blUpper field => rfl
  | blLower field => rfl
  | undefined opcode => rfl

namespace CortexM0

/-! ### One step -/

/-- Fetch keeps the flags, and so does the count of cycles. -/
theorem step_flags (s : CortexM0) {instr : BitVec 16} (hread : s.mem.read16 s.pc = .ok instr) :
    (instruction instr).flagEffect.Keeps s.apsr (endState s.step).apsr := by
  cases hs : s.halted with
  | true =>
    rw [step_of_halted hs]
    cases (instruction instr).flagEffect <;> simp [FlagEffect.Keeps]
  | false =>
    have hrun := (instruction instr).run_flags s.advancePc
    rw [← execute_eq_run] at hrun
    rw [step_of_fetch hs hread]
    cases he : s.advancePc.execute instr with
    | error f t =>
      rw [he] at hrun
      exact hrun
    | ok u t =>
      rw [he] at hrun
      exact hrun

/-- A step of a data-processing opcode changes its destination, the flags, PC by 2 and the cycle
count, and nothing else. Every opcode keeps the flags that it is not to set. -/
theorem data_frame (s : CortexM0) {instr : BitVec 16} (hread : s.mem.read16 s.pc = .ok instr) :
    (s.halted = true → s.step = .ok false s) ∧
    (s.halted = false → IsDataProcessing instr → ∃ t, s.step = .ok true t ∧
      (∀ r, r ≠ .pc → (instruction instr).dest ≠ some r → t.regs r = s.regs r) ∧
      t.pc = s.pc + 2 ∧ t.cycles = s.cycles + 1 ∧ t.halted = s.halted ∧
      t.blOffset = s.blOffset ∧ t.mem = s.mem) ∧
    (instruction instr).flagEffect.Keeps s.apsr (endState s.step).apsr := by
  refine ⟨step_of_halted, fun hs hdata ↦ ?_, step_flags s hread⟩
  obtain ⟨hform, hpc⟩ := dataProcessing_of_format hdata
  obtain ⟨t, hrun, hsame⟩ := Instruction.run_sameBut hform s.advancePc
  have hhalted : t.halted = false := hsame.halted.trans hs
  refine ⟨_, step_of_run hs hread hrun hhalted, ?_, ?_, ?_, hsame.halted, hsame.blOffset,
    hsame.mem⟩
  · intro r hr hdest
    exact (hsame.regs r hdest).trans (Function.update_of_ne hr _ _)
  · exact (hsame.regs .pc hpc).trans s.advancePc_pc
  · exact congrArg (· + 1) hsame.cycles

/-- The code bytes of `MOVS R0, #1`. -/
def movProgram : FlatMemoryBus := FlatMemoryBus.clear.memcpy 0 [0x01, 0x20]

/-- R1 is not the destination. -/
theorem data_frame_mov :
    ∃ t, (new movProgram).step = .ok true t ∧ t.regs 1 = 0 ∧ t.pc = 2 := by
  have hread : (new movProgram).mem.read16 (new movProgram).pc = .ok 0x2001 := by rfl
  obtain ⟨-, hframe, -⟩ := data_frame (new movProgram) hread
  obtain ⟨t, ht, hregs, hpc, -⟩ := hframe rfl trivial
  exact ⟨t, ht, hregs 1 (by decide) (by decide), hpc⟩

end CortexM0

end McuSimulator.Cpu
