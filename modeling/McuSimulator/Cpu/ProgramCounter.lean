import McuSimulator.Base.Transition
import McuSimulator.Cpu.Run

/-!
# The program counter

PC stays even as long as no hi-register instruction writes it, and what an instruction reads
when PC is its operand: `fetch` has advanced PC by 2, and each handler adds the other 2 on its
own.
-/

namespace McuSimulator.Cpu

open McuSimulator.Base McuSimulator.Memory

/-! ### Parity -/

/-- The value is a halfword address. -/
def IsEven (v : BitVec 32) : Prop := v.getLsbD 0 = false

instance (v : BitVec 32) : Decidable (IsEven v) := inferInstanceAs (Decidable (_ = _))

/-- Even as a number. -/
theorem isEven_iff (v : BitVec 32) : IsEven v ↔ v.toNat % 2 = 0 := by
  rw [IsEven, BitVec.getLsbD, Nat.testBit_zero]
  simp

/-- An even term does not change whether the sum is even. -/
theorem isEven_add {x y : BitVec 32} (hx : IsEven x) : IsEven (x + y) ↔ IsEven y := by
  rw [isEven_iff] at hx
  rw [isEven_iff, isEven_iff, BitVec.toNat_add]
  omega

/-- Clearing the lowest bit of an even value does nothing. -/
theorem IsEven.and_not_one {v : BitVec 32} (h : IsEven v) : v &&& ~~~1 = v := by
  apply BitVec.eq_of_getLsbD_eq
  intro i hi
  rw [BitVec.getLsbD_and, BitVec.getLsbD_not]
  cases i with
  | zero => rw [h, Bool.false_and]
  | succ i => simp [hi]

private theorem isEven_and_not_one (v : BitVec 32) : IsEven (v &&& ~~~1) := by
  simp [IsEven]

namespace CortexM0

private theorem isEven_setPc (s : CortexM0) (v : BitVec 32) : IsEven (s.setPc v).pc := by
  rw [setPc_pc]
  exact isEven_and_not_one v

private theorem isEven_advancePc {s : CortexM0} (h : IsEven s.pc) : IsEven s.advancePc.pc := by
  rw [advancePc_pc, isEven_add h]
  decide

/-! ### Handlers that write PC -/

/-- A hi-register ADD or MOV that writes an odd value to PC, in the state after `fetch`. -/
def WritesOddPc (s : CortexM0) (instr : BitVec 16) : Prop :=
  decode instr = .hiRegBx ∧ (instr.extractLsb' 8 2 = 0#2 ∨ instr.extractLsb' 8 2 = 2#2) ∧
    hiDest instr = .pc ∧ ¬ IsEven (s.regs (hiSource instr))

private theorem popPc_isEven {s : CortexM0} (h : IsEven s.pc) : IsEven (endState s.popPc).pc := by
  unfold popPc
  cases s.mem.read32 s.sp with
  | error f => exact h
  | ok newPc =>
    have heven := isEven_setPc (s.setReg .sp (s.sp + 4)) (newPc &&& ~~~1)
    rw [bus_ok, endState_ok]
    split
    · exact heven
    · exact heven

private theorem execPushPop_isEven {s : CortexM0} (h : IsEven s.pc) (instr : BitVec 16) :
    IsEven (endState (s.execPushPop instr)).pc := by
  unfold execPushPop
  dsimp only
  split
  · split
    · rwa [(pushReg_control _ (pushRegs_control _ _)).pc]
    · rwa [(pushRegs_control _ _ _).pc]
  · have hloop := popRegs_control (instr.extractLsb' 0 8) (List.range 8)
      (fun i hi ↦ List.mem_range.mp hi) s
    split
    case _ he =>
      rw [he, endState_error] at hloop
      rwa [endState_error, hloop.pc]
    case _ he =>
      rw [he] at hloop
      have hpc : IsEven (endState (popRegs (instr.extractLsb' 0 8) (List.range 8) s)).pc := by
        rwa [he, hloop.pc]
      rw [he] at hpc
      split
      · exact popPc_isEven hpc
      · exact hpc

private theorem execBranchCond_isEven {s : CortexM0} (h : IsEven s.pc) (instr : BitVec 16) :
    IsEven (s.execBranchCond instr).pc := by
  unfold execBranchCond
  dsimp only
  split
  · exact isEven_setPc _ _
  · exact h

private theorem execBranch_isEven (s : CortexM0) (instr : BitVec 16) :
    IsEven (s.execBranch instr).pc := by
  unfold execBranch
  exact isEven_setPc _ _

private theorem execBlUpper_pc (s : CortexM0) (instr : BitVec 16) :
    (s.execBlUpper instr).pc = s.pc := by
  unfold execBlUpper pc
  rfl

private theorem execBlLower_isEven (s : CortexM0) (instr : BitVec 16) :
    IsEven (s.execBlLower instr).pc := by
  unfold execBlLower
  exact isEven_setPc _ _

/-- The hi-register format is where the raw register file is written. -/
theorem execHiRegBx_isEven {s : CortexM0} (h : IsEven s.pc) {instr : BitVec 16}
    (hd : decode instr = .hiRegBx) :
    IsEven (s.execHiRegBx instr).pc ↔ ¬ s.WritesOddPc instr := by
  have hne : hiDest instr ≠ .pc → ∀ v, IsEven (s.setReg (hiDest instr) v).pc := by
    intro hne v
    rwa [(SameControl.setReg hne v).pc]
  have heq : hiDest instr = .pc → ∀ v, (s.setReg (hiDest instr) v).pc = v := by
    intro heq v
    rw [heq]
    exact setReg_self ..
  unfold execHiRegBx WritesOddPc
  dsimp only
  split
  case h_1 hop =>
    by_cases hrd : hiDest instr = .pc
    · have hsum : IsEven (s.regs (hiDest instr) + s.regs (hiSource instr)) ↔
          IsEven (s.regs (hiSource instr)) := by
        rw [hrd]
        exact isEven_add h
      rw [heq hrd, hsum]
      simp [hd, hop, hrd]
    · simp [hne hrd, hrd]
  case h_2 hop =>
    refine iff_of_true h ?_
    rw [hop]
    rintro ⟨-, hw, -⟩
    exact absurd hw (by decide)
  case h_3 hop =>
    by_cases hrd : hiDest instr = .pc
    · rw [heq hrd]
      simp [hd, hop, hrd]
    · simp [hne hrd, hrd]
  case h_4 h0 h1 h2 =>
    have hops : ¬ (instr.extractLsb' 8 2 = 0#2 ∨ instr.extractLsb' 8 2 = 2#2) := by
      rintro (hop | hop)
      · exact h0 hop
      · exact h2 hop
    refine iff_of_true ?_ fun hw ↦ hops hw.2.1
    have heven (t : CortexM0) := isEven_setPc t (s.regs (hiSource instr) &&& ~~~1)
    split
    · exact heven _
    · exact heven (if instr.getLsbD 7 then s.setReg .lr (s.pc ||| 1) else s)

/-! ### Steps and runs -/

/-- The instruction keeps PC even, unless it writes an odd value to it. -/
theorem execute_isEven {s : CortexM0} (h : IsEven s.pc) (instr : BitVec 16) :
    IsEven (endState (s.execute instr)).pc ↔ ¬ s.WritesOddPc instr := by
  by_cases hhi : decode instr = .hiRegBx
  · have hexec : s.execute instr = .ok () (s.execHiRegBx instr) := by rw [execute, hhi]
    rw [hexec]
    exact execHiRegBx_isEven h hhi
  · refine iff_of_true ?_ fun hw ↦ hhi hw.1
    by_cases hseq : (decode instr).Sequential
    · rwa [(execute_control hseq).pc]
    · unfold execute
      cases hd : decode instr with
      | hiRegBx => exact absurd hd hhi
      | pushPop => exact execPushPop_isEven h instr
      | branchCond => exact execBranchCond_isEven h instr
      | branch => exact execBranch_isEven s instr
      | blUpper => rwa [endState_ok, execBlUpper_pc]
      | blLower => exact execBlLower_isEven s instr
      | _ =>
        refine absurd ?_ hseq
        rw [hd]
        decide

/-- The next step writes an odd value to PC. -/
def StepWritesOddPc (s : CortexM0) : Prop :=
  s.halted = false ∧ ∃ instr, s.mem.read16 s.pc = .ok instr ∧ s.advancePc.WritesOddPc instr

/-- From an even PC, a step leads to an even one unless it writes an odd value to PC. A step
that throws is a step too. -/
theorem step_isEven {s : CortexM0} (h : IsEven s.pc) :
    IsEven (endState s.step).pc ↔ ¬ s.StepWritesOddPc := by
  unfold step StepWritesOddPc
  split
  case isTrue hh => simp [hh, h]
  case isFalse hh =>
    rw [Bool.not_eq_true] at hh
    unfold fetch
    cases hread : s.mem.read16 s.pc with
    | error f => simp [h]
    | ok instr =>
      have hexec := execute_isEven (isEven_advancePc h) instr
      have hcond : (∃ i, (Except.ok instr : Except BusFault (BitVec 16)) = .ok i ∧
          s.advancePc.WritesOddPc i) ↔ s.advancePc.WritesOddPc instr := by
        simp
      rw [bus_ok, hcond]
      dsimp only
      simp only [hh, true_and]
      cases he : s.advancePc.execute instr with
      | error f t =>
        rw [he] at hexec
        exact hexec
      | ok u t =>
        rw [he] at hexec
        exact hexec

/-- PC is even in every state of a run of `step` that starts with an even one, if no step of it
is a hi-register ADD or MOV with Rd = PC and an odd operand. -/
theorem isEven_pc_of_reach {s : CortexM0}
    (h : Reach (fun s ↦ IsEven s.pc) (fun s (_ : Unit) ↦ ¬ s.StepWritesOddPc)
      (fun s _ t ↦ t = endState s.step) s) : IsEven s.pc := by
  refine h.invariant (fun _ hs ↦ hs) ?_
  rintro s _ t hs hguard rfl
  exact (step_isEven hs).mpr hguard

/-- Two steps from reset. -/
theorem isEven_pc_of_reach_reset : IsEven (endState (endState (new .clear).step).step).pc := by
  have h0 : IsEven (new .clear).pc := by decide +kernel
  have h1 : IsEven (endState (new .clear).step).pc := by decide +kernel
  have h2 : IsEven (endState (endState (new .clear).step).step).pc := by decide +kernel
  exact isEven_pc_of_reach (.next (a := ()) (.next (a := ()) (.start h0) ((step_isEven h0).mp h1)
    rfl) ((step_isEven h1).mp h2) rfl)

/-- The code bytes of `MOVS R0, #1` and then `MOV PC, R0`. -/
def movPcProgram : FlatMemoryBus := FlatMemoryBus.clear.memcpy 0 [0x01, 0x20, 0x87, 0x46]

/-- MOV to PC keeps the Thumb bit. -/
theorem mov_pc_odd : IsEven (new movPcProgram).pc ∧
    (endState (endState (new movPcProgram).step).step).pc = 1 := by
  decide +kernel

/-! ### Reading PC -/

/-- PC is a source operand of the instruction. -/
def ReadsPc (instr : BitVec 16) : Prop :=
  match decode instr with
  | .hiRegBx => hiSource instr = .pc ∨
      ((instr.extractLsb' 8 2 = 0#2 ∨ instr.extractLsb' 8 2 = 1#2) ∧ hiDest instr = .pc)
  | .addSpPc => instr.getLsbD 11 = false
  | .ldrPc | .branchCond | .branch | .blUpper => True
  | _ => False

instance (instr : BitVec 16) : Decidable (ReadsPc instr) :=
  match h : decode instr with
  | .hiRegBx => decidable_of_iff (hiSource instr = .pc ∨
      ((instr.extractLsb' 8 2 = 0#2 ∨ instr.extractLsb' 8 2 = 1#2) ∧ hiDest instr = .pc))
      (by rw [ReadsPc, h])
  | .addSpPc => decidable_of_iff (instr.getLsbD 11 = false) (by rw [ReadsPc, h])
  | .ldrPc | .branchCond | .branch | .blUpper => .isTrue (by rw [ReadsPc, h]; trivial)
  | .shiftImm | .addSub | .imm8 | .alu | .ldrStrReg | .ldrStrImm | .ldrhStrhImm | .ldrStrSp
  | .spOps | .hint | .bkpt | .pushPop | .ldmStm | .blLower | .undefined =>
    .isFalse (by rw [ReadsPc, h]; exact id)

/-- The PC operand as the handler of the instruction forms it, in the state after `fetch`. -/
def pcOperand (s : CortexM0) (instr : BitVec 16) : BitVec 32 :=
  match decode instr with
  | .hiRegBx => s.regs .pc
  | .ldrPc | .addSpPc => (s.pc + 2) &&& ~~~3
  | _ => s.pc + 2

/-- The value that PC reads as in the instruction at address `a`: `a + 4`, rounded down to a
multiple of 4 for LDR literal and ADD Rd, PC. -/
def architecturalPc (a : BitVec 32) (instr : BitVec 16) : BitVec 32 :=
  match decode instr with
  | .ldrPc | .addSpPc => (a + 4) &&& ~~~3
  | _ => a + 4

/-- The hi-register format with `v` for every operand that is PC. -/
def hiRegBxWith (s : CortexM0) (instr : BitVec 16) (v : BitVec 32) : CortexM0 :=
  let operand (r : RegIndex) := if r = .pc then v else s.regs r
  let valS := operand (hiSource instr)
  match instr.extractLsb' 8 2 with
  | 0 => s.setReg (hiDest instr) (operand (hiDest instr) + valS)
  | 1 =>
    let valD := operand (hiDest instr)
    let (res, carry) := sub32 valD valS
    s.setApsr ({ s.apsr with c := carry, v := subOverflow valD valS res }.updateNz res)
  | 2 => s.setReg (hiDest instr) valS
  | _ =>
    let s := if instr.getLsbD 7 then s.setReg .lr (s.pc ||| 1) else s
    let s := s.setPc (valS &&& ~~~1)
    if valS.getLsbD 0 then s else { s with halted := true }

/-- What the instruction does with `v` for its PC operand. -/
def executeWith (s : CortexM0) (instr : BitVec 16) (v : BitVec 32) : Outcome Unit :=
  let imm8 : BitVec 32 := (instr.extractLsb' 0 8).setWidth 32
  let imm11 : BitVec 32 := (instr.extractLsb' 0 11).setWidth 32
  match decode instr with
  | .hiRegBx => .ok () (s.hiRegBxWith instr v)
  | .ldrPc => s.loadReg (reg3 instr 8) (s.mem.read32 (v + imm8 <<< 2))
  | .addSpPc => .ok () (s.setReg (reg3 instr 8) (v + imm8 <<< 2))
  | .branchCond => .ok () (
      if s.conditionPasses (instr.extractLsb' 8 4) then
        s.setPc (v + (instr.extractLsb' 0 8).signExtend 32 <<< 1)
      else s)
  | .branch => .ok () (s.setPc (v + (imm11 <<< 21).sshiftRight 20))
  | .blUpper => .ok () { s with blOffset := v + (imm11 <<< 21).sshiftRight 9 }
  | _ => s.execute instr

/-- The hi-register format reads PC from the register file. -/
theorem execHiRegBx_eq_with (s : CortexM0) (instr : BitVec 16) :
    s.execHiRegBx instr = s.hiRegBxWith instr (s.regs .pc) := by
  have hop (r : RegIndex) : (if r = .pc then s.regs .pc else s.regs r) = s.regs r := by
    by_cases hr : r = .pc
    · rw [if_pos hr, hr]
    · rw [if_neg hr]
  symm
  unfold hiRegBxWith
  simp only [hop]
  rfl

/-- An instruction does what it does with its operand for PC. -/
theorem execute_eq_with (s : CortexM0) {instr : BitVec 16} (h : ReadsPc instr) :
    s.execute instr = s.executeWith instr (s.pcOperand instr) := by
  unfold ReadsPc at h
  unfold execute executeWith pcOperand
  cases hd : decode instr with
  | hiRegBx => exact congrArg _ (execHiRegBx_eq_with s instr)
  | ldrPc => rfl
  | addSpPc =>
    rw [hd] at h
    dsimp only at h ⊢
    unfold execAddSpPc
    rw [h]
    rfl
  | branchCond => rfl
  | branch => rfl
  | blUpper => rfl
  | _ =>
    rw [hd] at h
    exact h.elim

/-- PC reads as the instruction's address plus 4 in every format but the hi-register one. -/
theorem pcOperand_iff (s : CortexM0) {instr : BitVec 16} (h : ReadsPc instr) :
    s.advancePc.execute instr =
      s.advancePc.executeWith instr (s.advancePc.pcOperand instr) ∧
    (s.advancePc.pcOperand instr = architecturalPc s.pc instr ↔ decode instr ≠ .hiRegBx) := by
  refine ⟨execute_eq_with _ h, ?_⟩
  have hfour : s.pc + 2 + 2 = s.pc + 4 := by
    rw [BitVec.add_assoc]
    rfl
  unfold ReadsPc at h
  unfold pcOperand architecturalPc
  cases hd : decode instr with
  | hiRegBx =>
    have hpc : s.advancePc.regs .pc = s.pc + 2 := advancePc_pc s
    simp [hpc]
  | ldrPc | addSpPc | branchCond | branch | blUpper =>
    dsimp only
    rw [advancePc_pc, hfour]
    simp
  | _ =>
    rw [hd] at h
    exact h.elim

/-- A literal load. -/
theorem pcOperand_iff_ldr :
    (new .clear).advancePc.pcOperand 0x4800 = architecturalPc (new .clear).pc 0x4800 :=
  (pcOperand_iff (new .clear) (show ReadsPc 0x4800 by decide)).2.mpr (by decide)

/-- The code bytes of `MOV R0, PC`. -/
def movFromPcProgram : FlatMemoryBus := FlatMemoryBus.clear.memcpy 0 [0x78, 0x46]

/-- MOV reads the address plus 2. -/
theorem mov_from_pc : ReadsPc 0x4678 ∧ (new movFromPcProgram).pc = 0 ∧
    (endState (new movFromPcProgram).step).regs 0 = 2 ∧
    (new movFromPcProgram).advancePc.pcOperand 0x4678 ≠
      architecturalPc (new movFromPcProgram).pc 0x4678 := by
  decide +kernel

end CortexM0

end McuSimulator.Cpu
