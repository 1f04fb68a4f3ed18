import McuSimulator.Cpu.State

/-!
# Instruction handlers

The `exec_*` functions of `src/cpu.cpp`, one for each Thumb-16 format. They run after `fetch`
has advanced PC by 2. Handlers that cannot fault return the state; those that reach the memory
return an outcome, whose state at an exception holds what was written before the access.
-/

namespace McuSimulator.Cpu

open McuSimulator.Memory

/-- A three-bit register field, `(instr >> lo) & 0x7`. -/
def reg3 (instr : BitVec 16) (lo : Nat) : RegIndex := (instr.extractLsb' lo 3).setWidth 4

/-- The destination field of the hi-register format: bit 7, then bits 2 to 0. -/
def hiDest (instr : BitVec 16) : RegIndex := instr.extractLsb' 7 1 ++ instr.extractLsb' 0 3

/-- The source field of the hi-register format. -/
def hiSource (instr : BitVec 16) : RegIndex := instr.extractLsb' 3 4

/-- The register that a list's bit `i` names. -/
def listed (i : Nat) : RegIndex := BitVec.ofNat 4 i

/-- `(((a ^ res) & (b ^ res)) >> 31) & 1`: the overflow of an addition. -/
def addOverflow (a b res : BitVec 32) : Bool := ((a ^^^ res) &&& (b ^^^ res)).getLsbD 31

/-- `(((a ^ b) & (a ^ res)) >> 31) & 1`: the overflow of a subtraction. -/
def subOverflow (a b res : BitVec 32) : Bool := ((a ^^^ b) &&& (a ^^^ res)).getLsbD 31

namespace CortexM0

/-! ### Data processing -/

/-- `exec_shift_imm`: LSL, LSR, ASR by an immediate; src/cpu.cpp:144–170. -/
def execShiftImm (s : CortexM0) (instr : BitVec 16) : Outcome Unit :=
  let imm5 := (instr.extractLsb' 6 5).toNat
  let val := s.regs (reg3 instr 3)
  let finish (c : Bool) (result : BitVec 32) : Outcome Unit :=
    .ok () ((s.setApsr ({ s.apsr with c := c }.updateNz result)).setReg (reg3 instr 0) result)
  match instr.extractLsb' 11 2 with
  | 0 =>
    if imm5 = 0 then finish s.apsr.c val
    else finish (val.getLsbD (32 - imm5)) (val <<< imm5)
  | 1 =>
    if imm5 = 0 then finish (val.getLsbD 31) 0
    else finish (val.getLsbD (imm5 - 1)) (val >>> imm5)
  | 2 =>
    if imm5 = 0 then finish (val.getLsbD 31) (val.sshiftRight 31)
    else finish (val.getLsbD (imm5 - 1)) (val.sshiftRight imm5)
  | _ => .error (.undefinedInstruction instr) s

/-- `exec_add_sub`: ADD, SUB of a register or a three-bit immediate; src/cpu.cpp:174–190. -/
def execAddSub (s : CortexM0) (instr : BitVec 16) : CortexM0 :=
  let sub := instr.getLsbD 9
  let a := s.regs (reg3 instr 3)
  let b := if instr.getLsbD 10 then (instr.extractLsb' 6 3).setWidth 32 else s.regs (reg3 instr 6)
  let (result, carry) := if sub then sub32 a b else add32 a b false
  let v := if sub then subOverflow a b result else addOverflow a b result
  (s.setApsr ({ s.apsr with c := carry, v := v }.updateNz result)).setReg (reg3 instr 0) result

/-- `exec_imm8`: MOV, CMP, ADD, SUB of an eight-bit immediate; src/cpu.cpp:194–229. -/
def execImm8 (s : CortexM0) (instr : BitVec 16) : CortexM0 :=
  let rd := reg3 instr 8
  let imm8 : BitVec 32 := (instr.extractLsb' 0 8).setWidth 32
  match instr.extractLsb' 11 2 with
  | 0 => (s.setApsr (s.apsr.updateNz imm8)).setReg rd imm8
  | 1 =>
    let (res, carry) := sub32 (s.regs rd) imm8
    s.setApsr ({ s.apsr with c := carry, v := subOverflow (s.regs rd) imm8 res }.updateNz res)
  | 2 =>
    let (res, carry) := add32 (s.regs rd) imm8 false
    (s.setApsr ({ s.apsr with c := carry, v := addOverflow (s.regs rd) imm8 res }.updateNz
      res)).setReg rd res
  | _ =>
    let (res, carry) := sub32 (s.regs rd) imm8
    (s.setApsr ({ s.apsr with c := carry, v := subOverflow (s.regs rd) imm8 res }.updateNz
      res)).setReg rd res

/-- `exec_alu_shift`: LSL, LSR, ASR and otherwise ROR by a register; src/cpu.cpp:234–256. -/
def execAluShift (s : CortexM0) (op : BitVec 4) (rd : RegIndex) (a b : BitVec 32) : CortexM0 :=
  let sh := (b.extractLsb' 0 8).toNat
  let finish (c : Bool) (result : BitVec 32) : CortexM0 :=
    (s.setApsr ({ s.apsr with c := c }.updateNz result)).setReg rd result
  match op with
  | 0x2 =>
    let c :=
      if 0 < sh then
        if sh < 32 then a.getLsbD (32 - sh) else if sh = 32 then a.getLsbD 0 else false
      else s.apsr.c
    finish c (if 32 ≤ sh then 0 else a <<< sh)
  | 0x3 =>
    let c :=
      if 0 < sh then
        if sh < 32 then a.getLsbD (sh - 1) else if sh = 32 then a.getLsbD 31 else false
      else s.apsr.c
    finish c (if 32 ≤ sh then 0 else a >>> sh)
  | 0x4 =>
    let c := if 0 < sh then if sh < 32 then a.getLsbD (sh - 1) else a.getLsbD 31 else s.apsr.c
    finish c (if 32 ≤ sh then a.sshiftRight 31 else a.sshiftRight sh)
  | _ =>
    -- the rotation is modulo 32, but an amount of 32 still sets the carry
    let rot := sh % 32
    if sh = 0 then finish s.apsr.c a
    else if rot = 0 then finish (a.getLsbD 31) a
    else finish (a.getLsbD (rot - 1)) (a >>> rot ||| a <<< (32 - rot))

/-- `exec_alu_arith`: ADC, SBC, NEG, CMP, CMN; src/cpu.cpp:259–267. -/
def execAluArith (s : CortexM0) (op : BitVec 4) (rd : RegIndex) (a b : BitVec 32) : CortexM0 :=
  let flags (carry v : Bool) (res : BitVec 32) : CortexM0 :=
    s.setApsr ({ s.apsr with c := carry, v := v }.updateNz res)
  match op with
  | 0x5 =>
    let (res, c) := add32 a b s.apsr.c
    (flags c (addOverflow a b res) res).setReg rd res
  | 0x6 =>
    let (res, c) := add32 a (~~~b) s.apsr.c
    (flags c (addOverflow a (~~~b) res) res).setReg rd res
  | 0x9 =>
    let (res, c) := sub32 0 b
    (flags c ((b &&& res).getLsbD 31) res).setReg rd res
  | 0xA =>
    let (res, c) := sub32 a b
    flags c (subOverflow a b res) res
  | 0xB =>
    let (res, c) := add32 a b false
    flags c (addOverflow a b res) res
  | _ => s

/-- `exec_alu`: the dispatcher and the logical operations; src/cpu.cpp:271–293. -/
def execAlu (s : CortexM0) (instr : BitVec 16) : CortexM0 :=
  let op : BitVec 4 := instr.extractLsb' 6 4
  let rd := reg3 instr 0
  let a := s.regs rd
  let b := s.regs (reg3 instr 3)
  let finish (result : BitVec 32) : CortexM0 :=
    (s.setApsr (s.apsr.updateNz result)).setReg rd result
  if (0x2 ≤ op ∧ op ≤ 0x4) ∨ op = 0x7 then s.execAluShift op rd a b
  else if op = 0x5 ∨ op = 0x6 ∨ (0x9 ≤ op ∧ op ≤ 0xB) then s.execAluArith op rd a b
  else
    match op with
    | 0x0 => finish (a &&& b)
    | 0x1 => finish (a ^^^ b)
    | 0x8 => s.setApsr (s.apsr.updateNz (a &&& b))
    | 0xC => finish (a ||| b)
    | 0xD => finish (a * b)
    | 0xE => finish (a &&& ~~~b)
    | 0xF => finish (~~~b)
    | _ => s

/-- `exec_hi_reg_bx`: ADD, CMP, MOV of any registers, BX and BLX; src/cpu.cpp:297–322. -/
def execHiRegBx (s : CortexM0) (instr : BitVec 16) : CortexM0 :=
  let rd := hiDest instr
  let valS := s.regs (hiSource instr)
  let valD := s.regs rd
  match instr.extractLsb' 8 2 with
  | 0 => s.setReg rd (valD + valS)
  | 1 =>
    let (res, carry) := sub32 valD valS
    s.setApsr ({ s.apsr with c := carry, v := subOverflow valD valS res }.updateNz res)
  | 2 => s.setReg rd valS
  | _ =>
    let s := if instr.getLsbD 7 then s.setReg .lr (s.pc ||| 1) else s
    let s := s.setPc (valS &&& ~~~1)
    -- a target without the Thumb bit ends the simulation
    if valS.getLsbD 0 then s else { s with halted := true }

/-- `exec_add_sp_pc`: ADD Rd, SP or PC; src/cpu.cpp:389–395. -/
def execAddSpPc (s : CortexM0) (instr : BitVec 16) : CortexM0 :=
  let imm : BitVec 32 := (instr.extractLsb' 0 8).setWidth 32 <<< 2
  let base := if instr.getLsbD 11 then s.regs .sp else (s.pc + 2) &&& ~~~3
  s.setReg (reg3 instr 8) (base + imm)

/-- `exec_sp_ops`: ADD, SUB of SP; src/cpu.cpp:399–403. -/
def execSpOps (s : CortexM0) (instr : BitVec 16) : CortexM0 :=
  let imm : BitVec 32 := (instr.extractLsb' 0 7).setWidth 32 <<< 2
  s.setReg .sp (if instr.getLsbD 7 then s.sp - imm else s.sp + imm)

/-! ### Loads and stores -/

/-- `regs_[rd] = mem_.read(..)`. -/
def loadReg (s : CortexM0) (rd : RegIndex) (access : Except BusFault (BitVec 32)) : Outcome Unit :=
  s.bus access fun v ↦ .ok () (s.setReg rd v)

/-- A store, with the memory it leaves. -/
def storeMem (s : CortexM0) (access : Except BusFault FlatMemoryBus) : Outcome Unit :=
  s.bus access fun m ↦ .ok () { s with mem := m }

/-- `exec_ldr_pc`: LDR literal; src/cpu.cpp:326–331. -/
def execLdrPc (s : CortexM0) (instr : BitVec 16) : Outcome Unit :=
  let off : BitVec 32 := (instr.extractLsb' 0 8).setWidth 32 <<< 2
  let base := (s.pc + 2) &&& ~~~3
  s.loadReg (reg3 instr 8) (s.mem.read32 (base + off))

/-- The common end of `exec_ldr_str_reg` and `exec_ldr_str_imm`; src/cpu.cpp:343–344, 358–359. -/
def transfer (s : CortexM0) (load byte : Bool) (rd : RegIndex) (addr : BitVec 32) : Outcome Unit :=
  if load then
    s.loadReg rd (if byte then (s.mem.read8 addr).map (·.setWidth 32) else s.mem.read32 addr)
  else
    s.storeMem
      (if byte then s.mem.write8 addr ((s.regs rd).setWidth 8) else s.mem.write32 addr (s.regs rd))

/-- `exec_ldr_str_reg`: register offset; src/cpu.cpp:335–345. -/
def execLdrStrReg (s : CortexM0) (instr : BitVec 16) : Outcome Unit :=
  let addr := s.regs (reg3 instr 3) + s.regs (reg3 instr 6)
  s.transfer (instr.getLsbD 11) (instr.getLsbD 10) (reg3 instr 0) addr

/-- `exec_ldr_str_imm`: five-bit immediate offset; src/cpu.cpp:349–360. -/
def execLdrStrImm (s : CortexM0) (instr : BitVec 16) : Outcome Unit :=
  let byte := instr.getLsbD 12
  let off5 : BitVec 32 := (instr.extractLsb' 6 5).setWidth 32
  let off := if byte then off5 else off5 <<< 2
  s.transfer (instr.getLsbD 11) byte (reg3 instr 0) (s.regs (reg3 instr 3) + off)

/-- `exec_ldrh_strh_imm`: halfword, five-bit immediate offset; src/cpu.cpp:364–373. -/
def execLdrhStrhImm (s : CortexM0) (instr : BitVec 16) : Outcome Unit :=
  let rd := reg3 instr 0
  let off5 : BitVec 32 := (instr.extractLsb' 6 5).setWidth 32
  let addr := s.regs (reg3 instr 3) + off5 <<< 1
  if instr.getLsbD 11 then s.loadReg rd ((s.mem.read16 addr).map (·.setWidth 32))
  else s.storeMem (s.mem.write16 addr ((s.regs rd).setWidth 16))

/-- `exec_ldr_str_sp`: SP-relative; src/cpu.cpp:377–385. -/
def execLdrStrSp (s : CortexM0) (instr : BitVec 16) : Outcome Unit :=
  let off : BitVec 32 := (instr.extractLsb' 0 8).setWidth 32 <<< 2
  s.transfer (instr.getLsbD 11) false (reg3 instr 8) (s.regs .sp + off)

/-! ### Register lists -/

/-- `regs_[13] -= 4; mem_.write32(regs_[13], regs_[r])`, and then the rest. -/
def pushReg (s : CortexM0) (r : RegIndex) (k : CortexM0 → Outcome Unit) : Outcome Unit :=
  let s := s.setReg .sp (s.sp - 4)
  s.bus (s.mem.write32 s.sp (s.regs r)) fun m ↦ k { s with mem := m }

/-- The loop of PUSH; src/cpu.cpp:414–416. -/
def pushRegs (rlist : BitVec 8) : List Nat → CortexM0 → Outcome Unit
  | [], s => .ok () s
  | i :: is, s =>
    if rlist.getLsbD i then s.pushReg (listed i) (pushRegs rlist is) else pushRegs rlist is s

/-- The loop of POP; src/cpu.cpp:418–420. -/
def popRegs (rlist : BitVec 8) : List Nat → CortexM0 → Outcome Unit
  | [], s => .ok () s
  | i :: is, s =>
    if rlist.getLsbD i then
      s.bus (s.mem.read32 s.sp) fun v ↦
        let s := s.setReg (listed i) v
        popRegs rlist is (s.setReg .sp (s.sp + 4))
    else popRegs rlist is s

/-- POP of PC; src/cpu.cpp:421–422. -/
def popPc (s : CortexM0) : Outcome Unit :=
  s.bus (s.mem.read32 s.sp) fun newPc ↦
    let s := (s.setReg .sp (s.sp + 4)).setPc (newPc &&& ~~~1)
    .ok () (if newPc.getLsbD 0 then s else { s with halted := true })

/-- `exec_push_pop`; src/cpu.cpp:407–424. -/
def execPushPop (s : CortexM0) (instr : BitVec 16) : Outcome Unit :=
  let r := instr.getLsbD 8
  let rlist : BitVec 8 := instr.extractLsb' 0 8
  if !instr.getLsbD 11 then
    let loop := pushRegs rlist (List.range 8).reverse
    if r then s.pushReg .lr loop else loop s
  else
    match popRegs rlist (List.range 8) s with
    | .error f s => .error f s
    | .ok () s => if r then s.popPc else .ok () s

/-- The loop of LDM and STM, with the running address; src/cpu.cpp:434–440. -/
def ldmStmLoop (load : Bool) (rlist : BitVec 8) :
    List Nat → BitVec 32 → CortexM0 → Outcome (BitVec 32)
  | [], addr, s => .ok addr s
  | i :: is, addr, s =>
    if rlist.getLsbD i then
      if load then
        s.bus (s.mem.read32 addr) fun v ↦
          ldmStmLoop load rlist is (addr + 4) (s.setReg (listed i) v)
      else
        s.bus (s.mem.write32 addr (s.regs (listed i))) fun m ↦
          ldmStmLoop load rlist is (addr + 4) { s with mem := m }
    else ldmStmLoop load rlist is addr s

/-- `exec_ldm_stm`; src/cpu.cpp:428–442. -/
def execLdmStm (s : CortexM0) (instr : BitVec 16) : Outcome Unit :=
  let load := instr.getLsbD 11
  let rb := reg3 instr 8
  let rlist : BitVec 8 := instr.extractLsb' 0 8
  match ldmStmLoop load rlist (List.range 8) (s.regs rb) s with
  | .error f s => .error f s
  | .ok addr s => .ok () (if !rlist.getLsbD rb.toNat || load then s.setReg rb addr else s)

/-! ### Branches -/

/-- `exec_branch_cond`; src/cpu.cpp:446–451. -/
def execBranchCond (s : CortexM0) (instr : BitVec 16) : CortexM0 :=
  let soff8 : BitVec 32 := (instr.extractLsb' 0 8).signExtend 32
  let target := s.pc + 2 + soff8 <<< 1
  if s.conditionPasses (instr.extractLsb' 8 4) then s.setPc target else s

/-- `exec_branch`; src/cpu.cpp:455–459. -/
def execBranch (s : CortexM0) (instr : BitVec 16) : CortexM0 :=
  let off11 := ((instr.extractLsb' 0 11).setWidth 32 <<< 21 : BitVec 32).sshiftRight 20
  s.setPc (s.pc + 2 + off11)

/-- `exec_bl_upper`: the high half of the offset; src/cpu.cpp:462–465. -/
def execBlUpper (s : CortexM0) (instr : BitVec 16) : CortexM0 :=
  let off := ((instr.extractLsb' 0 11).setWidth 32 <<< 21 : BitVec 32).sshiftRight 9
  { s with blOffset := s.pc + 2 + off }

/-- `exec_bl_lower`; src/cpu.cpp:467–471. -/
def execBlLower (s : CortexM0) (instr : BitVec 16) : CortexM0 :=
  let offLo : BitVec 32 := (instr.extractLsb' 0 11).setWidth 32 <<< 1
  (s.setReg .lr (s.pc ||| 1)).setPc (s.blOffset + offLo)

end CortexM0

end McuSimulator.Cpu
