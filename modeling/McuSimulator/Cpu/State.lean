import McuSimulator.Memory.FlatMemoryBus

/-!
# The state of the CPU

`CortexM0` of `src/cpu.h` and `src/cpu.cpp`: the register file, the flags, the counters and
the memory behind `mem_`. An exception leaves the state as it stands where it is thrown, so
the outcome of a call is its value or its exception, each with a state. The trace callback
changes nothing; what it is given is in `Cpu.Trace`.
-/

namespace McuSimulator.Cpu

open McuSimulator.Memory

/-! ### Exceptions -/

/-- What `step` can throw. -/
inductive Fault where
  /-- `BusFaultException` from the memory. -/
  | busFault (fault : BusFault)
  /-- `UndefinedInstructionException`; src/cpu.h:23–28. -/
  | undefinedInstruction (opcode : BitVec 16)
  deriving DecidableEq, Repr

/-- `UndefinedInstructionException::toHex`: four digits; src/cpu.cpp:15–19. -/
def toHex (v : BitVec 16) : String :=
  String.ofList ((List.range 4).map fun i ↦ upperDigit (v.toNat / 16 ^ (3 - i) % 16))

/-- `what()` of the exception. -/
def Fault.what : Fault → String
  | .busFault f => f.what
  | .undefinedInstruction opcode => "Undefined instruction: 0x" ++ toHex opcode

/-! ### Registers and flags -/

/-- `RegIndex`; src/cpu.h:49–53. -/
abbrev RegIndex := BitVec 4

namespace RegIndex

def sp : RegIndex := 13
def lr : RegIndex := 14
def pc : RegIndex := 15

end RegIndex

/-- `APSR`; src/cpu.h:33–43. -/
structure Apsr where
  n : Bool := false
  z : Bool := false
  c : Bool := false
  v : Bool := false
  deriving DecidableEq, Repr

/-- `APSR::update_nz`. -/
def Apsr.updateNz (f : Apsr) (result : BitVec 32) : Apsr :=
  { f with n := result.getLsbD 31, z := decide (result = 0) }

/-- `CortexM0`, with the memory that `mem_` refers to; src/cpu.h:104–112, 158. -/
@[ext]
structure CortexM0 where
  regs : RegIndex → BitVec 32
  apsr : Apsr
  cycles : BitVec 64
  halted : Bool
  blOffset : BitVec 32
  mem : FlatMemoryBus

/-- How a call ends: with a value or an exception, and in a state. -/
abbrev Outcome (α : Type) := EStateM.Result Fault CortexM0 α

namespace CortexM0

/-- `RESET_SP`; src/cpu.h:81. -/
def resetSp : BitVec 32 := 0x2000

/-- `RESET_PC`, with the Thumb bit; src/cpu.h:82. -/
def resetPc : BitVec 32 := 0x0001

/-- `set_reg`; src/cpu.cpp:41–43. -/
def setReg (s : CortexM0) (r : RegIndex) (v : BitVec 32) : CortexM0 :=
  { s with regs := Function.update s.regs r v }

/-- `pc`; src/cpu.h:115. -/
def pc (s : CortexM0) : BitVec 32 := s.regs .pc

/-- `sp`; src/cpu.h:116. -/
def sp (s : CortexM0) : BitVec 32 := s.regs .sp

/-- `set_pc`: drops the Thumb bit; src/cpu.h:117. -/
def setPc (s : CortexM0) (v : BitVec 32) : CortexM0 := s.setReg .pc (v &&& ~~~1)

/-- `advance_pc`; src/cpu.h:119. -/
def advancePc (s : CortexM0) : CortexM0 := s.setReg .pc (s.pc + 2)

/-- The flags replaced. -/
def setApsr (s : CortexM0) (f : Apsr) : CortexM0 := { s with apsr := f }

/-- `reset`; src/cpu.cpp:27–35. -/
def reset (s : CortexM0) : CortexM0 :=
  { regs := Function.update (Function.update (fun _ ↦ 0) .sp resetSp) .pc (resetPc &&& ~~~1)
    apsr := {}
    cycles := 0
    halted := false
    blOffset := 0
    mem := s.mem }

/-- The constructor; src/cpu.cpp:23–25. -/
def new (mem : FlatMemoryBus) : CortexM0 :=
  reset { regs := fun _ ↦ 0, apsr := {}, cycles := 0, halted := false, blOffset := 0, mem := mem }

/-- Go on with the value of a bus access. Its fault leaves the state as it stands. -/
def bus {α β : Type} (s : CortexM0) (access : Except BusFault α) (k : α → Outcome β) :
    Outcome β :=
  match access with
  | .ok v => k v
  | .error f => .error (.busFault f) s

/-! ### Helpers -/

/-- `add32`: sum and carry out; src/cpu.cpp:73–76. -/
def add32 (a b : BitVec 32) (cin : Bool) : BitVec 32 × Bool :=
  let res64 : BitVec 64 := a.setWidth 64 + b.setWidth 64 + if cin then 1 else 0
  (res64.setWidth 32, decide (res64 >>> 32 ≠ 0))

/-- `sub32`; src/cpu.cpp:78–80. -/
def sub32 (a b : BitVec 32) : BitVec 32 × Bool := add32 a (~~~b) true

/-- `condition_passes`; src/cpu.cpp:84–103. -/
def conditionPasses (s : CortexM0) (cond : BitVec 4) : Bool :=
  match cond with
  | 0x0 => s.apsr.z
  | 0x1 => !s.apsr.z
  | 0x2 => s.apsr.c
  | 0x3 => !s.apsr.c
  | 0x4 => s.apsr.n
  | 0x5 => !s.apsr.n
  | 0x6 => s.apsr.v
  | 0x7 => !s.apsr.v
  | 0x8 => s.apsr.c && !s.apsr.z
  | 0x9 => !s.apsr.c || s.apsr.z
  | 0xA => s.apsr.n == s.apsr.v
  | 0xB => s.apsr.n != s.apsr.v
  | 0xC => !s.apsr.z && s.apsr.n == s.apsr.v
  | 0xD => s.apsr.z || s.apsr.n != s.apsr.v
  | 0xE => true
  | _ => false

/-! ### What the updates leave alone -/

/-- The registers after a write to one. -/
@[simp] theorem setReg_regs (s : CortexM0) (r : RegIndex) (v : BitVec 32) :
    (s.setReg r v).regs = Function.update s.regs r v := rfl

/-- The register has the value written to it. -/
theorem setReg_self (s : CortexM0) (r : RegIndex) (v : BitVec 32) : (s.setReg r v).regs r = v := by
  rw [setReg_regs, Function.update_self]

/-- The other registers are as before. -/
theorem setReg_of_ne (s : CortexM0) {r r' : RegIndex} (h : r' ≠ r) (v : BitVec 32) :
    (s.setReg r v).regs r' = s.regs r' := by
  rw [setReg_regs, Function.update_of_ne h]

/-- The second write to a register wins. -/
theorem setReg_setReg (s : CortexM0) (r : RegIndex) (v w : BitVec 32) :
    (s.setReg r v).setReg r w = s.setReg r w := by
  unfold setReg
  rw [Function.update_idem]

/-- Writing back what is there. -/
theorem setReg_eq_self (s : CortexM0) (r : RegIndex) : s.setReg r (s.regs r) = s := by
  unfold setReg
  rw [Function.update_eq_self]

/-- Writes to two registers commute. -/
theorem setReg_comm (s : CortexM0) {r r' : RegIndex} (h : r ≠ r') (v w : BitVec 32) :
    (s.setReg r v).setReg r' w = (s.setReg r' w).setReg r v := by
  unfold setReg
  rw [Function.update_comm h]

/-- A write to a register leaves the flags. -/
@[simp] theorem setReg_apsr (s : CortexM0) (r : RegIndex) (v : BitVec 32) :
    (s.setReg r v).apsr = s.apsr := rfl

/-- A write to a register leaves the cycle count. -/
@[simp] theorem setReg_cycles (s : CortexM0) (r : RegIndex) (v : BitVec 32) :
    (s.setReg r v).cycles = s.cycles := rfl

/-- A write to a register does not halt. -/
@[simp] theorem setReg_halted (s : CortexM0) (r : RegIndex) (v : BitVec 32) :
    (s.setReg r v).halted = s.halted := rfl

/-- A write to a register leaves the memory. -/
@[simp] theorem setReg_mem (s : CortexM0) (r : RegIndex) (v : BitVec 32) :
    (s.setReg r v).mem = s.mem := rfl

/-- `setPc` clears the lowest bit. -/
theorem setPc_pc (s : CortexM0) (v : BitVec 32) : (s.setPc v).pc = v &&& ~~~1 := setReg_self ..

/-- The stack pointer has the value written to it. -/
theorem setReg_sp (s : CortexM0) (v : BitVec 32) : (s.setReg .sp v).sp = v := setReg_self ..

/-- The PC goes on by one halfword. -/
theorem advancePc_pc (s : CortexM0) : s.advancePc.pc = s.pc + 2 := setReg_self ..

/-- New flags leave the registers. -/
@[simp] theorem setApsr_regs (s : CortexM0) (f : Apsr) : (s.setApsr f).regs = s.regs := rfl

/-- The flags that have been set. -/
@[simp] theorem setApsr_apsr (s : CortexM0) (f : Apsr) : (s.setApsr f).apsr = f := rfl

/-- An access that returns goes on with its value. -/
@[simp] theorem bus_ok {α β : Type} (s : CortexM0) (v : α) (k : α → Outcome β) :
    s.bus (.ok v) k = k v := rfl

/-- An access that faults ends the instruction. -/
@[simp] theorem bus_error {α β : Type} (s : CortexM0) (f : BusFault) (k : α → Outcome β) :
    s.bus (.error f) k = .error (.busFault f) s := rfl

end CortexM0

end McuSimulator.Cpu
