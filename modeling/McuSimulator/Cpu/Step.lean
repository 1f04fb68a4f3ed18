import McuSimulator.Cpu.Exec

/-!
# Fetch, dispatch, step and run

`fetch`, `execute`, `step` and `run` of `src/cpu.cpp`. `execute` is split into the cascade of
tests, which picks a handler, and the call of it.
-/

namespace McuSimulator.Cpu

open McuSimulator.Memory

/-- The handlers that `execute` dispatches to. -/
inductive Format where
  | shiftImm | addSub | imm8 | alu | hiRegBx | ldrPc | ldrStrReg | ldrStrImm | ldrhStrhImm
  | ldrStrSp | addSpPc | spOps | hint | bkpt | pushPop | ldmStm | branchCond | branch | blUpper
  | blLower | undefined
  deriving DecidableEq, Repr

/-- The cascade of `execute`; src/cpu.cpp:110–139. -/
def decode (instr : BitVec 16) : Format :=
  let top5 : BitVec 5 := instr.extractLsb' 11 5
  let top4 : BitVec 4 := instr.extractLsb' 12 4
  let top6 : BitVec 6 := instr.extractLsb' 10 6
  if top5 ≤ 0x02 then .shiftImm
  else if top5 = 0x03 then .addSub
  else if 0x04 ≤ top5 ∧ top5 ≤ 0x07 then .imm8
  else if top6 = 0x10 then .alu
  else if top6 = 0x11 then .hiRegBx
  else if top5 = 0x09 then .ldrPc
  else if top4 = 0x5 ∧ instr.getLsbD 9 = false then .ldrStrReg
  else if top4 = 0x6 ∨ top4 = 0x7 then .ldrStrImm
  else if top4 = 0x8 then .ldrhStrhImm
  else if top4 = 0x9 then .ldrStrSp
  else if top4 = 0xA then .addSpPc
  else if top4 = 0xB then
    let top8 : BitVec 8 := instr.extractLsb' 8 8
    if top8 = 0xB0 then .spOps
    else if top8 = 0xBF then .hint
    else if top8 = 0xBE then .bkpt
    else .pushPop
  else if top4 = 0xC then .ldmStm
  else if top4 = 0xD ∧ (instr.extractLsb' 8 4 : BitVec 4) ≠ 0xF then .branchCond
  else if top5 = 0x1C then .branch
  else if top5 = 0x1E then .blUpper
  else if top5 = 0x1F then .blLower
  else .undefined

namespace CortexM0

/-- The calls of `execute`; src/cpu.cpp:107–140. Hints and BKPT do nothing. -/
def execute (s : CortexM0) (instr : BitVec 16) : Outcome Unit :=
  match decode instr with
  | .shiftImm => s.execShiftImm instr
  | .addSub => .ok () (s.execAddSub instr)
  | .imm8 => .ok () (s.execImm8 instr)
  | .alu => .ok () (s.execAlu instr)
  | .hiRegBx => .ok () (s.execHiRegBx instr)
  | .ldrPc => s.execLdrPc instr
  | .ldrStrReg => s.execLdrStrReg instr
  | .ldrStrImm => s.execLdrStrImm instr
  | .ldrhStrhImm => s.execLdrhStrhImm instr
  | .ldrStrSp => s.execLdrStrSp instr
  | .addSpPc => .ok () (s.execAddSpPc instr)
  | .spOps => .ok () (s.execSpOps instr)
  | .hint => .ok () s
  | .bkpt => .ok () s
  | .pushPop => s.execPushPop instr
  | .ldmStm => s.execLdmStm instr
  | .branchCond => .ok () (s.execBranchCond instr)
  | .branch => .ok () (s.execBranch instr)
  | .blUpper => .ok () (s.execBlUpper instr)
  | .blLower => .ok () (s.execBlLower instr)
  | .undefined => .error (.undefinedInstruction instr) s

/-- `fetch`; src/cpu.cpp:45–50. -/
def fetch (s : CortexM0) : Outcome (BitVec 16) :=
  s.bus (s.mem.read16 s.pc) fun instr ↦ .ok instr s.advancePc

/-- `step`: whether the CPU can go on; src/cpu.cpp:52–63. -/
def step (s : CortexM0) : Outcome Bool :=
  if s.halted then .ok false s
  else
    match s.fetch with
    | .error f s => .error f s
    | .ok instr s =>
      match s.execute instr with
      | .error f s => .error f s
      | .ok () s => .ok (!s.halted) { s with cycles := s.cycles + 1 }

/-- The loop of `run`, with the steps left and those made. The step that halts is not counted.
The count stays below the limit, so it does not wrap; src/cpu.cpp:67. -/
def runLoop : Nat → Nat → CortexM0 → Outcome Nat
  | 0, steps, s => .ok steps s
  | left + 1, steps, s =>
    match s.step with
    | .error f s => .error f s
    | .ok true s => runLoop left (steps + 1) s
    | .ok false s => .ok steps s

/-- `run`; src/cpu.cpp:65–69. -/
def run (s : CortexM0) (maxSteps : Nat) : Outcome Nat := runLoop maxSteps 0 s

end CortexM0

end McuSimulator.Cpu
