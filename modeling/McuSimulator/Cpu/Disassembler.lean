import McuSimulator.Base.HexText
import McuSimulator.Cpu.Exec

/-!
# The disassembler

`ThumbDisassembler` of `src/trace.h`. Like `execute` it is split into the cascade of tests and what
is printed for each of its branches. Numbers are printed in hexadecimal, in upper case.
-/

namespace McuSimulator.Cpu

open McuSimulator.Base

/-! ### Names -/

/-- `fmt_reg`; src/trace.h:46–52. -/
def fmtReg (r : Nat) : String :=
  ["r0", "r1", "r2", "r3", "r4", "r5", "r6", "r7",
    "r8", "r9", "r10", "r11", "r12", "sp", "lr", "pc"].getD r "?"

/-- `fmt_reglist`, with its `first` flag; src/trace.h:54–65. -/
def fmtReglist (rlist : BitVec 8) : String :=
  ((List.range 8).foldl (fun (s, first) i ↦
    if rlist.getLsbD i then ((if !first then s ++ "," else s) ++ fmtReg i, false) else (s, first))
    ("\x7b", true)).1 ++ "\x7d"

/-- `cond_name`; src/trace.h:67–72. -/
def condName (c : Nat) : String :=
  ["eq", "ne", "cs", "cc", "mi", "pl", "vs", "vc", "hi", "ls", "ge", "lt", "gt", "le", "al",
    "nv"].getD c "??"

/-- The names of the ALU operations; src/trace.h:104–105. -/
def aluNames : List String :=
  ["and", "eor", "lsl", "lsr", "asr", "adc", "sbc", "ror",
    "tst", "neg", "cmp", "cmn", "orr", "mul", "bic", "mvn"]

/-! ### The cascade -/

/-- What `disassemble` and `fmt_memory_branch` tell apart. -/
inductive PrintFormat where
  | shiftImm | addSub | imm8 | alu | hiRegBx | pushPop | branchCond | branch | blUpper | blLower
  | ldrStrImm | ldrStrSp | ldmStm | spOps | unknown
  deriving DecidableEq, Repr

/-- The tests of `disassemble`, and from PUSH on those of `fmt_memory_branch`;
src/trace.h:86–116, 125–165. -/
def printFormat (instr : BitVec 16) : PrintFormat :=
  let top5 : BitVec 5 := instr.extractLsb' 11 5
  let top4 : BitVec 4 := instr.extractLsb' 12 4
  let top6 : BitVec 6 := instr.extractLsb' 10 6
  if top5 ≤ 0x02 then .shiftImm
  else if top5 = 0x03 then .addSub
  else if 0x04 ≤ top5 ∧ top5 ≤ 0x07 then .imm8
  else if top6 = 0x10 then .alu
  else if top6 = 0x11 then .hiRegBx
  else if top4 = 0xB then .pushPop
  else if top4 = 0xD ∧ (instr.extractLsb' 8 4 : BitVec 4) ≠ 0xF then .branchCond
  else if top5 = 0x1C then .branch
  else if top5 = 0x1E then .blUpper
  else if top5 = 0x1F then .blLower
  else if 0x6 ≤ top4 ∧ top4 ≤ 0x8 then .ldrStrImm
  else if top4 = 0x9 then .ldrStrSp
  else if top4 = 0xC then .ldmStm
  else if (instr.extractLsb' 8 8 : BitVec 8) = 0xB0 then .spOps
  else .unknown

/-! ### The text -/

/-- LR or PC behind the list of PUSH and POP; src/trace.h:128–129. -/
def fmtExtra (flag : Bool) (rlist : BitVec 8) (name : String) : String :=
  if flag then (if rlist ≠ 0 then "," else "") ++ name else ""

/-- What each branch of `disassemble` and `fmt_memory_branch` prints; src/trace.h:86–166. -/
def PrintFormat.print (format : PrintFormat) (pc : BitVec 32) (instr : BitVec 16) : String :=
  let imm8 : BitVec 32 := (instr.extractLsb' 0 8).setWidth 32
  let rlist : BitVec 8 := instr.extractLsb' 0 8
  let load := instr.getLsbD 11
  match format with
  | .shiftImm =>
    let op := (instr.extractLsb' 11 2).toNat
    ["lsl", "lsr", "asr"].getD op "lsl" ++ " " ++ fmtReg (reg3 instr 0).toNat ++ ", " ++
      fmtReg (reg3 instr 3).toNat ++ ", #" ++ hexUpper (instr.extractLsb' 6 5).toNat
  | .addSub =>
    (if instr.getLsbD 9 then "sub" else "add") ++ " " ++ fmtReg (reg3 instr 0).toNat ++ ", " ++
      fmtReg (reg3 instr 3).toNat ++ ", " ++
      if instr.getLsbD 10 then "#" ++ hexUpper (instr.extractLsb' 6 3).toNat
      else fmtReg (reg3 instr 6).toNat
  | .imm8 =>
    ["mov", "cmp", "add", "sub"].getD (instr.extractLsb' 11 2).toNat "" ++ " " ++
      fmtReg (reg3 instr 8).toNat ++ ", #" ++ hexUpper imm8.toNat
  | .alu =>
    aluNames.getD (instr.extractLsb' 6 4).toNat "" ++ " " ++ fmtReg (reg3 instr 0).toNat ++ ", " ++
      fmtReg (reg3 instr 3).toNat
  | .hiRegBx =>
    let op := (instr.extractLsb' 8 2).toNat
    if op = 3 then "bx " ++ fmtReg (hiSource instr).toNat
    else
      ["add", "cmp", "mov", "bx"].getD op "" ++ " " ++ fmtReg (hiDest instr).toNat ++ ", " ++
        fmtReg (hiSource instr).toNat
  | .pushPop =>
    (if load then "pop" else "push") ++ " " ++ fmtReglist rlist ++
      fmtExtra (!load && instr.getLsbD 8) rlist "\x7blr\x7d" ++
      fmtExtra (load && instr.getLsbD 8) rlist "\x7bpc\x7d"
  | .branchCond =>
    let off : BitVec 32 := (instr.extractLsb' 0 8).signExtend 32 <<< 1
    "b" ++ condName (instr.extractLsb' 8 4).toNat ++ " 0x" ++ hexUpper (pc + 4 + off).toNat
  | .branch =>
    let off := ((instr.extractLsb' 0 11).setWidth 32 <<< 21 : BitVec 32).sshiftRight 20
    "b 0x" ++ hexUpper (pc + 4 + off).toNat
  | .blUpper => "bl_h 0x" ++ hexUpper (instr.extractLsb' 0 11).toNat
  | .blLower => "bl_l 0x" ++ hexUpper (instr.extractLsb' 0 11).toNat
  | .ldrStrImm =>
    let byte := instr.extractLsb' 12 4 = 0x7#4
    let off5 : BitVec 32 := (instr.extractLsb' 6 5).setWidth 32
    (if load then "ldr" else "str") ++ (if byte then "b" else "") ++ " " ++
      fmtReg (reg3 instr 0).toNat ++ ", [" ++ fmtReg (reg3 instr 3).toNat ++ ", #" ++
      hexUpper (if byte then off5 else off5 <<< 2).toNat ++ "]"
  | .ldrStrSp =>
    (if load then "ldr" else "str") ++ " " ++ fmtReg (reg3 instr 8).toNat ++ ", [sp, #" ++
      hexUpper (imm8 <<< 2).toNat ++ "]"
  | .ldmStm =>
    (if load then "ldm" else "stm") ++ " " ++ fmtReg (reg3 instr 8).toNat ++ "!, " ++
      fmtReglist rlist
  | .spOps =>
    (if instr.getLsbD 7 then "sub" else "add") ++ " sp, #" ++
      hexUpper ((instr.extractLsb' 0 7).setWidth 32 <<< 2 : BitVec 32).toNat
  | .unknown => "?? 0x" ++ toHex instr

/-- `disassemble`; src/trace.h:77–168. -/
def disassemble (pc : BitVec 32) (instr : BitVec 16) : String :=
  (printFormat instr).print pc instr

end McuSimulator.Cpu
