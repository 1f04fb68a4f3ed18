import McuSimulator.Cpu.BranchLink
import McuSimulator.Cpu.Compare
import McuSimulator.Cpu.Disassembler

/-!
# What the disassembler names

The text of an instruction in the disassembler's notation, against what is printed for an opcode
that stands for it. Both cascades of tests are decided by the leading byte, so they are compared on
that.
-/

namespace McuSimulator.Cpu

open McuSimulator.Base McuSimulator.Memory

/-! ### Texts of instructions -/

/-- The name of a shift. -/
def shiftName : ShiftKind → String
  | .left => "lsl"
  | .right => "lsr"
  | .arithmetic => "asr"
  | .rotate => "ror"

/-- The name of an operation. -/
def AluOp.name : AluOp → String
  | and => "and"
  | eor => "eor"
  | lsl => "lsl"
  | lsr => "lsr"
  | asr => "asr"
  | adc => "adc"
  | sbc => "sbc"
  | ror => "ror"
  | tst => "tst"
  | neg => "neg"
  | cmp => "cmp"
  | cmn => "cmn"
  | orr => "orr"
  | mul => "mul"
  | bic => "bic"
  | mvn => "mvn"

/-- An operand. -/
def Operand.text : Operand → String
  | reg r => fmtReg r.toNat
  | imm v => "#" ++ hexUpper v.toNat

/-- An address. -/
def Address.text : Address → String
  | imm rb off => "[" ++ fmtReg rb.toNat ++ ", #" ++ hexUpper off.toNat ++ "]"
  | reg rb ro => "[" ++ fmtReg rb.toNat ++ ", " ++ fmtReg ro.toNat ++ "]"
  | pc off => "[pc, #" ++ hexUpper off.toNat ++ "]"

/-- The letter that a load or a store has for its width. -/
def widthSuffix : Width → String
  | .byte => "b"
  | .half => "h"
  | .word => ""

/-- An instruction at address `pc`. -/
def Instruction.text (pc : BitVec 32) : Instruction → String
  | shift kind rd rm amount =>
    shiftName kind ++ " " ++ fmtReg rd.toNat ++ ", " ++ fmtReg rm.toNat ++ ", #" ++ hexUpper amount
  | addSub sub rd rn operand =>
    (if sub then "sub" else "add") ++ " " ++ fmtReg rd.toNat ++ ", " ++ fmtReg rn.toNat ++ ", " ++
      operand.text
  | mov rd imm => "mov" ++ " " ++ fmtReg rd.toNat ++ ", #" ++ hexUpper imm.toNat
  | cmp rd imm => "cmp" ++ " " ++ fmtReg rd.toNat ++ ", #" ++ hexUpper imm.toNat
  | accumulate sub rd imm =>
    (if sub then "sub" else "add") ++ " " ++ fmtReg rd.toNat ++ ", #" ++ hexUpper imm.toNat
  | alu op rd rm => op.name ++ " " ++ fmtReg rd.toNat ++ ", " ++ fmtReg rm.toNat
  | addHi rd rm => "add" ++ " " ++ fmtReg rd.toNat ++ ", " ++ fmtReg rm.toNat
  | cmpHi rd rm => "cmp" ++ " " ++ fmtReg rd.toNat ++ ", " ++ fmtReg rm.toNat
  | movHi rd rm => "mov" ++ " " ++ fmtReg rd.toNat ++ ", " ++ fmtReg rm.toNat
  | bx rm => "bx " ++ fmtReg rm.toNat
  | blx rm => "blx " ++ fmtReg rm.toNat
  | transfer load width rt address =>
    (if load then "ldr" else "str") ++ widthSuffix width ++ " " ++ fmtReg rt.toNat ++ ", " ++
      address.text
  | addSpPc sp rd imm =>
    "add " ++ fmtReg rd.toNat ++ (if sp then ", sp, #" else ", pc, #") ++ hexUpper imm.toNat
  | adjustSp sub imm => (if sub then "sub" else "add") ++ " sp, #" ++ hexUpper imm.toNat
  | nop => "nop"
  | push lr rlist => "push " ++ fmtReglist rlist ++ fmtExtra lr rlist "\x7blr\x7d"
  | pop pc rlist => "pop " ++ fmtReglist rlist ++ fmtExtra pc rlist "\x7bpc\x7d"
  | block load rb rlist =>
    (if load then "ldm" else "stm") ++ " " ++ fmtReg rb.toNat ++ "!, " ++ fmtReglist rlist
  | branchCond cond off =>
    "b" ++ condName cond.toNat ++ " 0x" ++ hexUpper (pc + 4 + BitVec.ofInt 32 off).toNat
  | branch off => "b 0x" ++ hexUpper (pc + 4 + BitVec.ofInt 32 off).toNat
  | blUpper field => "bl_h 0x" ++ hexUpper field.toNat
  | blLower field => "bl_l 0x" ++ hexUpper field.toNat
  | undefined opcode => "?? 0x" ++ toHex opcode

/-! ### The two cascades -/

/-- How the disassembler prints a format. -/
def Format.printed : Format → PrintFormat
  | shiftImm => .shiftImm
  | addSub => .addSub
  | imm8 => .imm8
  | alu => .alu
  | hiRegBx => .hiRegBx
  | ldrStrImm | ldrhStrhImm => .ldrStrImm
  | ldrStrSp => .ldrStrSp
  | spOps | hint | bkpt | pushPop => .pushPop
  | ldmStm => .ldmStm
  | branchCond => .branchCond
  | branch => .branch
  | blUpper => .blUpper
  | blLower => .blLower
  | ldrPc | ldrStrReg | addSpPc | undefined => .unknown

private theorem printFormat_leading (instr : BitVec 16) :
    printFormat (leading instr) = printFormat instr := by
  unfold printFormat
  rw [extractLsb'_leading instr 5 (by decide), extractLsb'_leading instr 4 (by decide),
    extractLsb'_leading instr 6 (by decide), extractLsb'_leading instr 8 (by decide),
    extractLsb'_leading instr 4 (by decide : 8 ≤ 8)]

/-- The two cascades, branch by branch. No opcode reaches the branch for ADD and SUB of SP. -/
theorem printFormat_eq (instr : BitVec 16) : printFormat instr = (decode instr).printed := by
  have hbyte := leading_forall (P := fun x ↦ printFormat x = (decode x).printed)
    (by decide +kernel) instr
  rwa [printFormat_leading, decode_leading] at hbyte

/-- The disassembler names what the opcode stands for. -/
def Named (pc : BitVec 32) (instr : BitVec 16) : Prop :=
  disassemble pc instr = (instruction instr).text pc

/-- The text for an opcode that is printed as unknown. -/
def unknownText (instr : BitVec 16) : String := "?? 0x" ++ toHex instr

section

variable (pc : BitVec 32) {instr : BitVec 16}

private theorem disassemble_of {f : Format} (h : decode instr = f) :
    disassemble pc instr = f.printed.print pc instr := by
  rw [disassemble, printFormat_eq, h]

private theorem named_iff {f : Format} (h : decode instr = f) :
    Named pc instr ↔ f.printed.print pc instr = (f.instruction instr).text pc := by
  rw [Named, disassemble_of pc h, instruction, h]

/-! ### Formats that are named -/

private theorem named_addSub (h : decode instr = .addSub) : Named pc instr := by
  have himm : ((instr.extractLsb' 6 3).setWidth 32 : BitVec 32).toNat =
      (instr.extractLsb' 6 3).toNat := BitVec.toNat_setWidth_of_le (by decide)
  rw [named_iff pc h]
  unfold Format.printed PrintFormat.print Format.instruction Instruction.text
  dsimp only
  cases instr.getLsbD 10 with
  | false => rfl
  | true =>
    simp only [if_true, Operand.text, himm]

private theorem named_imm8 (h : decode instr = .imm8) : Named pc instr := by
  rw [named_iff pc h]
  unfold Format.printed PrintFormat.print Format.instruction
  dsimp only
  rcases twoBits_cases (instr.extractLsb' 11 2) with hop | hop | hop | hop <;> rw [hop] <;> rfl

private theorem named_alu (h : decode instr = .alu) : Named pc instr := by
  rw [named_iff pc h]
  unfold Format.printed PrintFormat.print Format.instruction
  dsimp only
  rcases fourBits_cases (instr.extractLsb' 6 4) with hop | hop | hop | hop | hop | hop | hop | hop |
    hop | hop | hop | hop | hop | hop | hop | hop <;> rw [hop] <;> rfl

/-- A byte form is printed for the byte forms alone: halfwords are taken for words. -/
theorem isByte_iff (h : (decode instr).printed = .ldrStrImm) :
    instr.extractLsb' 12 4 = 0x7#4 ↔ decode instr = .ldrStrImm ∧ instr.getLsbD 12 = true := by
  have hbyte := leading_forall (P := fun x ↦ (decode x).printed = .ldrStrImm →
      (x.extractLsb' 12 4 = 0x7#4 ↔ decode x = .ldrStrImm ∧ x.getLsbD 12 = true))
    (by decide +kernel) instr
  rw [extractLsb'_leading instr 4 (by decide), getLsbD_leading instr (by decide),
    decode_leading] at hbyte
  exact hbyte h

private theorem named_ldrStrImm (h : decode instr = .ldrStrImm) : Named pc instr := by
  have hbyte := isByte_iff (congrArg Format.printed h)
  rw [named_iff pc h]
  unfold Format.printed PrintFormat.print Format.instruction
  dsimp only
  rw [← String.toList_inj]
  cases hb : instr.getLsbD 12 with
  | false =>
    have hword : ¬ instr.extractLsb' 12 4 = 0x7#4 := by
      rw [hbyte, hb]
      exact fun h0 ↦ Bool.false_ne_true h0.2
    simp [hword, Instruction.text, widthSuffix, Address.text]
  | true =>
    have hyes : instr.extractLsb' 12 4 = 0x7#4 := hbyte.mpr ⟨h, hb⟩
    simp [hyes, Instruction.text, widthSuffix, Address.text]

private theorem named_ldrStrSp (h : decode instr = .ldrStrSp) : Named pc instr := by
  rw [named_iff pc h, ← String.toList_inj]
  simp [Format.printed, PrintFormat.print, Format.instruction, Instruction.text, widthSuffix,
    Address.text, fmtReg, RegIndex.sp]

private theorem named_pushPop (h : decode instr = .pushPop) : Named pc instr := by
  rw [named_iff pc h, ← String.toList_inj]
  unfold Format.printed PrintFormat.print Format.instruction
  dsimp only
  cases instr.getLsbD 11 with
  | false => simp [Instruction.text, fmtExtra]
  | true => simp [Instruction.text, fmtExtra]

private theorem named_ldmStm (h : decode instr = .ldmStm) : Named pc instr := by
  rw [named_iff pc h]
  rfl

private theorem named_branchCond (h : decode instr = .branchCond) : Named pc instr := by
  rw [named_iff pc h]
  unfold Format.printed PrintFormat.print Format.instruction Instruction.text
  dsimp only
  rw [signExtend_shiftLeft_one]

private theorem named_branch (h : decode instr = .branch) : Named pc instr := by
  have hoff := sshiftRight_shiftLeft_setWidth (instr.extractLsb' 0 11) (show 20 ≤ 21 by decide)
  rw [named_iff pc h]
  exact congrArg (fun off ↦ "b 0x" ++ hexUpper (pc + 4 + off).toNat) hoff

private theorem named_blUpper (h : decode instr = .blUpper) : Named pc instr := by
  rw [named_iff pc h]
  rfl

private theorem named_blLower (h : decode instr = .blLower) : Named pc instr := by
  rw [named_iff pc h]
  rfl

/-! ### Formats that are not -/

/-- A shift by an immediate is named unless it is one to the right by 32, which is encoded and
printed as 0. -/
theorem named_shiftImm_iff (h : decode instr = .shiftImm) :
    Named pc instr ↔ ¬ (instr.extractLsb' 11 2 ≠ 0#2 ∧ instr.extractLsb' 6 5 = 0#5) := by
  have hamount : (instr.extractLsb' 6 5).toNat = rightAmount (instr.extractLsb' 6 5) ↔
      ¬ instr.extractLsb' 6 5 = 0#5 := by
    rw [rightAmount]
    split
    case isTrue hzero => simp [hzero]
    case isFalse hne => exact iff_of_true rfl hne
  rw [named_iff pc h]
  unfold Format.printed PrintFormat.print Format.instruction
  dsimp only
  rcases twoBits_cases (instr.extractLsb' 11 2) with hop | hop | hop | hop
  · rw [hop]
    exact iff_of_true rfl (fun h0 ↦ h0.1 rfl)
  · rw [hop]
    refine (String.append_right_inj _).trans (hexUpper_inj.trans (hamount.trans ?_))
    simp
  · rw [hop]
    refine (String.append_right_inj _).trans (hexUpper_inj.trans (hamount.trans ?_))
    simp
  · exact absurd hop (shiftOp_ne_three h)

/-- BLX is printed as BX. -/
theorem named_hiRegBx_iff (h : decode instr = .hiRegBx) :
    Named pc instr ↔ ¬ (instr.extractLsb' 8 2 = 3#2 ∧ instr.getLsbD 7 = true) := by
  rw [named_iff pc h]
  unfold Format.printed PrintFormat.print Format.instruction
  dsimp only
  rcases twoBits_cases (instr.extractLsb' 8 2) with hop | hop | hop | hop <;> rw [hop]
  · simp [Instruction.text]
  · simp [Instruction.text]
  · simp [Instruction.text]
  · cases instr.getLsbD 7 with
    | false => simp [Instruction.text]
    | true =>
      refine iff_of_false ?_ (by simp)
      intro heq
      have hchar := congrArg (fun t ↦ t.toList[1]?) heq
      simp [Instruction.text] at hchar

/-- LDRH and STRH are printed as LDR and STR. -/
theorem not_named_ldrhStrhImm (h : decode instr = .ldrhStrhImm) : ¬ Named pc instr := by
  have hword : ¬ instr.extractLsb' 12 4 = 0x7#4 := by
    rw [isByte_iff (congrArg Format.printed h), h]
    exact fun h0 ↦ Format.noConfusion h0.1
  rw [named_iff pc h]
  intro heq
  have hchar := congrArg (fun t ↦ t.toList[3]?) heq
  unfold Format.printed PrintFormat.print Format.instruction Instruction.text at hchar
  dsimp only at hchar
  revert hchar
  cases instr.getLsbD 11 with
  | false => simp [hword, widthSuffix]
  | true => simp [hword, widthSuffix]

/-- What is printed for a PUSH or a POP starts with a letter that few other texts start with. -/
theorem head_pushPop (instr : BitVec 16) :
    (PrintFormat.pushPop.print pc instr).toList[0]? = some 'p' := by
  unfold PrintFormat.print
  dsimp only
  cases instr.getLsbD 11 with
  | false => simp
  | true => simp

/-- ADD and SUB of SP are printed as PUSH. -/
theorem not_named_spOps (h : decode instr = .spOps) : ¬ Named pc instr := by
  rw [named_iff pc h]
  intro heq
  have hchar := head_pushPop pc instr
  rw [show PrintFormat.pushPop = Format.spOps.printed from rfl, heq] at hchar
  unfold Format.instruction Instruction.text at hchar
  dsimp only at hchar
  revert hchar
  cases instr.getLsbD 7 with
  | false => simp
  | true => simp

/-- The hints and BKPT are printed as PUSH and POP, not as what they are and not as unknown. -/
theorem misnamed_nop (hprinted : (decode instr).printed = .pushPop)
    (hnop : instruction instr = .nop) :
    ¬ (Named pc instr ∨ disassemble pc instr = unknownText instr) := by
  have hhead : (disassemble pc instr).toList[0]? = some 'p' := by
    rw [disassemble, printFormat_eq, hprinted, head_pushPop]
  rintro (heq | heq)
  · rw [heq, hnop] at hhead
    simp [Instruction.text] at hhead
  · rw [heq, unknownText] at hhead
    simp at hhead

/-- Every other opcode is printed as unknown. -/
theorem disassemble_unknown (h : (decode instr).printed = .unknown) :
    disassemble pc instr = unknownText instr := by
  rw [disassemble, printFormat_eq, h]
  rfl

end

/-! ### What is executed and what is printed -/

/-- The formats that the disassembler is to name. -/
def listedFormats : List Format :=
  [.shiftImm, .addSub, .imm8, .alu, .hiRegBx, .ldrStrImm, .ldrhStrhImm, .ldrStrSp, .spOps, .pushPop,
    .ldmStm]

/-- What the disassembler is to do for an opcode: name what it stands for or, outside of
`listedFormats`, print it as unknown. -/
def NamesWhatIsExecuted (pc : BitVec 32) (instr : BitVec 16) : Prop :=
  (decode instr ∈ listedFormats → Named pc instr) ∧
    (Named pc instr ∨ disassemble pc instr = unknownText instr)

/-- LDRH and STRH; ADD and SUB of SP, the hints and BKPT; BLX; LSR and ASR by 32. -/
def Misnamed (instr : BitVec 16) : Prop :=
  instr.extractLsb' 12 4 = 0x8#4 ∨
  instr.extractLsb' 8 8 ∈ [0xB0#8, 0xBE#8, 0xBF#8] ∨
  (instr.extractLsb' 8 8 = 0x47#8 ∧ instr.getLsbD 7 = true) ∨
  (instr.extractLsb' 11 5 ∈ [0x01#5, 0x02#5] ∧ instr.extractLsb' 6 5 = 0#5)

instance (instr : BitVec 16) : Decidable (Misnamed instr) := inferInstanceAs (Decidable (_ ∨ _))

/-- The leading bytes of what is misnamed, by format. -/
theorem misnamed_formats (instr : BitVec 16) :
    (instr.extractLsb' 12 4 = 0x8#4 ↔ decode instr = .ldrhStrhImm) ∧
    (instr.extractLsb' 8 8 ∈ [0xB0#8, 0xBE#8, 0xBF#8] ↔
      decode instr ∈ [.spOps, .bkpt, .hint]) ∧
    (instr.extractLsb' 8 8 = 0x47#8 ↔
      decode instr = .hiRegBx ∧ instr.extractLsb' 8 2 = 3#2) ∧
    (instr.extractLsb' 11 5 ∈ [0x01#5, 0x02#5] ↔
      decode instr = .shiftImm ∧ instr.extractLsb' 11 2 ≠ 0#2) := by
  have hbyte := leading_forall (P := fun x ↦
      (x.extractLsb' 12 4 = 0x8#4 ↔ decode x = .ldrhStrhImm) ∧
      (x.extractLsb' 8 8 ∈ [0xB0#8, 0xBE#8, 0xBF#8] ↔ decode x ∈ [.spOps, .bkpt, .hint]) ∧
      (x.extractLsb' 8 8 = 0x47#8 ↔ decode x = .hiRegBx ∧ x.extractLsb' 8 2 = 3#2) ∧
      (x.extractLsb' 11 5 ∈ [0x01#5, 0x02#5] ↔
        decode x = .shiftImm ∧ x.extractLsb' 11 2 ≠ 0#2))
    (by decide +kernel) instr
  rwa [extractLsb'_leading instr 4 (by decide), extractLsb'_leading instr 8 (by decide),
    extractLsb'_leading instr 2 (by decide : 8 ≤ 8), extractLsb'_leading instr 5 (by decide),
    extractLsb'_leading instr 2 (by decide : 8 ≤ 11), decode_leading] at hbyte

private theorem misnamed_iff (instr : BitVec 16) :
    Misnamed instr ↔ match decode instr with
      | .ldrhStrhImm | .spOps | .hint | .bkpt => True
      | .hiRegBx => instr.extractLsb' 8 2 = 3#2 ∧ instr.getLsbD 7 = true
      | .shiftImm => instr.extractLsb' 11 2 ≠ 0#2 ∧ instr.extractLsb' 6 5 = 0#5
      | _ => False := by
  obtain ⟨hhalf, hgroup, hblx, hshift⟩ := misnamed_formats instr
  rw [Misnamed, hhalf, hgroup, hblx, hshift]
  cases decode instr <;> simp

private theorem namesWhatIsExecuted_of_named {pc : BitVec 32} {instr : BitVec 16}
    (h : Named pc instr) :
    NamesWhatIsExecuted pc instr :=
  ⟨fun _ ↦ h, .inl h⟩

private theorem namesWhatIsExecuted_iff_named {pc : BitVec 32} {instr : BitVec 16}
    (h : decode instr ∈ listedFormats) : NamesWhatIsExecuted pc instr ↔ Named pc instr :=
  ⟨fun hn ↦ hn.1 h, namesWhatIsExecuted_of_named⟩

private theorem namesWhatIsExecuted_of_unknown {pc : BitVec 32} {instr : BitVec 16}
    (h : (decode instr).printed = .unknown) : NamesWhatIsExecuted pc instr := by
  refine ⟨fun hlisted ↦ ?_, .inr (disassemble_unknown pc h)⟩
  have hall : ∀ f ∈ listedFormats, f.printed ≠ .unknown := by decide
  exact absurd h (hall _ hlisted)

/-- An opcode is executed as the instruction that it stands for, and the disassembler names it
except where it is misnamed. -/
theorem disassemble_names_iff (pc : BitVec 32) (instr : BitVec 16) :
    (∀ s : CortexM0, s.execute instr = (instruction instr).run s) ∧
      (NamesWhatIsExecuted pc instr ↔ ¬ Misnamed instr) := by
  refine ⟨fun s ↦ execute_eq_run s instr, ?_⟩
  rw [misnamed_iff]
  cases hd : decode instr with
  | shiftImm =>
    exact (namesWhatIsExecuted_iff_named (by rw [hd]; decide)).trans (named_shiftImm_iff pc hd)
  | hiRegBx =>
    exact (namesWhatIsExecuted_iff_named (by rw [hd]; decide)).trans (named_hiRegBx_iff pc hd)
  | ldrhStrhImm =>
    exact iff_of_false (fun hn ↦ not_named_ldrhStrhImm pc hd (hn.1 (by rw [hd]; decide)))
      (fun hm ↦ hm trivial)
  | spOps =>
    exact iff_of_false (fun hn ↦ not_named_spOps pc hd (hn.1 (by rw [hd]; decide)))
      (fun hm ↦ hm trivial)
  | hint | bkpt =>
    have hprinted : (decode instr).printed = .pushPop := by rw [hd]; rfl
    have hnop : instruction instr = .nop := by rw [instruction, hd]; rfl
    exact iff_of_false (fun hn ↦ misnamed_nop pc hprinted hnop hn.2) (fun hm ↦ hm trivial)
  | ldrPc | ldrStrReg | addSpPc | undefined =>
    exact iff_of_true (namesWhatIsExecuted_of_unknown (by rw [hd]; rfl)) id
  | addSub => exact iff_of_true (namesWhatIsExecuted_of_named (named_addSub pc hd)) id
  | imm8 => exact iff_of_true (namesWhatIsExecuted_of_named (named_imm8 pc hd)) id
  | alu => exact iff_of_true (namesWhatIsExecuted_of_named (named_alu pc hd)) id
  | ldrStrImm => exact iff_of_true (namesWhatIsExecuted_of_named (named_ldrStrImm pc hd)) id
  | ldrStrSp => exact iff_of_true (namesWhatIsExecuted_of_named (named_ldrStrSp pc hd)) id
  | pushPop => exact iff_of_true (namesWhatIsExecuted_of_named (named_pushPop pc hd)) id
  | ldmStm => exact iff_of_true (namesWhatIsExecuted_of_named (named_ldmStm pc hd)) id
  | branchCond => exact iff_of_true (namesWhatIsExecuted_of_named (named_branchCond pc hd)) id
  | branch => exact iff_of_true (namesWhatIsExecuted_of_named (named_branch pc hd)) id
  | blUpper => exact iff_of_true (namesWhatIsExecuted_of_named (named_blUpper pc hd)) id
  | blLower => exact iff_of_true (namesWhatIsExecuted_of_named (named_blLower pc hd)) id

/-- 0xB082 takes 8 from SP and is printed as a PUSH of R1 and R7. -/
theorem not_disassemble_names :
    instruction 0xB082 = .adjustSp true 8 ∧
      disassemble 0 0xB082 = "push {r1,r7}" ∧ (instruction 0xB082).text 0 = "sub sp, #8" ∧
      ¬ ∀ pc instr, NamesWhatIsExecuted pc instr := by
  have hnot : ¬ Named 0 0xB082 := not_named_spOps 0 (by decide)
  exact ⟨by decide, by decide, by decide, fun h ↦ hnot ((h 0 0xB082).1 (by decide))⟩

/-! ### Targets of branches -/

/-- The unconditional branch. -/
def encodeJump (off : BitVec 11) : BitVec 16 := 0b11100#5 ++ off

/-- An offset field counts halfwords from the address of the instruction plus 4. -/
def fieldTarget {n : Nat} (pc : BitVec 32) (off : BitVec n) : BitVec 32 :=
  pc + 4 + BitVec.ofInt 32 (2 * off.toInt)

private theorem instruction_encodeBranch (cond : Cond) (off : BitVec 8) :
    instruction (encodeBranch cond off) = .branchCond cond.code (2 * off.toInt) := by
  obtain ⟨hcond, hoff⟩ := encodeBranch_fields cond off
  rw [instruction, decode_encodeBranch, Format.instruction, hcond, hoff]

private theorem decode_encodeJump (off : BitVec 11) : decode (encodeJump off) = .branch :=
  decode_append_field _ (by decide) off

private theorem instruction_encodeJump (off : BitVec 11) :
    instruction (encodeJump off) = .branch (2 * off.toInt) := by
  rw [instruction, decode_encodeJump, Format.instruction, encodeJump, field_append]

private theorem isEven_fieldTarget {pc : BitVec 32} (h : IsEven pc) {n : Nat} (off : BitVec n) :
    IsEven (fieldTarget pc off) := by
  have hfour : IsEven (pc + 4) := (isEven_add h).mpr (by decide)
  rw [fieldTarget, isEven_add hfour, isEven_iff, BitVec.toNat_ofInt]
  omega

private theorem branchTarget_eq {pc : BitVec 32} (h : IsEven pc) (off : BitVec 8) :
    branchTarget pc off = fieldTarget pc off := by
  rw [branchTarget, signExtend_shiftLeft_one]
  exact (isEven_fieldTarget h off).and_not_one

/-- B in one step: only PC changes. -/
theorem step_encodeJump {s : CortexM0} {off : BitVec 11} (hs : s.halted = false)
    (hread : s.mem.read16 s.pc = .ok (encodeJump off)) :
    s.step = .ok true { s.advancePc.setPc (fieldTarget s.pc off) with cycles := s.cycles + 1 } := by
  have hfour : s.pc + 2 + 2 = s.pc + 4 := BitVec.add_assoc ..
  have hrun : (instruction (encodeJump off)).run s.advancePc =
      .ok () (s.advancePc.setPc (fieldTarget s.pc off)) := by
    rw [instruction_encodeJump, Instruction.run, CortexM0.advancePc_pc, hfour]
    rfl
  exact CortexM0.step_of_run hs hread hrun hs

/-- What is printed before an address leaves no choice of the address. -/
theorem printed_target (mnemonic : String) (a b : BitVec 32) :
    mnemonic ++ hexUpper a.toNat = mnemonic ++ hexUpper b.toNat ↔ b = a := by
  rw [String.append_right_inj, hexUpper_inj, BitVec.toNat_inj, eq_comm]

/-- A branch that is taken goes to the target of its offset field, one that is not goes on behind
itself, and the disassembler prints the target and no other address. -/
theorem branch_targets {s : CortexM0} (hs : s.halted = false) (heven : IsEven s.pc) :
    (∀ (cond : Cond) (off : BitVec 8), s.mem.read16 s.pc = .ok (encodeBranch cond off) →
      ∃ t, s.step = .ok true t ∧
        (s.conditionPasses cond.code = true → t.pc = fieldTarget s.pc off) ∧
        (s.conditionPasses cond.code = false → t.pc = s.pc + 2) ∧
        ∀ a : BitVec 32, disassemble s.pc (encodeBranch cond off) =
          "b" ++ condName cond.code.toNat ++ " 0x" ++ hexUpper a.toNat ↔
            a = fieldTarget s.pc off) ∧
    ∀ off : BitVec 11, s.mem.read16 s.pc = .ok (encodeJump off) →
      ∃ t, s.step = .ok true t ∧ t.pc = fieldTarget s.pc off ∧
        ∀ a : BitVec 32, disassemble s.pc (encodeJump off) = "b 0x" ++ hexUpper a.toNat ↔
          a = fieldTarget s.pc off := by
  constructor
  · intro cond off hread
    have hnamed := named_branchCond s.pc (decode_encodeBranch cond off)
    rw [Named, instruction_encodeBranch] at hnamed
    have hstep := CortexM0.step_branch hs hread
    rw [branchTarget_eq heven] at hstep
    refine ⟨_, hstep, ?_, ?_, ?_⟩
    · intro h
      rw [if_pos h]
      exact s.setReg_self .pc _
    · intro h
      rw [if_neg (by simp [h])]
      exact s.setReg_self .pc _
    · intro a
      rw [hnamed]
      exact printed_target ..
  · intro off hread
    have hnamed := named_branch s.pc (decode_encodeJump off)
    rw [Named, instruction_encodeJump] at hnamed
    refine ⟨_, step_encodeJump hs hread, ?_, ?_⟩
    · exact (CortexM0.setPc_pc s.advancePc _).trans (isEven_fieldTarget heven off).and_not_one
    · intro a
      rw [hnamed]
      exact printed_target ..

/-- The code bytes of B to itself. -/
def jumpProgram : FlatMemoryBus := FlatMemoryBus.clear.memcpy 0 [0xFE, 0xE7]

/-- B to itself is printed with the address 0. -/
theorem branch_targets_self :
    ∃ t, (CortexM0.new jumpProgram).step = .ok true t ∧ t.pc = 0 ∧
      disassemble 0 (encodeJump 0x7FE) = "b 0x" ++ hexUpper (0 : BitVec 32).toNat := by
  obtain ⟨t, ht, hpc, hprint⟩ :=
    (branch_targets (s := CortexM0.new jumpProgram) rfl (by decide)).2 0x7FE (by rfl)
  exact ⟨t, ht, hpc.trans (by decide), (hprint 0).mpr (by decide)⟩

end McuSimulator.Cpu
