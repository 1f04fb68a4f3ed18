import McuSimulator.Cpu.Encoding
import McuSimulator.Cpu.Run

/-!
# Compare and branch

The flags of a subtraction in terms of the numbers, and B<cond> after the three CMP encodings:
the branch is taken when the relation that the condition names holds between the operands.
-/

namespace McuSimulator.Cpu

open McuSimulator.Memory

/-! ### Subtraction -/

private theorem add32_toNat (a b : BitVec 32) (cin : Bool) :
    (a.setWidth 64 + b.setWidth 64 + if cin then 1 else 0 : BitVec 64).toNat =
      a.toNat + b.toNat + cin.toNat := by
  have ha := a.isLt
  have hb := b.isLt
  cases cin with
  | false =>
    simp only [BitVec.toNat_add, BitVec.toNat_setWidth, Bool.false_eq_true, if_false,
      show (0 : BitVec 64).toNat = 0 from rfl, Bool.toNat_false]
    omega
  | true =>
    simp only [BitVec.toNat_add, BitVec.toNat_setWidth, if_true,
      show (1 : BitVec 64).toNat = 1 from rfl, Bool.toNat_true]
    omega

namespace CortexM0

/-- The sum is the one of the numbers, modulo two to the power of 32. -/
theorem add32_fst_toNat (a b : BitVec 32) (cin : Bool) :
    (add32 a b cin).1.toNat = (a.toNat + b.toNat + cin.toNat) % 2 ^ 32 := by
  rw [add32, BitVec.toNat_setWidth, add32_toNat]

/-- The carry says that the sum does not fit. -/
theorem add32_snd (a b : BitVec 32) (cin : Bool) :
    (add32 a b cin).2 = decide (2 ^ 32 ≤ a.toNat + b.toNat + cin.toNat) := by
  rw [add32]
  dsimp only
  rw [decide_eq_decide, ne_eq, ← BitVec.toNat_inj, BitVec.toNat_ushiftRight, add32_toNat,
    Nat.shiftRight_eq_div_pow, show (0 : BitVec 64).toNat = 0 from rfl]
  omega

/-- The difference is the one of the words. -/
theorem sub32_fst (a b : BitVec 32) : (sub32 a b).1 = a - b := by
  apply BitVec.eq_of_toNat_eq
  have ha := a.isLt
  have hb := b.isLt
  rw [sub32, add32_fst_toNat, BitVec.toNat_not, BitVec.toNat_sub, Bool.toNat_true]
  omega

/-- The carry of a subtraction says that there is no borrow. -/
theorem sub32_snd (a b : BitVec 32) : (sub32 a b).2 = decide (b.toNat ≤ a.toNat) := by
  have hb := b.isLt
  rw [sub32, add32_snd, BitVec.toNat_not, Bool.toNat_true, decide_eq_decide]
  omega

end CortexM0

/-- The overflow formula says that the exact signed difference does not fit. -/
theorem subOverflow_eq (a b : BitVec 32) : subOverflow a b (a - b) = a.ssubOverflow b := by
  rw [BitVec.ssubOverflow_eq, subOverflow, BitVec.getLsbD_and, BitVec.getLsbD_xor,
    BitVec.getLsbD_xor, ← BitVec.msb_eq_getLsbD_last a, ← BitVec.msb_eq_getLsbD_last b,
    ← BitVec.msb_eq_getLsbD_last (a - b)]
  cases a.msb <;> cases b.msb <;> cases (a - b).msb <;> rfl

/-- Sign and overflow of a difference together decide the signed order. -/
theorem msb_ne_ssubOverflow (a b : BitVec 32) :
    (a - b).msb ≠ a.ssubOverflow b ↔ a.toInt < b.toInt := by
  have ha := a.two_mul_toInt_lt
  have ha' := a.le_two_mul_toInt
  have hb := b.two_mul_toInt_lt
  have hb' := b.le_two_mul_toInt
  have hd : (a - b).toInt = (a.toInt - b.toInt).bmod (2 ^ 32) := BitVec.toInt_sub
  rw [Int.bmod_def] at hd
  rw [BitVec.msb_eq_toInt, BitVec.ssubOverflow, ne_eq, Bool.eq_iff_iff]
  simp only [decide_eq_true_eq, Bool.or_eq_true, ge_iff_le, Nat.add_one_sub_one]
  split at hd <;> omega

/-- The exact signed difference does not fit in 32 bits. -/
theorem ssubOverflow_iff (a b : BitVec 32) :
    a.ssubOverflow b = true ↔
      ¬ (-2 ^ 31 ≤ a.toInt - b.toInt ∧ a.toInt - b.toInt < 2 ^ 31) := by
  rw [BitVec.ssubOverflow]
  simp only [Bool.or_eq_true, decide_eq_true_eq, ge_iff_le, Nat.add_one_sub_one]
  omega

/-! ### Conditions -/

/-- The conditions of B<cond>; src/cpu.cpp:87–100. -/
inductive Cond where
  | eq | ne | cs | cc | mi | pl | vs | vc | hi | ls | ge | lt | gt | le
  deriving DecidableEq, Repr

namespace Cond

/-- The field of the instruction that holds a condition. -/
def code : Cond → BitVec 4
  | eq => 0x0
  | ne => 0x1
  | cs => 0x2
  | cc => 0x3
  | mi => 0x4
  | pl => 0x5
  | vs => 0x6
  | vc => 0x7
  | hi => 0x8
  | ls => 0x9
  | ge => 0xA
  | lt => 0xB
  | gt => 0xC
  | le => 0xD

/-- The relation that a condition names after a comparison of `a` with `b`. -/
def Holds (a b : BitVec 32) : Cond → Prop
  | eq => a = b
  | ne => a ≠ b
  | cs => b.toNat ≤ a.toNat
  | cc => a.toNat < b.toNat
  | mi => (a - b).getLsbD 31 = true
  | pl => (a - b).getLsbD 31 = false
  | vs => ¬ (-2 ^ 31 ≤ a.toInt - b.toInt ∧ a.toInt - b.toInt < 2 ^ 31)
  | vc => -2 ^ 31 ≤ a.toInt - b.toInt ∧ a.toInt - b.toInt < 2 ^ 31
  | hi => b.toNat < a.toNat
  | ls => a.toNat ≤ b.toNat
  | ge => b.toInt ≤ a.toInt
  | lt => a.toInt < b.toInt
  | gt => b.toInt < a.toInt
  | le => a.toInt ≤ b.toInt

end Cond

/-- The flags after comparing `a` with `b`. -/
def compareFlags (f : Apsr) (a b : BitVec 32) : Apsr :=
  { f with
    c := (CortexM0.sub32 a b).2
    v := subOverflow a b (CortexM0.sub32 a b).1 }.updateNz (CortexM0.sub32 a b).1

section

variable (f : Apsr) (a b : BitVec 32)

private theorem compareFlags_n : (compareFlags f a b).n = (a - b).msb := by
  rw [compareFlags, Apsr.updateNz, CortexM0.sub32_fst, BitVec.msb_eq_getLsbD_last]

private theorem compareFlags_z : (compareFlags f a b).z = decide (a = b) := by
  rw [compareFlags, Apsr.updateNz, CortexM0.sub32_fst, decide_eq_decide,
    BitVec.sub_eq_iff_eq_add]
  simp

private theorem compareFlags_c : (compareFlags f a b).c = decide (b.toNat ≤ a.toNat) := by
  rw [compareFlags, Apsr.updateNz, CortexM0.sub32_snd]

private theorem compareFlags_v : (compareFlags f a b).v = a.ssubOverflow b := by
  rw [compareFlags, Apsr.updateNz, CortexM0.sub32_fst, subOverflow_eq]

/-- The carry and the zero flag together decide the unsigned order. -/
theorem compareFlags_higher :
    ((compareFlags f a b).c && !(compareFlags f a b).z) = decide (b.toNat < a.toNat) := by
  rw [compareFlags_c, compareFlags_z, Bool.eq_iff_iff]
  simp only [Bool.and_eq_true, Bool.not_eq_true', decide_eq_true_eq, decide_eq_false_iff_not,
    ← BitVec.toNat_inj]
  omega

private theorem compareFlags_less :
    ((compareFlags f a b).n != (compareFlags f a b).v) = decide (a.toInt < b.toInt) := by
  rw [compareFlags_n, compareFlags_v, Bool.eq_iff_iff, bne_iff_ne, msb_ne_ssubOverflow,
    decide_eq_true_eq]

private theorem compareFlags_notLess :
    ((compareFlags f a b).n == (compareFlags f a b).v) = decide (b.toInt ≤ a.toInt) := by
  rw [compareFlags_n, compareFlags_v, Bool.eq_iff_iff, beq_iff_eq, ← not_iff_not, ← ne_eq,
    msb_ne_ssubOverflow, decide_eq_true_eq, Int.not_le]

/-- `condition_passes` after a comparison. -/
theorem conditionPasses_compareFlags (s : CortexM0) (cond : Cond) :
    (s.setApsr (compareFlags f a b)).conditionPasses cond.code = true ↔ cond.Holds a b := by
  have hz := compareFlags_z f a b
  have hless := compareFlags_less f a b
  have hnotLess := compareFlags_notLess f a b
  have hhigher := compareFlags_higher f a b
  cases cond with
  | eq =>
    show (compareFlags f a b).z = true ↔ a = b
    rw [hz, decide_eq_true_eq]
  | ne =>
    show (!(compareFlags f a b).z) = true ↔ a ≠ b
    rw [hz, Bool.not_eq_true', decide_eq_false_iff_not]
  | cs =>
    show (compareFlags f a b).c = true ↔ b.toNat ≤ a.toNat
    rw [compareFlags_c, decide_eq_true_eq]
  | cc =>
    show (!(compareFlags f a b).c) = true ↔ a.toNat < b.toNat
    rw [compareFlags_c, Bool.not_eq_true', decide_eq_false_iff_not, Nat.not_le]
  | mi =>
    show (compareFlags f a b).n = true ↔ (a - b).getLsbD 31 = true
    rw [compareFlags_n, BitVec.msb_eq_getLsbD_last]
  | pl =>
    show (!(compareFlags f a b).n) = true ↔ (a - b).getLsbD 31 = false
    rw [compareFlags_n, BitVec.msb_eq_getLsbD_last, Bool.not_eq_true']
  | vs =>
    show (compareFlags f a b).v = true ↔ _
    rw [compareFlags_v, ssubOverflow_iff, Cond.Holds]
  | vc =>
    show (!(compareFlags f a b).v) = true ↔ _
    rw [compareFlags_v, Bool.not_eq_true', ← Bool.not_eq_true, ssubOverflow_iff, not_not,
      Cond.Holds]
  | hi =>
    show ((compareFlags f a b).c && !(compareFlags f a b).z) = true ↔ b.toNat < a.toNat
    rw [hhigher, decide_eq_true_eq]
  | ls =>
    show (!(compareFlags f a b).c || (compareFlags f a b).z) = true ↔ a.toNat ≤ b.toNat
    have hnot : (!(compareFlags f a b).c || (compareFlags f a b).z) =
        !((compareFlags f a b).c && !(compareFlags f a b).z) := by simp
    rw [hnot, hhigher, Bool.not_eq_true', decide_eq_false_iff_not, Nat.not_lt]
  | ge =>
    show ((compareFlags f a b).n == (compareFlags f a b).v) = true ↔ b.toInt ≤ a.toInt
    rw [hnotLess, decide_eq_true_eq]
  | lt =>
    show ((compareFlags f a b).n != (compareFlags f a b).v) = true ↔ a.toInt < b.toInt
    rw [hless, decide_eq_true_eq]
  | gt =>
    show (!(compareFlags f a b).z && (compareFlags f a b).n == (compareFlags f a b).v) = true ↔
      b.toInt < a.toInt
    rw [hz, hnotLess]
    simp only [Bool.and_eq_true, Bool.not_eq_true', decide_eq_false_iff_not, decide_eq_true_eq,
      ← BitVec.toInt_inj]
    omega
  | le =>
    show ((compareFlags f a b).z || (compareFlags f a b).n != (compareFlags f a b).v) = true ↔
      a.toInt ≤ b.toInt
    rw [hz, hless]
    simp only [Bool.or_eq_true, decide_eq_true_eq, ← BitVec.toInt_inj]
    omega

end

/-! ### Instructions -/

/-- The trailing byte does not matter for the format. -/
theorem decode_append (hi lo : BitVec 8) : decode (hi ++ lo) = decode (hi ++ 0#8) := by
  have hbyte (x : BitVec 8) : (hi ++ x).toNat >>> 8 = hi.toNat := by
    have hx := x.isLt
    rw [BitVec.toNat_append, ← Nat.shiftLeft_add_eq_or_of_lt hx, Nat.shiftLeft_eq,
      Nat.shiftRight_eq_div_pow]
    omega
  rw [← decode_leading, ← decode_leading (hi ++ 0#8), leading, leading, hbyte, hbyte]

/-- The encodings of CMP. -/
inductive Cmp where
  /-- A low register with an immediate; `exec_imm8`. -/
  | imm8 (rn : BitVec 3) (imm : BitVec 8)
  /-- Two low registers; `exec_alu`. -/
  | alu (rn rm : BitVec 3)
  /-- Any two registers; `exec_hi_reg_bx`. -/
  | hiReg (rn rm : RegIndex)
  deriving DecidableEq, Repr

namespace Cmp

/-- The instruction. -/
def encode : Cmp → BitVec 16
  | imm8 rn imm => 0b00101#5 ++ rn ++ imm
  | alu rn rm => 0b01000010#8 ++ (0b10#2 ++ rm ++ rn)
  | hiReg rn rm => 0b01000101#8 ++ (rn.extractLsb' 3 1 ++ rm ++ rn.extractLsb' 0 3)

/-- Neither operand is PC. -/
def AvoidsPc : Cmp → Prop
  | imm8 _ _ => True
  | alu _ _ => True
  | hiReg rn rm => rn ≠ .pc ∧ rm ≠ .pc

/-- The value that is compared. -/
def left (s : CortexM0) : Cmp → BitVec 32
  | imm8 rn _ => s.regs (rn.setWidth 4)
  | alu rn _ => s.regs (rn.setWidth 4)
  | hiReg rn _ => s.regs rn

/-- The value that it is compared with. -/
def right (s : CortexM0) : Cmp → BitVec 32
  | imm8 _ imm => imm.setWidth 32
  | alu _ rm => s.regs (rm.setWidth 4)
  | hiReg _ rm => s.regs rm

variable (s : CortexM0)

private theorem execute_imm8 (rn : BitVec 3) (imm : BitVec 8) :
    s.execute (imm8 rn imm).encode =
      .ok () (s.setApsr (compareFlags s.apsr (left s (imm8 rn imm)) (right s (imm8 rn imm)))) := by
  have hdecode : decode (imm8 rn imm).encode = .imm8 := by
    rw [encode, decode_append]
    revert rn
    decide
  have hop : (imm8 rn imm).encode.extractLsb' 11 2 = 1 := by
    rw [encode, BitVec.extractLsb'_append_eq_of_le (by decide),
      BitVec.extractLsb'_append_eq_of_le (by decide)]
    rfl
  have hrn : reg3 (imm8 rn imm).encode 8 = rn.setWidth 4 := by
    rw [reg3, encode, BitVec.extractLsb'_append_eq_of_le (by decide),
      BitVec.extractLsb'_append_eq_of_add_le (by decide), BitVec.extractLsb'_eq_self]
  have himm : (imm8 rn imm).encode.extractLsb' 0 8 = imm := by
    rw [encode, BitVec.extractLsb'_append_eq_of_add_le (by decide), BitVec.extractLsb'_eq_self]
  unfold CortexM0.execute
  rw [hdecode]
  dsimp only
  rw [CortexM0.execImm8, hop, hrn, himm]
  rfl

private theorem execute_alu (rn rm : BitVec 3) :
    s.execute (alu rn rm).encode =
      .ok () (s.setApsr (compareFlags s.apsr (left s (alu rn rm)) (right s (alu rn rm)))) := by
  have hdecode : decode (alu rn rm).encode = .alu := by
    rw [encode, decode_append]
    decide
  have hop : (alu rn rm).encode.extractLsb' 6 4 = 0xA := by
    revert rn rm
    decide
  have hrn : reg3 (alu rn rm).encode 0 = rn.setWidth 4 := by
    rw [reg3, encode, BitVec.extractLsb'_append_eq_of_add_le (by decide),
      BitVec.extractLsb'_append_eq_of_add_le (by decide), BitVec.extractLsb'_eq_self]
  have hrm : reg3 (alu rn rm).encode 3 = rm.setWidth 4 := by
    rw [reg3, encode, BitVec.extractLsb'_append_eq_of_add_le (by decide),
      BitVec.extractLsb'_append_eq_of_le (by decide),
      BitVec.extractLsb'_append_eq_of_add_le (by decide), BitVec.extractLsb'_eq_self]
  unfold CortexM0.execute
  rw [hdecode]
  dsimp only
  rw [CortexM0.execAlu, hop, hrn, hrm]
  rfl

private theorem execute_hiReg (rn rm : RegIndex) :
    s.execute (hiReg rn rm).encode =
      .ok () (s.setApsr (compareFlags s.apsr (left s (hiReg rn rm)) (right s (hiReg rn rm)))) := by
  have hdecode : decode (hiReg rn rm).encode = .hiRegBx := by
    rw [encode, decode_append]
    decide
  have hop : (hiReg rn rm).encode.extractLsb' 8 2 = 1 := by
    rw [encode, BitVec.extractLsb'_append_eq_of_le (by decide)]
    rfl
  have hrn : hiDest (hiReg rn rm).encode = rn := by
    rw [hiDest, encode, BitVec.extractLsb'_append_eq_of_add_le (by decide),
      BitVec.extractLsb'_append_eq_of_le (by decide),
      BitVec.extractLsb'_append_eq_of_le (by decide), BitVec.extractLsb'_eq_self,
      BitVec.extractLsb'_append_eq_of_add_le (by decide),
      BitVec.extractLsb'_append_eq_of_add_le (by decide), BitVec.extractLsb'_eq_self]
    exact BitVec.extractLsb'_append_extractLsb'
  have hrm : hiSource (hiReg rn rm).encode = rm := by
    rw [hiSource, encode, BitVec.extractLsb'_append_eq_of_add_le (by decide),
      BitVec.extractLsb'_append_eq_of_le (by decide),
      BitVec.extractLsb'_append_eq_of_add_le (by decide), BitVec.extractLsb'_eq_self]
  unfold CortexM0.execute
  rw [hdecode]
  dsimp only
  rw [CortexM0.execHiRegBx, hop, hrn, hrm]
  rfl

/-- The three handlers of CMP do the same: they set the flags and nothing else. -/
theorem execute_encode (c : Cmp) :
    s.execute c.encode = .ok () (s.setApsr (compareFlags s.apsr (c.left s) (c.right s))) := by
  cases c with
  | imm8 rn imm => exact execute_imm8 s rn imm
  | alu rn rm => exact execute_alu s rn rm
  | hiReg rn rm => exact execute_hiReg s rn rm

end Cmp

/-- The instruction B<cond>. -/
def encodeBranch (cond : Cond) (off : BitVec 8) : BitVec 16 := 0xD#4 ++ cond.code ++ off

/-- The target of B<cond>, from the address of the instruction. -/
def branchTarget (pc : BitVec 32) (off : BitVec 8) : BitVec 32 :=
  (pc + 4 + off.signExtend 32 <<< 1) &&& ~~~1

/-- The opcode is one of a conditional branch. -/
theorem decode_encodeBranch (cond : Cond) (off : BitVec 8) :
    decode (encodeBranch cond off) = .branchCond := by
  rw [encodeBranch, decode_append]
  cases cond <;> decide

/-- The fields of the opcode are those it was made of. -/
theorem encodeBranch_fields (cond : Cond) (off : BitVec 8) :
    (encodeBranch cond off).extractLsb' 8 4 = cond.code ∧
      (encodeBranch cond off).extractLsb' 0 8 = off := by
  constructor
  · rw [encodeBranch, BitVec.extractLsb'_append_eq_of_le (by decide),
      BitVec.extractLsb'_append_eq_of_add_le (by decide), BitVec.extractLsb'_eq_self]
  · rw [encodeBranch, BitVec.extractLsb'_append_eq_of_add_le (by decide),
      BitVec.extractLsb'_eq_self]

/-- A conditional branch goes to its target if its condition passes, and to the next instruction
otherwise. -/
theorem execute_encodeBranch (s : CortexM0) (cond : Cond) (off : BitVec 8) :
    s.advancePc.execute (encodeBranch cond off) =
      .ok () (s.setReg .pc
        (if s.conditionPasses cond.code then branchTarget s.pc off else s.pc + 2)) := by
  obtain ⟨hcond, hoff⟩ := encodeBranch_fields cond off
  have hfour : s.pc + 2 + (2 : Nat) = s.pc + (4 : Nat) := BitVec.add_assoc s.pc 2 2
  unfold CortexM0.execute
  rw [decode_encodeBranch]
  dsimp only
  rw [CortexM0.execBranchCond, hcond, hoff, CortexM0.advancePc_pc, hfour]
  show EStateM.Result.ok () (if s.conditionPasses cond.code then _ else _) = _
  split
  · rw [CortexM0.setPc, CortexM0.advancePc, CortexM0.setReg_setReg]
    rfl
  · rfl

/-- Register operands other than PC are not touched by `fetch`. -/
theorem Cmp.operands_advancePc {c : Cmp} (h : c.AvoidsPc) (s : CortexM0) :
    c.left s.advancePc = c.left s ∧ c.right s.advancePc = c.right s := by
  have hlow (r : BitVec 3) : s.advancePc.regs (r.setWidth 4) = s.regs (r.setWidth 4) := by
    apply Function.update_of_ne
    revert r
    decide
  have hhi {r : RegIndex} (hr : r ≠ .pc) : s.advancePc.regs r = s.regs r :=
    Function.update_of_ne hr _ _
  cases c with
  | imm8 rn imm => exact ⟨hlow rn, rfl⟩
  | alu rn rm => exact ⟨hlow rn, hlow rm⟩
  | hiReg rn rm => exact ⟨hhi h.1, hhi h.2⟩

namespace CortexM0

/-- CMP in one step: the flags are set and PC moves on. -/
theorem step_compare {s : CortexM0} {c : Cmp} (hc : c.AvoidsPc) (hs : s.halted = false)
    (hread : s.mem.read16 s.pc = .ok c.encode) :
    s.step = .ok true { s.advancePc.setApsr (compareFlags s.apsr (c.left s) (c.right s)) with
      cycles := s.cycles + 1 } := by
  rw [step_eq_ok hs]
  obtain ⟨hleft, hright⟩ := c.operands_advancePc hc s
  refine ⟨c.encode, _, hread, c.execute_encode s.advancePc, ?_, ?_⟩
  · rw [hleft, hright]
    rfl
  · show true = !s.halted
    rw [hs]
    rfl

/-- B<cond> in one step: only PC changes. -/
theorem step_branch {s : CortexM0} {cond : Cond} {off : BitVec 8} (hs : s.halted = false)
    (hread : s.mem.read16 s.pc = .ok (encodeBranch cond off)) :
    s.step = .ok true { s.setReg .pc
        (if s.conditionPasses cond.code then branchTarget s.pc off else s.pc + 2) with
      cycles := s.cycles + 1 } := by
  rw [step_eq_ok hs]
  refine ⟨encodeBranch cond off, _, hread, execute_encodeBranch s cond off, rfl, ?_⟩
  show true = !s.halted
  rw [hs]
  rfl

/-- A comparison and the branch after it: the branch is taken when the relation holds, and no
register but PC changes. -/
theorem compare_and_branch (s : CortexM0) (c : Cmp) (hc : c.AvoidsPc) (cond : Cond)
    (off : BitVec 8) (hs : s.halted = false) (hcmp : s.mem.read16 s.pc = .ok c.encode)
    (hbranch : s.mem.read16 (s.pc + 2) = .ok (encodeBranch cond off)) :
    ∃ t u, s.step = .ok true t ∧ t.step = .ok true u ∧
      (cond.Holds (c.left s) (c.right s) → u.pc = branchTarget (s.pc + 2) off) ∧
      (¬ cond.Holds (c.left s) (c.right s) → u.pc = s.pc + 4) ∧
      (∀ r, r ≠ .pc → u.regs r = s.regs r) ∧ u.mem = s.mem := by
  have hflags := conditionPasses_compareFlags s.apsr (c.left s) (c.right s) s.advancePc cond
  set t : CortexM0 := { s.advancePc.setApsr (compareFlags s.apsr (c.left s) (c.right s)) with
    cycles := s.cycles + 1 } with ht
  have htpc : t.pc = s.pc + 2 := CortexM0.advancePc_pc s
  have hstep : t.step = .ok true _ :=
    step_branch hs (show t.mem.read16 t.pc = _ by rw [htpc]; exact hbranch)
  have htarget : (t.setReg .pc (if t.conditionPasses cond.code then branchTarget t.pc off
      else t.pc + 2)).pc = if t.conditionPasses cond.code then branchTarget (s.pc + 2) off
      else s.pc + 4 := by
    rw [htpc, BitVec.add_assoc s.pc 2 2]
    exact setReg_self ..
  refine ⟨t, _, step_compare hc hs hcmp, hstep, ?_, ?_, ?_, rfl⟩
  · intro h
    exact htarget.trans (if_pos (hflags.mpr h))
  · intro h
    exact htarget.trans (if_neg fun hp ↦ h (hflags.mp hp))
  · intro r hr
    exact (Function.update_of_ne hr _ _).trans (Function.update_of_ne hr _ _)

/-- The code bytes of `CMP R0, #1` and `BLT` to address 8. -/
def compareProgram : FlatMemoryBus := FlatMemoryBus.clear.memcpy 0 [0x01, 0x28, 0x01, 0xDB]

/-- The least number is less than one, though the subtraction overflows. -/
theorem compare_and_branch_blt :
    ∃ t u, ((new compareProgram).setReg 0 0x80000000).step = .ok true t ∧
      t.step = .ok true u ∧ u.pc = 8 := by
  obtain ⟨t, u, ht, hu, htaken, -⟩ :=
    compare_and_branch ((new compareProgram).setReg 0 0x80000000) (.imm8 0 1) trivial .lt 1 rfl
      (by rfl) (by rfl)
  have hless : (0x80000000 : BitVec 32).toInt < (1 : BitVec 32).toInt := by decide
  exact ⟨t, u, ht, hu, htaken hless⟩

end CortexM0

end McuSimulator.Cpu
