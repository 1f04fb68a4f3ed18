import McuSimulator.Cpu.Compare

/-!
# Arithmetic and its flags

The instructions that add or subtract and set the flags, in all their encodings, against exact
arithmetic: the carry is about the unsigned values, the overflow about the signed ones, and the
result is the exact value modulo `2 ^ 32`.
-/

namespace McuSimulator.Cpu

open McuSimulator.Memory

/-! ### The adder -/

private theorem toInt_not (b : BitVec 32) : (~~~b).toInt = -b.toInt - 1 := by
  have hb := b.isLt
  rw [BitVec.toInt_eq_toNat_cond, BitVec.toInt_eq_toNat_cond, BitVec.toNat_not]
  split <;> split <;> omega

/-- The value fits in 32 bits, with a sign. -/
def Fits (x : Int) : Prop := -2 ^ 31 ≤ x ∧ x < 2 ^ 31

instance (x : Int) : Decidable (Fits x) := inferInstanceAs (Decidable (_ ∧ _))

section

variable (a b : BitVec 32) (cin : Bool)

/-- The sum is the exact one modulo `2 ^ 32`. -/
theorem add32_fst_eq_ofInt :
    (CortexM0.add32 a b cin).1 = BitVec.ofInt 32 (a.toInt + b.toInt + cin.toInt) := by
  apply BitVec.eq_of_toNat_eq
  have ha := a.isLt
  have hb := b.isLt
  rw [CortexM0.add32_fst_toNat, BitVec.toNat_ofInt, BitVec.toInt_eq_toNat_cond,
    BitVec.toInt_eq_toNat_cond]
  cases cin with
  | false =>
    rw [Bool.toNat_false, Bool.toInt_false]
    split <;> split <;> omega
  | true =>
    rw [Bool.toNat_true, Bool.toInt_true]
    split <;> split <;> omega

/-- The overflow formula of an addition says that the exact signed sum does not fit. -/
theorem addOverflow_eq :
    addOverflow a b (CortexM0.add32 a b cin).1 =
      decide (¬ Fits (a.toInt + b.toInt + cin.toInt)) := by
  have ha := a.two_mul_toInt_lt
  have ha' := a.le_two_mul_toInt
  have hb := b.two_mul_toInt_lt
  have hb' := b.le_two_mul_toInt
  have hc : 0 ≤ cin.toInt ∧ cin.toInt ≤ 1 := by cases cin <;> decide
  rw [add32_fst_eq_ofInt, addOverflow, BitVec.getLsbD_and, BitVec.getLsbD_xor, BitVec.getLsbD_xor,
    ← BitVec.msb_eq_getLsbD_last a, ← BitVec.msb_eq_getLsbD_last b,
    ← BitVec.msb_eq_getLsbD_last (BitVec.ofInt 32 _), BitVec.msb_eq_toInt, BitVec.msb_eq_toInt,
    BitVec.msb_eq_toInt, BitVec.toInt_ofInt, Int.bmod_def, Bool.eq_iff_iff, decide_eq_true_iff,
    Fits]
  simp only [Bool.and_eq_true, bne_iff_ne, ne_eq, decide_eq_decide]
  split <;> omega

/-- The overflow formula of a subtraction is that of adding the complement. -/
theorem subOverflow_eq_addOverflow (res : BitVec 32) :
    subOverflow a b res = addOverflow a (~~~b) res := by
  rw [subOverflow, addOverflow, BitVec.getLsbD_and, BitVec.getLsbD_and, BitVec.getLsbD_xor,
    BitVec.getLsbD_xor, BitVec.getLsbD_xor, BitVec.getLsbD_not]
  cases a.getLsbD 31 <;> cases b.getLsbD 31 <;> cases res.getLsbD 31 <;> rfl

/-- The overflow formula of NEG is that of subtracting from zero. -/
theorem negOverflow_eq (res : BitVec 32) : (b &&& res).getLsbD 31 = subOverflow 0 b res := by
  show (b &&& res).getLsbD 31 = ((0#32 ^^^ b) &&& (0#32 ^^^ res)).getLsbD 31
  rw [BitVec.zero_xor, BitVec.zero_xor]

end

/-- The flags after adding `a`, `b` and a carry. -/
def addFlags (f : Apsr) (a b : BitVec 32) (cin : Bool) : Apsr :=
  { f with
    c := (CortexM0.add32 a b cin).2
    v := addOverflow a b (CortexM0.add32 a b cin).1 }.updateNz (CortexM0.add32 a b cin).1

/-! ### Instructions -/

/-- The instructions that add or subtract and set the flags. -/
inductive Arith where
  /-- Registers; `exec_add_sub`. -/
  | addReg (rd rn rm : BitVec 3)
  | subReg (rd rn rm : BitVec 3)
  /-- A three-bit immediate; `exec_add_sub`. -/
  | addImm3 (rd rn imm : BitVec 3)
  | subImm3 (rd rn imm : BitVec 3)
  /-- An eight-bit immediate; `exec_imm8`. -/
  | addImm8 (rd : BitVec 3) (imm : BitVec 8)
  | subImm8 (rd : BitVec 3) (imm : BitVec 8)
  | cmpImm8 (rn : BitVec 3) (imm : BitVec 8)
  /-- With the carry; `exec_alu_arith`. -/
  | adc (rd rm : BitVec 3)
  | sbc (rd rm : BitVec 3)
  /-- `exec_alu_arith`. -/
  | neg (rd rm : BitVec 3)
  | cmpReg (rn rm : BitVec 3)
  | cmn (rn rm : BitVec 3)
  /-- Any registers; `exec_hi_reg_bx`. -/
  | cmpHi (rn rm : RegIndex)
  deriving DecidableEq, Repr

/-- The encodings of `exec_add_sub`: immediate or register, SUB or ADD. -/
def encodeAddSub (imm sub : Bool) (rm rn rd : BitVec 3) : BitVec 16 :=
  0b00011#5 ++ (BitVec.ofBool imm ++ BitVec.ofBool sub ++ rm ++ rn ++ rd)

/-- The encodings of `exec_imm8`. -/
def encodeImm8 (op : BitVec 2) (rd : BitVec 3) (imm : BitVec 8) : BitVec 16 :=
  0b001#3 ++ op ++ rd ++ imm

/-- The encodings of `exec_alu`. -/
def encodeAlu (op : BitVec 4) (rm rd : BitVec 3) : BitVec 16 := 0b010000#6 ++ (op ++ rm ++ rd)

namespace Arith

/-- The instruction. -/
def encode : Arith → BitVec 16
  | addReg rd rn rm => encodeAddSub false false rm rn rd
  | subReg rd rn rm => encodeAddSub false true rm rn rd
  | addImm3 rd rn imm => encodeAddSub true false imm rn rd
  | subImm3 rd rn imm => encodeAddSub true true imm rn rd
  | cmpImm8 rn imm => encodeImm8 1 rn imm
  | addImm8 rd imm => encodeImm8 2 rd imm
  | subImm8 rd imm => encodeImm8 3 rd imm
  | adc rd rm => encodeAlu 0x5 rm rd
  | sbc rd rm => encodeAlu 0x6 rm rd
  | neg rd rm => encodeAlu 0x9 rm rd
  | cmpReg rn rm => encodeAlu 0xA rm rn
  | cmn rn rm => encodeAlu 0xB rm rn
  | cmpHi rn rm => (Cmp.hiReg rn rm).encode

/-- Whether it subtracts. -/
def subtracts : Arith → Bool
  | subReg _ _ _ | subImm3 _ _ _ | subImm8 _ _ | sbc _ _ | neg _ _ | cmpImm8 _ _ | cmpReg _ _
  | cmpHi _ _ => true
  | addReg _ _ _ | addImm3 _ _ _ | addImm8 _ _ | adc _ _ | cmn _ _ => false

/-- Where the result goes. -/
def dest : Arith → Option RegIndex
  | addReg rd _ _ | subReg rd _ _ | addImm3 rd _ _ | subImm3 rd _ _ | addImm8 rd _ | subImm8 rd _
  | adc rd _ | sbc rd _ | neg rd _ => some (rd.setWidth 4)
  | cmpImm8 _ _ | cmpReg _ _ | cmn _ _ | cmpHi _ _ => none

variable (s : CortexM0)

/-- The first operand. -/
def left : Arith → BitVec 32
  | addReg _ rn _ | subReg _ rn _ | addImm3 _ rn _ | subImm3 _ rn _ | addImm8 rn _ | subImm8 rn _
  | cmpImm8 rn _ | adc rn _ | sbc rn _ | cmpReg rn _ | cmn rn _ => s.regs (rn.setWidth 4)
  | neg _ _ => 0
  | cmpHi rn _ => s.regs rn

/-- The second operand. -/
def right : Arith → BitVec 32
  | addReg _ _ rm | subReg _ _ rm | adc _ rm | sbc _ rm | neg _ rm | cmpReg _ rm | cmn _ rm =>
    s.regs (rm.setWidth 4)
  | addImm3 _ _ imm | subImm3 _ _ imm => imm.setWidth 32
  | addImm8 _ imm | subImm8 _ imm | cmpImm8 _ imm => imm.setWidth 32
  | cmpHi _ rm => s.regs rm

/-- What an addition adds for the carry. -/
def carryIn : Arith → Int
  | adc _ _ => s.apsr.c.toInt
  | _ => 0

/-- What a subtraction takes away for the borrow. -/
def borrowIn : Arith → Int
  | sbc _ _ => (!s.apsr.c).toInt
  | _ => 0

/-- The exact sum or difference of the numbers that `num` reads the operands as. -/
def exact (num : BitVec 32 → Int) (i : Arith) : Int :=
  if i.subtracts then num (i.left s) - num (i.right s) - i.borrowIn s
  else num (i.left s) + num (i.right s) + i.carryIn s

/-- The exact value modulo `2 ^ 32`. -/
def result (i : Arith) : BitVec 32 := BitVec.ofInt 32 (i.exact s BitVec.toInt)

/-- The flags that describe the exact value: a carry of a sum out of 32 bits or no borrow of a
difference, and a signed value that does not fit. -/
def flags (i : Arith) : Apsr where
  n := decide ((i.result s).toInt < 0)
  z := decide (i.result s = 0)
  c := decide ((if i.subtracts then 0 else 2 ^ 32) ≤ i.exact s fun x ↦ x.toNat)
  v := decide (¬ Fits (i.exact s BitVec.toInt))

/-- The flags describe the exact value, and the result is written where it goes. -/
def after (i : Arith) : CortexM0 :=
  match i.dest with
  | some rd => (s.setApsr (i.flags s)).setReg rd (i.result s)
  | none => s.setApsr (i.flags s)

/-- What goes into the adder beside the first operand. -/
def addend (i : Arith) : BitVec 32 := if i.subtracts then ~~~i.right s else i.right s

/-- The carry that goes into the adder. -/
def carry : Arith → Bool
  | adc _ _ | sbc _ _ => s.apsr.c
  | i => i.subtracts

/-- What the handlers do: the flags of the adder, and its sum where the result goes. -/
def adder (i : Arith) : CortexM0 :=
  let t := s.setApsr (addFlags s.apsr (i.left s) (i.addend s) (i.carry s))
  match i.dest with
  | some rd => t.setReg rd (CortexM0.add32 (i.left s) (i.addend s) (i.carry s)).1
  | none => t

end Arith

/-! ### Handlers -/

section

variable (s : CortexM0)

private theorem execute_encodeAddSub (imm sub : Bool) (rm rn rd : BitVec 3) :
    s.execute (encodeAddSub imm sub rm rn rd) =
      .ok () (s.execAddSub (encodeAddSub imm sub rm rn rd)) := by
  have htop : (encodeAddSub imm sub rm rn rd).extractLsb' 11 5 = 0b00011#5 := by
    rw [encodeAddSub, BitVec.extractLsb'_append_eq_of_le (by decide), BitVec.extractLsb'_eq_self]
  have hdecode : decode (encodeAddSub imm sub rm rn rd) = .addSub := by
    unfold decode
    rw [htop]
    rfl
  unfold CortexM0.execute
  rw [hdecode]

private theorem encodeAddSub_fields (imm sub : Bool) (rm rn rd : BitVec 3) :
    (encodeAddSub imm sub rm rn rd).getLsbD 10 = imm ∧
    (encodeAddSub imm sub rm rn rd).getLsbD 9 = sub ∧
    (encodeAddSub imm sub rm rn rd).extractLsb' 6 3 = rm ∧
    (encodeAddSub imm sub rm rn rd).extractLsb' 3 3 = rn ∧
    (encodeAddSub imm sub rm rn rd).extractLsb' 0 3 = rd := by
  refine ⟨?_, ?_, ?_, ?_, ?_⟩
  · rw [encodeAddSub, BitVec.getLsbD_append, if_pos (by decide), BitVec.getLsbD_append,
      if_neg (by decide), BitVec.getLsbD_append, if_neg (by decide), BitVec.getLsbD_append,
      if_neg (by decide), BitVec.getLsbD_append, if_neg (by decide)]
    exact BitVec.getLsbD_ofBool imm 0
  · rw [encodeAddSub, BitVec.getLsbD_append, if_pos (by decide), BitVec.getLsbD_append,
      if_neg (by decide), BitVec.getLsbD_append, if_neg (by decide), BitVec.getLsbD_append,
      if_neg (by decide), BitVec.getLsbD_append, if_pos (by decide)]
    exact BitVec.getLsbD_ofBool sub 0
  · rw [encodeAddSub, BitVec.extractLsb'_append_eq_of_add_le (by decide),
      BitVec.extractLsb'_append_eq_of_le (by decide),
      BitVec.extractLsb'_append_eq_of_le (by decide),
      BitVec.extractLsb'_append_eq_of_add_le (by decide), BitVec.extractLsb'_eq_self]
  · rw [encodeAddSub, BitVec.extractLsb'_append_eq_of_add_le (by decide),
      BitVec.extractLsb'_append_eq_of_le (by decide),
      BitVec.extractLsb'_append_eq_of_add_le (by decide), BitVec.extractLsb'_eq_self]
  · rw [encodeAddSub, BitVec.extractLsb'_append_eq_of_add_le (by decide),
      BitVec.extractLsb'_append_eq_of_add_le (by decide), BitVec.extractLsb'_eq_self]

/-- `exec_add_sub` uses the adder. -/
theorem execAddSub_encodeAddSub (imm sub : Bool) (rm rn rd : BitVec 3) (a b : BitVec 32)
    (ha : s.regs (rn.setWidth 4) = a)
    (hb : (if imm then rm.setWidth 32 else s.regs (rm.setWidth 4)) = b) :
    s.execAddSub (encodeAddSub imm sub rm rn rd) =
      (s.setApsr (addFlags s.apsr a (if sub then ~~~b else b) sub)).setReg (rd.setWidth 4)
        (CortexM0.add32 a (if sub then ~~~b else b) sub).1 := by
  obtain ⟨himm, hsub, hrm, hrn, hrd⟩ := encodeAddSub_fields imm sub rm rn rd
  rw [CortexM0.execAddSub, himm, hsub, reg3, reg3, reg3, hrm, hrn, hrd, ha, hb]
  cases sub with
  | false => rfl
  | true =>
    simp only [if_true, subOverflow_eq_addOverflow]
    rfl

private theorem execute_encodeImm8 (op : BitVec 2) (rd : BitVec 3) (imm : BitVec 8) :
    s.execute (encodeImm8 op rd imm) = .ok () (s.execImm8 (encodeImm8 op rd imm)) := by
  have hdecode : decode (encodeImm8 op rd imm) = .imm8 := by
    rw [encodeImm8, decode_append]
    revert op rd
    decide
  unfold CortexM0.execute
  rw [hdecode]

private theorem encodeImm8_fields (op : BitVec 2) (rd : BitVec 3) (imm : BitVec 8) :
    (encodeImm8 op rd imm).extractLsb' 11 2 = op ∧
    (encodeImm8 op rd imm).extractLsb' 8 3 = rd ∧
    (encodeImm8 op rd imm).extractLsb' 0 8 = imm := by
  refine ⟨?_, ?_, ?_⟩
  · rw [encodeImm8, BitVec.extractLsb'_append_eq_of_le (by decide),
      BitVec.extractLsb'_append_eq_of_le (by decide),
      BitVec.extractLsb'_append_eq_of_add_le (by decide), BitVec.extractLsb'_eq_self]
  · rw [encodeImm8, BitVec.extractLsb'_append_eq_of_le (by decide),
      BitVec.extractLsb'_append_eq_of_add_le (by decide), BitVec.extractLsb'_eq_self]
  · rw [encodeImm8, BitVec.extractLsb'_append_eq_of_add_le (by decide),
      BitVec.extractLsb'_eq_self]

/-- The opcode of an ALU instruction is executed as one. -/
theorem execute_encodeAlu (op : BitVec 4) (rm rd : BitVec 3) :
    s.execute (encodeAlu op rm rd) = .ok () (s.execAlu (encodeAlu op rm rd)) := by
  have htop : (encodeAlu op rm rd).extractLsb' 10 6 = 0b010000#6 := by
    rw [encodeAlu, BitVec.extractLsb'_append_eq_of_le (by decide), BitVec.extractLsb'_eq_self]
  have htop5 : (encodeAlu op rm rd).extractLsb' 11 5 = 0b01000#5 := by
    rw [encodeAlu, BitVec.extractLsb'_append_eq_of_le (by decide)]
    rfl
  have hdecode : decode (encodeAlu op rm rd) = .alu := by
    unfold decode
    rw [htop5, htop]
    rfl
  unfold CortexM0.execute
  rw [hdecode]

/-- The fields of the opcode are those it was made of. -/
theorem encodeAlu_fields (op : BitVec 4) (rm rd : BitVec 3) :
    (encodeAlu op rm rd).extractLsb' 6 4 = op ∧
    (encodeAlu op rm rd).extractLsb' 3 3 = rm ∧
    (encodeAlu op rm rd).extractLsb' 0 3 = rd := by
  refine ⟨?_, ?_, ?_⟩
  · rw [encodeAlu, BitVec.extractLsb'_append_eq_of_add_le (by decide),
      BitVec.extractLsb'_append_eq_of_le (by decide),
      BitVec.extractLsb'_append_eq_of_le (by decide), BitVec.extractLsb'_eq_self]
  · rw [encodeAlu, BitVec.extractLsb'_append_eq_of_add_le (by decide),
      BitVec.extractLsb'_append_eq_of_le (by decide),
      BitVec.extractLsb'_append_eq_of_add_le (by decide), BitVec.extractLsb'_eq_self]
  · rw [encodeAlu, BitVec.extractLsb'_append_eq_of_add_le (by decide),
      BitVec.extractLsb'_append_eq_of_add_le (by decide), BitVec.extractLsb'_eq_self]

/-- `exec_alu` hands the arithmetic operations on. -/
theorem execAlu_encodeAlu {op : BitVec 4} (hop : op ∈ [0x5, 0x6, 0x9, 0xA, 0xB])
    (rm rd : BitVec 3) :
    s.execAlu (encodeAlu op rm rd) =
      s.execAluArith op (rd.setWidth 4) (s.regs (rd.setWidth 4)) (s.regs (rm.setWidth 4)) := by
  obtain ⟨hop', hrm, hrd⟩ := encodeAlu_fields op rm rd
  rw [CortexM0.execAlu, hop', reg3, reg3, hrm, hrd]
  simp only [List.mem_cons, List.not_mem_nil, or_false] at hop
  rcases hop with rfl | rfl | rfl | rfl | rfl <;> rfl

namespace Arith

/-- Every encoding comes down to the adder. -/
theorem execute_eq_adder (i : Arith) : s.execute i.encode = .ok () (i.adder s) := by
  cases i with
  | addReg rd rn rm =>
    rw [encode, execute_encodeAddSub, execAddSub_encodeAddSub s false false rm rn rd _ _ rfl rfl]
    rfl
  | subReg rd rn rm =>
    rw [encode, execute_encodeAddSub, execAddSub_encodeAddSub s false true rm rn rd _ _ rfl rfl]
    rfl
  | addImm3 rd rn imm =>
    rw [encode, execute_encodeAddSub, execAddSub_encodeAddSub s true false imm rn rd _ _ rfl rfl]
    rfl
  | subImm3 rd rn imm =>
    rw [encode, execute_encodeAddSub, execAddSub_encodeAddSub s true true imm rn rd _ _ rfl rfl]
    rfl
  | addImm8 rd imm =>
    obtain ⟨hop, hrd, himm⟩ := encodeImm8_fields 2 rd imm
    rw [encode, execute_encodeImm8, CortexM0.execImm8, hop, reg3, hrd, himm]
    rfl
  | subImm8 rd imm =>
    obtain ⟨hop, hrd, himm⟩ := encodeImm8_fields 3 rd imm
    rw [encode, execute_encodeImm8, CortexM0.execImm8, hop, reg3, hrd, himm]
    simp only [subOverflow_eq_addOverflow]
    rfl
  | cmpImm8 rn imm =>
    obtain ⟨hop, hrd, himm⟩ := encodeImm8_fields 1 rn imm
    rw [encode, execute_encodeImm8, CortexM0.execImm8, hop, reg3, hrd, himm]
    simp only [subOverflow_eq_addOverflow]
    rfl
  | adc rd rm =>
    rw [encode, execute_encodeAlu, execAlu_encodeAlu s (by decide)]
    rfl
  | sbc rd rm =>
    rw [encode, execute_encodeAlu, execAlu_encodeAlu s (by decide)]
    rfl
  | neg rd rm =>
    rw [encode, execute_encodeAlu, execAlu_encodeAlu s (by decide), adder, addFlags]
    simp only [addend, subtracts, if_true, ← subOverflow_eq_addOverflow, left, ← negOverflow_eq]
    rfl
  | cmpReg rn rm =>
    rw [encode, execute_encodeAlu, execAlu_encodeAlu s (by decide), adder, addFlags]
    simp only [addend, subtracts, if_true, ← subOverflow_eq_addOverflow]
    rfl
  | cmn rn rm =>
    rw [encode, execute_encodeAlu, execAlu_encodeAlu s (by decide)]
    rfl
  | cmpHi rn rm =>
    rw [encode, Cmp.execute_encode, compareFlags, subOverflow_eq_addOverflow]
    rfl

/-- The carry that goes in is what an addition adds, and is one less the borrow. -/
theorem exact_carry (i : Arith) :
    (i.carry s).toInt = if i.subtracts then 1 - i.borrowIn s else i.carryIn s := by
  cases i with
  | sbc rd rm =>
    show s.apsr.c.toInt = 1 - (!s.apsr.c).toInt
    cases s.apsr.c <;> rfl
  | _ => rfl

/-- The exact value in terms of what goes into the adder. -/
theorem exact_toInt (i : Arith) :
    i.exact s BitVec.toInt = (i.left s).toInt + (i.addend s).toInt + (i.carry s).toInt := by
  have hcarry := i.exact_carry s
  unfold exact addend
  split
  · rename_i h
    rw [toInt_not]
    rw [if_pos h] at hcarry
    omega
  · rename_i h
    rw [if_neg h] at hcarry
    omega

private theorem exact_toNat (i : Arith) :
    ((if i.subtracts then 0 else 2 ^ 32) ≤ i.exact s fun x ↦ x.toNat) ↔
      2 ^ 32 ≤ (i.left s).toNat + (i.addend s).toNat + (i.carry s).toNat := by
  have hcarry := i.exact_carry s
  have hright := (i.right s).isLt
  have hnat : (i.carry s).toInt = (i.carry s).toNat := by cases i.carry s <;> rfl
  unfold exact addend
  dsimp only
  split
  · rename_i h
    rw [BitVec.toNat_not]
    rw [if_pos h] at hcarry
    omega
  · rename_i h
    rw [if_neg h] at hcarry
    omega

private theorem adder_sum (i : Arith) :
    (CortexM0.add32 (i.left s) (i.addend s) (i.carry s)).1 = i.result s := by
  rw [add32_fst_eq_ofInt, result, exact_toInt]

private theorem adder_flags (i : Arith) :
    addFlags s.apsr (i.left s) (i.addend s) (i.carry s) = i.flags s := by
  rw [addFlags, addOverflow_eq, adder_sum, CortexM0.add32_snd, ← exact_toInt, flags,
    Apsr.updateNz]
  congr 1
  · rw [← BitVec.msb_eq_getLsbD_last (i.result s), BitVec.msb_eq_toInt]
  · rw [decide_eq_decide, exact_toNat]

/-- Every instruction that adds or subtracts and sets the flags gives the exact result modulo
`2 ^ 32` and the flags of the exact value. -/
theorem execute_eq_after (i : Arith) : s.execute i.encode = .ok () (i.after s) := by
  rw [execute_eq_adder, adder, after, adder_flags, adder_sum]

end Arith

end

end McuSimulator.Cpu
