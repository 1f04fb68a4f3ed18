import McuSimulator.Cpu.Frame

/-!
# Which opcodes are instructions

The instructions of the README's table, by the fixed leading bits of their encodings, against
what `execute` makes of every opcode. The bits that an encoding only asks to be zero are not
looked at.
-/

namespace McuSimulator.Cpu

open McuSimulator.Memory

/-! ### The table -/

/-- The supported encodings: the number of fixed leading bits and their value. An entry with a
field of operations all of which are listed stands for them all; README.md:126–143. -/
def supportedEncodings : List (Nat × Nat) := [
  -- LSL, LSR, ASR immediate; ADD, SUB of a register or an imm3
  (5, 0b00000), (5, 0b00001), (5, 0b00010), (5, 0b00011),
  -- MOV, CMP, ADD, SUB of an imm8
  (5, 0b00100), (5, 0b00101), (5, 0b00110), (5, 0b00111),
  -- the sixteen ALU operations
  (6, 0b010000),
  -- hi-register ADD, CMP, MOV; BX and BLX
  (8, 0b01000100), (8, 0b01000101), (8, 0b01000110), (8, 0b01000111),
  -- LDR literal; STR, STRB, LDR, LDRB register offset
  (5, 0b01001), (7, 0b0101000), (7, 0b0101010), (7, 0b0101100), (7, 0b0101110),
  -- STR, LDR, STRB, LDRB, STRH, LDRH immediate; STR, LDR SP-relative
  (5, 0b01100), (5, 0b01101), (5, 0b01110), (5, 0b01111), (5, 0b10000), (5, 0b10001),
  (5, 0b10010), (5, 0b10011),
  -- ADD Rd, PC and SP; ADD and SUB of SP; PUSH, POP; BKPT, hints
  (5, 0b10100), (5, 0b10101), (8, 0b10110000), (7, 0b1011010), (7, 0b1011110),
  (8, 0b10111110), (8, 0b10111111),
  -- STM, LDM
  (5, 0b11000), (5, 0b11001),
  -- B<cond>: EQ, NE, CS, CC, MI, PL, VS, VC, HI, LS, GE, LT, GT, LE
  (8, 0b11010000), (8, 0b11010001), (8, 0b11010010), (8, 0b11010011), (8, 0b11010100),
  (8, 0b11010101), (8, 0b11010110), (8, 0b11010111), (8, 0b11011000), (8, 0b11011001),
  (8, 0b11011010), (8, 0b11011011), (8, 0b11011100), (8, 0b11011101),
  -- B; the two halves of BL
  (5, 0b11100), (5, 0b11110), (5, 0b11111)]

/-- The opcode is an encoding of a supported instruction. -/
def Supported (instr : BitVec 16) : Prop :=
  ∃ e ∈ supportedEncodings, instr.toNat >>> (16 - e.1) = e.2

instance (instr : BitVec 16) : Decidable (Supported instr) :=
  inferInstanceAs (Decidable (∃ e ∈ supportedEncodings, _))

/-- The leading bytes of unsupported opcodes that `execute` takes for PUSH, POP or a branch. -/
def misdecodedBytes : List Nat := [0xB1, 0xB2, 0xB3, 0xB6, 0xB7, 0xB8, 0xB9, 0xBA, 0xBB, 0xDE]

/-- The leading bytes of the other unsupported opcodes. -/
def rejectedBytes : List Nat := [0x52, 0x53, 0x56, 0x57, 0x5A, 0x5B, 0x5E, 0x5F, 0xDF,
  0xE8, 0xE9, 0xEA, 0xEB, 0xEC, 0xED, 0xEE, 0xEF]

/-! ### The leading byte decides -/

/-- The leading byte, the others bits cleared. -/
def leading (instr : BitVec 16) : BitVec 16 := BitVec.ofNat 16 (256 * (instr.toNat >>> 8))

private theorem toNat_leading (instr : BitVec 16) :
    (leading instr).toNat = (instr.toNat >>> 8) <<< 8 := by
  have hlt := instr.isLt
  rw [leading, BitVec.toNat_ofNat, Nat.shiftRight_eq_div_pow, Nat.shiftLeft_eq]
  omega

/-- A field of the leading byte. -/
theorem extractLsb'_leading (instr : BitVec 16) {lo : Nat} (n : Nat) (h : 8 ≤ lo) :
    (leading instr).extractLsb' lo n = instr.extractLsb' lo n := by
  obtain ⟨k, rfl⟩ := Nat.exists_eq_add_of_le h
  apply BitVec.eq_of_toNat_eq
  rw [BitVec.extractLsb'_toNat, BitVec.extractLsb'_toNat, toNat_leading, Nat.shiftRight_add,
    Nat.shiftRight_add, Nat.shiftLeft_shiftRight]

/-- The leading byte has the upper bits of the opcode. -/
theorem getLsbD_leading (instr : BitVec 16) {i : Nat} (h : 8 ≤ i) :
    (leading instr).getLsbD i = instr.getLsbD i := by
  have hbit := congrArg (BitVec.getLsbD · 0) (extractLsb'_leading instr 1 h)
  simpa using hbit

/-- The format depends on the leading byte only. -/
theorem decode_leading (instr : BitVec 16) : decode (leading instr) = decode instr := by
  unfold decode
  rw [extractLsb'_leading instr 5 (by decide), extractLsb'_leading instr 4 (by decide),
    extractLsb'_leading instr 6 (by decide), extractLsb'_leading instr 8 (by decide),
    extractLsb'_leading instr 4 (by decide : 8 ≤ 8), getLsbD_leading instr (by decide)]

/-- The format of a leading byte. -/
theorem decode_of_leadingByte {instr : BitVec 16} {b : Nat} (h : instr.toNat >>> 8 = b) :
    decode instr = decode (BitVec.ofNat 16 (256 * b)) := by
  rw [← decode_leading, leading, h]

private theorem leadingByte_lt (instr : BitVec 16) : instr.toNat >>> 8 < 256 := by
  have hlt := instr.isLt
  rw [Nat.shiftRight_eq_div_pow]
  omega

/-- What holds of the 256 leading bytes holds of that of every opcode. -/
theorem leading_forall {P : BitVec 16 → Prop}
    (hall : ∀ b : Fin 256, P (BitVec.ofNat 16 (256 * b.val))) (instr : BitVec 16) :
    P (leading instr) :=
  hall ⟨_, leadingByte_lt instr⟩

/-- What holds of the leading bytes of a format holds of all its opcodes. -/
theorem leadingByte_of_decode {f : Format} {P : Nat → Prop}
    (hall : ∀ b : Fin 256, decode (BitVec.ofNat 16 (256 * b.val)) = f → P b.val)
    {instr : BitVec 16} (h : decode instr = f) : P (instr.toNat >>> 8) :=
  hall ⟨_, leadingByte_lt instr⟩ ((decode_leading instr).trans h)

/-- Every leading byte is a supported one or on one of the two lists. -/
theorem byte_of_unsupported {instr : BitVec 16} (h : ¬ Supported instr) :
    instr.toNat >>> 8 ∈ misdecodedBytes ∨ instr.toNat >>> 8 ∈ rejectedBytes := by
  have hall : ∀ b : Fin 256, (∃ e ∈ supportedEncodings, b.val >>> (8 - e.1) = e.2) ∨
      b.val ∈ misdecodedBytes ∨ b.val ∈ rejectedBytes := by
    decide +kernel
  have hwidth : ∀ e ∈ supportedEncodings, 16 - e.1 = 8 + (8 - e.1) := by decide
  rcases hall ⟨_, leadingByte_lt instr⟩ with ⟨e, he, hv⟩ | hb
  · refine absurd ⟨e, he, ?_⟩ h
    rw [hwidth e he, Nat.shiftRight_add]
    exact hv
  · exact hb

private theorem decode_misdecoded {instr : BitVec 16} (h : instr.toNat >>> 8 ∈ misdecodedBytes) :
    decode instr = .pushPop ∨ decode instr = .branchCond := by
  have hall : ∀ b ∈ misdecodedBytes, decode (BitVec.ofNat 16 (256 * b)) = .pushPop ∨
      decode (BitVec.ofNat 16 (256 * b)) = .branchCond := by
    decide
  rw [← decode_leading]
  exact hall _ h

private theorem decode_rejected {instr : BitVec 16} (h : instr.toNat >>> 8 ∈ rejectedBytes) :
    decode instr = .undefined := by
  have hall : ∀ b ∈ rejectedBytes, decode (BitVec.ofNat 16 (256 * b)) = .undefined := by
    decide
  rw [← decode_leading]
  exact hall _ h

/-! ### PUSH and POP do not reject -/

/-- The call does not end in an undefined instruction. -/
def Accepts {α : Type} (o : Outcome α) : Prop := ∀ op t, o ≠ .error (.undefinedInstruction op) t

private theorem accepts_ok {α : Type} (a : α) (s : CortexM0) : Accepts (.ok a s : Outcome α) := by
  intro op t h
  cases h

private theorem accepts_bus {α β : Type} {s : CortexM0} {access : Except BusFault α}
    {k : α → Outcome β} (h : ∀ v, Accepts (k v)) : Accepts (s.bus access k) := by
  cases access with
  | ok v => exact h v
  | error f =>
    intro op t he
    cases he

namespace CortexM0

private theorem pushReg_accepts {s : CortexM0} (r : RegIndex) {k : CortexM0 → Outcome Unit}
    (h : ∀ t, Accepts (k t)) : Accepts (s.pushReg r k) :=
  accepts_bus fun _ ↦ h _

private theorem pushRegs_accepts (rlist : BitVec 8) (is : List Nat) (s : CortexM0) :
    Accepts (pushRegs rlist is s) := by
  induction is generalizing s with
  | nil => exact accepts_ok () s
  | cons i is ih =>
    rw [pushRegs]
    split
    · exact pushReg_accepts _ ih
    · exact ih s

private theorem popRegs_accepts (rlist : BitVec 8) (is : List Nat) (s : CortexM0) :
    Accepts (popRegs rlist is s) := by
  induction is generalizing s with
  | nil => exact accepts_ok () s
  | cons i is ih =>
    rw [popRegs]
    split
    · exact accepts_bus fun v ↦ ih _
    · exact ih s

private theorem execPushPop_accepts (s : CortexM0) (instr : BitVec 16) :
    Accepts (s.execPushPop instr) := by
  unfold execPushPop
  dsimp only
  split
  · split
    · exact pushReg_accepts _ (pushRegs_accepts _ _)
    · exact pushRegs_accepts _ _ _
  · have hloop := popRegs_accepts (instr.extractLsb' 0 8) (List.range 8) s
    split
    case h_1 f t he =>
      rw [he] at hloop
      intro op u hf
      cases hf
      exact hloop op t rfl
    case h_2 t he =>
      split
      · exact accepts_bus fun v ↦ accepts_ok () _
      · exact accepts_ok () t

/-- An unsupported opcode is rejected, in the state that it finds, unless its leading byte is
one of those that `execute` takes for PUSH, POP or a branch. -/
theorem execute_unsupported_iff (s : CortexM0) {instr : BitVec 16} (h : ¬ Supported instr) :
    s.execute instr = .error (.undefinedInstruction instr) s ↔
      instr.toNat >>> 8 ∉ misdecodedBytes := by
  constructor
  · intro he hm
    unfold execute at he
    rcases decode_misdecoded hm with hd | hd
    · rw [hd] at he
      exact execPushPop_accepts s instr instr s he
    · rw [hd] at he
      cases he
  · intro hm
    have hd := decode_rejected ((byte_of_unsupported h).resolve_left hm)
    unfold execute
    rw [hd]

/-- STRH with a register offset is rejected. -/
theorem execute_unsupported_iff_strh :
    ¬ Supported 0x5200 ∧
      (new .clear).execute 0x5200 = .error (.undefinedInstruction 0x5200) (new .clear) :=
  ⟨by decide +kernel, (execute_unsupported_iff _ (by decide +kernel)).mpr (by decide +kernel)⟩

/-- CBZ is executed as PUSH of LR, UDF as a branch that is always taken. -/
theorem unsupported_executed :
    ¬ Supported 0xB100 ∧ (endState ((new .clear).execute 0xB100)).sp = 0x1FFC ∧
    ¬ Supported 0xDE02 ∧ (endState ((new .clear).execute 0xDE02)).pc = 6 ∧
    ¬ ∀ (s : CortexM0) (instr : BitVec 16), ¬ Supported instr →
      s.execute instr = .error (.undefinedInstruction instr) s := by
  refine ⟨by decide +kernel, by decide +kernel, by decide +kernel, by decide +kernel, ?_⟩
  intro h
  have hudf := congrArg endState (h (new .clear) 0xDE02 (by decide +kernel))
  have hpc : (endState ((new .clear).execute 0xDE02)).pc = 6 := by decide +kernel
  rw [hudf] at hpc
  exact absurd hpc (by decide +kernel)

end CortexM0

end McuSimulator.Cpu
