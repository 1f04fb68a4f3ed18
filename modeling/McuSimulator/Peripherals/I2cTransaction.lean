import McuSimulator.Peripherals.I2cStatus

/-!
# Transaction words of the I2C peripheral

A word written to the control register acknowledges, stores and reads back as its fields say,
with two exceptions: a write without a stop is acknowledged whatever the slave, and a write with a
stop stores nothing, for its register field overlaps the start and the stop bit and names no
register of the sensor.
-/

namespace McuSimulator.Peripherals

open Base (and_twoPow_ne_zero)
open Memory (Byte)

namespace I2c

/-- The word is a write with data to the sensor. -/
def IsStore (w : BitVec 32) : Prop :=
  w &&& crStart ≠ 0 ∧ w &&& crRead = 0 ∧ w &&& crStop ≠ 0 ∧ slaveOf w = Lm75.defaultAddr

/-- The word is a write without a stop to a slave that is not there. -/
def IsPartialElsewhere (w : BitVec 32) : Prop :=
  w &&& crStart ≠ 0 ∧ w &&& crRead = 0 ∧ w &&& crStop = 0 ∧ slaveOf w ≠ Lm75.defaultAddr

/-- The word that reads the register in `REG_ADDR` from the sensor. -/
def readWord : BitVec 32 := Lm75.defaultAddr.setWidth 32 ||| crRead ||| crStart

/-- A read from the sensor gives the two bytes of the value, most significant first. -/
def ReadsBack (s : I2c) (val : BitVec 16) : Prop :=
  ((s.writeReg regCr readWord).readReg regDr).2 = ((val >>> 8).setWidth 8).setWidth 32 ∧
  (((s.writeReg regCr readWord).readReg regDr).1.readReg regDr).2 =
    (val.setWidth 8).setWidth 32

/-- What a word written to the control register promises: the acknowledge tells whether the slave
is there, data that is acknowledged is read back, and without a start nothing changes. -/
structure Contract (s : I2c) (w : BitVec 32) : Prop where
  ackOk : w &&& crStart ≠ 0 →
    ((s.writeReg regCr w).sr &&& srAckOk ≠ 0 ↔ slaveOf w = Lm75.defaultAddr)
  nack : w &&& crStart ≠ 0 →
    ((s.writeReg regCr w).sr &&& srNack ≠ 0 ↔ slaveOf w ≠ Lm75.defaultAddr)
  stored : IsStore w → (s.writeReg regCr w).ReadsBack (dataOf w)
  idle : w &&& crStart = 0 → s.writeReg regCr w = s

/-! ### The register field -/

/-- The stop bit lies in the register field, so a write with a stop names no register of the
sensor. -/
theorem three_lt_regOf {w : BitVec 32} (h : w &&& crStop ≠ 0) : 3 < regOf w := by
  have hbit : w.getLsbD 10 = true := (and_twoPow_ne_zero w (by decide)).mp h
  have hfield : (regOf w).getLsbD 2 = true := by
    unfold regOf
    simpa using hbit
  rw [BitVec.lt_def]
  exact Nat.ge_two_pow_of_testBit hfield

/-! ### One word -/

section Word

variable {s : I2c} {w : BitVec 32}

/-- A write to `CR` starts a transaction. -/
theorem writeReg_cr (s : I2c) (w : BitVec 32) : s.writeReg regCr w = s.writeCr w := if_pos rfl

private theorem writeReg_idle (h : w &&& crStart = 0) : s.writeReg regCr w = s := by
  rw [writeReg_cr, writeCr]
  exact if_pos h

private theorem dispatchWrite_snd (s : I2c) (slave reg a b : Byte) :
    (s.dispatchWrite slave reg [a, b]).2 = decide (slave = Lm75.defaultAddr) := by
  unfold dispatchWrite
  split
  case isTrue h => exact (decide_eq_false h).symm
  case isFalse h =>
    rw [if_neg (show ¬ [a, b].length < 2 from Nat.lt_irrefl 2)]
    exact (decide_eq_true (not_not.mp h)).symm

/-- The status behind a transaction. -/
theorem sr_writeReg (hstart : w &&& crStart ≠ 0) : (s.writeReg regCr w).sr =
    if w &&& crRead ≠ 0 then
      if slaveOf w = Lm75.defaultAddr then srAckOk ||| srRxReady else srNack
    else if w &&& crStop ≠ 0 then
      if slaveOf w = Lm75.defaultAddr then srAckOk else srNack
    else srAckOk := by
  rw [writeReg_cr, writeCr]
  dsimp only
  rw [if_neg hstart]
  split
  case isTrue =>
    rw [dispatchRead_eq]
    split <;> rfl
  case isFalse =>
    split
    case isTrue =>
      dsimp only
      rw [dispatchWrite_snd]
      by_cases hslave : slaveOf w = Lm75.defaultAddr
      · rw [if_pos (decide_eq_true hslave), if_pos hslave]
      · rw [if_neg (by rwa [decide_eq_true_eq]), if_neg hslave]
    case isFalse => rfl

/-- The acknowledge tells whether the slave is there, except behind a write without a stop. -/
theorem status_iff (hstart : w &&& crStart ≠ 0) :
    (((s.writeReg regCr w).sr &&& srAckOk ≠ 0 ↔ slaveOf w = Lm75.defaultAddr) ∧
      ((s.writeReg regCr w).sr &&& srNack ≠ 0 ↔ slaveOf w ≠ Lm75.defaultAddr)) ↔
      ¬ IsPartialElsewhere w := by
  unfold IsPartialElsewhere
  rw [sr_writeReg hstart]
  by_cases hslave : slaveOf w = Lm75.defaultAddr
  · rw [if_pos hslave, if_pos hslave]
    refine iff_of_true ?_ fun h ↦ h.2.2.2 hslave
    split_ifs <;> simp [hslave] <;> decide
  · rw [if_neg hslave, if_neg hslave]
    by_cases hread : w &&& crRead = 0
    · rw [if_neg (not_not_intro hread)]
      by_cases hstop : w &&& crStop = 0
      · rw [if_neg (not_not_intro hstop)]
        refine iff_of_false (fun h ↦ hslave (h.1.mp (by decide))) ?_
        exact not_not_intro ⟨hstart, hread, hstop, hslave⟩
      · rw [if_pos hstop]
        refine iff_of_true ?_ fun h ↦ hstop h.2.2.1
        simp [hslave]
        decide
    · rw [if_pos hread]
      refine iff_of_true ?_ fun h ↦ hread h.2.1
      simp [hslave]
      decide

/-- A halfword is its two bytes. -/
theorem halfword_ext_iff {x y : BitVec 16} : x = y ↔
    (x >>> 8).setWidth 8 = (y >>> 8).setWidth 8 ∧ x.setWidth 8 = y.setWidth 8 := by
  refine ⟨fun h ↦ h ▸ ⟨rfl, rfl⟩, fun ⟨hhigh, hlow⟩ ↦ BitVec.eq_of_toNat_eq ?_⟩
  have hx := x.isLt
  have hy := y.isLt
  have hhigh' := congrArg BitVec.toNat hhigh
  have hlow' := congrArg BitVec.toNat hlow
  rw [BitVec.toNat_setWidth, BitVec.toNat_setWidth, BitVec.toNat_ushiftRight,
    BitVec.toNat_ushiftRight, Nat.shiftRight_eq_div_pow, Nat.shiftRight_eq_div_pow] at hhigh'
  rw [BitVec.toNat_setWidth, BitVec.toNat_setWidth] at hlow'
  omega

/-- What is read back is the register of the sensor that `REG_ADDR` names. -/
theorem readsBack_iff (s : I2c) (val : BitVec 16) :
    s.ReadsBack val ↔ s.lm75.readReg16 s.regAddr = val := by
  have hread : s.writeReg regCr readWord =
      { s with sr := srAckOk ||| srRxReady, rxQueue := s.sensorBytes s.regAddr } := by
    rw [writeReg_cr, writeCr]
    dsimp only
    rw [if_neg (by decide), if_pos (by decide), dispatchRead_eq,
      if_pos (show slaveOf readWord = Lm75.defaultAddr by decide)]
    rfl
  have hwidth : ∀ a b : Byte, a.setWidth 32 = b.setWidth 32 ↔ a = b := by
    intro a b
    refine ⟨fun h ↦ ?_, fun h ↦ h ▸ rfl⟩
    have hback := congrArg (BitVec.setWidth 8) h
    simpa using hback
  rw [ReadsBack, hread, halfword_ext_iff, ← hwidth, ← hwidth (BitVec.setWidth 8 _)]
  rfl

/-- A write latches its register field. -/
theorem regAddr_writeReg (hstart : w &&& crStart ≠ 0) (hread : w &&& crRead = 0) :
    (s.writeReg regCr w).regAddr = regOf w := by
  rw [writeReg_cr, writeCr]
  dsimp only
  rw [if_neg hstart, if_neg (not_not_intro hread)]
  split
  · exact (dispatchWrite_frame _ _ _ _).2
  · rfl

/-- Data sent to the sensor is read back only where it is zero. -/
theorem stored_iff (h : IsStore w) : (s.writeReg regCr w).ReadsBack (dataOf w) ↔ dataOf w = 0 := by
  obtain ⟨hstart, hread, hstop, hslave⟩ := h
  have hreg := three_lt_regOf hstop
  rw [readsBack_iff, regAddr_writeReg hstart hread, Lm75.readReg16, if_pos hreg]
  exact eq_comm

end Word

/-- The contract of a word holds exactly where it is neither a write without a stop to a slave
that is not there nor a write of something other than zero to the sensor. No write with data names
a register of the sensor. -/
theorem contract_iff (s : I2c) (w : BitVec 32) :
    (s.Contract w ↔ ¬ IsPartialElsewhere w ∧ ¬ (IsStore w ∧ dataOf w ≠ 0)) ∧
    ∀ v, IsStore v → ∀ reg : Byte, reg ≤ 3 → regOf v ≠ reg := by
  refine ⟨⟨fun h ↦ ⟨fun helsewhere ↦ ?_, fun ⟨hstore, hne⟩ ↦ ?_⟩, fun ⟨helsewhere, hstore⟩ ↦ ?_⟩,
    ?_⟩
  · have hstart := helsewhere.1
    exact (status_iff hstart).mp ⟨h.ackOk hstart, h.nack hstart⟩ helsewhere
  · exact hne ((stored_iff hstore).mp (h.stored hstore))
  · refine ⟨fun hstart ↦ ((status_iff hstart).mpr helsewhere).1,
      fun hstart ↦ ((status_iff hstart).mpr helsewhere).2, fun h ↦ ?_, writeReg_idle⟩
    exact (stored_iff h).mpr (by_contra fun hne ↦ hstore ⟨h, hne⟩)
  · intro v hv reg hreg heq
    have hlt := three_lt_regOf hv.2.2.1
    rw [heq, BitVec.lt_def] at hlt
    rw [BitVec.le_def] at hreg
    omega

/-- A write of 60 degrees to the threshold register `Tos` leaves it as it was, and a write to an
address without a slave is acknowledged. -/
theorem tos_not_written :
    (({} : I2c).writeReg regCr 0x3C000648).lm75.readReg16 2 = 0x5000 ∧
    ¬ Contract {} 0x3C000648 ∧ ¬ Contract {} 0x250 := by
  refine ⟨by decide, fun h ↦ ?_, fun h ↦ ?_⟩
  · have hback := (h.stored (by unfold IsStore; decide)).1
    revert hback
    decide
  · have hack := (h.ackOk (by decide)).mp (by decide)
    revert hack
    decide

end I2c

end McuSimulator.Peripherals
