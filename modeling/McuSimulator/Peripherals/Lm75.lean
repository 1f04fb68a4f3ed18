import Mathlib.Tactic.IntervalCases
import McuSimulator.Peripherals.Board
import McuSimulator.Peripherals.I2cTransaction

/-!
# The temperature sensor

The calls on `Lm75` that set and give a temperature, and the way from one over the I2C bus to a
program. A temperature is an integer number of half degrees: the sensor has nothing in between.
-/

namespace McuSimulator.Peripherals

open Memory (Byte)

namespace Lm75

/-- `REG_TEMP`; src/peripherals/i2c.h:37. -/
def regTemp : Byte := 0x00

/-! ### The calls -/

/-- Store the two bytes of the temperature. -/
def setTemp (l : Lm75) (msb : Byte) (half : Bool) : Lm75 :=
  { l with regs := Function.update (Function.update l.regs 0 msb) 1 (if half then 0x80 else 0x00) }

/-- `set_temperature_raw`; src/peripherals/i2c.h:65–70. -/
def setTemperatureRaw (l : Lm75) (raw9bit : BitVec 16) : Lm75 :=
  l.setTemp ((raw9bit.sshiftRight 1 &&& 0xFF).setWidth 8) (raw9bit &&& 1 ≠ 0)

/-- `set_temperature_c10`, with the quotient and the remainder of C; src/peripherals/i2c.h:73–79. -/
def setTemperatureC10 (l : Lm75) (tempC10 : Int) : Lm75 :=
  let integerPart := tempC10.tdiv 10
  let half : Bool := 5 ≤ tempC10.tmod 10
  l.setTemp (BitVec.ofInt 8 integerPart) half

/-- Two bytes as a temperature: the first one is signed, the top bit of the second one is a half
degree. -/
def halfDegrees (msb lsb : Byte) : Int := msb.toInt * 2 + if lsb &&& 0x80 ≠ 0 then 1 else 0

/-- `temperature_c`; src/peripherals/i2c.h:81–86. -/
def temperatureC (l : Lm75) : Int := halfDegrees (l.regs 0) (l.regs 1)

/-! ### What is stored -/

private theorem temperatureC_setTemp (l : Lm75) (msb : Byte) (half : Bool) :
    (l.setTemp msb half).temperatureC = msb.toInt * 2 + if half then 1 else 0 := by
  rw [temperatureC, setTemp, halfDegrees]
  cases half <;> simp

/-- A signed byte and a half degree are a number of nine bits. -/
theorem bmod_half (n : Int) (half : Bool) :
    n.bmod 256 * 2 + (if half then 1 else 0) = (n * 2 + if half then 1 else 0).bmod 512 := by
  rw [Int.bmod_def, Int.bmod_def]
  cases half <;> simp only [if_true, if_false, Bool.false_eq_true] <;> split_ifs <;> omega

/-- The bits of a raw temperature that are stored in the first byte. -/
theorem toNat_rawByte (raw : BitVec 16) :
    ((raw.sshiftRight 1 &&& 0xFF).setWidth 8).toNat = raw.toNat / 2 % 256 := by
  have hbits : (raw.sshiftRight 1 &&& 0xFF).setWidth 8 = (raw >>> 1).setWidth 8 := by
    ext i hi
    have hlt : i < 8 := hi
    interval_cases i <;> simp [BitVec.getElem_sshiftRight]
  rw [hbits, BitVec.toNat_setWidth, BitVec.toNat_ushiftRight, Nat.shiftRight_eq_div_pow]

private theorem temperatureC_setTemperatureRaw (l : Lm75) (raw : BitVec 16) :
    (l.setTemperatureRaw raw).temperatureC = raw.toInt.bmod 512 := by
  have hhalf : decide (raw &&& 1 ≠ 0) = true ↔ raw.toNat % 2 = 1 := by
    rw [decide_eq_true_eq, ← Nat.and_one_is_mod, ne_eq, ← BitVec.toNat_inj, BitVec.toNat_and]
    simp
  have hbits : (↑(raw.toNat / 2 % 256) * 2 + if decide (raw &&& 1 ≠ 0) = true then 1 else 0 : Int) =
      (raw.toNat : Int) % (512 : Nat) := by
    simp only [hhalf]
    split_ifs <;> omega
  rw [setTemperatureRaw, temperatureC_setTemp, BitVec.toInt_eq_toNat_bmod, toNat_rawByte, bmod_half,
    hbits, Int.emod_bmod, BitVec.toInt_eq_toNat_bmod, Int.bmod_bmod_of_dvd (by decide)]

/-- Tenths of degrees as half degrees. The remainder has the sign of the dividend, so no half degree
is set for a negative temperature. -/
theorem temperatureC_setTemperatureC10 (l : Lm75) (t : Int) :
    (l.setTemperatureC10 t).temperatureC =
      (if 0 ≤ t then t / 5 else t.tdiv 10 * 2).bmod 512 := by
  rw [setTemperatureC10, temperatureC_setTemp, BitVec.toInt_ofInt]
  refine (bmod_half _ _).trans (congrArg (Int.bmod · 512) ?_)
  simp only [decide_eq_true_eq]
  rcases le_or_gt 0 t with h | h
  · rw [if_pos h, Int.tdiv_eq_ediv_of_nonneg h, Int.tmod_eq_emod_of_nonneg h]
    split_ifs <;> omega
  · have hrem : t.tmod 10 ≤ 0 := by
      have hpos := Int.tmod_nonneg 10 (show 0 ≤ -t by omega)
      rw [Int.neg_tmod] at hpos
      omega
    rw [if_neg (by omega), if_neg (by omega), add_zero]

end Lm75

/-! ### Over the bus -/

private theorem setWidth_high (a b : Byte) :
    ((a.setWidth 16 <<< 8 ||| b.setWidth 16) >>> 8).setWidth 8 = a := by
  ext i hi
  have hlt : 8 + i < 16 := by omega
  simp [hlt, show i < 16 by omega, BitVec.getLsbD_eq_getElem hi]

private theorem setWidth_low (a b : Byte) :
    (a.setWidth 16 <<< 8 ||| b.setWidth 16).setWidth 8 = b := by
  ext i hi
  simp

namespace I2c

/-- A write to a register that the sensor does not have leaves it. -/
theorem lm75_dispatchWrite (s : I2c) (slave : Byte) {reg : Byte} (h : 3 < reg)
    (data : List Byte) : (s.dispatchWrite slave reg data).1.lm75 = s.lm75 := by
  unfold dispatchWrite
  split
  · rfl
  split
  · rfl
  · exact if_pos h

/-- No word written to a register changes the sensor. -/
theorem lm75_writeReg (s : I2c) (offset val : BitVec 32) :
    (s.writeReg offset val).lm75 = s.lm75 := by
  unfold writeReg
  split
  case isTrue =>
    unfold writeCr
    dsimp only
    split
    · rfl
    split
    case isTrue =>
      rw [dispatchRead_eq]
      split <;> rfl
    case isFalse =>
      split
      case isTrue hstop => exact lm75_dispatchWrite _ _ (three_lt_regOf hstop) _
      case isFalse => rfl
  case isFalse => split <;> rfl

private theorem lm75_readReg (s : I2c) (offset : BitVec 32) :
    (s.readReg offset).1.lm75 = s.lm75 := by
  unfold readReg
  repeat' split
  all_goals rfl

/-- A read takes the two bytes of the temperature. -/
theorem readTemp_eq (s : I2c) :
    let t := (s.writeReg regRegAddr (Lm75.regTemp.setWidth 32)).writeReg regCr readWord
    (t.readReg regSr).2 &&& srAckOk ≠ 0 ∧
      (t.readReg regDr).2.setWidth 8 = s.lm75.regs 0 ∧
      ((t.readReg regDr).1.readReg regDr).2.setWidth 8 = s.lm75.regs 1 ∧
      ((t.readReg regDr).1.readReg regDr).1 =
        { s with sr := srAckOk, regAddr := Lm75.regTemp, rxQueue := [] } := by
  have hread : (s.writeReg regRegAddr (Lm75.regTemp.setWidth 32)).writeReg regCr readWord =
      { s with
        sr := srAckOk ||| srRxReady
        regAddr := Lm75.regTemp
        rxQueue := s.sensorBytes Lm75.regTemp } := by
    have haddr : s.writeReg regRegAddr (Lm75.regTemp.setWidth 32) =
        { s with regAddr := Lm75.regTemp } := rfl
    rw [haddr, writeReg_cr, writeCr]
    dsimp only
    rw [if_neg (by decide), if_pos (by decide), dispatchRead_eq,
      if_pos (show slaveOf readWord = Lm75.defaultAddr by decide)]
    rfl
  have hclear : (srAckOk ||| srRxReady) &&& ~~~srRxReady = srAckOk := by decide
  rw [hread, ← hclear]
  refine ⟨(by decide : (srAckOk ||| srRxReady) &&& ((srAckOk ||| srRxReady) &&& ~~~srRxReady) ≠ 0),
    ?_, ?_, rfl⟩
  · show ((BitVec.setWidth 8 _).setWidth 32).setWidth 8 = _
    rw [show s.lm75.readReg16 Lm75.regTemp =
      (s.lm75.regs 0).setWidth 16 <<< 8 ||| (s.lm75.regs 1).setWidth 16 from rfl, setWidth_high]
    simp
  · show ((BitVec.setWidth 8 _).setWidth 32).setWidth 8 = _
    rw [show s.lm75.readReg16 Lm75.regTemp =
      (s.lm75.regs 0).setWidth 16 <<< 8 ||| (s.lm75.regs 1).setWidth 16 from rfl, setWidth_low]
    simp

end I2c

namespace Board

/-- What the demo does to read the temperature, up to the two bytes: it selects the register, starts
a read, and takes the bytes if the sensor acknowledges; src/demo/sensor_demo.cpp:75–92. -/
def readSensor : Code (Option (Byte × Byte)) := do
  busWrite (base .i2c0 + I2c.regRegAddr) (Lm75.regTemp.setWidth 32)
  busWrite (base .i2c0 + I2c.regCr) I2c.readWord
  let sr ← busRead (base .i2c0 + I2c.regSr)
  if sr &&& I2c.srAckOk = 0 then
    return none
  let msb ← busRead (base .i2c0 + I2c.regDr)
  let lsb ← busRead (base .i2c0 + I2c.regDr)
  return some (msb.setWidth 8, lsb.setWidth 8)

/-- The driver reads the two bytes of the temperature register. -/
theorem readSensor_eq (b : ∀ k, State k) (s : I2c) :
    readSensor.run (Function.update b .i2c s) = .ok (some (s.lm75.regs 0, s.lm75.regs 1))
      (Function.update b .i2c
        { s with sr := I2c.srAckOk, regAddr := Lm75.regTemp, rxQueue := [] }) := by
  obtain ⟨hack, hmsb, hlsb, hend⟩ := I2c.readTemp_eq s
  refine (bind_ok (busWrite_i2c (by decide) _ b s)).trans ?_
  refine (bind_ok (busWrite_i2c (by decide) _ b _)).trans ?_
  refine (bind_ok (busRead_i2c (by decide) b _)).trans ?_
  rw [show ∀ t : I2c, (t.readReg I2c.regSr).1 = t from fun _ ↦ rfl, if_neg hack]
  refine (bind_ok (busRead_i2c (by decide) b _)).trans ?_
  refine (bind_ok (busRead_i2c (by decide) b _)).trans ?_
  rw [hmsb, hlsb, hend]
  rfl

/-- Whatever a program reads and writes over the bus, the sensor stays as it is. -/
theorem lm75_respond (b : ∀ k, State k) (as : List Access) :
    I2c.lm75 ((Base.respond access b as).1 .i2c) = I2c.lm75 (b .i2c) := by
  have hstep : ∀ (s : I2c) (x : Periph × RegAccess),
      I2c.lm75 (peripherals.step .i2c s x).1 = s.lm75 := by
    rintro s ⟨p, offset | ⟨offset, val⟩⟩
    · exact I2c.lm75_readReg s offset
    · exact I2c.lm75_writeReg s offset val
  rw [respond_part]
  exact Base.respond_invariant (fun s ↦ I2c.lm75 s = I2c.lm75 (b .i2c))
    (fun s x h ↦ (hstep s x).trans h) rfl _

/-- Reading the sensor gives this temperature. -/
def ReadsTemperature (b : ∀ k, State k) (temp : Int) : Prop :=
  ∃ msb lsb b', readSensor.run b = .ok (some (msb, lsb)) b' ∧ Lm75.halfDegrees msb lsb = temp

private theorem readsTemperature (b : ∀ k, State k) :
    ReadsTemperature b (I2c.lm75 (b .i2c)).temperatureC := by
  have hread := readSensor_eq b (b .i2c)
  rw [Function.update_eq_self] at hread
  exact ⟨_, _, _, hread, rfl⟩

/-- A temperature that is set on the sensor is the one that is read over the bus, whatever the board
was and whatever a program has read and written since: the nine bits of a raw one, and tenths of
degrees rounded down to half degrees, or towards zero to whole degrees below zero. -/
theorem temperature_over_bus (b : ∀ k, State k) (s : I2c) (as : List Access) :
    let after (l : Lm75) := (Base.respond access (Function.update b .i2c { s with lm75 := l }) as).1
    (∀ raw : BitVec 16,
      ReadsTemperature (after (s.lm75.setTemperatureRaw raw)) (raw.toInt.bmod 512)) ∧
    ∀ tempC10 : Int, ReadsTemperature (after (s.lm75.setTemperatureC10 tempC10))
      ((if 0 ≤ tempC10 then tempC10 / 5 else tempC10.tdiv 10 * 2).bmod 512) := by
  intro after
  have hafter : ∀ l, ReadsTemperature (after l) l.temperatureC := by
    intro l
    have hread := readsTemperature (after l)
    rwa [lm75_respond, Function.update_self] at hread
  constructor
  · intro raw
    rw [← Lm75.temperatureC_setTemperatureRaw s.lm75]
    exact hafter _
  · intro tempC10
    rw [← Lm75.temperatureC_setTemperatureC10 s.lm75]
    exact hafter _

end Board

end McuSimulator.Peripherals
