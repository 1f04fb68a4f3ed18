import McuSimulator.Memory.FlatMemoryBus

/-!
# The I2C peripheral

`I2c` and `Lm75` of `src/peripherals/i2c.h` and `src/peripherals/i2c.cpp`: an I2C master with a
temperature sensor on its bus. A word written to the control register is a whole transaction; two
helpers run one as a call.
-/

namespace McuSimulator.Peripherals

open Memory (Byte)

/-! ### The sensor -/

namespace Lm75

/-- `DEFAULT_ADDR`; src/peripherals/i2c.h:35. -/
def defaultAddr : Byte := 0x48

/-- The registers of a new sensor; src/peripherals/i2c.h:42–48. -/
def initRegs : List Byte := [0x19, 0x00, 0x00, 0x00, 0x50, 0x00, 0x4B, 0x00]

end Lm75

/-- `Lm75`: four registers of two bytes each; src/peripherals/i2c.h:89. -/
structure Lm75 where
  regs : Nat → Byte := fun i ↦ Lm75.initRegs.getD i 0

namespace Lm75

/-- `read_reg16`; src/peripherals/i2c.h:51–55. -/
def readReg16 (l : Lm75) (reg : Byte) : BitVec 16 :=
  if 3 < reg then 0
  else
    let base := reg.toNat * 2
    (l.regs base).setWidth 16 <<< 8 ||| (l.regs (base + 1)).setWidth 16

/-- `write_reg16`; src/peripherals/i2c.h:57–62. -/
def writeReg16 (l : Lm75) (reg : Byte) (val : BitVec 16) : Lm75 :=
  if 3 < reg then l
  else
    let base := reg.toNat * 2
    let regs := Function.update l.regs base ((val >>> 8).setWidth 8)
    { l with regs := Function.update regs (base + 1) (val.setWidth 8) }

end Lm75

/-! ### The peripheral -/

namespace I2c

/-- `REG_CR`; src/peripherals/i2c.h:97. -/
def regCr : BitVec 32 := 0x00

/-- `REG_SR`; src/peripherals/i2c.h:98. -/
def regSr : BitVec 32 := 0x04

/-- `REG_DR`; src/peripherals/i2c.h:99. -/
def regDr : BitVec 32 := 0x08

/-- `REG_REG_ADDR`; src/peripherals/i2c.h:100. -/
def regRegAddr : BitVec 32 := 0x0C

/-- `CR_READ`; src/peripherals/i2c.h:103. -/
def crRead : BitVec 32 := 1 <<< 8

/-- `CR_START`; src/peripherals/i2c.h:104. -/
def crStart : BitVec 32 := 1 <<< 9

/-- `CR_STOP`; src/peripherals/i2c.h:105. -/
def crStop : BitVec 32 := 1 <<< 10

/-- `SR_BUSY`; src/peripherals/i2c.h:108. -/
def srBusy : BitVec 32 := 1 <<< 0

/-- `SR_ACK_OK`; src/peripherals/i2c.h:109. -/
def srAckOk : BitVec 32 := 1 <<< 1

/-- `SR_NACK`; src/peripherals/i2c.h:110. -/
def srNack : BitVec 32 := 1 <<< 2

/-- `SR_RX_READY`; src/peripherals/i2c.h:111. -/
def srRxReady : BitVec 32 := 1 <<< 3

end I2c

/-- `I2c` with the values of a new one; src/peripherals/i2c.h:134–138. -/
structure I2c where
  sr : BitVec 32 := 0
  regAddr : Byte := 0
  rxQueue : List Byte := []
  lm75 : Lm75 := {}

namespace I2c

/-! ### Sensor dispatch -/

/-- `dispatch_read`; src/peripherals/i2c.cpp:80–90. -/
def dispatchRead (s : I2c) (slave reg : Byte) : I2c × Bool :=
  if slave ≠ Lm75.defaultAddr then (s, false)
  else
    let word := s.lm75.readReg16 reg
    ({ s with rxQueue := [(word >>> 8).setWidth 8, word.setWidth 8] }, true)

/-- `dispatch_write`; src/peripherals/i2c.cpp:92–98. -/
def dispatchWrite (s : I2c) (slave reg : Byte) (data : List Byte) : I2c × Bool :=
  if slave ≠ Lm75.defaultAddr then (s, false)
  else if data.length < 2 then (s, false)
  else
    let val := (data.getD 0 0).setWidth 16 <<< 8 ||| (data.getD 1 0).setWidth 16
    ({ s with lm75 := s.lm75.writeReg16 reg val }, true)

/-! ### Register dispatch -/

/-- `read_reg`; src/peripherals/i2c.cpp:10–25. A read of the data register pops the queue. -/
def readReg (s : I2c) (offset : BitVec 32) : I2c × BitVec 32 :=
  if offset = regSr then
    (s, s.sr)
  else if offset = regDr then
    match s.rxQueue with
    | [] => (s, 0xFF)
    | byte :: rest =>
      ({ s with rxQueue := rest, sr := if rest.isEmpty then s.sr &&& ~~~srRxReady else s.sr },
        byte.setWidth 32)
  else if offset = regRegAddr then
    (s, s.regAddr.setWidth 32)
  else
    (s, 0)

/-- The slave address of a transaction word. -/
def slaveOf (val : BitVec 32) : Byte := (val &&& 0x7F).setWidth 8

/-- The register that a transaction word writes to. -/
def regOf (val : BitVec 32) : Byte := (val >>> 8).setWidth 8

/-- The data of a transaction word. -/
def dataOf (val : BitVec 32) : BitVec 16 := (val >>> 16).setWidth 16

/-- A write to the control register; src/peripherals/i2c.cpp:29–66. -/
def writeCr (s : I2c) (val : BitVec 32) : I2c :=
  let slave := slaveOf val
  if val &&& crStart = 0 then s
  else
    let s := { s with sr := srBusy }
    if val &&& crRead ≠ 0 then
      let (s, ok) := s.dispatchRead slave s.regAddr
      { s with sr := if ok then srAckOk ||| srRxReady else srNack }
    else
      let reg := regOf val
      let data16 := dataOf val
      let s := { s with regAddr := reg }
      if val &&& crStop ≠ 0 then
        let buf := [(data16 >>> 8).setWidth 8, data16.setWidth 8]
        let (s, ok) := s.dispatchWrite slave reg buf
        { s with sr := if ok then srAckOk else srNack }
      else
        { s with sr := srAckOk }

/-- `write_reg`; src/peripherals/i2c.cpp:27–76. -/
def writeReg (s : I2c) (offset val : BitVec 32) : I2c :=
  if offset = regCr then s.writeCr val
  else if offset = regRegAddr then { s with regAddr := val.setWidth 8 }
  else s

/-! ### High-level helpers -/

/-- `read_sensor_reg`; src/peripherals/i2c.cpp:102–110. The number of bytes asked for is not
used. -/
def readSensorReg (s : I2c) (slaveAddr reg : Byte) (_nBytes : Nat) : I2c × Nat :=
  let s := { s with regAddr := reg }
  let (s, ok) := s.dispatchRead slaveAddr reg
  if ok then
    let s := { s with sr := srAckOk ||| srRxReady }
    (s, s.rxQueue.length)
  else
    ({ s with sr := srNack }, 0)

/-- `write_sensor_reg`; src/peripherals/i2c.cpp:112–122. -/
def writeSensorReg (s : I2c) (slaveAddr reg : Byte) (value : BitVec 16) : I2c :=
  let buf := [(value >>> 8).setWidth 8, value.setWidth 8]
  let (s, ok) := s.dispatchWrite slaveAddr reg buf
  { s with sr := if ok then srAckOk else srNack }

/-! ### Operations -/

/-- An operation on the peripheral: an access to a register, or a call of a helper. -/
inductive Op
  | readReg (offset : BitVec 32)
  | writeReg (offset val : BitVec 32)
  | readSensorReg (slaveAddr reg : Byte) (nBytes : Nat)
  | writeSensorReg (slaveAddr reg : Byte) (value : BitVec 16)
  deriving DecidableEq, Repr

/-- The peripheral after an operation. -/
def exec (s : I2c) : Op → I2c
  | .readReg offset => (s.readReg offset).1
  | .writeReg offset val => s.writeReg offset val
  | .readSensorReg slaveAddr reg nBytes => (s.readSensorReg slaveAddr reg nBytes).1
  | .writeSensorReg slaveAddr reg value => s.writeSensorReg slaveAddr reg value

/-- The peripheral after these operations on a new one. -/
def run (ops : List Op) : I2c := ops.foldl exec {}

end I2c

end McuSimulator.Peripherals
