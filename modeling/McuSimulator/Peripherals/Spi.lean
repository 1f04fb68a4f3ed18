import McuSimulator.Peripherals.Flash

/-!
# The SPI peripheral

`Spi` of `src/peripherals/spi.h` and `src/peripherals/spi.cpp`: an SPI master with a flash behind
it. A program reaches the flash through the control register and the data register, byte by byte,
or through a burst of words that asserts and deasserts chip select itself.
-/

namespace McuSimulator.Peripherals

open Memory (Byte)

namespace W25Q32Flash

/-- The calls that drive the flash. -/
inductive Call
  | csAssert
  | exchange (tx : Byte)
  | csDeassert
  deriving DecidableEq, Repr

/-- The flash after a call. -/
def call (f : W25Q32Flash) : Call → W25Q32Flash
  | .csAssert => f.csAssert
  | .exchange tx => (f.exchange tx).1
  | .csDeassert => f.csDeassert

/-- The flash after these calls on a new one. -/
def replay (calls : List Call) : W25Q32Flash := calls.foldl call {}

/-- No calls leave a new flash. -/
@[simp] theorem replay_nil : replay [] = {} := rfl

/-- One more call. -/
@[simp] theorem replay_concat (calls : List Call) (c : Call) :
    replay (calls ++ [c]) = (replay calls).call c := by
  rw [replay, List.foldl_append]
  rfl

end W25Q32Flash

namespace Spi

/-- `REG_CR`; src/peripherals/spi.h:79. -/
def regCr : BitVec 32 := 0x00

/-- `REG_SR`; src/peripherals/spi.h:80. -/
def regSr : BitVec 32 := 0x04

/-- `REG_DR`; src/peripherals/spi.h:81. -/
def regDr : BitVec 32 := 0x08

/-- `REG_BURST_LEN`; src/peripherals/spi.h:82. -/
def regBurstLen : BitVec 32 := 0x0C

/-- `REG_BURST_TX`; src/peripherals/spi.h:83. -/
def regBurstTx : Nat := 0x10

/-- `REG_BURST_RX`; src/peripherals/spi.h:84. -/
def regBurstRx : Nat := 0x50

/-- `BURST_REGS`; src/peripherals/spi.cpp:5. -/
def burstRegs : Nat := 64

/-- `CR_EN`; src/peripherals/spi.h:86. -/
def crEn : BitVec 32 := 1 <<< 0

/-- `CR_NSS_LOW`; src/peripherals/spi.h:89. -/
def crNssLow : BitVec 32 := 1 <<< 3

/-- `SR_TX_EMPTY`; src/peripherals/spi.h:90. -/
def srTxEmpty : BitVec 32 := 1 <<< 0

/-- `SR_RX_READY`; src/peripherals/spi.h:91. -/
def srRxReady : BitVec 32 := 1 <<< 1

end Spi

/-- `Spi` with the values of a new one; src/peripherals/spi.h:93, 104–113. The calls on the flash
are kept in the order in which they were made; no function reads that list. -/
structure Spi where
  cr : BitVec 32 := Spi.crEn
  burstLen : BitVec 32 := 1
  burstTx : Nat → Byte := fun _ ↦ 0
  burstRx : Nat → Byte := fun _ ↦ 0
  rxQueue : List Byte := []
  flash : W25Q32Flash := {}
  csActive : Bool := false
  calls : List W25Q32Flash.Call := []

namespace Spi

/-! ### Chip select and transfers -/

/-- `flash_.cs_assert(); cs_active_ = true`. -/
def assertCs (s : Spi) : Spi :=
  { s with flash := s.flash.csAssert, csActive := true, calls := s.calls ++ [.csAssert] }

/-- `flash_.cs_deassert(); cs_active_ = false`. -/
def deassertCs (s : Spi) : Spi :=
  { s with flash := s.flash.csDeassert, csActive := false, calls := s.calls ++ [.csDeassert] }

/-- `set_nss`; src/peripherals/spi.cpp:115–124. -/
def setNss (s : Spi) (low : Bool) : Spi :=
  let s :=
    if low ∧ ¬ s.csActive then s.assertCs
    else if ¬ low ∧ s.csActive then s.deassertCs
    else s
  { s with cr := if low then s.cr ||| crNssLow else s.cr &&& ~~~crNssLow }

/-- `transfer_byte`; src/peripherals/spi.cpp:126–128. -/
def transferByte (s : Spi) (tx : Byte) : Spi × Byte :=
  if s.csActive then
    let (flash, rx) := s.flash.exchange tx
    ({ s with flash := flash, calls := s.calls ++ [.exchange tx] }, rx)
  else
    (s, 0xFF)

/-- The loop of `do_burst`, for `n` bytes from byte `i` on; src/peripherals/spi.cpp:134–135. -/
def burstLoop : Nat → Nat → Spi → Spi
  | 0, _, s => s
  | n + 1, i, s =>
    let (s', rx) := s.transferByte (s.burstTx i)
    burstLoop n (i + 1) { s' with burstRx := Function.update s'.burstRx i rx }

/-- `do_burst`; src/peripherals/spi.cpp:130–140. -/
def doBurst (s : Spi) : Spi :=
  let s := if s.csActive then s else s.assertCs
  let nBytes := s.burstLen * 4
  let s := (burstLoop (min nBytes.toNat burstRegs) 0 s).deassertCs
  { s with cr := s.cr &&& ~~~crNssLow }

/-! ### Registers -/

/-- Word `idx` of a burst buffer, most significant byte first. -/
def burstWord (bytes : Nat → Byte) (idx : Nat) : BitVec 32 :=
  (bytes (idx * 4)).setWidth 32 <<< 24 ||| (bytes (idx * 4 + 1)).setWidth 32 <<< 16 |||
    (bytes (idx * 4 + 2)).setWidth 32 <<< 8 ||| (bytes (idx * 4 + 3)).setWidth 32

/-- Store word `idx` of a burst buffer, most significant byte first. -/
def setBurstWord (bytes : Nat → Byte) (idx : Nat) (val : BitVec 32) : Nat → Byte :=
  let bytes := Function.update bytes (idx * 4) ((val >>> 24).setWidth 8)
  let bytes := Function.update bytes (idx * 4 + 1) ((val >>> 16).setWidth 8)
  let bytes := Function.update bytes (idx * 4 + 2) ((val >>> 8).setWidth 8)
  Function.update bytes (idx * 4 + 3) (val.setWidth 8)

/-- The offset lies in the burst buffer that starts at `reg`. -/
def InBurst (reg : Nat) (offset : BitVec 32) : Prop :=
  reg ≤ offset.toNat ∧ offset.toNat < reg + burstRegs

instance (reg : Nat) (offset : BitVec 32) : Decidable (InBurst reg offset) :=
  inferInstanceAs (Decidable (_ ∧ _))

/-- `read_reg`; src/peripherals/spi.cpp:142–168. A read of the data register pops the queue. -/
def readReg (s : Spi) (offset : BitVec 32) : Spi × BitVec 32 :=
  if offset = regCr then
    (s, s.cr)
  else if offset = regSr then
    (s, srTxEmpty ||| if s.rxQueue.isEmpty then 0 else srRxReady)
  else if offset = regDr then
    match s.rxQueue with
    | [] => (s, 0xFF)
    | b :: rest => ({ s with rxQueue := rest }, b.setWidth 32)
  else if offset = regBurstLen then
    (s, s.burstLen)
  else if InBurst regBurstTx offset then
    (s, burstWord s.burstTx ((offset.toNat - regBurstTx) / 4))
  else if InBurst regBurstRx offset then
    (s, burstWord s.burstRx ((offset.toNat - regBurstRx) / 4))
  else
    (s, 0)

/-- `write_reg`; src/peripherals/spi.cpp:170–199. -/
def writeReg (s : Spi) (offset val : BitVec 32) : Spi :=
  if offset = regCr then
    { s with cr := val &&& 0x0F }.setNss (val &&& crNssLow ≠ 0)
  else if offset = regDr then
    let (s, rx) := s.transferByte (val.setWidth 8)
    { s with rxQueue := s.rxQueue ++ [rx] }
  else if offset = regBurstLen then
    { s with burstLen := if 16 < val then 16 else val }
  else if InBurst regBurstTx offset then
    let idx := (offset.toNat - regBurstTx) / 4
    let s := { s with burstTx := setBurstWord s.burstTx idx val }
    -- the last word of the burst starts it
    if s.burstLen.toNat ≤ idx + 1 then s.doBurst else s
  else
    s

/-- An access of the program to the registers. -/
inductive Op
  | write (offset val : BitVec 32)
  | read (offset : BitVec 32)
  deriving DecidableEq, Repr

/-- The peripheral after an access. -/
def exec (s : Spi) : Op → Spi
  | .write offset val => s.writeReg offset val
  | .read offset => (s.readReg offset).1

/-- The peripheral after these accesses to a new one. -/
def run (ops : List Op) : Spi := ops.foldl exec {}

end Spi

end McuSimulator.Peripherals
