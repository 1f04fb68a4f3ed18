import McuSimulator.Base.Ring
import McuSimulator.Memory.FlatMemoryBus

/-!
# The UART peripheral

`Uart` of `src/peripherals/uart.h` and `src/peripherals/uart.cpp`: a transmit and a receive FIFO,
each a circular array with a head, a tail and a count, behind five registers. The other end of the
line is driven by calls of their own.
-/

namespace McuSimulator.Peripherals

open Base (RingBuf)
open Memory (Byte)

namespace Uart

/-- `FIFO_SIZE`; src/peripherals/uart.h:28. -/
def fifoSize : Nat := 256

/-- `REG_DR`; src/peripherals/uart.h:31. -/
def regDr : BitVec 32 := 0x00

/-- `REG_SR`; src/peripherals/uart.h:32. -/
def regSr : BitVec 32 := 0x04

/-- `REG_CR`; src/peripherals/uart.h:33. -/
def regCr : BitVec 32 := 0x08

/-- `REG_IRQ_THR`; src/peripherals/uart.h:34. -/
def regIrqThr : BitVec 32 := 0x0C

/-- `REG_FIFO_LVL`; src/peripherals/uart.h:35. -/
def regFifoLvl : BitVec 32 := 0x10

/-- `SR_TX_EMPTY`; src/peripherals/uart.h:38. -/
def srTxEmpty : BitVec 32 := 1 <<< 0

/-- `SR_RX_READY`; src/peripherals/uart.h:39. -/
def srRxReady : BitVec 32 := 1 <<< 1

/-- `SR_RX_FULL`; src/peripherals/uart.h:40. -/
def srRxFull : BitVec 32 := 1 <<< 2

/-- `SR_TX_FULL`; src/peripherals/uart.h:41. -/
def srTxFull : BitVec 32 := 1 <<< 3

/-- `SR_RX_IRQ`; src/peripherals/uart.h:42. -/
def srRxIrq : BitVec 32 := 1 <<< 4

/-- `CR_ENABLE`; src/peripherals/uart.h:45. -/
def crEnable : BitVec 32 := 1 <<< 0

/-- `CR_RX_IRQ_EN`; src/peripherals/uart.h:46. -/
def crRxIrqEn : BitVec 32 := 1 <<< 1

/-- `CR_LOOPBACK`; src/peripherals/uart.h:47. -/
def crLoopback : BitVec 32 := 1 <<< 2

/-- An empty FIFO. -/
def emptyFifo : RingBuf Byte := ⟨fun _ ↦ 0, 0, 0, 0⟩

end Uart

/-- `Uart` with the values of a new one: `tx_fifo_`, `tx_head_`, `tx_tail_` and `tx_count_` are
the fields of `tx`, those of the receive side the fields of `rx`; src/peripherals/uart.h:49–52,
83–89. -/
structure Uart where
  tx : RingBuf Byte := Uart.emptyFifo
  rx : RingBuf Byte := Uart.emptyFifo
  cr : BitVec 32 := Uart.crEnable
  irqThr : BitVec 32 := 1

namespace Uart

/-! ### FIFO helpers -/

/-- Push a byte unless the FIFO is full. -/
def fifoPush (r : RingBuf Byte) (b : Byte) : RingBuf Byte × Bool :=
  if r.count = fifoSize then (r, false) else (r.push fifoSize b, true)

/-- Pop a byte unless the FIFO is empty. -/
def fifoPop (r : RingBuf Byte) : RingBuf Byte × Option Byte :=
  if r.count = 0 then (r, none) else (r.pop fifoSize, some (r.buf r.head))

/-- `tx_push`; src/peripherals/uart.cpp:6–12. -/
def txPush (u : Uart) (b : Byte) : Uart × Bool :=
  ({ u with tx := (fifoPush u.tx b).1 }, (fifoPush u.tx b).2)

/-- `tx_pop`; src/peripherals/uart.cpp:14–20. -/
def txPop (u : Uart) : Uart × Option Byte :=
  ({ u with tx := (fifoPop u.tx).1 }, (fifoPop u.tx).2)

/-- `rx_push`; src/peripherals/uart.cpp:22–28. -/
def rxPush (u : Uart) (b : Byte) : Uart × Bool :=
  ({ u with rx := (fifoPush u.rx b).1 }, (fifoPush u.rx b).2)

/-- `rx_pop`; src/peripherals/uart.cpp:30–36. -/
def rxPop (u : Uart) : Uart × Option Byte :=
  ({ u with rx := (fifoPop u.rx).1 }, (fifoPop u.rx).2)

/-! ### Status register -/

/-- `rx_irq_pending`; src/peripherals/uart.cpp:50–52. -/
def rxIrqPending (u : Uart) : Bool := u.irqThr.toNat ≤ u.rx.count

/-- `build_sr`; src/peripherals/uart.cpp:40–48. -/
def buildSr (u : Uart) : BitVec 32 :=
  let sr := 0
  let sr := if u.tx.count < fifoSize then sr ||| srTxEmpty else sr
  let sr := if 0 < u.rx.count then sr ||| srRxReady else sr
  let sr := if u.rx.count = fifoSize then sr ||| srRxFull else sr
  let sr := if u.tx.count = fifoSize then sr ||| srTxFull else sr
  if u.cr &&& crRxIrqEn ≠ 0 ∧ u.rxIrqPending then sr ||| srRxIrq else sr

/-- A status word from its flags. -/
def srOf (txEmpty rxReady rxFull txFull rxIrq : Bool) : BitVec 32 :=
  (if txEmpty then srTxEmpty else 0) ||| (if rxReady then srRxReady else 0) |||
    (if rxFull then srRxFull else 0) ||| (if txFull then srTxFull else 0) |||
    (if rxIrq then srRxIrq else 0)

private theorem ite_or_eq (p : Prop) [Decidable p] (sr bit : BitVec 32) :
    (if p then sr ||| bit else sr) = sr ||| (if decide p = true then bit else 0) := by
  by_cases hp : p
  · rw [if_pos hp, if_pos (decide_eq_true hp)]
  · rw [if_neg hp, if_neg (by rwa [decide_eq_true_eq])]
    exact BitVec.or_zero.symm

/-- The bits of the status register, each by its condition. -/
theorem buildSr_eq (u : Uart) :
    u.buildSr = srOf (u.tx.count < fifoSize) (0 < u.rx.count) (u.rx.count = fifoSize)
      (u.tx.count = fifoSize) (u.cr &&& crRxIrqEn ≠ 0 ∧ u.irqThr.toNat ≤ u.rx.count) := by
  have hirq : decide (u.cr &&& crRxIrqEn ≠ 0 ∧ u.rxIrqPending = true) =
      decide (u.cr &&& crRxIrqEn ≠ 0 ∧ u.irqThr.toNat ≤ u.rx.count) := by
    simp [rxIrqPending]
  have hzero : ∀ x : BitVec 32, 0 ||| x = x := fun _ ↦ BitVec.zero_or
  unfold buildSr srOf
  simp only [ite_or_eq, hirq, hzero, decide_eq_true_eq]

/-! ### Registers -/

/-- `read_reg`; src/peripherals/uart.cpp:56–72. A read of the data register pops the receive
FIFO, and gives 0 if it is empty. -/
def readReg (u : Uart) (offset : BitVec 32) : Uart × BitVec 32 :=
  if offset = regDr then
    let (u, b) := u.rxPop
    (u, (b.getD 0).setWidth 32)
  else if offset = regSr then
    (u, u.buildSr)
  else if offset = regCr then
    (u, u.cr)
  else if offset = regIrqThr then
    (u, u.irqThr)
  else if offset = regFifoLvl then
    (u, BitVec.ofNat 32 u.tx.count <<< 8 ||| BitVec.ofNat 32 u.rx.count)
  else
    (u, 0)

/-- `write_reg`; src/peripherals/uart.cpp:74–94. -/
def writeReg (u : Uart) (offset val : BitVec 32) : Uart :=
  if offset = regDr then
    let b := val.setWidth 8
    if u.cr &&& crLoopback ≠ 0 then (u.rxPush b).1 else (u.txPush b).1
  else if offset = regCr then
    { u with cr := val &&& 0x07 }
  else if offset = regIrqThr then
    { u with irqThr := if val = 0 ∨ BitVec.ofNat 32 fifoSize < val then 1 else val }
  else
    u

/-! ### Direct calls -/

/-- `inject_rx`; src/peripherals/uart.cpp:98–100. -/
def injectRx (u : Uart) (byte : Byte) : Uart × Bool := u.rxPush byte

/-- `consume_tx`; src/peripherals/uart.cpp:102–104. -/
def consumeTx (u : Uart) : Uart × Option Byte := u.txPop

/-- What is popped leaves the FIFO. -/
theorem count_fifoPop_lt {r : RingBuf Byte} {b : Byte} (h : (fifoPop r).2 = some b) :
    (fifoPop r).1.count < r.count := by
  unfold fifoPop at *
  split at h
  case isTrue => cases h
  case isFalse hne =>
    rw [if_neg hne]
    show r.count - 1 < r.count
    omega

/-- The loop of `drain_tx`; src/peripherals/uart.cpp:109. -/
def drainLoop (u : Uart) (result : List Byte) : Uart × List Byte :=
  match _h : u.txPop.2 with
  | none => (u.txPop.1, result)
  | some b => drainLoop u.txPop.1 (result ++ [b])
termination_by u.tx.count
decreasing_by exact count_fifoPop_lt _h

/-- `drain_tx`; src/peripherals/uart.cpp:106–111. -/
def drainTx (u : Uart) : Uart × List Byte := u.drainLoop []

/-- `reset`; src/peripherals/uart.cpp:113–118. -/
def reset (u : Uart) : Uart :=
  { u with
    tx := { u.tx with head := 0, tail := 0, count := 0 }
    rx := { u.rx with head := 0, tail := 0, count := 0 }
    cr := crEnable
    irqThr := 1 }

/-! ### Operations -/

/-- An operation on the UART: an access of the program to a register, or a call of the other end
of the line. -/
inductive Op
  | writeReg (offset val : BitVec 32)
  | readReg (offset : BitVec 32)
  | injectRx (byte : Byte)
  | consumeTx
  | drainTx
  | reset
  deriving DecidableEq, Repr

/-- What an operation returns. -/
inductive Answer
  | done
  | word (val : BitVec 32)
  | accepted (ok : Bool)
  | popped (byte : Option Byte)
  | drained (bytes : List Byte)
  deriving DecidableEq, Repr

/-- The UART after an operation, and what it returns. -/
def exec (u : Uart) : Op → Uart × Answer
  | .writeReg offset val => (u.writeReg offset val, .done)
  | .readReg offset => ((u.readReg offset).1, .word (u.readReg offset).2)
  | .injectRx byte => ((u.injectRx byte).1, .accepted (u.injectRx byte).2)
  | .consumeTx => (u.consumeTx.1, .popped u.consumeTx.2)
  | .drainTx => (u.drainTx.1, .drained u.drainTx.2)
  | .reset => (u.reset, .done)

end Uart

end McuSimulator.Peripherals
