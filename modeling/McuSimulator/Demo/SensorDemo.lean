import McuSimulator.Base.HexText
import McuSimulator.Peripherals.Lm75
import McuSimulator.Rtos.Program

/-!
# The sensor demo

`src/demo/sensor_demo.cpp`: a task reads the temperature sensor and sends the readings to two
queues, one task forwards them from the first queue to the CAN bus, another one logs them from the
second queue to the UART. The code of each context is cut at its API calls. Temperatures are in half
degrees: every value of the floats is one.
-/

namespace McuSimulator.Demo

open Base (hexUpper)
open Memory (Byte)
open Peripherals Peripherals.Board
open Rtos (Code Config Machine Op Sys TaskHandle Turn dequeuedItems invalidTask)

/-! ### Data -/

/-- `POLL_DELAY_TICKS`; src/demo/sensor_demo.cpp:28. -/
def pollDelayTicks : Nat := 500

/-- `SENSOR_ERROR`, -999 degrees; src/demo/sensor_demo.cpp:29. -/
def sensorError : Int := -1998

/-- `TEMP_SCALE_BASE`; src/demo/sensor_demo.cpp:30. -/
def tempScaleBase : Int := 250

/-- `TempReading`; src/demo/sensor_demo.cpp:34–38. -/
structure TempReading where
  tick : Nat := 0
  raw : BitVec 16 := 0
  celsius : Int := 0
  deriving DecidableEq, Repr, Inhabited

/-- `to_can`; src/demo/sensor_demo.cpp:43. -/
def toCan : Nat := 0

/-- `to_uart`; src/demo/sensor_demo.cpp:44. -/
def toUart : Nat := 1

/-- A number, as `%d` prints it. -/
def decimal (n : Int) : List Char := (if n < 0 then ['-'] else []) ++ Nat.toDigits 10 n.natAbs

/-- `fmt_temp`: the whole degrees, truncated, and the first decimal place without its sign;
src/demo/sensor_demo.cpp:59–66. -/
def fmtTemp (t : Int) : List Char :=
  let integer := t.tdiv 2
  let frac := ((t - integer * 2) * 5).natAbs
  decimal integer ++ '.' :: Nat.toDigits 10 frac

/-! ### The I2C reader -/

/-- The body of the loop of `task_i2c_reader` behind the delay: the reading that it sends;
src/demo/sensor_demo.cpp:75–103. -/
def takeReading (reading tick : Nat) : Board.Code TempReading := do
  match ← readSensor with
  | none => return ⟨tick, -1, sensorError⟩
  | some (msb, lsb) =>
    let celsius := Lm75.halfDegrees msb lsb
    -- the first byte is unsigned here
    let raw := msb.setWidth 16 <<< 1 ||| if lsb &&& 0x80 ≠ 0 then 1 else 0
    modify fun b ↦
      let s : I2c := b .i2c
      Function.update b .i2c
        { s with lm75 := s.lm75.setTemperatureC10 (tempScaleBase + reading * 5) }
    return ⟨tick, raw, celsius⟩

/-! ### The CAN forwarder -/

/-- `TEMP_CAN_ID`; src/demo/sensor_demo.cpp:117. -/
def tempCanId : BitVec 32 := 0x1B0

/-- The first word of a frame; src/demo/sensor_demo.cpp:123–124. -/
def packWord (r : TempReading) : BitVec 32 :=
  (BitVec.ofNat 32 r.tick &&& 0xFFFF) <<< 16 ||| r.raw.setWidth 32

/-- The body of the loop of `task_can_forwarder` behind `receive`;
src/demo/sensor_demo.cpp:122–134. -/
def forward (r : TempReading) : Board.Code Unit := do
  busWrite (base .can0 + Can.regTxId) tempCanId
  busWrite (base .can0 + Can.regTxDlc) 4
  busWrite (base .can0 + Can.regTxD0) (packWord r)
  busWrite (base .can0 + Can.regTxD1) 0
  busWrite (base .can0 + Can.regTxSend) 1
  let _sr ← busRead (base .can0 + Can.regSr)

/-! ### The UART logger -/

/-- The line of a reading; src/demo/sensor_demo.cpp:146–147. -/
def logLine (r : TempReading) : List Char :=
  ['[', 'U', 'A', 'R', 'T', ']', ' ', 't', 'i', 'c', 'k', '='] ++ Nat.toDigits 10 r.tick ++
    [' ', 't', 'e', 'm', 'p', '='] ++ fmtTemp r.celsius ++ ['C', '\n']

/-- Write a text to the UART; src/demo/sensor_demo.cpp:150–153. -/
def writeText (text : List Char) : Board.Code Unit :=
  text.forM fun c ↦ busWrite (base .uart0 + Uart.regDr) (BitVec.ofNat 32 c.toNat)

/-! ### The code of the contexts -/

/-- Where a context is in its code, at the start or behind an API call. -/
inductive Place
  /-- In `main`, behind so many calls of the scheduler. -/
  | main (calls : Nat)
  /-- At the start of a turn of the loop of the reader. -/
  | poll (reading : Nat)
  /-- Behind its `vTaskDelay`. -/
  | sample (reading : Nat)
  /-- Behind its `send` to the first queue. -/
  | publish (reading : Nat) (r : TempReading)
  /-- At the start of the forwarder. -/
  | forwarder
  /-- Behind its `receive`. -/
  | forward
  /-- At the start of the logger. -/
  | logger
  /-- Behind its `receive`, after so many lines. -/
  | log (count : Nat)
  /-- The task function has returned. -/
  | ended
  deriving DecidableEq, Repr

/-- The world of the tasks. -/
abbrev World := ∀ k, Board.State k

/-- Run code of a task up to its next call. A thrown exception would end the program. -/
def turn {β : Type} (c : Board.Code β) (b : World) (op : β → Op TempReading) (next : β → Place) :
    Option (Turn TempReading World Place) :=
  match c.run b with
  | .ok v b => some ⟨b, op v, next v⟩
  | .error _ _ => none

/-- The item that the last `receive` on a queue has returned. -/
def received (s : Sys TempReading) (q : Nat) : TempReading :=
  (dequeuedItems q s.log).getLast?.getD {}

/-- The code of `main` and of the three tasks, for so many readings, which the reader and the logger
count: ten in the source; src/demo/sensor_demo.cpp:70–108, 112–136,
140–157, 178–186. -/
def code (readings : Nat) : Code TempReading World Place := fun s b place ↦
  match place with
  | .main 0 => some ⟨b, .xTaskCreate 2, .main 1⟩
  | .main 1 => some ⟨b, .xTaskCreate 1, .main 2⟩
  | .main 2 => some ⟨b, .xTaskCreate 2, .main 3⟩
  | .main 3 => some ⟨b, .vTaskStartScheduler, .main 4⟩
  | .main _ => none
  | .poll reading =>
    if reading < readings then some ⟨b, .vTaskDelay pollDelayTicks, .sample reading⟩
    else some ⟨b, .taskReturn, .ended⟩
  | .sample reading =>
    turn (takeReading reading s.sched.tickCount) b (.send toCan) (.publish reading)
  | .publish reading r => some ⟨b, .send toUart r, .poll (reading + 1)⟩
  | .forwarder => some ⟨b, .receive toCan, .forward⟩
  | .forward =>
    turn (Demo.forward (received s toCan)) b (fun _ ↦ .receive toCan) (fun _ ↦ .forward)
  | .logger => some ⟨b, .receive toUart, .log 0⟩
  | .log count =>
    turn (writeText (logLine (received s toUart))) b
      (fun _ ↦ if count + 1 = readings then .taskReturn else .receive toUart)
      (fun _ ↦ if count + 1 = readings then .ended else .log (count + 1))
  | .ended => none

/-! ### The whole program -/

/-- `banner`; src/demo/sensor_demo.cpp:174. -/
def banner : List Char :=
  ['=', '=', '=', ' ', 'M', 'C', 'U', ' ', 'S', 'e', 'n', 's', 'o', 'r', ' ', 'P', 'i', 'p', 'e',
    'l', 'i', 'n', 'e', ' ', 'D', 'e', 'm', 'o', ' ', '=', '=', '=', '\n']

/-- `main` before its first call of the scheduler; src/demo/sensor_demo.cpp:169–176. -/
def setUp : Board.Code Unit := do
  busWrite (base .uart0 + Uart.regCr) Uart.crEnable
  banner.forM fun c ↦ modify fun b ↦
    Function.update b .uart (Uart.writeReg (b .uart) Uart.regDr (BitVec.ofNat 32 c.toNat))

/-- The board at the first call of the scheduler. -/
def boardAtStart : World :=
  match setUp.run powerOn with
  | .ok _ b => b
  | .error _ b => b

/-- The program at the first call of the scheduler. -/
def start : Machine TempReading World Place where
  sys := .init { queueCap := fun _ ↦ 8 }
  world := boardAtStart
  place t :=
    if t = invalidTask then .main 0
    else if t = 0 then .poll 0
    else if t = 1 then .forwarder
    else .logger

/-! ### What is printed -/

/-- `%.1f` of a temperature. -/
def fmtHalf (t : Int) : List Char :=
  (if t < 0 then ['-'] else []) ++ Nat.toDigits 10 (t.natAbs / 2) ++
    if t.natAbs % 2 = 1 then ['.', '5'] else ['.', '0']

/-- The temperature in a frame; src/demo/sensor_demo.cpp:201–202. -/
def frameTemp (d0 : BitVec 32) : Int :=
  let raw := (d0 &&& 0xFFFF).setWidth 16
  (raw.sshiftRight 1).toInt * 2 + if raw &&& 1 ≠ 0 then 1 else 0

/-- The tick in a frame; src/demo/sensor_demo.cpp:200. -/
def frameTick (d0 : BitVec 32) : Nat := (d0 >>> 16 &&& 0xFFFF).toNat

/-- The line of a frame; src/demo/sensor_demo.cpp:198–204. -/
def frameLine (f : CanFrame) : List Char :=
  let d0 := f.word 0
  "  CAN ID=0x".toList ++ (hexUpper f.id.toNat).toList.leftpad 3 '0' ++ " DLC=".toList ++
    Nat.toDigits 10 f.dlc.toNat ++ " tick=".toList ++ Nat.toDigits 10 (frameTick d0) ++
    " temp=".toList ++ fmtHalf (frameTemp d0) ++ " C\n".toList

/-- A pop takes a frame out of the ring. -/
theorem count_rxPop_lt {b : CanBus} (h : 0 < (b.can 1).rx.count) :
    ((b.writeReg 1 Can.regRxPop 1).can 1).rx.count < (b.can 1).rx.count := by
  have hw : (b.writeReg 1 Can.regRxPop 1).can 1 = (b.can 1).rxPop := CanBus.set_can_self _
  rw [hw, Can.rxPop, if_pos h]
  dsimp only
  split <;> exact Nat.sub_lt h Nat.one_pos

/-- The loop over the frames that the second controller received;
src/demo/sensor_demo.cpp:194–205. -/
def dumpFrames (b : CanBus) : List Char :=
  if _h : 0 < (b.can 1).rx.count then
    frameLine (b.can 1).rxPeek ++ dumpFrames (b.writeReg 1 Can.regRxPop 1)
  else []
termination_by (b.can 1).rx.count
decreasing_by exact count_rxPop_lt _h

/-- What `main` prints behind `vTaskStartScheduler`; src/demo/sensor_demo.cpp:188–205. A null byte
ends the text of the UART. -/
def output (b : World) : List Char :=
  ((Uart.drainTx (b .uart)).2.takeWhile (· != 0)).map (fun c ↦ Char.ofNat c.toNat) ++
    "\n--- CAN1 received ".toList ++ Nat.toDigits 10 (CanBus.can (b .can) 1).rx.count ++
    " frame(s) ---\n".toList ++ dumpFrames (b .can)

end McuSimulator.Demo
