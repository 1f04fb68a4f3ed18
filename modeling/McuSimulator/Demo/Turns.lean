import McuSimulator.Demo.SensorDemo

/-!
# The turns of the demo

What the code of each task does to the board between two calls, said in readings: the reader finds
the temperature that it set one reading before, the forwarder appends a frame to what the second
controller has received, and the logger appends a line to what the UART transmits, as long as there
is room.
-/

namespace McuSimulator.Demo

open Memory (Byte)
open Peripherals Peripherals.Board

/-! ### Readings -/

/-- The temperature of a reading in half degrees: 25 degrees, and from the third reading on half a
degree more each time. -/
def tempAt (reading : Nat) : Int := 50 + (reading - 1 : Nat)

/-- A reading with this tick, in the nine bits of the sensor. -/
def readingAt (reading tick : Nat) : TempReading where
  tick := tick
  raw := BitVec.ofInt 16 (tempAt reading % 512)
  celsius := (tempAt reading).bmod 512

/-- The sensor is as the reading finds it. -/
def SensorAt (reading : Nat) (l : Lm75) : Prop := l.temperatureC = (tempAt reading).bmod 512

/-- The raw value of two bytes are the nine bits of their temperature. -/
theorem raw_eq (msb lsb : Byte) :
    (msb.setWidth 16 <<< 1 ||| if lsb &&& 0x80 ≠ 0 then (1 : BitVec 16) else 0) =
      BitVec.ofInt 16 (Lm75.halfDegrees msb lsb % 512) := by
  have hbyte := msb.isLt
  have hhalf : ∀ half : BitVec 16, half.toNat < 2 →
      (msb.setWidth 16 <<< 1 ||| half).toNat = 2 * msb.toNat + half.toNat := by
    intro half h
    have hshift : (msb.setWidth 16 <<< 1).toNat = 2 ^ 1 * msb.toNat := by
      rw [BitVec.toNat_shiftLeft, BitVec.toNat_setWidth, Nat.shiftLeft_eq]
      omega
    rw [BitVec.toNat_or, hshift, ← Nat.two_pow_add_eq_or_of_lt h]
  have hlt : (if lsb &&& 0x80 ≠ 0 then (1 : BitVec 16) else 0).toNat < 2 := by
    split <;> decide
  apply BitVec.eq_of_toNat_eq
  rw [hhalf _ hlt, BitVec.toNat_ofInt, Lm75.halfDegrees, BitVec.toInt_eq_toNat_bmod, Int.bmod_def]
  split_ifs <;> simp <;> omega

/-- The reader finds the temperature and sets the next one. -/
theorem takeReading_eq (reading tick : Nat) (b : World) (h : SensorAt reading (I2c.lm75 (b .i2c))) :
    ∃ s : I2c, SensorAt (reading + 1) s.lm75 ∧
      (takeReading reading tick).run b =
        .ok (readingAt reading tick) (Function.update b .i2c s) := by
  have hread := readSensor_eq b (b .i2c)
  rw [Function.update_eq_self] at hread
  let l : Lm75 := I2c.lm75 (b .i2c)
  refine ⟨{ sr := I2c.srAckOk, regAddr := Lm75.regTemp,
            lm75 := l.setTemperatureC10 (tempScaleBase + reading * 5) }, ?_, ?_⟩
  · show Lm75.temperatureC _ = _
    rw [Lm75.temperatureC_setTemperatureC10, tempScaleBase, tempAt, if_pos (by omega)]
    congr 1
    omega
  · refine (bind_ok hread).trans ?_
    have hraw := raw_eq (l.regs 0) (l.regs 1)
    have hcelsius : Lm75.halfDegrees (l.regs 0) (l.regs 1) = (tempAt reading).bmod 512 := h
    show EStateM.Result.ok (TempReading.mk tick _ _)
      (Function.update (Function.update b _ _) _ _) = _
    have hmod : (tempAt reading).bmod 512 % 512 = tempAt reading % 512 := Int.bmod_emod
    rw [hraw, hcelsius, Function.update_idem, Function.update_self, hmod]
    rfl

/-- A list that has been cut off does not grow. -/
theorem take_concat {β : Type} (n : Nat) (l : List β) (a : β) :
    (l ++ [a]).take n = if l.length < n then l.take n ++ [a] else l.take n := by
  split
  case isTrue h =>
    have hle : (l ++ [a]).length ≤ n := by
      rw [List.length_append]
      exact h
    rw [List.take_of_length_le hle, List.take_of_length_le (by omega)]
  case isFalse h => exact List.take_append_of_le_length (by omega)

/-! ### Frames -/

/-- The frame of a reading. -/
def frameOf (r : TempReading) : CanFrame where
  id := 0x1B0
  dlc := 4
  data j := if j.val < 4 then Memory.byteOf (packWord r) j else 0

/-- The ring of the second controller holds the frames of these readings, the first ones, as many as
there is room for. Nothing has taken a frame out, set a filter or detached the controller. -/
def Forwarded (rs : List TempReading) (c : CanBus) : Prop :=
  ∃ past : List CanBus.Op, CanBus.Agrees [0, 1] past c ∧ CanBus.InTable [0, 1] 1 past ∧
    CanBus.filter 1 past = (0, 0) ∧
    (CanBus.pending [0, 1] 1 past).map Prod.snd = (rs.map frameOf).take Can.rxCapacity

/-- What the forwarder does to the history of the bus. -/
def sendOps (r : TempReading) : List CanBus.Op :=
  [.write 0 Can.regTxSend 1, .write 0 Can.regTxD1 0, .write 0 Can.regTxD0 (packWord r),
    .write 0 Can.regTxDlc 4, .write 0 Can.regTxId tempCanId]

/-- The frame that is sent is the one staged before. -/
theorem staged_sendOps (r : TempReading) (past : List CanBus.Op) :
    CanBus.staged 0 ((sendOps r).tail ++ past) = frameOf r := by
  have hzero : ∀ i, Memory.byteOf (0 : BitVec 32) i = 0 := fun i ↦ by simp [Memory.byteOf]
  have hdata : (fun j : Fin 8 ↦ if 4 ≤ j.val then Memory.byteOf (0 : BitVec 32) (j - 4) else
      if j.val < 4 then Memory.byteOf (packWord r) j else (CanBus.staged 0 past).data j) =
      (frameOf r).data := by
    funext j
    show (if 4 ≤ j.val then _ else _) = if j.val < 4 then _ else _
    rw [hzero]
    split_ifs <;> first | omega | rfl
  exact congrArg (CanFrame.mk 0x1B0 4) hdata

/-- One more frame becomes pending, as long as there is room. -/
theorem pending_sendOps (r : TempReading) {past : List CanBus.Op}
    (ht : CanBus.InTable [0, 1] 1 past) (hf : CanBus.filter 1 past = (0, 0)) :
    CanBus.pending [0, 1] 1 (sendOps r ++ past) =
      if (CanBus.pending [0, 1] 1 past).length < Can.rxCapacity then
        CanBus.pending [0, 1] 1 past ++ [(0, frameOf r)]
      else CanBus.pending [0, 1] 1 past := by
  have hpasses : CanBus.Passes [0, 1] 0 1 ((sendOps r).tail ++ past) := by
    refine ⟨⟨ht.1, by simpa [sendOps] using ht.2⟩, by decide, ?_⟩
    rw [show CanBus.filter 1 ((sendOps r).tail ++ past) = (0, 0) from hf]
    exact BitVec.and_zero.trans BitVec.and_zero.symm
  show (if CanBus.Passes [0, 1] 0 1 ((sendOps r).tail ++ past) ∧ _ then
    _ ++ [(0, CanBus.staged 0 ((sendOps r).tail ++ past))] else _) = _
  rw [staged_sendOps]
  simp only [hpasses, true_and]
  rfl

private theorem Forwarded.send {rs : List TempReading} {c : CanBus} (h : Forwarded rs c)
    (r : TempReading) :
    Forwarded (rs ++ [r]) (((((c.writeReg 0 Can.regTxId tempCanId).writeReg 0 Can.regTxDlc
      4).writeReg 0 Can.regTxD0 (packWord r)).writeReg 0 Can.regTxD1 0).writeReg
      0 Can.regTxSend 1) := by
  obtain ⟨past, hagrees, htable, hfilter, hframes⟩ := h
  refine ⟨sendOps r ++ past, ?_, ⟨htable.1, ?_⟩, hfilter, ?_⟩
  · exact ((((hagrees.write 0 _ _).write 0 _ _).write 0 _ _).write 0 _ _).write 0 _ _
  · simpa [sendOps] using htable.2
  have hlen : (CanBus.pending [0, 1] 1 past).length = min Can.rxCapacity rs.length := by
    have hlength := congrArg List.length hframes
    rwa [List.length_map, List.length_take, List.length_map] at hlength
  rw [pending_sendOps r htable hfilter, hlen, List.map_append, List.map_singleton, take_concat,
    List.length_map, ← hframes]
  by_cases hlt : rs.length < Can.rxCapacity
  · rw [if_pos (by omega), if_pos hlt, List.map_append]
    rfl
  · rw [if_neg (by omega), if_neg hlt]

/-- The forwarder appends the frame of the reading. -/
theorem forward_eq {rs : List TempReading} (r : TempReading) (b : World)
    (h : Forwarded rs (b .can)) :
    ∃ c : CanBus, Forwarded (rs ++ [r]) c ∧
      (forward r).run b = .ok () (Function.update b .can c) := by
  refine ⟨_, h.send r, ?_⟩
  conv => lhs; rw [← Function.update_eq_self Part.can b]
  refine (bind_ok (busWrite_can (by decide) _ b _)).trans ?_
  refine (bind_ok (busWrite_can (by decide) _ b _)).trans ?_
  refine (bind_ok (busWrite_can (by decide) _ b _)).trans ?_
  refine (bind_ok (busWrite_can (by decide) _ b _)).trans ?_
  refine (bind_ok (busWrite_can (by decide) _ b _)).trans ?_
  exact bind_ok (busRead_can (by decide) b _)

/-! ### Text -/

/-- The byte of a character. -/
def byteOf (c : Char) : Byte := BitVec.ofNat 8 c.toNat

/-- The transmit FIFO of the enabled UART holds the beginning of this text, as much as it has room
for. -/
def Logged (text : List Char) (u : Uart) : Prop :=
  ∃ q : Uart.Queues, Uart.Refines u q ∧ q.cr = Uart.crEnable ∧
    q.tx = (text.map byteOf).take Uart.fifoSize

/-- One more character. -/
theorem Logged.write {text : List Char} {u : Uart} (h : Logged text u) (c : Char) :
    Logged (text ++ [c]) (u.writeReg Uart.regDr (BitVec.ofNat 32 c.toNat)) := by
  obtain ⟨q, hrefines, hcr, htx⟩ := h
  have hbyte : (BitVec.ofNat 32 c.toNat).setWidth 8 = byteOf c := by
    apply BitVec.eq_of_toNat_eq
    rw [BitVec.toNat_setWidth, BitVec.toNat_ofNat, byteOf, BitVec.toNat_ofNat]
    omega
  have htarget : q.target = .tx := by
    rw [Uart.Queues.target, hcr]
    rfl
  have hwrite : q.writeReg Uart.regDr (BitVec.ofNat 32 c.toNat) = q.offer (byteOf c) .tx := by
    rw [Uart.Queues.writeReg, if_pos rfl, hbyte, htarget]
  refine ⟨q.offer (byteOf c) .tx, hwrite ▸ hrefines.writeReg _ _, hcr, ?_⟩
  have hlen : q.tx.length = min Uart.fifoSize text.length := by
    rw [htx, List.length_take, List.length_map]
  show (Uart.enqueue q.tx (byteOf c)).1 = _
  rw [Uart.enqueue, List.map_append, List.map_singleton, take_concat, List.length_map, ← htx]
  by_cases hlt : text.length < Uart.fifoSize
  · rw [if_pos (by omega), if_pos hlt]
  · rw [if_neg (by omega), if_neg hlt]

/-- Code that writes a character at a time. -/
theorem forM_eq {f : Char → Board.Code Unit}
    (hf : ∀ (c : Char) (b : World), (f c).run b = .ok () (Function.update b .uart
      (Uart.writeReg (b .uart) Uart.regDr (BitVec.ofNat 32 c.toNat))))
    (line : List Char) {text : List Char} (b : World) (h : Logged text (b .uart)) :
    ∃ u : Uart, Logged (text ++ line) u ∧
      (line.forM f).run b = .ok () (Function.update b .uart u) := by
  induction line generalizing text b with
  | nil =>
    refine ⟨b .uart, by rwa [List.append_nil], ?_⟩
    rw [Function.update_eq_self]
    rfl
  | cons c line ih =>
    have hnext : Logged (text ++ [c]) (Function.update b .uart
        (Uart.writeReg (b .uart) Uart.regDr (BitVec.ofNat 32 c.toNat)) .uart) := by
      rw [Function.update_self]
      exact h.write c
    obtain ⟨u, hu, hrest⟩ := ih _ hnext
    rw [List.append_assoc] at hu
    rw [Function.update_idem] at hrest
    exact ⟨u, hu, (bind_ok (hf c b)).trans hrest⟩

/-- The logger appends the text. -/
theorem writeText_eq (line : List Char) {text : List Char} (b : World)
    (h : Logged text (b .uart)) :
    ∃ u : Uart, Logged (text ++ line) u ∧
      (writeText line).run b = .ok () (Function.update b .uart u) := by
  refine forM_eq (fun c b ↦ ?_) line b h
  have hdr : Uart.regDr.toNat < 0x1000 := by decide
  have hwrite := busWrite_uart hdr (BitVec.ofNat 32 c.toNat) b (b .uart)
  rwa [Function.update_eq_self] at hwrite

/-- What `main` writes itself. -/
theorem setUp_eq : ∃ u : Uart, Logged banner u ∧
    setUp.run powerOn = .ok () (Function.update powerOn .uart u) := by
  have henable : (busWrite (base .uart0 + Uart.regCr) Uart.crEnable).run powerOn =
      .ok () (Function.update powerOn .uart (Uart.writeReg {} Uart.regCr Uart.crEnable)) := by
    have hcr : Uart.regCr.toNat < 0x1000 := by decide
    have hwrite := busWrite_uart hcr Uart.crEnable powerOn {}
    rwa [show Function.update powerOn Part.uart ({} : Uart) = powerOn from
      Function.update_eq_self Part.uart powerOn] at hwrite
  have hempty : Logged [] (Uart.writeReg {} Uart.regCr Uart.crEnable) :=
    ⟨_, Uart.refines_new.writeReg _ _, rfl, rfl⟩
  obtain ⟨u, hu, hrest⟩ := forM_eq (fun _ _ ↦ rfl) banner
    (Function.update powerOn .uart (Uart.writeReg {} Uart.regCr Uart.crEnable))
    (by rw [Function.update_self]; exact hempty)
  rw [Function.update_idem] at hrest
  exact ⟨u, hu, (bind_ok henable).trans hrest⟩

/-- The board when the scheduler starts: `main` has written its banner. -/
theorem boardAtStart_eq : ∃ u : Uart, Logged banner u ∧
    boardAtStart = Function.update powerOn .uart u := by
  obtain ⟨u, hu, hrun⟩ := setUp_eq
  refine ⟨u, hu, ?_⟩
  rw [boardAtStart, hrun]

/-- The sensor starts with the temperature of the first reading. -/
theorem sensorAt_start : SensorAt 0 (I2c.lm75 (powerOn .i2c)) := by
  show Lm75.temperatureC {} = _
  decide

/-- The ring of the second controller is empty at the start. -/
theorem forwarded_start : Forwarded [] (powerOn .can) :=
  ⟨[], CanBus.agrees_start (by decide), by decide, rfl, rfl⟩

end McuSimulator.Demo
