import McuSimulator.Base.SideBySide
import McuSimulator.Peripherals.CanDelivery
import McuSimulator.Peripherals.I2c
import McuSimulator.Peripherals.PeripheralBus
import McuSimulator.Peripherals.UartFifo
import McuSimulator.Peripherals.WriteProtection

/-!
# The board

The peripherals behind the bus, wired as `src/demo/sensor_demo.cpp` wires them. A program reaches
them by address only. Whatever it does, each peripheral ends as it does alone on the accesses to its
own windows, so what holds of a peripheral over its register accesses holds on the board.
-/

namespace McuSimulator.Peripherals

open Base (respond sideBySide sentTo answersOf)
open Memory (Byte)

universe u v w

/-! ### Accesses over the bus -/

/-- An access of a program to an address. -/
inductive Access
  | read (addr : BitVec 32)
  | write (addr val : BitVec 32)
  deriving DecidableEq, Repr

/-- The address of an access. -/
def Access.addr : Access → BitVec 32
  | .read addr => addr
  | .write addr _ => addr

/-- An access to a register. -/
inductive RegAccess
  | read (offset : BitVec 32)
  | write (offset val : BitVec 32)
  deriving DecidableEq, Repr

/-- The access at an offset. -/
def Access.at (a : Access) (offset : BitVec 32) : RegAccess :=
  match a with
  | .read _ => .read offset
  | .write _ val => .write offset val

/-- What a bus access answers: the word that is read, nothing of interest for a write, or the
exception. -/
abbrev BusAnswer := Except PeripheralError (BitVec 32)

/-- `IPeripheral` by parts: the state behind each pointer, and the registers of each part. -/
structure Parts (P : Type u) (κ : Type v) (σ : κ → Type w) where
  part : P → κ
  readReg : ∀ k, P → BitVec 32 → σ k → σ k × BitVec 32
  writeReg : ∀ k, P → BitVec 32 → BitVec 32 → σ k → σ k

namespace Parts

variable {P : Type u} {κ : Type v} [DecidableEq κ] {σ : κ → Type w} (d : Parts P κ σ)

/-- All the parts together. -/
def device : IPeripheral P (∀ k, σ k) where
  readReg p offset s :=
    let r := d.readReg (d.part p) p offset (s (d.part p))
    (Function.update s (d.part p) r.1, r.2)
  writeReg p offset val s :=
    Function.update s (d.part p) (d.writeReg (d.part p) p offset val (s (d.part p)))

/-- One part alone. -/
def step (k : κ) (s : σ k) : P × RegAccess → σ k × BusAnswer
  | (p, .read offset) => ((d.readReg k p offset s).1, .ok (d.readReg k p offset s).2)
  | (p, .write offset val) => (d.writeReg k p offset val s, .ok 0)

/-- Where an access goes. -/
def route (b : PeripheralBus P) (a : Access) : Option (κ × (P × RegAccess)) :=
  (b.find a.addr).map fun e ↦ (d.part e.periph, (e.periph, a.at (a.addr - e.base)))

end Parts

namespace PeripheralBus

variable {P : Type u} {κ : Type v} [DecidableEq κ] {σ : κ → Type w}

/-- One access over the bus. -/
def access {σ : Type w} (b : PeripheralBus P) (dev : IPeripheral P σ) (s : σ) :
    Access → σ × BusAnswer
  | .read addr => ((b.read dev addr s).2, (b.read dev addr s).1)
  | .write addr val => ((b.write dev addr val s).2, (b.write dev addr val s).1.map fun _ ↦ 0)

/-- The bus puts the parts side by side. -/
theorem access_eq (b : PeripheralBus P) (d : Parts P κ σ) :
    b.access d.device =
      sideBySide (d.route b) d.step fun a ↦ .error (.addressError a.addr) := by
  funext s a
  cases a with
  | read addr =>
    rw [access, PeripheralBus.read, sideBySide, Parts.route, Access.addr]
    cases b.find addr <;> rfl
  | write addr val =>
    rw [access, PeripheralBus.write, sideBySide, Parts.route, Access.addr]
    cases b.find addr <;> rfl

/-- Over any accesses to a bus, each part ends and answers as it does alone on those that are sent
to it. -/
theorem respond_access (b : PeripheralBus P) (d : Parts P κ σ) (s : ∀ k, σ k)
    (as : List Access) (k : κ) :
    (respond (b.access d.device) s as).1 k =
        (respond (d.step k) (s k) (as.filterMap (sentTo (d.route b) k))).1 ∧
      answersOf (d.route b) k as (respond (b.access d.device) s as).2 =
        (respond (d.step k) (s k) (as.filterMap (sentTo (d.route b) k))).2 := by
  rw [access_eq]
  exact Base.respond_sideBySide s as k

end PeripheralBus

/-! ### The wiring -/

namespace PeriphMap

/-- `UART0_BASE`; src/peripherals/peripheral.h:34. -/
def uart0Base : BitVec 32 := 0x40000000

/-- `SPI0_BASE`; src/peripherals/peripheral.h:36. -/
def spi0Base : BitVec 32 := 0x40002000

/-- `I2C0_BASE`; src/peripherals/peripheral.h:37. -/
def i2c0Base : BitVec 32 := 0x40003000

/-- `CAN0_BASE`; src/peripherals/peripheral.h:38. -/
def can0Base : BitVec 32 := 0x40004000

/-- `CAN1_BASE`; src/peripherals/peripheral.h:39. -/
def can1Base : BitVec 32 := 0x40005000

/-- `REGION_SIZE`; src/peripherals/peripheral.h:40. -/
def regionSize : BitVec 32 := 0x1000

end PeriphMap

/-- A history from its first operation on. -/
theorem CanBus.after_reverse (nodes : List NodeId) (ops : List CanBus.Op) :
    CanBus.after nodes ops.reverse = ops.foldl CanBus.exec (CanBus.start nodes) := by
  rw [← List.foldr_reverse]
  induction ops.reverse with
  | nil => rfl
  | cons op past ih => rw [CanBus.after, ih, List.foldr_cons]

namespace Board

open PeripheralBus (Entry attachAll)

/-- The peripherals of the demo; src/demo/sensor_demo.cpp:48–52. -/
inductive Periph
  | uart0
  | spi0
  | i2c0
  | can0
  | can1
  deriving DecidableEq, Repr

/-- What has a state of its own: the two controllers share their CAN bus. -/
inductive Part
  | uart
  | spi
  | i2c
  | can
  deriving DecidableEq, Repr

/-- The states. -/
abbrev State : Part → Type
  | .uart => Uart
  | .spi => Spi
  | .i2c => I2c
  | .can => CanBus

/-- The controllers by number. -/
def node : Periph → NodeId
  | .can1 => 1
  | _ => 0

/-- The calls of `attach`; src/demo/sensor_demo.cpp:163–167. -/
def entries : List (Entry Periph) :=
  [⟨PeriphMap.uart0Base, PeriphMap.regionSize, .uart0⟩,
    ⟨PeriphMap.spi0Base, PeriphMap.regionSize, .spi0⟩,
    ⟨PeriphMap.i2c0Base, PeriphMap.regionSize, .i2c0⟩,
    ⟨PeriphMap.can0Base, PeriphMap.regionSize, .can0⟩,
    ⟨PeriphMap.can1Base, PeriphMap.regionSize, .can1⟩]

/-- `periph_bus`. -/
def bus : PeripheralBus Periph := attachAll entries

/-- `read_reg` and `write_reg` of the peripherals. -/
def peripherals : Parts Periph Part State where
  part
    | .uart0 => .uart
    | .spi0 => .spi
    | .i2c0 => .i2c
    | .can0 | .can1 => .can
  readReg
    | .uart, _, offset, s => Uart.readReg s offset
    | .spi, _, offset, s => Spi.readReg s offset
    | .i2c, _, offset, s => I2c.readReg s offset
    | .can, p, offset, s => (s, (CanBus.can s (node p)).readReg offset)
  writeReg
    | .uart, _, offset, val, s => Uart.writeReg s offset val
    | .spi, _, offset, val, s => Spi.writeReg s offset val
    | .i2c, _, offset, val, s => I2c.writeReg s offset val
    | .can, p, offset, val, s => CanBus.writeReg s (node p) offset val

/-- New peripherals; the controllers have attached themselves to the CAN bus;
src/demo/sensor_demo.cpp:47–52. -/
def powerOn : ∀ k, State k
  | .uart => ({} : Uart)
  | .spi => ({} : Spi)
  | .i2c => ({} : I2c)
  | .can => CanBus.start [0, 1]

/-- One access. -/
def access (s : ∀ k, State k) (a : Access) : (∀ k, State k) × BusAnswer :=
  bus.access peripherals.device s a

/-- The board after accesses from power-on. -/
def run (as : List Access) : ∀ k, State k := (respond access powerOn as).1

/-- The answers to them. -/
def answers (as : List Access) : List BusAnswer := (respond access powerOn as).2

/-! ### Windows -/

/-- The address lies in the window of the usual size at a base. -/
def InRegion (base addr : BitVec 32) : Prop :=
  base.toNat ≤ addr.toNat ∧ addr.toNat < base.toNat + 0x1000

instance (base addr : BitVec 32) : Decidable (InRegion base addr) :=
  inferInstanceAs (Decidable (_ ∧ _))

/-- The access, as one to the window at a base. -/
def within (base : BitVec 32) (a : Access) : Option RegAccess :=
  if InRegion base a.addr then some (a.at (a.addr - base)) else none

private theorem find?_window (p : Periph) (base addr : BitVec 32) (h : base.toNat + 0x1000 < 2 ^ 32)
    (rest : List (Entry Periph)) :
    (⟨base, PeriphMap.regionSize, p⟩ :: rest).find? (fun e : Entry Periph ↦ e.Matches addr) =
      if InRegion base addr then some ⟨base, PeriphMap.regionSize, p⟩
      else rest.find? fun e : Entry Periph ↦ e.Matches addr := by
  have hmatches : (⟨base, PeriphMap.regionSize, p⟩ : Entry Periph).Matches addr ↔
      InRegion base addr := by
    rw [Entry.matches_iff]
    exact and_iff_left (Nat.not_le.mpr h)
  rw [List.find?_cons]
  by_cases hin : InRegion base addr
  · rw [if_pos hin, decide_eq_true (hmatches.mpr hin)]
  · rw [if_neg hin, decide_eq_false (mt hmatches.mp hin)]

/-- An access to a controller. -/
def canAccess (a : Access) : Option (Periph × RegAccess) :=
  ((within PeriphMap.can0Base a).map (Prod.mk .can0)).or
    ((within PeriphMap.can1Base a).map (Prod.mk .can1))

/-- Where an access goes. -/
theorem route_eq (a : Access) : peripherals.route bus a =
    if InRegion PeriphMap.uart0Base a.addr then
      some (.uart, .uart0, a.at (a.addr - PeriphMap.uart0Base))
    else if InRegion PeriphMap.spi0Base a.addr then
      some (.spi, .spi0, a.at (a.addr - PeriphMap.spi0Base))
    else if InRegion PeriphMap.i2c0Base a.addr then
      some (.i2c, .i2c0, a.at (a.addr - PeriphMap.i2c0Base))
    else if InRegion PeriphMap.can0Base a.addr then
      some (.can, .can0, a.at (a.addr - PeriphMap.can0Base))
    else if InRegion PeriphMap.can1Base a.addr then
      some (.can, .can1, a.at (a.addr - PeriphMap.can1Base))
    else none := by
  have hentries : bus.entries = entries := PeripheralBus.attachAll_entries entries
  rw [Parts.route, PeripheralBus.find, hentries, entries,
    find?_window .uart0 _ _ (by decide), find?_window .spi0 _ _ (by decide),
    find?_window .i2c0 _ _ (by decide), find?_window .can0 _ _ (by decide),
    find?_window .can1 _ _ (by decide), List.find?_nil]
  split_ifs <;> rfl

/-- No peripheral is mapped there. -/
def Unmapped (addr : BitVec 32) : Prop :=
  ∀ base ∈ [PeriphMap.uart0Base, PeriphMap.spi0Base, PeriphMap.i2c0Base, PeriphMap.can0Base,
    PeriphMap.can1Base], ¬ InRegion base addr

instance (addr : BitVec 32) : Decidable (Unmapped addr) := inferInstanceAs (Decidable (∀ _ ∈ _, _))

private theorem route_eq_none_iff (a : Access) :
    peripherals.route bus a = none ↔ Unmapped a.addr := by
  rw [route_eq]
  split_ifs <;> simp [Unmapped, *]

private theorem not_inRegion {base base' addr : BitVec 32} (h : InRegion base addr)
    (hne : base.toNat + 0x1000 ≤ base'.toNat ∨ base'.toNat + 0x1000 ≤ base.toNat) :
    ¬ InRegion base' addr := by
  unfold InRegion at *
  omega

/-! ### What each peripheral sees -/

private theorem sentTo_uart (a : Access) : sentTo (peripherals.route bus) .uart a =
    (within PeriphMap.uart0Base a).map (Prod.mk .uart0) := by
  rw [sentTo, route_eq, within]
  split_ifs <;> rfl

private theorem sentTo_spi (a : Access) : sentTo (peripherals.route bus) .spi a =
    (within PeriphMap.spi0Base a).map (Prod.mk .spi0) := by
  rw [sentTo, route_eq, within]
  by_cases hin : InRegion PeriphMap.spi0Base a.addr
  · rw [if_neg (not_inRegion hin (by decide)), if_pos hin, if_pos hin]
    rfl
  · rw [if_neg hin, if_neg hin]
    split_ifs <;> rfl

private theorem sentTo_i2c (a : Access) : sentTo (peripherals.route bus) .i2c a =
    (within PeriphMap.i2c0Base a).map (Prod.mk .i2c0) := by
  rw [sentTo, route_eq, within]
  by_cases hin : InRegion PeriphMap.i2c0Base a.addr
  · rw [if_neg (not_inRegion hin (by decide)), if_neg (not_inRegion hin (by decide)), if_pos hin,
      if_pos hin]
    rfl
  · rw [if_neg hin, if_neg hin]
    split_ifs <;> rfl

private theorem sentTo_can (a : Access) : sentTo (peripherals.route bus) .can a = canAccess a := by
  rw [sentTo, route_eq, canAccess, within, within]
  by_cases hin : InRegion PeriphMap.can0Base a.addr
  · rw [if_neg (not_inRegion hin (by decide)), if_neg (not_inRegion hin (by decide)),
      if_neg (not_inRegion hin (by decide)), if_pos hin, if_pos hin]
    rfl
  · rw [if_neg hin, if_neg hin]
    by_cases hin' : InRegion PeriphMap.can1Base a.addr
    · rw [if_neg (not_inRegion hin' (by decide)), if_neg (not_inRegion hin' (by decide)),
        if_neg (not_inRegion hin' (by decide)), if_pos hin', if_pos hin']
      rfl
    · rw [if_neg hin', if_neg hin']
      split_ifs <;> rfl

/-- An access as an operation of the UART. -/
def uartOp : RegAccess → Uart.Op
  | .read offset => .readReg offset
  | .write offset val => .writeReg offset val

/-- An access as an operation of the SPI master. -/
def spiOp : RegAccess → Spi.Op
  | .read offset => .read offset
  | .write offset val => .write offset val

/-- An access as an operation of the I2C master. -/
def i2cOp : RegAccess → I2c.Op
  | .read offset => .readReg offset
  | .write offset val => .writeReg offset val

/-- An access to a controller as an operation on its CAN bus: a read is none. -/
def canOp : Periph × RegAccess → Option CanBus.Op
  | (_, .read _) => none
  | (p, .write offset val) => some (.write (node p) offset val)

/-- The accesses to a window, each in the form that its peripheral takes. -/
def opsAt {ω : Type} (base : BitVec 32) (op : RegAccess → ω) (as : List Access) : List ω :=
  as.filterMap fun a ↦ (within base a).map op

/-- The operations on the CAN bus, the last one first. -/
def canPast (as : List Access) : List CanBus.Op :=
  (as.filterMap fun a ↦ (canAccess a).bind canOp).reverse

/-- The answers to the accesses to a window. -/
def answersAt (base : BitVec 32) (as : List Access) : List BusAnswer :=
  ((as.zip (answers as)).filter fun x ↦ InRegion base x.1.addr).map Prod.snd

/-- The word that an operation of the UART gives. -/
def uartWord : Uart.Answer → BusAnswer
  | .word val => .ok val
  | _ => .ok 0

section Alone

variable (as : List Access)

/-- A part of the board sees the accesses that are sent to it. -/
theorem respond_part (b : ∀ k, State k) (k : Part) : (respond access b as).1 k =
    (respond (peripherals.step k) (b k) (as.filterMap (sentTo (peripherals.route bus) k))).1 :=
  (PeripheralBus.respond_access bus peripherals b as k).1

private theorem run_uart : run as .uart = Uart.run (opsAt PeriphMap.uart0Base uartOp as) ∧
    answersAt PeriphMap.uart0Base as =
      (Uart.answers (opsAt PeriphMap.uart0Base uartOp as)).map uartWord := by
  have hstep : ∀ (u : Uart) (x : Periph × RegAccess), peripherals.step .uart u x =
      ((u.exec (uartOp x.2)).1, uartWord (u.exec (uartOp x.2)).2) := by
    rintro u ⟨p, offset | ⟨offset, val⟩⟩ <;> rfl
  have hops : (as.filterMap (sentTo (peripherals.route bus) .uart)).map
      (fun x : Periph × RegAccess ↦ uartOp x.2) = opsAt PeriphMap.uart0Base uartOp as := by
    rw [List.map_filterMap, opsAt, funext sentTo_uart]
    simp only [Option.map_map, Function.comp_def]
  have hone := Base.respond_map (fun x : Periph × RegAccess ↦ uartOp x.2) uartWord hstep
    (powerOn .uart) (as.filterMap (sentTo (peripherals.route bus) .uart))
  rw [hops] at hone
  obtain ⟨hstate, hanswers⟩ := PeripheralBus.respond_access bus peripherals powerOn as .uart
  refine ⟨hstate.trans (congrArg Prod.fst hone), ?_⟩
  rw [hone] at hanswers
  rw [← show _ = (Uart.answers _).map uartWord from hanswers, answersAt, Base.answersOf]
  congr 2
  funext x
  rw [sentTo_uart, within]
  by_cases hin : InRegion PeriphMap.uart0Base x.1.addr <;> simp [hin]

/-- A part that has one window ends as the accesses to this window make it. -/
theorem respond_window {ω : Type} {k : Part} {p : Periph} {base : BitVec 32} {op : RegAccess → ω}
    {exec : State k → ω → State k}
    (hsent : ∀ a, sentTo (peripherals.route bus) k a = (within base a).map (Prod.mk p))
    (hstep : ∀ s r, (peripherals.step k s (p, r)).1 = exec s (op r)) (b : ∀ k, State k) :
    (respond access b as).1 k = (opsAt base op as).foldl exec (b k) := by
  rw [respond_part, Base.fst_respond, opsAt, funext hsent, List.foldl_filterMap,
    List.foldl_filterMap]
  congr 1
  funext s a
  cases within base a with
  | none => rfl
  | some r => exact hstep s r

private theorem run_spi : run as .spi = Spi.run (opsAt PeriphMap.spi0Base spiOp as) :=
  respond_window as sentTo_spi (fun _ r ↦ by cases r <;> rfl) powerOn

private theorem run_i2c : run as .i2c = I2c.run (opsAt PeriphMap.i2c0Base i2cOp as) :=
  respond_window as sentTo_i2c (fun _ r ↦ by cases r <;> rfl) powerOn

private theorem run_can : run as .can = CanBus.after [0, 1] (canPast as) := by
  rw [run, respond_part, Base.fst_respond, canPast, CanBus.after_reverse, funext sentTo_can,
    List.foldl_filterMap, List.foldl_filterMap]
  congr 1
  funext b a
  cases h : canAccess a with
  | none =>
    rfl
  | some r =>
    obtain ⟨p, offset | ⟨offset, val⟩⟩ := r <;> rfl

/-- Only an access to an unmapped address throws. -/
theorem answer_eq_error_iff {i : Nat} {a : Access} (h : as[i]? = some a) :
    (answers as)[i]? = some (.error (.addressError a.addr)) ↔ Unmapped a.addr := by
  rw [answers, Base.getElem?_snd_respond, h, Option.map_some, access, PeripheralBus.access_eq,
    sideBySide]
  constructor
  · intro hthrown
    by_contra hmapped
    obtain ⟨x, hx⟩ := Option.ne_none_iff_exists'.mp (mt (route_eq_none_iff a).mp hmapped)
    rw [hx] at hthrown
    obtain ⟨k, p, offset | ⟨offset, val⟩⟩ := x <;> cases hthrown
  · intro hunmapped
    rw [(route_eq_none_iff a).mpr hunmapped]

end Alone

/-- Whatever a program reads and writes over the bus, each peripheral is what the accesses to its
own window make of it, and what holds of it alone holds on the board: the UART answers as two
bounded queues do and holds what they hold, the flash is what the calls made on it say and is
write-protected over them, the sensor sees its own transactions only, and each controller holds the
frames that the two controllers sent and that passed its filter. An access throws exactly when no
peripheral is mapped at its address. -/
theorem board_runs_alone (as : List Access) :
    let uartOps := opsAt PeriphMap.uart0Base uartOp as
    let spi : Spi := run as .spi
    let bus : CanBus := run as .can
    (answersAt PeriphMap.uart0Base as =
        (respond Uart.Queues.exec {} uartOps).2.map uartWord ∧
      Uart.queues (run as .uart) = (respond Uart.Queues.exec {} uartOps).1) ∧
    (spi = Spi.run (opsAt PeriphMap.spi0Base spiOp as) ∧
      spi.flash = W25Q32Flash.replay spi.calls ∧ W25Q32Flash.WriteProtected spi.calls) ∧
    run as .i2c = I2c.run (opsAt PeriphMap.i2c0Base i2cOp as) ∧
    (∀ m, (bus.can m).rx.contents Can.rxCapacity =
      (CanBus.pending [0, 1] m (canPast as)).map Prod.snd) ∧
    ∀ (i : Nat) (a : Access), as[i]? = some a →
      ((answers as)[i]? = some (.error (.addressError a.addr)) ↔ Unmapped a.addr) := by
  intro uartOps spi bus
  obtain ⟨huart, hanswers⟩ := run_uart as
  obtain ⟨hrefines, hqueues⟩ := Uart.refines_run uartOps
  have hdrives : spi.Drives := by
    rw [show spi = _ from run_spi as]
    exact (Spi.extends_foldl _ {}).drives ⟨.nil, rfl⟩
  have hagrees : CanBus.Agrees [0, 1] (canPast as) bus := by
    rw [show bus = _ from run_can as]
    exact CanBus.agrees_after (by decide) _
  refine ⟨⟨?_, ?_⟩, ⟨run_spi as, hdrives.flash, hdrives.framed.writeProtected⟩, run_i2c as,
    fun m ↦ (hagrees.receives m).contents, fun i a h ↦ answer_eq_error_iff as h⟩
  · rw [hanswers, hqueues]
  · rw [huart]
    exact hrefines.queues_eq

/-- A byte through the UART in loopback mode, with a write to the SPI master in between and one to
an unmapped address behind. -/
example : answersAt PeriphMap.uart0Base [.write 0x40000008 4, .write 0x40000000 0x41,
    .write 0x40002000 8, .read 0x40000000, .write 0x40006000 0] = [.ok 0, .ok 0, .ok 0x41] := by
  decide

/-! ### Code over the bus -/

/-- Code of a program: it changes the board, and an access to an unmapped address throws. -/
abbrev Code := EStateM PeripheralError (∀ k, State k)

/-- `periph_bus.read`. -/
def busRead (addr : BitVec 32) : Code (BitVec 32) := fun b ↦
  match access b (.read addr) with
  | (b, .ok val) => .ok val b
  | (b, .error e) => .error e b

/-- `periph_bus.write`. -/
def busWrite (addr val : BitVec 32) : Code Unit := fun b ↦
  match access b (.write addr val) with
  | (b, .ok _) => .ok () b
  | (b, .error e) => .error e b

/-- The window of a peripheral. -/
def base : Periph → BitVec 32
  | .uart0 => PeriphMap.uart0Base
  | .spi0 => PeriphMap.spi0Base
  | .i2c0 => PeriphMap.i2c0Base
  | .can0 => PeriphMap.can0Base
  | .can1 => PeriphMap.can1Base

private theorem inRegion_base (p : Periph) {offset : BitVec 32} (h : offset.toNat < 0x1000) :
    InRegion (base p) (base p + offset) := by
  have hbase : (base p).toNat + 0x1000 < 2 ^ 32 := by cases p <;> decide
  unfold InRegion
  rw [BitVec.toNat_add]
  omega

/-- An offset in the window of a peripheral reaches its register. -/
theorem route_base (p : Periph) {offset : BitVec 32} (h : offset.toNat < 0x1000) {a : Access}
    (ha : a.addr = base p + offset) :
    peripherals.route bus a = some (peripherals.part p, p, a.at offset) := by
  have hin := inRegion_base p h
  have hat : some (peripherals.part p, p, a.at (base p + offset - base p)) =
      some (peripherals.part p, p, a.at offset) := by
    rw [BitVec.add_comm (base p), BitVec.add_sub_cancel]
  rw [route_eq, ha]
  -- the windows before that of the peripheral do not contain the address
  cases p
  case uart0 => exact (if_pos hin).trans hat
  case spi0 => exact (if_neg (not_inRegion hin (by decide))).trans ((if_pos hin).trans hat)
  case i2c0 =>
    refine (if_neg (not_inRegion hin (by decide))).trans ?_
    exact (if_neg (not_inRegion hin (by decide))).trans ((if_pos hin).trans hat)
  case can0 =>
    refine (if_neg (not_inRegion hin (by decide))).trans ?_
    refine (if_neg (not_inRegion hin (by decide))).trans ?_
    exact (if_neg (not_inRegion hin (by decide))).trans ((if_pos hin).trans hat)
  case can1 =>
    refine (if_neg (not_inRegion hin (by decide))).trans ?_
    refine (if_neg (not_inRegion hin (by decide))).trans ?_
    refine (if_neg (not_inRegion hin (by decide))).trans ?_
    exact (if_neg (not_inRegion hin (by decide))).trans ((if_pos hin).trans hat)

section Code

variable {β γ : Type} {c : Code β} {f : β → Code γ} {b b' : ∀ k, State k} {v : β}

/-- Code that returns is followed by what it is bound to. -/
theorem bind_ok (h : c.run b = .ok v b') : (c >>= f).run b = (f v).run b' := by
  show EStateM.bind c f b = f v b'
  rw [EStateM.bind, show c b = .ok v b' from h]

private theorem busRead_eq (p : Periph) {offset : BitVec 32} (h : offset.toNat < 0x1000)
    (b : ∀ k, State k) :
    (busRead (base p + offset)).run b =
      let r := peripherals.readReg (peripherals.part p) p offset (b (peripherals.part p))
      .ok r.2 (Function.update b (peripherals.part p) r.1) := by
  rw [EStateM.run, busRead, access, PeripheralBus.access_eq, sideBySide,
    route_base p h (a := .read (base p + offset)) rfl]
  rfl

private theorem busWrite_eq (p : Periph) {offset : BitVec 32} (h : offset.toNat < 0x1000)
    (val : BitVec 32) (b : ∀ k, State k) :
    (busWrite (base p + offset) val).run b =
      .ok () (Function.update b (peripherals.part p)
        (peripherals.writeReg (peripherals.part p) p offset val (b (peripherals.part p)))) := by
  rw [EStateM.run, busWrite, access, PeripheralBus.access_eq, sideBySide,
    route_base p h (a := .write (base p + offset) val) rfl]
  rfl

/-- A read in the window of the I²C controller is one of its registers. -/
theorem busRead_i2c {offset : BitVec 32} (h : offset.toNat < 0x1000) (b : ∀ k, State k) (s : I2c) :
    (busRead (base .i2c0 + offset)).run (Function.update b .i2c s) =
      .ok (s.readReg offset).2 (Function.update b .i2c (s.readReg offset).1) := by
  rw [busRead_eq .i2c0 h]
  simp [peripherals]

/-- A write in the window of the I²C controller is one of its registers. -/
theorem busWrite_i2c {offset : BitVec 32} (h : offset.toNat < 0x1000) (val : BitVec 32)
    (b : ∀ k, State k) (s : I2c) :
    (busWrite (base .i2c0 + offset) val).run (Function.update b .i2c s) =
      .ok () (Function.update b .i2c (s.writeReg offset val)) := by
  rw [busWrite_eq .i2c0 h]
  simp [peripherals]

/-- A write in the window of the UART is one of its registers. -/
theorem busWrite_uart {offset : BitVec 32} (h : offset.toNat < 0x1000) (val : BitVec 32)
    (b : ∀ k, State k) (u : Uart) :
    (busWrite (base .uart0 + offset) val).run (Function.update b .uart u) =
      .ok () (Function.update b .uart (u.writeReg offset val)) := by
  rw [busWrite_eq .uart0 h]
  simp [peripherals]

/-- A read in the window of the CAN controller is one of its registers. -/
theorem busRead_can {offset : BitVec 32} (h : offset.toNat < 0x1000) (b : ∀ k, State k)
    (c : CanBus) :
    (busRead (base .can0 + offset)).run (Function.update b .can c) =
      .ok ((c.can 0).readReg offset) (Function.update b .can c) := by
  rw [busRead_eq .can0 h]
  simp [peripherals, node]

/-- A write in the window of the CAN controller is one of its registers. -/
theorem busWrite_can {offset : BitVec 32} (h : offset.toNat < 0x1000) (val : BitVec 32)
    (b : ∀ k, State k) (c : CanBus) :
    (busWrite (base .can0 + offset) val).run (Function.update b .can c) =
      .ok () (Function.update b .can (c.writeReg 0 offset val)) := by
  rw [busWrite_eq .can0 h]
  simp [peripherals, node]

end Code

end Board

end McuSimulator.Peripherals
