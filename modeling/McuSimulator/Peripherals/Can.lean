import McuSimulator.Base.Ring
import McuSimulator.Base.SwapRemove
import McuSimulator.Memory.Words

/-!
# The CAN controller

`CanBus` and `Can` of `src/peripherals/can.h` and `src/peripherals/can.cpp`: controllers that
stage a frame in registers, send it to every other node of their bus and keep what they receive
in a ring. The nodes behind the pointers of the table are part of the bus here.
-/

namespace McuSimulator.Peripherals

open Base (RingBuf swapRemove)
open Memory (Byte toLittleEndian ofLittleEndian)

/-- `CanFrame`; src/peripherals/can.h:31–35. -/
@[ext]
structure CanFrame where
  id : BitVec 16 := 0
  dlc : Byte := 0
  data : Fin 8 → Byte := fun _ ↦ 0

namespace CanFrame

/-- `memcpy(data + at, &val, 4)`. -/
def setWord (f : CanFrame) (at' : Nat) (val : BitVec 32) : CanFrame :=
  { f with data := fun j ↦
      if at' ≤ j then ((toLittleEndian 4 val)[j.val - at']?).getD (f.data j) else f.data j }

/-- `memcpy(&w, data + at, 4)`. -/
def word (f : CanFrame) (at' : Nat) : BitVec 32 :=
  ofLittleEndian 32 ((List.range 4).map fun i ↦ f.data (Fin.ofNat 8 (at' + i)))

end CanFrame

namespace Can

/-- `RX_CAPACITY`; src/peripherals/can.h:60. -/
def rxCapacity : Nat := 32

/-- `REG_TX_ID`; src/peripherals/can.h:62. -/
def regTxId : BitVec 32 := 0x00

/-- `REG_TX_DLC`; src/peripherals/can.h:63. -/
def regTxDlc : BitVec 32 := 0x04

/-- `REG_TX_D0`; src/peripherals/can.h:64. -/
def regTxD0 : BitVec 32 := 0x08

/-- `REG_TX_D1`; src/peripherals/can.h:65. -/
def regTxD1 : BitVec 32 := 0x0C

/-- `REG_TX_SEND`; src/peripherals/can.h:66. -/
def regTxSend : BitVec 32 := 0x10

/-- `REG_RX_ID`; src/peripherals/can.h:67. -/
def regRxId : BitVec 32 := 0x14

/-- `REG_RX_DLC`; src/peripherals/can.h:68. -/
def regRxDlc : BitVec 32 := 0x18

/-- `REG_RX_D0`; src/peripherals/can.h:69. -/
def regRxD0 : BitVec 32 := 0x1C

/-- `REG_RX_D1`; src/peripherals/can.h:70. -/
def regRxD1 : BitVec 32 := 0x20

/-- `REG_RX_POP`; src/peripherals/can.h:71. -/
def regRxPop : BitVec 32 := 0x24

/-- `REG_SR`; src/peripherals/can.h:72. -/
def regSr : BitVec 32 := 0x28

/-- `REG_FILTER_ID`; src/peripherals/can.h:73. -/
def regFilterId : BitVec 32 := 0x2C

/-- `REG_FILTER_MASK`; src/peripherals/can.h:74. -/
def regFilterMask : BitVec 32 := 0x30

/-- `SR_TX_OK`; src/peripherals/can.h:76. -/
def srTxOk : BitVec 32 := 1 <<< 0

/-- `SR_RX_READY`; src/peripherals/can.h:77. -/
def srRxReady : BitVec 32 := 1 <<< 1

/-- `SR_RX_OVERFLOW`; src/peripherals/can.h:78. -/
def srRxOverflow : BitVec 32 := 1 <<< 2

end Can

/-- `Can` with the values of a new one, and `bus_` set; src/peripherals/can.h:103–116. -/
structure Can where
  txFrame : CanFrame := {}
  rx : RingBuf CanFrame := ⟨fun _ ↦ {}, 0, 0, 0⟩
  sr : BitVec 32 := 0
  filterId : BitVec 16 := 0
  filterMask : BitVec 16 := 0

namespace Can

/-! ### Receiving -/

/-- `passes_filter`; src/peripherals/can.h:118–120. -/
def PassesFilter (c : Can) (id : BitVec 16) : Prop :=
  id &&& c.filterMask = c.filterId &&& c.filterMask

instance (c : Can) (id : BitVec 16) : Decidable (c.PassesFilter id) :=
  inferInstanceAs (Decidable (_ = _))

/-- `rx_push`; src/peripherals/can.cpp:144–150. -/
def rxPush (c : Can) (f : CanFrame) : Can × Bool :=
  if c.rx.count = rxCapacity then (c, false)
  else ({ c with rx := c.rx.push rxCapacity f }, true)

/-- `inject`; src/peripherals/can.cpp:132–140. -/
def inject (c : Can) (frame : CanFrame) : Can × Bool :=
  if ¬ c.PassesFilter frame.id then
    (c, false)
  else
    let (c, pushed) := c.rxPush frame
    if ¬ pushed then ({ c with sr := c.sr ||| srRxOverflow }, false)
    else ({ c with sr := c.sr ||| srRxReady }, true)

/-- `rx_peek`; src/peripherals/can.cpp:152–155. -/
def rxPeek (c : Can) : CanFrame := if c.rx.count = 0 then {} else c.rx.buf c.rx.head

/-- The case of `REG_RX_POP`; src/peripherals/can.cpp:110–118. -/
def rxPop (c : Can) : Can :=
  if 0 < c.rx.count then
    let c := { c with rx := c.rx.pop rxCapacity }
    if c.rx.count = 0 then { c with sr := c.sr &&& ~~~srRxReady } else c
  else
    c

/-- `read_reg`; src/peripherals/can.cpp:46–81. -/
def readReg (c : Can) (offset : BitVec 32) : BitVec 32 :=
  if offset = regTxId then c.txFrame.id.setWidth 32
  else if offset = regTxDlc then c.txFrame.dlc.setWidth 32
  else if offset = regTxD0 then c.txFrame.word 0
  else if offset = regTxD1 then c.txFrame.word 4
  else if offset = regRxId then
    if 0 < c.rx.count then (c.rx.buf c.rx.head).id.setWidth 32 else 0
  else if offset = regRxDlc then
    if 0 < c.rx.count then (c.rx.buf c.rx.head).dlc.setWidth 32 else 0
  else if offset = regRxD0 then
    if c.rx.count = 0 then 0 else (c.rx.buf c.rx.head).word 0
  else if offset = regRxD1 then
    if c.rx.count = 0 then 0 else (c.rx.buf c.rx.head).word 4
  else if offset = regSr then c.sr
  else if offset = regFilterId then c.filterId.setWidth 32
  else if offset = regFilterMask then c.filterMask.setWidth 32
  else 0

end Can

/-- A `Can*`. -/
abbrev NodeId := Nat

/-- `CanBus`: the first `count_` cells of `nodes_`, and the controllers that have this bus;
src/peripherals/can.h:51–52. -/
structure CanBus where
  nodes : List NodeId := []
  can : NodeId → Can := fun _ ↦ {}

namespace CanBus

/-- `MAX_NODES`; src/peripherals/can.h:42. -/
def maxNodes : Nat := 8

/-- Replace one controller. -/
def set (b : CanBus) (n : NodeId) (c : Can) : CanBus := { b with can := Function.update b.can n c }

/-! ### The bus -/

/-- `attach`; src/peripherals/can.cpp:10–12. -/
def attach (b : CanBus) (node : NodeId) : CanBus :=
  if b.nodes.length < maxNodes then { b with nodes := b.nodes ++ [node] } else b

/-- `detach`; src/peripherals/can.cpp:14–22. -/
def detach (b : CanBus) (node : NodeId) : CanBus :=
  match b.nodes.findIdx? (· = node) with
  | some i => { b with nodes := swapRemove b.nodes i }
  | none => b

/-- The loop of `broadcast`, over the rest of the table; src/peripherals/can.cpp:26–30. -/
def broadcastLoop (frame : CanFrame) (sender : NodeId) : List NodeId → CanBus → CanBus × Bool
  | [], b => (b, false)
  | n :: rest, b =>
    if n ≠ sender then
      let (c, delivered) := (b.can n).inject frame
      let (b', deliveredRest) := broadcastLoop frame sender rest (b.set n c)
      (b', delivered || deliveredRest)
    else
      broadcastLoop frame sender rest b

/-- `broadcast`; src/peripherals/can.cpp:24–32. -/
def broadcast (b : CanBus) (frame : CanFrame) (sender : NodeId) : CanBus × Bool :=
  broadcastLoop frame sender b.nodes b

/-- The case of `REG_TX_SEND`; src/peripherals/can.cpp:100–109. -/
def txSend (b : CanBus) (n : NodeId) : CanBus :=
  let b := b.set n { b.can n with sr := (b.can n).sr &&& ~~~Can.srTxOk }
  let b := (b.broadcast (b.can n).txFrame n).1
  b.set n { b.can n with sr := (b.can n).sr ||| Can.srTxOk }

/-- `write_reg` of node `n`; src/peripherals/can.cpp:85–128. -/
def writeReg (b : CanBus) (n : NodeId) (offset val : BitVec 32) : CanBus :=
  let c := b.can n
  if offset = Can.regTxId then
    b.set n { c with txFrame := { c.txFrame with id := (val &&& 0x7FF).setWidth 16 } }
  else if offset = Can.regTxDlc then
    let dlc := (val &&& 0xF).setWidth 8
    b.set n { c with txFrame := { c.txFrame with dlc := if 8 < dlc then 8 else dlc } }
  else if offset = Can.regTxD0 then
    b.set n { c with txFrame := c.txFrame.setWord 0 val }
  else if offset = Can.regTxD1 then
    b.set n { c with txFrame := c.txFrame.setWord 4 val }
  else if offset = Can.regTxSend then
    b.txSend n
  else if offset = Can.regRxPop then
    b.set n c.rxPop
  else if offset = Can.regFilterId then
    b.set n { c with filterId := (val &&& 0x7FF).setWidth 16 }
  else if offset = Can.regFilterMask then
    b.set n { c with filterMask := (val &&& 0x7FF).setWidth 16 }
  else
    b

/-- New controllers, which attach themselves in this order; src/peripherals/can.cpp:36–38. -/
def start (nodes : List NodeId) : CanBus := nodes.foldl attach {}

/-! ### Effects on the table and on one node -/

section Effects

variable {b : CanBus} {n m : NodeId}

/-- A new controller leaves the table. -/
@[simp] theorem set_nodes (c : Can) : (b.set n c).nodes = b.nodes := rfl

/-- The controller that has been set. -/
@[simp] theorem set_can_self (c : Can) : (b.set n c).can n = c := by
  simp [set]

/-- The other controllers are as before. -/
@[simp] theorem set_can_of_ne (c : Can) (h : m ≠ n) : (b.set n c).can m = b.can m := by
  simp [set, h]

/-- The nodes are attached in turn, as many as there is room for. -/
theorem start_eq (nodes : List NodeId) : start nodes = { nodes := nodes.take maxNodes } := by
  have hfold : ∀ (l : List NodeId) (b : CanBus), b.nodes.length ≤ maxNodes →
      l.foldl attach b = { b with nodes := b.nodes ++ l.take (maxNodes - b.nodes.length) } := by
    intro l
    induction l with
    | nil =>
      intro b _
      simp
    | cons n l ih =>
      intro b hle
      rw [List.foldl_cons, attach]
      split
      case isTrue hlt =>
        obtain ⟨k, hk⟩ : ∃ k, maxNodes - b.nodes.length = k + 1 :=
          ⟨maxNodes - b.nodes.length - 1, by omega⟩
        have hk' : maxNodes - (b.nodes ++ [n]).length = k := by
          rw [List.length_append, List.length_singleton]
          omega
        rw [ih _ (by rw [List.length_append]; exact hlt)]
        simp only [hk, hk', List.take_succ_cons, List.append_assoc, List.singleton_append]
      case isFalse hge =>
        have hzero : maxNodes - b.nodes.length = 0 := by omega
        rw [ih b hle, hzero]
        simp
  exact hfold nodes {} (Nat.zero_le _)

/-- To detach a node leaves the controllers. -/
theorem detach_can (node : NodeId) : (b.detach node).can = b.can := by
  unfold detach
  split <;> rfl

/-- A node is detached, the others stay. -/
theorem mem_detach (h : b.nodes.Nodup) (node : NodeId) :
    m ∈ (b.detach node).nodes ↔ m ∈ b.nodes ∧ m ≠ node := by
  unfold detach
  split
  case h_1 i hi =>
    obtain ⟨hlt, hnode, -⟩ := List.findIdx?_eq_some_iff_getElem.mp hi
    rw [Base.mem_swapRemove_iff hlt h, of_decide_eq_true hnode]
  case h_2 hnone =>
    constructor
    · intro hm
      refine ⟨hm, fun heq ↦ ?_⟩
      have hne := List.findIdx?_eq_none_iff.mp hnone m hm
      exact of_decide_eq_false hne heq
    · exact And.left

/-- To detach a node leaves each node at most once in the table. -/
theorem nodup_detach (h : b.nodes.Nodup) (node : NodeId) : (b.detach node).nodes.Nodup := by
  unfold detach
  split
  case h_1 i hi =>
    obtain ⟨hlt, -, -⟩ := List.findIdx?_eq_some_iff_getElem.mp hi
    exact Base.nodup_swapRemove hlt h
  case h_2 => exact h

private theorem broadcastLoop_nodes (frame : CanFrame) (sender : NodeId) (l : List NodeId) :
    (broadcastLoop frame sender l b).1.nodes = b.nodes := by
  induction l generalizing b with
  | nil => rfl
  | cons n l ih =>
    rw [broadcastLoop]
    split
    · exact ih
    · exact ih

/-- Each node of the table but the sender receives the frame, once. -/
theorem broadcastLoop_can (frame : CanFrame) (sender : NodeId) {l : List NodeId} (hl : l.Nodup) :
    (broadcastLoop frame sender l b).1.can m =
      if m ∈ l ∧ m ≠ sender then ((b.can m).inject frame).1 else b.can m := by
  induction l generalizing b with
  | nil => simp [broadcastLoop]
  | cons n l ih =>
    obtain ⟨hn, hl⟩ := List.nodup_cons.mp hl
    rw [broadcastLoop]
    split
    case isTrue hsender =>
      dsimp only
      rw [ih hl]
      by_cases hm : m = n
      · subst hm
        rw [if_neg (fun h ↦ hn h.1), set_can_self, if_pos ⟨List.mem_cons_self, hsender⟩]
      · rw [set_can_of_ne _ hm]
        simp only [List.mem_cons, hm, false_or]
    case isFalse hsender =>
      obtain rfl : n = sender := not_not.mp hsender
      rw [ih hl]
      by_cases hm : m = n
      · rw [if_neg (fun h ↦ h.2 hm), if_neg (fun h ↦ h.2 hm)]
      · simp only [List.mem_cons, hm, false_or]

private theorem broadcast_can (hb : b.nodes.Nodup) (frame : CanFrame) (sender : NodeId) :
    (b.broadcast frame sender).1.can m =
      if m ∈ b.nodes ∧ m ≠ sender then ((b.can m).inject frame).1 else b.can m :=
  broadcastLoop_can frame sender hb

/-- A transmission leaves the table. -/
theorem txSend_nodes : (b.txSend n).nodes = b.nodes := broadcastLoop_nodes _ _ _

/-- A transmission offers the staged frame to every other node of the table. -/
theorem txSend_can_of_ne (hb : b.nodes.Nodup) (hm : m ≠ n) : (b.txSend n).can m =
    if m ∈ b.nodes then ((b.can m).inject (b.can n).txFrame).1 else b.can m := by
  have hb' : (b.set n { b.can n with sr := (b.can n).sr &&& ~~~Can.srTxOk }).nodes.Nodup := hb
  rw [txSend, set_can_of_ne _ hm, broadcast_can hb', set_nodes, set_can_of_ne _ hm, set_can_self]
  simp only [hm, ne_eq, not_false_eq_true, and_true]

/-- A transmission sets the flag of the sender. -/
theorem txSend_can_self (hb : b.nodes.Nodup) : (b.txSend n).can n =
    { b.can n with sr := (b.can n).sr &&& ~~~Can.srTxOk ||| Can.srTxOk } := by
  have hb' : (b.set n { b.can n with sr := (b.can n).sr &&& ~~~Can.srTxOk }).nodes.Nodup := hb
  rw [txSend, set_can_self, broadcast_can hb', if_neg (fun h ↦ h.2 rfl), set_can_self]

end Effects

end CanBus

end McuSimulator.Peripherals
