import McuSimulator.Base.Mealy
import McuSimulator.Peripherals.Uart

/-!
# The UART as two bounded queues

Each FIFO of the UART is a queue of at most 256 bytes that drops what comes when it is full. The
UART answers every operation as a pair of such queues does, and no byte is lost, doubled or moved
to the other side between being accepted and being taken.
-/

namespace McuSimulator.Peripherals

open Base (RingBuf respond respond_append respond_simulates collect respond_conserves)
open Memory (Byte)

namespace Uart

/-! ### Two queues -/

/-- Append to the queue unless it is full. -/
def enqueue (q : List Byte) (b : Byte) : List Byte × Bool :=
  if q.length < fifoSize then (q ++ [b], true) else (q, false)

/-- A side of the UART. -/
inductive Side
  | tx
  | rx
  deriving DecidableEq, Repr

/-- Two queues and the two registers that are kept. -/
@[ext] structure Queues where
  tx : List Byte := []
  rx : List Byte := []
  cr : BitVec 32 := crEnable
  irqThr : BitVec 32 := 1

namespace Queues

/-- What the registers other than the data register read as. -/
def register (q : Queues) (offset : BitVec 32) : BitVec 32 :=
  if offset = regSr then
    srOf (q.tx.length < fifoSize) (0 < q.rx.length) (q.rx.length = fifoSize)
      (q.tx.length = fifoSize) (q.cr &&& crRxIrqEn ≠ 0 ∧ q.irqThr.toNat ≤ q.rx.length)
  else if offset = regCr then q.cr
  else if offset = regIrqThr then q.irqThr
  else if offset = regFifoLvl then
    BitVec.ofNat 32 q.tx.length <<< 8 ||| BitVec.ofNat 32 q.rx.length
  else 0

/-- A byte written goes to the receive queue in loopback mode, else to the transmit queue. -/
def target (q : Queues) : Side := if q.cr &&& crLoopback ≠ 0 then .rx else .tx

/-- A byte is offered to a queue. -/
def offer (q : Queues) (b : Byte) : Side → Queues
  | .tx => { q with tx := (enqueue q.tx b).1 }
  | .rx => { q with rx := (enqueue q.rx b).1 }

def writeReg (q : Queues) (offset val : BitVec 32) : Queues :=
  if offset = regDr then q.offer (val.setWidth 8) q.target
  else if offset = regCr then { q with cr := val &&& 0x07 }
  else if offset = regIrqThr then
    { q with irqThr := if val = 0 ∨ BitVec.ofNat 32 fifoSize < val then 1 else val }
  else q

/-- What an operation does to the queues, and what it returns. -/
def exec (q : Queues) : Op → Queues × Answer
  | .writeReg offset val => (q.writeReg offset val, .done)
  | .readReg offset =>
    if offset = regDr then
      ({ q with rx := q.rx.tail }, .word ((q.rx.head?.getD 0).setWidth 32))
    else (q, .word (q.register offset))
  | .injectRx byte => (q.offer byte .rx, .accepted (enqueue q.rx byte).2)
  | .consumeTx => ({ q with tx := q.tx.tail }, .popped q.tx.head?)
  | .drainTx => ({ q with tx := [] }, .drained q.tx)
  | .reset => ({}, .done)

end Queues

/-! ### One FIFO -/

/-- The ring holds the bytes of the queue. -/
def Holds (r : RingBuf Byte) (q : List Byte) : Prop := r.WF fifoSize ∧ r.contents fifoSize = q

private theorem holds_empty (r : RingBuf Byte) :
    Holds { r with head := 0, tail := 0, count := 0 } [] :=
  ⟨⟨(by decide : 0 < fifoSize), Nat.zero_le _, rfl⟩, rfl⟩

section Holds

variable {r : RingBuf Byte} {q : List Byte}

private theorem Holds.count (h : Holds r q) : r.count = q.length := by
  rw [← h.2, RingBuf.length_contents]

private theorem Holds.length_le (h : Holds r q) : q.length ≤ fifoSize := by
  rw [← h.count]
  exact h.1.count_le

private theorem Holds.push (h : Holds r q) (b : Byte) :
    Holds (fifoPush r b).1 (enqueue q b).1 ∧ (fifoPush r b).2 = (enqueue q b).2 := by
  have hcount := h.count
  have hle := h.length_le
  unfold fifoPush enqueue
  rw [hcount]
  split
  case isTrue hfull =>
    rw [if_neg (by omega)]
    exact ⟨h, rfl⟩
  case isFalse hroom =>
    rw [if_pos (by omega)]
    refine ⟨⟨RingBuf.wf_push b h.1 (by omega), ?_⟩, rfl⟩
    rw [RingBuf.contents_push b h.1 (by omega), h.2]

private theorem Holds.pop (h : Holds r q) :
    Holds (fifoPop r).1 q.tail ∧ (fifoPop r).2 = q.head? := by
  have hcount := h.count
  unfold fifoPop
  rw [hcount]
  split
  case isTrue hempty =>
    rw [List.length_eq_zero_iff.mp hempty] at h ⊢
    exact ⟨h, rfl⟩
  case isFalse hne =>
    have hpos : 0 < r.count := by omega
    have hcontents := RingBuf.contents_pop h.1 hpos
    rw [h.2] at hcontents
    subst hcontents
    exact ⟨⟨RingBuf.wf_pop h.1 hpos, rfl⟩, rfl⟩

end Holds

/-! ### Refinement -/

/-- The rings of the UART hold the bytes of the queues, and the registers agree. -/
structure Refines (u : Uart) (q : Queues) : Prop where
  tx : Holds u.tx q.tx
  rx : Holds u.rx q.rx
  cr : u.cr = q.cr
  irqThr : u.irqThr = q.irqThr

/-- A new UART refines empty queues. -/
theorem refines_new : Refines {} {} :=
  ⟨holds_empty emptyFifo, holds_empty emptyFifo, rfl, rfl⟩

/-- The loop takes the bytes of the queue in their order, and ends with the last. -/
theorem drainLoop_eq {u : Uart} {q : List Byte} (h : Holds u.tx q) (result : List Byte) :
    ∃ r, u.drainLoop result = ({ u with tx := r }, result ++ q) ∧ Holds r [] := by
  induction q generalizing u result with
  | nil =>
    obtain ⟨hpop, hnone⟩ := h.pop
    refine ⟨(fifoPop u.tx).1, ?_, hpop⟩
    rw [drainLoop, List.append_nil]
    split
    case h_1 => rfl
    case h_2 b hb => cases hnone.symm.trans hb
  | cons b q ih =>
    obtain ⟨hpop, hsome⟩ := h.pop
    obtain ⟨r, hloop, hr⟩ := ih (u := u.txPop.1) hpop (result ++ [b])
    refine ⟨r, ?_, hr⟩
    rw [drainLoop]
    split
    case h_1 hnone => cases hsome.symm.trans hnone
    case h_2 c hc =>
      obtain rfl : c = b := Option.some.inj (hc.symm.trans hsome)
      rw [hloop, List.append_assoc]
      rfl

section Refines

variable {u : Uart} {q : Queues}

private theorem Refines.register (h : Refines u q) {offset : BitVec 32} (hne : offset ≠ regDr) :
    u.readReg offset = (u, q.register offset) := by
  rw [readReg, if_neg hne, Queues.register, buildSr_eq, h.tx.count, h.rx.count, h.cr, h.irqThr]
  split_ifs <;> rfl

private theorem Refines.txPush (h : Refines u q) (b : Byte) :
    Refines (u.txPush b).1 (q.offer b .tx) :=
  ⟨(h.tx.push b).1, h.rx, h.cr, h.irqThr⟩

private theorem Refines.rxPush (h : Refines u q) (b : Byte) :
    Refines (u.rxPush b).1 (q.offer b .rx) :=
  ⟨h.tx, (h.rx.push b).1, h.cr, h.irqThr⟩

/-- A register write keeps the refinement. -/
theorem Refines.writeReg (h : Refines u q) (offset val : BitVec 32) :
    Refines (u.writeReg offset val) (q.writeReg offset val) := by
  unfold Uart.writeReg Queues.writeReg
  split
  case isTrue =>
    dsimp only
    rw [Queues.target, h.cr]
    split
    · exact h.rxPush _
    · exact h.txPush _
  case isFalse =>
    split
    case isTrue => exact ⟨h.tx, h.rx, rfl, h.irqThr⟩
    case isFalse =>
      split
      case isTrue => exact ⟨h.tx, h.rx, h.cr, rfl⟩
      case isFalse => exact h

/-- Every operation does to the rings what it does to the queues, and returns the same. -/
theorem Refines.exec (h : Refines u q) (op : Op) :
    Refines (u.exec op).1 (q.exec op).1 ∧ (u.exec op).2 = (q.exec op).2 := by
  cases op with
  | writeReg offset val => exact ⟨h.writeReg offset val, rfl⟩
  | readReg offset =>
    rw [Uart.exec, Queues.exec]
    split
    case isTrue hdr =>
      obtain ⟨hpop, hval⟩ := h.rx.pop
      rw [readReg, if_pos hdr, rxPop, hval]
      exact ⟨⟨h.tx, hpop, h.cr, h.irqThr⟩, rfl⟩
    case isFalse hdr =>
      rw [h.register hdr]
      exact ⟨h, rfl⟩
  | injectRx byte => exact ⟨h.rxPush byte, congrArg Answer.accepted (h.rx.push byte).2⟩
  | consumeTx =>
    exact ⟨⟨h.tx.pop.1, h.rx, h.cr, h.irqThr⟩, congrArg Answer.popped h.tx.pop.2⟩
  | drainTx =>
    obtain ⟨r, hloop, hr⟩ := drainLoop_eq h.tx []
    rw [Uart.exec, drainTx, hloop]
    exact ⟨⟨hr, h.rx, h.cr, h.irqThr⟩, rfl⟩
  | reset => exact ⟨⟨holds_empty _, holds_empty _, rfl, rfl⟩, rfl⟩

end Refines

/-! ### Accepted and taken -/

namespace Queues

/-- The bytes of a side that have been accepted and not been taken. -/
def pending (q : Queues) : Side → List Byte
  | .tx => q.tx
  | .rx => q.rx

/-- The byte that an operation offers, and to which side. -/
def offered (q : Queues) : Op → Option (Side × Byte)
  | .writeReg offset val => if offset = regDr then some (q.target, val.setWidth 8) else none
  | .injectRx byte => some (.rx, byte)
  | .readReg _ | .consumeTx | .drainTx | .reset => none

/-- The byte that a side accepts: one that is offered to it while it has room. -/
def accepted (side : Side) (q : Queues) (op : Op) : List Byte :=
  match q.offered op with
  | some (target, b) =>
    if target = side ∧ (q.pending side).length < fifoSize then [b] else []
  | none => []

/-- The bytes that an operation takes from a side. -/
def taken (side : Side) (q : Queues) : Op → List Byte
  | .readReg offset => if side = .rx ∧ offset = regDr then q.rx.take 1 else []
  | .consumeTx => if side = .tx then q.tx.take 1 else []
  | .drainTx => if side = .tx then q.tx else []
  | .writeReg _ _ | .injectRx _ | .reset => []

private theorem pending_offer (q : Queues) (b : Byte) (target side : Side) :
    (q.offer b target).pending side = q.pending side ++
      if target = side ∧ (q.pending side).length < fifoSize then [b] else [] := by
  cases target <;> cases side <;> simp [offer, pending, enqueue] <;> split <;> simp

private theorem take_one_append_tail (l : List Byte) : l.take 1 ++ l.tail = l := by
  cases l <;> rfl

/-- Apart from a reset, an operation takes the oldest bytes of a side, and what it makes the side
accept becomes the newest. -/
theorem pending_exec (side : Side) (q : Queues) (op : Op) (h : op ≠ .reset) :
    q.pending side ++ q.accepted side op = q.taken side op ++ (q.exec op).1.pending side := by
  cases op with
  | writeReg offset val =>
    show q.pending side ++ q.accepted side (.writeReg offset val) =
      (q.writeReg offset val).pending side
    by_cases hdr : offset = regDr
    · rw [writeReg, if_pos hdr, pending_offer, accepted, offered, if_pos hdr]
    · rw [accepted, offered, if_neg hdr, writeReg, if_neg hdr]
      cases side <;> split_ifs <;> exact List.append_nil _
  | readReg offset =>
    show q.pending side ++ [] = _
    rw [List.append_nil, exec, taken]
    cases side with
    | tx =>
      rw [if_neg fun hrx ↦ nomatch hrx.1]
      split <;> rfl
    | rx =>
      by_cases hdr : offset = regDr
      · rw [if_pos ⟨rfl, hdr⟩, if_pos hdr]
        exact (take_one_append_tail q.rx).symm
      · rw [if_neg fun hrx ↦ hdr hrx.2, if_neg hdr]
        rfl
  | injectRx byte =>
    show q.pending side ++ q.accepted side (.injectRx byte) = (q.offer byte .rx).pending side
    rw [pending_offer]
    rfl
  | consumeTx =>
    show q.pending side ++ [] = _
    rw [List.append_nil]
    cases side with
    | tx => exact (take_one_append_tail q.tx).symm
    | rx => rfl
  | drainTx =>
    show q.pending side ++ [] = _
    rw [List.append_nil]
    cases side with
    | tx => exact (List.append_nil _).symm
    | rx => rfl
  | reset => exact absurd rfl h

end Queues

/-! ### Runs -/

/-- The UART after these operations on a new one. -/
def run (ops : List Op) : Uart := (respond exec {} ops).1

/-- What these operations on a new UART return. -/
def answers (ops : List Op) : List Answer := (respond exec {} ops).2

/-- The queues that the UART holds. -/
def queues (u : Uart) : Queues :=
  ⟨u.tx.contents fifoSize, u.rx.contents fifoSize, u.cr, u.irqThr⟩

/-- The queues that a UART refines are its own. -/
theorem Refines.queues_eq {u : Uart} {q : Queues} (h : Refines u q) : u.queues = q := by
  ext1
  · exact h.tx.2
  · exact h.rx.2
  · exact h.cr
  · exact h.irqThr

/-- Every sequence of operations keeps the refinement and gives the same answers. -/
theorem refines_run (ops : List Op) :
    Refines (run ops) (respond Queues.exec {} ops).1 ∧
      answers ops = (respond Queues.exec {} ops).2 :=
  respond_simulates (fun _ _ op h ↦ h.exec op) refines_new ops

/-- A sequence of operations, and more of them. -/
theorem run_append (ops more : List Op) :
    run (ops ++ more) = (respond exec (run ops) more).1 := by
  rw [run, respond_append, run]

/-- Over every run the UART answers as two bounded queues do and holds what they hold. Between
resets, what a side accepts goes behind what it holds, and what is taken from it is the front.
Draining gives what the transmit side holds, and a reset empties both. -/
theorem uart_refines_queues (ops : List Op) :
    answers ops = (respond Queues.exec {} ops).2 ∧
    (run ops).queues = (respond Queues.exec {} ops).1 ∧
    (∀ (side : Side) (more : List Op), (∀ op ∈ more, op ≠ .reset) →
      (run ops).queues.pending side ++
          collect Queues.exec (Queues.accepted side) (run ops).queues more =
        collect Queues.exec (Queues.taken side) (run ops).queues more ++
          (run (ops ++ more)).queues.pending side) ∧
    ((run ops).drainTx.2 = (run ops).queues.tx ∧
      (run ops).drainTx.1.queues = { (run ops).queues with tx := [] }) ∧
    (run ops).reset.queues = {} := by
  obtain ⟨hrun, hanswers⟩ := refines_run ops
  have hqueues := hrun.queues_eq
  refine ⟨hanswers, hqueues, fun side more hmore ↦ ?_, ?_, (hrun.exec .reset).1.queues_eq⟩
  · have hnext : Refines (respond exec (run ops) more).1
        (respond Queues.exec (run ops).queues more).1 := by
      rw [hqueues]
      exact (respond_simulates (fun _ _ op h ↦ h.exec op) hrun more).1
    rw [run_append, hnext.queues_eq]
    exact respond_conserves (Queues.pending_exec side) _ more hmore
  · obtain ⟨hdrained, hbytes⟩ := hrun.exec .drainTx
    rw [hqueues]
    exact ⟨Answer.drained.inj hbytes, hdrained.queues_eq⟩

/-- In loopback mode a byte written comes back on the receive side. -/
example : answers [.writeReg regCr crLoopback, .writeReg regDr 0x41, .readReg regDr] =
    [.done, .done, .word 0x41] := by
  decide

end Uart

end McuSimulator.Peripherals
