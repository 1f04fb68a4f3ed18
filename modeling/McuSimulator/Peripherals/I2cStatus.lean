import Mathlib.Data.List.Induction
import McuSimulator.Base.Flags
import McuSimulator.Peripherals.I2c

/-!
# The receive flag of the I2C peripheral

A transaction overwrites the status register, and only an acknowledged read replaces the queue.
So the flag tells whether bytes are queued as long as no other transaction is made while there
are.
-/

namespace McuSimulator.Peripherals

open Base (and_not_and_self)
open Memory (Byte)

namespace I2c

/-- The receive flag is set where bytes are queued. -/
def Truthful (s : I2c) : Prop := s.sr &&& srRxReady ≠ 0 ↔ s.rxQueue ≠ []

instance (s : I2c) : Decidable s.Truthful := inferInstanceAs (Decidable (_ ↔ _))

/-- The two bytes of a sensor register, most significant first. -/
def sensorBytes (s : I2c) (reg : Byte) : List Byte :=
  [(s.lm75.readReg16 reg >>> 8).setWidth 8, (s.lm75.readReg16 reg).setWidth 8]

/-- The operation is a transaction on the bus. -/
def Op.IsTransaction : Op → Prop
  | .writeReg offset val => offset = regCr ∧ val &&& crStart ≠ 0
  | .readReg _ => False
  | .readSensorReg _ _ _ | .writeSensorReg _ _ _ => True

/-- The bytes that an operation reads, if it is an acknowledged read. -/
def readBytes (s : I2c) : Op → Option (List Byte)
  | .writeReg offset val =>
    if (offset = regCr ∧ val &&& crStart ≠ 0) ∧ val &&& crRead ≠ 0 ∧
        slaveOf val = Lm75.defaultAddr then
      some (s.sensorBytes s.regAddr)
    else none
  | .readSensorReg slaveAddr reg _ =>
    if slaveAddr = Lm75.defaultAddr then some (s.sensorBytes reg) else none
  | .readReg _ | .writeSensorReg _ _ _ => none

/-- The operation is a transaction other than an acknowledged read. -/
def Overwrites (s : I2c) (op : Op) : Prop := op.IsTransaction ∧ s.readBytes op = none

/-- What an operation does to the queue and the status register: an inversion of `exec`. -/
inductive Outcome (s : I2c) (op : Op) (t : I2c) : Prop
  | kept (hop : ¬ op.IsTransaction) (hq : t.rxQueue = s.rxQueue) (hsr : t.sr = s.sr)
  | popped (hop : ¬ op.IsTransaction) (byte : Byte) (hq : s.rxQueue = byte :: t.rxQueue)
      (hsr : t.sr = if t.rxQueue.isEmpty then s.sr &&& ~~~srRxReady else s.sr)
  | read (bytes : List Byte) (hop : s.readBytes op = some bytes) (hne : bytes ≠ [])
      (hq : t.rxQueue = bytes) (hsr : t.sr = srAckOk ||| srRxReady)
  | overwritten (hop : s.Overwrites op) (hq : t.rxQueue = s.rxQueue)
      (hsr : t.sr = srAckOk ∨ t.sr = srNack)

/-! ### One operation -/

/-- A read is acknowledged at the address of the sensor only, and queues two bytes of its register.
-/
theorem dispatchRead_eq (s : I2c) (slave reg : Byte) :
    s.dispatchRead slave reg =
      if slave = Lm75.defaultAddr then ({ s with rxQueue := s.sensorBytes reg }, true)
      else (s, false) := by
  by_cases h : slave = Lm75.defaultAddr
  · rw [dispatchRead, if_neg (not_not_intro h), if_pos h]
    rfl
  · rw [dispatchRead, if_pos h, if_neg h]

/-- A write to the sensor leaves the rest of the peripheral. -/
theorem dispatchWrite_frame (s : I2c) (slave reg : Byte) (data : List Byte) :
    (s.dispatchWrite slave reg data).1.rxQueue = s.rxQueue ∧
      (s.dispatchWrite slave reg data).1.regAddr = s.regAddr := by
  unfold dispatchWrite
  split_ifs <;> exact ⟨rfl, rfl⟩

private theorem ackOrNack (ok : Bool) : (if ok = true then srAckOk else srNack) = srAckOk ∨
    (if ok = true then srAckOk else srNack) = srNack := by
  cases ok
  · exact .inr rfl
  · exact .inl rfl

private theorem outcome_writeCr (s : I2c) (val : BitVec 32) :
    Outcome s (.writeReg regCr val) (s.writeCr val) := by
  rw [writeCr]
  dsimp only
  split
  case isTrue hstart => exact .kept (fun hop ↦ hop.2 hstart) rfl rfl
  case isFalse hstart =>
    split
    case isTrue hread =>
      rw [dispatchRead_eq]
      by_cases hslave : slaveOf val = Lm75.defaultAddr
      · rw [if_pos hslave]
        exact .read _ (if_pos ⟨⟨rfl, hstart⟩, hread, hslave⟩) (List.cons_ne_nil _ _) rfl rfl
      · rw [if_neg hslave]
        exact .overwritten ⟨⟨rfl, hstart⟩, if_neg fun h ↦ hslave h.2.2⟩ rfl (.inr rfl)
    case isFalse hread =>
      have hop : s.Overwrites (.writeReg regCr val) :=
        ⟨⟨rfl, hstart⟩, if_neg fun h ↦ hread h.2.1⟩
      split
      case isTrue => exact .overwritten hop (dispatchWrite_frame _ _ _ _).1 (ackOrNack _)
      case isFalse => exact .overwritten hop rfl (.inl rfl)

private theorem outcome_exec (s : I2c) (op : Op) : Outcome s op (s.exec op) := by
  cases op with
  | readReg offset =>
    rw [exec, readReg]
    split
    case isTrue => exact .kept id rfl rfl
    case isFalse =>
      split
      case isTrue =>
        cases hq : s.rxQueue with
        | nil => exact .kept id rfl rfl
        | cons byte rest => exact .popped id byte hq rfl
      case isFalse =>
        split
        · exact .kept id rfl rfl
        · exact .kept id rfl rfl
  | writeReg offset val =>
    rw [exec, writeReg]
    split
    case isTrue hcr =>
      rw [hcr]
      exact outcome_writeCr s val
    case isFalse hcr =>
      split
      · exact .kept (fun hop ↦ hcr hop.1) rfl rfl
      · exact .kept (fun hop ↦ hcr hop.1) rfl rfl
  | readSensorReg slaveAddr reg nBytes =>
    rw [exec, readSensorReg]
    dsimp only
    rw [dispatchRead_eq]
    by_cases hslave : slaveAddr = Lm75.defaultAddr
    · rw [if_pos hslave]
      exact .read _ (if_pos hslave) (List.cons_ne_nil _ _) rfl rfl
    · rw [if_neg hslave]
      exact .overwritten ⟨trivial, if_neg hslave⟩ rfl (.inr rfl)
  | writeSensorReg slaveAddr reg value =>
    exact .overwritten ⟨trivial, rfl⟩ (dispatchWrite_frame _ _ _ _).1 (ackOrNack _)

/-- An operation keeps the flag truthful exactly where it does not overwrite it over queued
bytes. -/
theorem truthful_exec_iff {s : I2c} (h : s.Truthful) (op : Op) :
    (s.exec op).Truthful ↔ (s.Overwrites op → s.rxQueue = []) := by
  cases outcome_exec s op with
  | kept hop hq hsr =>
    refine iff_of_true ?_ fun how ↦ absurd how.1 hop
    rw [Truthful, hq, hsr]
    exact h
  | popped hop byte hq hsr =>
    refine iff_of_true ?_ fun how ↦ absurd how.1 hop
    have hset : s.sr &&& srRxReady ≠ 0 := h.mpr (by rw [hq]; exact List.cons_ne_nil _ _)
    rw [Truthful, hsr]
    cases (s.exec op).rxQueue with
    | nil => exact iff_of_false (not_not_intro (and_not_and_self s.sr _)) (not_not_intro rfl)
    | cons b rest => exact iff_of_true hset (List.cons_ne_nil _ _)
  | read bytes hop hne hq hsr =>
    refine iff_of_true ?_ fun how ↦ absurd (hop.symm.trans how.2) (Option.some_ne_none _)
    rw [Truthful, hq, hsr]
    exact iff_of_true (by decide) hne
  | overwritten hop hq hsr =>
    have hclear : (s.exec op).sr &&& srRxReady = 0 := by
      rcases hsr with hsr | hsr <;> rw [hsr] <;> decide
    rw [Truthful, hclear, hq]
    simp [hop]

/-! ### Runs -/

private theorem run_concat (ops : List Op) (op : Op) : run (ops ++ [op]) = (run ops).exec op := by
  rw [run, List.foldl_append]
  rfl

/-- The peripheral behind an operation, and the bytes of the last acknowledged read. -/
def track (p : I2c × List Byte) (op : Op) : I2c × List Byte :=
  (p.1.exec op, (p.1.readBytes op).getD p.2)

/-- The bytes of the last acknowledged read, if there was one. -/
def lastRead (ops : List Op) : List Byte := (ops.foldl track ({}, [])).2

private theorem fst_foldl_track (p : I2c × List Byte) (ops : List Op) :
    (ops.foldl track p).1 = ops.foldl exec p.1 := by
  induction ops generalizing p with
  | nil => rfl
  | cons op ops ih => exact ih _

private theorem lastRead_concat (ops : List Op) (op : Op) :
    lastRead (ops ++ [op]) = ((run ops).readBytes op).getD (lastRead ops) := by
  rw [lastRead, List.foldl_append, List.foldl_cons, List.foldl_nil, track, fst_foldl_track]
  rfl

/-- What is queued is what is left of the last acknowledged read. -/
theorem rxQueue_suffix (ops : List Op) : (run ops).rxQueue <:+ lastRead ops := by
  induction ops using List.reverseRecOn with
  | nil => exact List.suffix_rfl
  | append_singleton ops op ih =>
    rw [run_concat, lastRead_concat]
    have hnone : ¬ op.IsTransaction → (run ops).readBytes op = none := by
      intro hop
      cases op with
      | readReg offset => rfl
      | writeReg offset val => exact if_neg fun h ↦ hop h.1
      | readSensorReg slaveAddr reg nBytes => exact absurd trivial hop
      | writeSensorReg slaveAddr reg value => rfl
    cases outcome_exec (run ops) op with
    | kept hop hq hsr =>
      rw [hnone hop, hq]
      exact ih
    | popped hop byte hq hsr =>
      rw [hnone hop]
      exact List.IsSuffix.trans ⟨[byte], hq.symm⟩ ih
    | read bytes hop hne hq hsr =>
      rw [hop, hq]
      exact List.suffix_rfl
    | overwritten hop hq hsr =>
      rw [hop.2, hq]
      exact ih

/-- The flag is truthful in every state of a run exactly where no transaction other than an
acknowledged read is made while bytes are queued. In any case the data register gives a byte of
the last acknowledged read while there are some. -/
theorem rxReady_truthful_iff (ops : List Op) :
    ((∀ pre, pre <+: ops → (run pre).Truthful) ↔
      ∀ pre op, pre ++ [op] <+: ops → (run pre).Overwrites op → (run pre).rxQueue = []) ∧
    ((run ops).rxQueue ≠ [] → ∃ b ∈ lastRead ops,
      ((run ops).readReg regDr).2 = b.setWidth 32) := by
  refine ⟨⟨fun hall pre op hpre ↦ ?_, fun hops pre hpre ↦ ?_⟩, fun hne ↦ ?_⟩
  · have hbefore := hall pre ((List.prefix_append pre [op]).trans hpre)
    have hafter := hall (pre ++ [op]) hpre
    rw [run_concat] at hafter
    exact (truthful_exec_iff hbefore op).mp hafter
  · induction pre using List.reverseRecOn with
    | nil => exact iff_of_false (not_not_intro rfl) (not_not_intro rfl)
    | append_singleton pre op ih =>
      rw [run_concat, truthful_exec_iff (ih ((List.prefix_append pre [op]).trans hpre))]
      exact hops pre op hpre
  · have hsuffix := rxQueue_suffix ops
    cases hq : (run ops).rxQueue with
    | nil => exact absurd hq hne
    | cons b rest =>
      rw [hq] at hsuffix
      refine ⟨b, hsuffix.subset List.mem_cons_self, ?_⟩
      rw [readReg, if_neg (by decide), if_pos rfl, hq]

/-- A read of the temperature, and a read from an address without a slave. -/
def readTwice : List Op :=
  [.readSensorReg 0x48 0 2, .writeReg regCr (0x50 ||| crRead ||| crStart)]

/-- Bytes are queued and the flag is clear. -/
theorem readTwice_not_truthful :
    (run readTwice).rxQueue = [0x19, 0x00] ∧ (run readTwice).sr = srNack ∧
      ¬ (run readTwice).Truthful := by
  decide

end I2c

end McuSimulator.Peripherals
