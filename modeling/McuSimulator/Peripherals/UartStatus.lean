import McuSimulator.Peripherals.UartFifo

/-!
# What the UART registers report

The status register tells the fill levels of the FIFOs as they are. The level register packs two
counts of up to 256 into fields of eight bits, so it tells them as they are unless one is 256.
-/

namespace McuSimulator.Peripherals

open Base (respond_nil respond_cons respond_view)
open Memory (Byte)

namespace Uart

/-- The interrupt threshold behind an operation: a value out of range is taken as 1. -/
def acceptThreshold (threshold : Nat) : Op → Nat
  | .writeReg offset val =>
    if offset = regIrqThr then
      if 1 ≤ val.toNat ∧ val.toNat ≤ fifoSize then val.toNat else 1
    else threshold
  | .reset => 1
  | .readReg _ | .injectRx _ | .consumeTx | .drainTx => threshold

/-- The interrupt threshold that was accepted last. -/
def lastThreshold (ops : List Op) : Nat := ops.foldl acceptThreshold 1

/-- The status register agrees with the fill levels, and reads change nothing except of the data
register. -/
structure FlagsTruthful (u : Uart) (threshold : Nat) : Prop where
  txEmpty : (u.readReg regSr).2 &&& srTxEmpty ≠ 0 ↔ u.tx.count < fifoSize
  rxReady : (u.readReg regSr).2 &&& srRxReady ≠ 0 ↔ 0 < u.rx.count
  rxFull : (u.readReg regSr).2 &&& srRxFull ≠ 0 ↔ u.rx.count = fifoSize
  txFull : (u.readReg regSr).2 &&& srTxFull ≠ 0 ↔ u.tx.count = fifoSize
  rxIrq : (u.readReg regSr).2 &&& srRxIrq ≠ 0 ↔
    u.cr &&& crRxIrqEn ≠ 0 ∧ threshold ≤ u.rx.count
  unchanged : ∀ offset, offset ≠ regDr → (u.readReg offset).1 = u

/-- So does the level register, with the receive count in bits 7:0 and the transmit count in bits
15:8. -/
structure RegistersTruthful (u : Uart) (threshold : Nat) : Prop
    extends FlagsTruthful u threshold where
  rxLevel : ((u.readReg regFifoLvl).2 &&& 0xFF).toNat = u.rx.count
  txLevel : ((u.readReg regFifoLvl).2 >>> 8 &&& 0xFF).toNat = u.tx.count

/-! ### The threshold -/

private theorem Queues.irqThr_exec (q : Queues) (op : Op) :
    (q.exec op).1.irqThr.toNat = acceptThreshold q.irqThr.toNat op := by
  cases op with
  | writeReg offset val =>
    show (q.writeReg offset val).irqThr.toNat = _
    rw [writeReg, acceptThreshold]
    by_cases hdr : offset = regDr
    · rw [if_pos hdr, if_neg (by rw [hdr]; decide)]
      cases q.target <;> rfl
    rw [if_neg hdr]
    by_cases hcr : offset = regCr
    · rw [if_pos hcr, if_neg (by rw [hcr]; decide)]
    rw [if_neg hcr]
    by_cases hthr : offset = regIrqThr
    · rw [if_pos hthr, if_pos hthr]
      have hrange : (val = 0 ∨ BitVec.ofNat 32 fifoSize < val) ↔
          ¬ (1 ≤ val.toNat ∧ val.toNat ≤ fifoSize) := by
        rw [BitVec.lt_def, ← BitVec.toNat_inj, show (0 : BitVec 32).toNat = 0 from rfl,
          show (BitVec.ofNat 32 fifoSize).toNat = fifoSize from rfl]
        omega
      by_cases hval : 1 ≤ val.toNat ∧ val.toNat ≤ fifoSize
      · rw [if_pos hval, if_neg fun h ↦ hrange.mp h hval]
      · rw [if_neg hval, if_pos (hrange.mpr hval)]
        rfl
    · rw [if_neg hthr, if_neg hthr]
  | readReg offset =>
    rw [exec]
    split <;> rfl
  | injectRx byte => rfl
  | consumeTx => rfl
  | drainTx => rfl
  | reset => rfl

private theorem irqThr_run (ops : List Op) : (run ops).irqThr.toNat = lastThreshold ops := by
  rw [(refines_run ops).1.irqThr]
  exact respond_view (fun q : Queues ↦ q.irqThr.toNat) Queues.irqThr_exec {} ops

/-! ### The status register -/

/-- Each bit of a status word is its flag. -/
theorem srOf_bits (txEmpty rxReady rxFull txFull rxIrq : Bool) :
    (srOf txEmpty rxReady rxFull txFull rxIrq &&& srTxEmpty ≠ 0 ↔ txEmpty = true) ∧
    (srOf txEmpty rxReady rxFull txFull rxIrq &&& srRxReady ≠ 0 ↔ rxReady = true) ∧
    (srOf txEmpty rxReady rxFull txFull rxIrq &&& srRxFull ≠ 0 ↔ rxFull = true) ∧
    (srOf txEmpty rxReady rxFull txFull rxIrq &&& srTxFull ≠ 0 ↔ txFull = true) ∧
    (srOf txEmpty rxReady rxFull txFull rxIrq &&& srRxIrq ≠ 0 ↔ rxIrq = true) := by
  revert txEmpty rxReady rxFull txFull rxIrq
  decide

private theorem readReg_of_ne (u : Uart) {offset : BitVec 32} (h : offset ≠ regDr) :
    (u.readReg offset).1 = u := by
  rw [readReg, if_neg h]
  split_ifs <;> rfl

private theorem flagsTruthful (u : Uart) : FlagsTruthful u u.irqThr.toNat := by
  obtain ⟨htxEmpty, hrxReady, hrxFull, htxFull, hrxIrq⟩ :=
    srOf_bits (u.tx.count < fifoSize) (0 < u.rx.count) (u.rx.count = fifoSize)
      (u.tx.count = fifoSize) (u.cr &&& crRxIrqEn ≠ 0 ∧ u.irqThr.toNat ≤ u.rx.count)
  have hsr : (u.readReg regSr).2 = _ := u.buildSr_eq
  rw [← hsr, decide_eq_true_eq] at htxEmpty hrxReady hrxFull htxFull hrxIrq
  exact ⟨htxEmpty, hrxReady, hrxFull, htxFull, hrxIrq, fun _ ↦ u.readReg_of_ne⟩

/-! ### The level register -/

/-- Two counts of up to 256 are the fields of the word they are packed into exactly where neither
is 256. -/
theorem fields_iff {t r : Nat} (ht : t ≤ fifoSize) (hr : r ≤ fifoSize) :
    (((BitVec.ofNat 32 t <<< 8 ||| BitVec.ofNat 32 r) &&& 0xFF).toNat = r ∧
      ((BitVec.ofNat 32 t <<< 8 ||| BitVec.ofNat 32 r) >>> 8 &&& 0xFF).toNat = t) ↔
      r ≠ fifoSize ∧ t ≠ fifoSize := by
  unfold fifoSize at *
  have hmask : ∀ n : Nat, n &&& 255 = n % 256 := fun n ↦ Nat.and_two_pow_sub_one_eq_mod n 8
  have hword : (BitVec.ofNat 32 t <<< 8 ||| BitVec.ofNat 32 r).toNat = t <<< 8 ||| r := by
    rw [BitVec.toNat_or, BitVec.toNat_shiftLeft, BitVec.toNat_ofNat, BitVec.toNat_ofNat,
      Nat.shiftLeft_eq, Nat.shiftLeft_eq, Nat.mod_eq_of_lt (by omega), Nat.mod_eq_of_lt (by omega),
      Nat.mod_eq_of_lt (by omega)]
  have hlow : ((BitVec.ofNat 32 t <<< 8 ||| BitVec.ofNat 32 r) &&& 0xFF).toNat = r % 256 := by
    rw [BitVec.toNat_and, hword, show (0xFF : BitVec 32).toNat = 255 from rfl, hmask,
      show 256 = 2 ^ 8 from rfl, Nat.or_mod_two_pow, Nat.shiftLeft_eq, Nat.mul_mod_left,
      Nat.zero_or]
  have hhigh : ((BitVec.ofNat 32 t <<< 8 ||| BitVec.ofNat 32 r) >>> 8 &&& 0xFF).toNat =
      (t ||| r / 256) % 256 := by
    rw [BitVec.toNat_and, BitVec.toNat_ushiftRight, hword,
      show (0xFF : BitVec 32).toNat = 255 from rfl, hmask, Nat.shiftRight_or_distrib,
      Nat.shiftLeft_shiftRight, Nat.shiftRight_eq_div_pow]
  rw [hlow, hhigh]
  rcases Nat.lt_or_eq_of_le hr with hlt | rfl
  · rw [Nat.div_eq_of_lt hlt, Nat.or_zero]
    omega
  · simp

/-- After any operations the status register is truthful, and the level register is where neither
FIFO is exactly full. -/
theorem registersTruthful_iff (ops : List Op) :
    FlagsTruthful (run ops) (lastThreshold ops) ∧
    (RegistersTruthful (run ops) (lastThreshold ops) ↔
      (run ops).rx.count ≠ fifoSize ∧ (run ops).tx.count ≠ fifoSize) := by
  have hrun := (refines_run ops).1
  have hflags := flagsTruthful (run ops)
  rw [irqThr_run] at hflags
  have hlevels := fields_iff hrun.tx.1.count_le hrun.rx.1.count_le
  refine ⟨hflags, fun h ↦ hlevels.mp ⟨h.rxLevel, h.txLevel⟩, fun h ↦ ?_⟩
  obtain ⟨hrx, htx⟩ := hlevels.mpr h
  exact ⟨hflags, hrx, htx⟩

/-- Bytes injected into an empty receive FIFO are counted up to its size. -/
theorem count_injectRx (b : Byte) {n : Nat} (hn : n ≤ fifoSize) :
    (run (List.replicate n (.injectRx b))).rx.count = n := by
  induction n with
  | zero => rfl
  | succ n ih =>
    rw [List.replicate_succ', run_append, respond_cons, respond_nil]
    show (fifoPush (run (List.replicate n (.injectRx b))).rx b).1.count = n + 1
    have hcount := ih (by omega)
    rw [fifoPush, if_neg (by omega)]
    exact congrArg Nat.succ hcount

/-- A full receive FIFO reads as one without bytes. -/
theorem full_reads_as_empty :
    (run (List.replicate 256 (.injectRx 0x55))).rx.count = 256 ∧
    ¬ RegistersTruthful (run (List.replicate 256 (.injectRx 0x55)))
      (lastThreshold (List.replicate 256 (.injectRx 0x55))) := by
  have hcount := count_injectRx 0x55 (Nat.le_refl fifoSize)
  refine ⟨hcount, fun h ↦ ?_⟩
  have hrun := (refines_run (List.replicate fifoSize (.injectRx 0x55))).1
  exact ((fields_iff hrun.tx.1.count_le hrun.rx.1.count_le).mp ⟨h.rxLevel, h.txLevel⟩).1 hcount

end Uart

end McuSimulator.Peripherals
