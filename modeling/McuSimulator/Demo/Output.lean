import Mathlib.Data.List.TakeWhile
import McuSimulator.Demo.Completion
import McuSimulator.Memory.Words

/-!
# What the demo prints

`main` prints what the UART has been given and a line for each frame that the second controller
holds. The frames carry the readings bit for bit, so the printed text is a function of the readings.
-/

namespace McuSimulator.Demo

open Base
open Memory
open Peripherals Peripherals.Board
open Rtos

/-! ### The frames -/

/-- The word that has been packed is the word that is read. -/
theorem word_frameOf (r : TempReading) : (frameOf r).word 0 = packWord r := by
  have hbytes : (List.range 4).map (fun i ↦ (frameOf r).data (Fin.ofNat 8 (0 + i))) =
      toLittleEndian 4 (packWord r) := by
    rw [toLittleEndian_eq_map]
    refine List.map_congr_left fun i hi ↦ ?_
    have hlt := List.mem_range.mp hi
    have hval : (Fin.ofNat 8 (0 + i)).val = i := by
      rw [Nat.zero_add]
      exact Nat.mod_eq_of_lt (by omega)
    show (if _ then Memory.byteOf _ _ else _) = _
    rw [hval, if_pos hlt]
  rw [CanFrame.word, hbytes]
  exact ofLittleEndian_toLittleEndian rfl _

private theorem frameTick_packWord (r : TempReading) : frameTick (packWord r) = r.tick % 65536 := by
  have hbits : packWord r >>> 16 &&& 0xFFFF = BitVec.ofNat 32 r.tick &&& 0xFFFF := by
    have hmask : ∀ j : Fin 32, (65535#32)[j.val] = decide (j.val < 16) := by decide
    ext i hi
    have hi' := hmask ⟨i, hi⟩
    by_cases hlt : i < 16
    · simp [packWord, hi', hlt, show 16 + i < 32 by omega]
    · simp [packWord, hi', hlt]
  rw [frameTick, hbits, BitVec.toNat_and, BitVec.toNat_ofNat]
  have hmask : (0xFFFF : BitVec 32).toNat = 2 ^ 16 - 1 := rfl
  rw [hmask, Nat.and_two_pow_sub_one_eq_mod]
  omega

private theorem frameTemp_packWord (r : TempReading) : frameTemp (packWord r) = r.raw.toInt := by
  have hbits : (packWord r &&& 0xFFFF).setWidth 16 = r.raw := by
    have hmask : ∀ j : Fin 16, (65535#16)[j.val] = true := by decide
    ext i hi
    simp [packWord, hmask ⟨i, hi⟩]
  have hodd : r.raw &&& 1 ≠ 0 ↔ r.raw.toNat % 2 = 1 := by
    rw [Ne, ← BitVec.toNat_inj, BitVec.toNat_and]
    show ¬ r.raw.toNat &&& 1 = 0 ↔ _
    rw [Nat.and_one_is_mod]
    omega
  rw [frameTemp, hbits, BitVec.toInt_sshiftRight, Int.shiftRight_eq_div_pow]
  have htoInt := BitVec.toInt_eq_toNat_cond r.raw
  split_ifs with h <;> rw [hodd] at h <;> split_ifs at htoInt <;> omega

/-- The line of the frame of a reading. -/
def frameText (r : TempReading) : List Char :=
  "  CAN ID=0x1B0 DLC=4 tick=".toList ++ Nat.toDigits 10 (r.tick % 65536) ++ " temp=".toList ++
    fmtHalf r.raw.toInt ++ " C\n".toList

private theorem frameLine_frameOf (r : TempReading) : frameLine (frameOf r) = frameText r := by
  unfold frameLine
  dsimp only
  rw [word_frameOf, frameTick_packWord, frameTemp_packWord]
  have hhead : "  CAN ID=0x".toList ++ (hexUpper 0x1B0).toList.leftpad 3 '0' ++
      " DLC=".toList ++ Nat.toDigits 10 4 ++ " tick=".toList =
      "  CAN ID=0x1B0 DLC=4 tick=".toList := by decide +kernel
  rw [show (frameOf r).id.toNat = 0x1B0 from rfl, show (frameOf r).dlc.toNat = 4 from rfl, hhead]
  rfl

/-- `main` prints a line for each frame that is pending. -/
theorem dumpFrames_eq {nodes : List NodeId} {past : List CanBus.Op} {b : CanBus}
    (h : CanBus.Agrees nodes past b) (frames : List CanFrame)
    (hframes : (CanBus.pending nodes 1 past).map Prod.snd = frames) :
    dumpFrames b = frames.flatMap frameLine := by
  induction frames generalizing past b with
  | nil =>
    have hcount : (b.can 1).rx.count = 0 := by
      rw [(h.receives 1).count, hframes]
      rfl
    rw [dumpFrames, dif_neg (by omega)]
    rfl
  | cons f rest ih =>
    have hr := h.receives 1
    have hcount : 0 < (b.can 1).rx.count := by
      rw [hr.count, hframes]
      exact Nat.succ_pos _
    have hpeek : (b.can 1).rxPeek = f := by
      have hhead := (RingBuf.contents_pop hr.wf hcount).symm.trans (hr.contents.trans hframes)
      rw [Can.rxPeek, if_neg (by omega)]
      exact (List.cons.inj hhead).1
    have hrest : (CanBus.pending nodes 1 (.write 1 Can.regRxPop 1 :: past)).map Prod.snd =
        rest := by
      have htail : CanBus.pending nodes 1 (.write 1 Can.regRxPop 1 :: past) =
          (CanBus.pending nodes 1 past).tail := rfl
      rw [htail, List.map_tail, hframes]
      rfl
    rw [dumpFrames, dif_pos hcount, hpeek, ih (h.write 1 Can.regRxPop 1) hrest]
    rfl

/-! ### The text -/

private theorem drainTx_of_refines {u : Uart} {q : Uart.Queues} (h : Uart.Refines u q) :
    (Uart.drainTx u).2 = q.tx :=
  Uart.Answer.drained.inj (h.exec .drainTx).2

/-- A character of one byte comes back. -/
theorem ofNat_byteOf {c : Char} (h : c.toNat < 256) : Char.ofNat (byteOf c).toNat = c := by
  rw [byteOf, BitVec.toNat_ofNat, Nat.mod_eq_of_lt h, Char.ofNat_toNat]

/-- A character of one byte that does not end a text. -/
def Plain (c : Char) : Prop := 0 < c.toNat ∧ c.toNat < 256

instance : DecidablePred Plain := fun c ↦ inferInstanceAs (Decidable (0 < c.toNat ∧ c.toNat < 256))

private theorem Plain.byteOf_ne_zero {c : Char} (h : Plain c) : byteOf c ≠ 0 := by
  intro hzero
  have hval := congrArg BitVec.toNat hzero
  rw [byteOf, BitVec.toNat_ofNat, Nat.mod_eq_of_lt h.2] at hval
  exact h.1.ne' hval

private theorem plain_of_all {l : List Char} {c : Char} (hc : c ∈ l)
    (hl : l.all (decide <| Plain ·)) :
    Plain c :=
  of_decide_eq_true (List.all_eq_true.mp hl c hc)

private theorem plain_of_mem_toDigits {n : Nat} {c : Char} (h : c ∈ Nat.toDigits 10 n) :
    Plain c := by
  have hdigit := Nat.isDigit_of_mem_toDigits (by decide) (by decide) h
  rw [Char.isDigit, Bool.and_eq_true, decide_eq_true_eq, decide_eq_true_eq] at hdigit
  have hge : 48 ≤ c.toNat := hdigit.1
  have hle : c.toNat ≤ 57 := hdigit.2
  exact ⟨by omega, by omega⟩

private theorem plain_of_mem_decimal {n : Int} {c : Char} (h : c ∈ decimal n) : Plain c := by
  rcases List.mem_append.mp h with h | h
  · split at h
    · exact plain_of_all h (by decide)
    · cases h
  · exact plain_of_mem_toDigits h

/-- All characters that the logger writes are plain. -/
theorem plain_of_mem_logText {rs : List TempReading} {c : Char} (h : c ∈ logText rs) : Plain c := by
  rcases List.mem_append.mp h with h | h
  · exact plain_of_all h (by decide)
  · obtain ⟨r, -, hr⟩ := List.mem_flatMap.mp h
    simp only [logLine, fmtTemp, List.mem_append] at hr
    rcases hr with (((hr | hr) | hr) | hr | hr) | hr
    · exact plain_of_all hr (by decide)
    · exact plain_of_mem_toDigits hr
    · exact plain_of_all hr (by decide)
    · exact plain_of_mem_decimal hr
    · rcases List.mem_cons.mp hr with rfl | hr
      · decide
      · exact plain_of_mem_toDigits hr
    · exact plain_of_all hr (by decide)

/-- What `main` prints when the ring holds the frames of these readings and the FIFO this text, as
far as there is room: what the FIFO holds of the text, and a line for each frame of the ring. -/
theorem output_eq {rs ls : List TempReading} {b : World} (hf : Forwarded rs (b .can))
    (hl : Logged (logText ls) (b .uart)) :
    output b = (logText ls).take Uart.fifoSize ++ "\n--- CAN1 received ".toList ++
      Nat.toDigits 10 (min rs.length Can.rxCapacity) ++ " frame(s) ---\n".toList ++
      (rs.take Can.rxCapacity).flatMap frameText := by
  obtain ⟨past, hagrees, -, -, hpending⟩ := hf
  obtain ⟨q, hrefines, -, htx⟩ := hl
  rw [← List.map_take] at htx
  have hwhole : q.tx.takeWhile (· != 0) = q.tx := by
    refine List.takeWhile_eq_self_iff.mpr fun x hx ↦ ?_
    rw [htx] at hx
    obtain ⟨c, hc, rfl⟩ := List.mem_map.mp hx
    exact bne_iff_ne.mpr (plain_of_mem_logText (List.mem_of_mem_take hc)).byteOf_ne_zero
  have htext : (q.tx.takeWhile (· != 0)).map (fun c ↦ Char.ofNat c.toNat) =
      (logText ls).take Uart.fifoSize := by
    rw [hwhole, htx, List.map_map]
    refine (List.map_congr_left fun c hc ↦ ?_).trans (List.map_id _)
    exact ofNat_byteOf (plain_of_mem_logText (List.mem_of_mem_take hc)).2
  have hcount : (CanBus.can (b .can) 1).rx.count = min rs.length Can.rxCapacity := by
    rw [(hagrees.receives 1).count, hpending, List.length_take, List.length_map, Nat.min_comm]
  have hframes : ((rs.map frameOf).take Can.rxCapacity).flatMap frameLine =
      (rs.take Can.rxCapacity).flatMap frameText := by
    rw [← List.map_take, List.flatMap_map]
    exact List.flatMap_congr fun r _ ↦ frameLine_frameOf r
  rw [output, drainTx_of_refines hrefines, htext, hcount, dumpFrames_eq hagrees _ hpending, hframes]

/-- The demo completes: within `30 * n + 42` steps the scheduler is back in `main` for good, all `n`
readings have come through, and what `main` prints then shows what the FIFO and the ring hold of
them. -/
theorem pipeline_prints (n : Nat) (hn : pollDelayTicks * n < uint32Max) :
    ∃ k ≤ 30 * n + 42, ∃ m, Machine.advanceN (code n) k start = m ∧ m.sys.me = invalidTask ∧
      Machine.advance (code n) m = m ∧
      ∃ rs, Delivered n rs m ∧
        output m.world = (logText rs).take Uart.fifoSize ++ "\n--- CAN1 received ".toList ++
          Nat.toDigits 10 (min n Can.rxCapacity) ++ " frame(s) ---\n".toList ++
          (rs.take Can.rxCapacity).flatMap frameText := by
  obtain ⟨k, hk, m, hm, hme, hidle, rs, h⟩ := pipeline_completes n hn
  exact ⟨k, hk, m, hm, hme, hidle, rs, h, h.length_eq ▸ output_eq h.forwarded h.logged⟩

/-- Ten readings, as in the source. -/
theorem pipeline_prints_ten :
    ∃ k ≤ 30 * 10 + 42, ∃ m, Machine.advanceN (code 10) k start = m ∧ m.sys.me = invalidTask ∧
      Machine.advance (code 10) m = m ∧
      ∃ rs, Delivered 10 rs m ∧
        output m.world = (logText rs).take Uart.fifoSize ++ "\n--- CAN1 received ".toList ++
          Nat.toDigits 10 (min 10 Can.rxCapacity) ++ " frame(s) ---\n".toList ++
          (rs.take Can.rxCapacity).flatMap frameText :=
  pipeline_prints 10 (by decide)

end McuSimulator.Demo
