import McuSimulator.Cpu.DataFrame
import McuSimulator.Cpu.Stack

/-!
# Faults

What a step that throws leaves behind. Nothing is rolled back: a transfer of several words that
faults has already made those before the fault, and PUSH moves SP before it stores. Everything
else throws before it writes.
-/

namespace McuSimulator.Cpu

open McuSimulator.Memory CortexM0

/-- The registers apart from PC, and the memory, are as in `s`. -/
def SameData (s t : CortexM0) : Prop := (∀ r, r ≠ .pc → t.regs r = s.regs r) ∧ t.mem = s.mem

private theorem SameData.refl (s : CortexM0) : SameData s s := ⟨fun _ _ ↦ rfl, rfl⟩

private theorem not_sameData_of_sp {s t : CortexM0} (h : t.sp ≠ s.sp) : ¬ SameData s t :=
  fun hsame ↦ h (hsame.1 .sp (by decide))

/-- The fault of an instruction leaves no trace, in the state after `fetch`: no word has been
transferred before it, or each of them was there already. -/
def Instruction.FaultsCleanly (s : CortexM0) : Instruction → Prop
  | push .. => False
  | pop .. => ¬ Accessible s.sp 4
  | block _ rb rlist => ∀ i < 8, rlist.getLsbD i = true →
      (∀ q ≤ listedBelow rlist i, Accessible (wordAddr (s.regs rb) q) 4) →
      wordAt s.mem (wordAddr (s.regs rb) (listedBelow rlist i)) = s.regs (listed i)
  | _ => True

namespace CortexM0

/-! ### PUSH -/

/-- SP is below `s` by at least one and at most `n` words. -/
def BelowSp (s : CortexM0) (n : Nat) (t : CortexM0) : Prop :=
  ∃ k < n, t.sp = s.sp - BitVec.ofNat 32 (4 * (k + 1))

private theorem pushReg_error {s t : CortexM0} {r : RegIndex} {n : Nat} {f : Fault}
    {k : CortexM0 → Outcome Unit} (hk : ∀ u, k u = .error f t → u.BelowSp n t)
    (h : s.pushReg r k = .error f t) : s.BelowSp (n + 1) t := by
  unfold pushReg bus at h
  dsimp only at h
  split at h
  case h_1 m hm =>
    obtain ⟨j, hj, hsp⟩ := hk _ h
    have hone : (s.setReg .sp (s.sp - 4)).sp = s.sp - 4 := s.setReg_sp _
    refine ⟨j + 1, Nat.succ_lt_succ hj, ?_⟩
    calc t.sp = (s.setReg .sp (s.sp - 4)).sp - BitVec.ofNat 32 (4 * (j + 1)) := hsp
      _ = s.sp - (BitVec.ofNat 32 4 + BitVec.ofNat 32 (4 * (j + 1))) := by
        rw [hone, BitVec.sub_sub]
        rfl
      _ = s.sp - BitVec.ofNat 32 (4 * (j + 1 + 1)) := by
        rw [BitVec.ofNat_add_ofNat, Nat.mul_succ 4 (j + 1), Nat.add_comm]
  case h_2 e he =>
    cases h
    exact ⟨0, Nat.succ_pos n, s.setReg_sp _⟩

private theorem pushRegs_error {rlist : BitVec 8} {is : List Nat} {s t : CortexM0} {f : Fault}
    (h : pushRegs rlist is s = .error f t) : s.BelowSp is.length t := by
  induction is generalizing s with
  | nil => cases h
  | cons i is ih =>
    rw [pushRegs] at h
    split at h
    · exact pushReg_error (fun u ↦ ih) h
    · obtain ⟨k, hk, hsp⟩ := ih h
      exact ⟨k, Nat.lt_succ_of_lt hk, hsp⟩

private theorem BelowSp.sp_ne {s t : CortexM0} {n : Nat} (hn : n ≤ 9) (h : s.BelowSp n t) :
    t.sp ≠ s.sp := by
  obtain ⟨k, hk, hsp⟩ := h
  intro he
  rw [hsp] at he
  have hv := congrArg BitVec.toNat he
  rw [BitVec.toNat_sub, BitVec.toNat_ofNat] at hv
  have hlt := s.sp.isLt
  omega

private theorem run_push_error {s t : CortexM0} {lr : Bool} {rlist : BitVec 8} {f : Fault}
    (h : (Instruction.push lr rlist).run s = .error f t) : t.sp ≠ s.sp := by
  cases lr with
  | false => exact (pushRegs_error h).sp_ne (by decide)
  | true => exact (pushReg_error (fun u ↦ pushRegs_error) h).sp_ne (by decide)

/-! ### POP -/

private theorem run_pop_error {s t : CortexM0} {pc : Bool} {rlist : BitVec 8} {f : Fault}
    (h : (Instruction.pop pc rlist).run s = .error f t) :
    ∃ m ≤ 8, s.AfterWords m t ∧ ¬ Accessible (wordAddr s.sp m) 4 := by
  obtain ⟨m, hm⟩ := popRegs_progress rlist (List.range 8) (fun i hi ↦ List.mem_range.mp hi) s
  have hle : (List.range 8).countP (rlist.getLsbD ·) ≤ 8 := listedBelow_le rlist 8
  rw [Instruction.run] at h
  cases he : popRegs rlist (List.range 8) s with
  | error g u =>
    rw [he] at h hm
    cases h
    exact ⟨m, by omega, hm.1, hm.2.2⟩
  | ok v u =>
    rw [he] at h hm
    obtain ⟨hafter, hcount⟩ := hm
    dsimp only at h
    split at h
    case isTrue =>
      unfold popPc bus at h
      split at h
      case h_1 => cases h
      case h_2 e hread =>
        cases h
        have hacc := FlatMemoryBus.not_accessible_of_read32 hread
        rw [hafter.sp] at hacc
        exact ⟨m, by omega, hafter, hacc⟩
    case isFalse => cases h

/-- POP leaves no trace when already its first word cannot be read. -/
theorem run_pop_sameData {s t : CortexM0} {pc : Bool} {rlist : BitVec 8} {f : Fault}
    (h : (Instruction.pop pc rlist).run s = .error f t) :
    SameData s t ↔ ¬ Accessible s.sp 4 := by
  obtain ⟨m, hm, hafter, hacc⟩ := run_pop_error h
  cases m with
  | zero =>
    rw [wordAddr_zero] at hacc
    rw [hafter.start rfl]
    exact iff_of_true (.refl s) hacc
  | succ m =>
    have hfirst := hafter.accessible 0 (Nat.succ_pos m)
    rw [wordAddr_zero] at hfirst
    refine iff_of_false (not_sameData_of_sp ?_) (not_not.mpr hfirst)
    rw [hafter.sp]
    exact wordAddr_ne_base _ (Nat.succ_pos m) hm

/-! ### LDM and STM -/

section

variable {load : Bool} {rlist : BitVec 8}

/-- A listed register: its word is transferred, or the loop faults at once. -/
theorem ldmStmLoop_listed (load : Bool) {i : Nat} (hl : rlist.getLsbD i = true) (addr : BitVec 32)
    (s : CortexM0) :
    (¬ Accessible addr 4 ∧ ∃ f, ∀ is, ldmStmLoop load rlist (i :: is) addr s = .error f s) ∨
    (Accessible addr 4 ∧ ∃ u, ∀ is,
      ldmStmLoop load rlist (i :: is) addr s = ldmStmLoop load rlist is (addr + 4) u) := by
  cases load with
  | true =>
    cases hread : s.mem.read32 addr with
    | error e =>
      refine .inl ⟨FlatMemoryBus.not_accessible_of_read32 hread, .busFault e, fun is ↦ ?_⟩
      rw [ldmStmLoop, if_pos hl, if_pos rfl, hread, bus_error]
    | ok v =>
      refine .inr ⟨FlatMemoryBus.accessible_of_read32 hread, s.setReg (listed i) v, fun is ↦ ?_⟩
      rw [ldmStmLoop, if_pos hl, if_pos rfl, hread, bus_ok]
  | false =>
    cases hwrite : s.mem.write32 addr (s.regs (listed i)) with
    | error e =>
      refine .inl ⟨FlatMemoryBus.not_accessible_of_write32 hwrite, .busFault e, fun is ↦ ?_⟩
      rw [ldmStmLoop, if_pos hl, if_neg Bool.false_ne_true, hwrite, bus_error]
    | ok m =>
      refine .inr ⟨FlatMemoryBus.accessible_of_write32 hwrite, { s with mem := m }, fun is ↦ ?_⟩
      rw [ldmStmLoop, if_pos hl, if_neg Bool.false_ne_true, hwrite, bus_ok]

/-- The loop faults at the word of a listed register, after those before it. -/
theorem ldmStmLoop_error {base : BitVec 32} {t : CortexM0} {f : Fault} (k a : Nat) (s : CortexM0)
    (h : ldmStmLoop load rlist (List.range' a k) (wordAddr base (listedBelow rlist a)) s =
      .error f t) :
    ∃ j < k, rlist.getLsbD (a + j) = true ∧
      (∀ q, listedBelow rlist a ≤ q → q < listedBelow rlist (a + j) →
        Accessible (wordAddr base q) 4) ∧
      ¬ Accessible (wordAddr base (listedBelow rlist (a + j))) 4 ∧
      ldmStmLoop load rlist (List.range' a j) (wordAddr base (listedBelow rlist a)) s =
        .ok (wordAddr base (listedBelow rlist (a + j))) t := by
  induction k generalizing a s with
  | zero => cases h
  | succ k ih =>
    rw [List.range'_succ] at h
    cases hl : rlist.getLsbD a with
    | false =>
      have hsucc := listedBelow_succ_neg hl
      have hskip (is : List Nat) (addr : BitVec 32) :
          ldmStmLoop load rlist (a :: is) addr s = ldmStmLoop load rlist is addr s := by
        rw [ldmStmLoop, if_neg (by simp [hl])]
      rw [hskip, ← hsucc] at h
      obtain ⟨j, hj, hlist, hacc, hnot, hloop⟩ := ih (a + 1) s h
      have hnext : a + 1 + j = a + (j + 1) := by omega
      rw [hnext] at hlist hacc hnot hloop
      refine ⟨j + 1, Nat.succ_lt_succ hj, hlist, ?_, hnot, ?_⟩
      · rwa [hsucc] at hacc
      · rw [List.range'_succ, hskip, ← hsucc]
        exact hloop
    | true =>
      have hsucc := listedBelow_succ_pos hl
      rcases ldmStmLoop_listed load hl (wordAddr base (listedBelow rlist a)) s with
        ⟨hnot, g, hstop⟩ | ⟨hacc, u, hgo⟩
      · rw [hstop] at h
        cases h
        exact ⟨0, Nat.succ_pos k, hl, fun q hq hq' ↦ absurd hq (Nat.not_le_of_lt hq'), hnot, rfl⟩
      · rw [hgo, ← wordAddr_succ, ← hsucc] at h
        obtain ⟨j, hj, hlist, haccs, hnot, hloop⟩ := ih (a + 1) u h
        have hnext : a + 1 + j = a + (j + 1) := by omega
        rw [hnext] at hlist haccs hnot hloop
        refine ⟨j + 1, Nat.succ_lt_succ hj, hlist, ?_, hnot, ?_⟩
        · intro q hq hq'
          rcases Nat.eq_or_lt_of_le hq with rfl | hlt
          · exact hacc
          · exact haccs q (by omega) hq'
        · rw [List.range'_succ, hgo, ← wordAddr_succ, ← hsucc]
          exact hloop

/-- Every word before that of an index belongs to a listed register. -/
theorem exists_listedBelow (rlist : BitVec 8) {q j : Nat} (h : q < listedBelow rlist j) :
    ∃ i < j, rlist.getLsbD i = true ∧ listedBelow rlist i = q := by
  induction j with
  | zero => exact absurd h (Nat.not_lt_zero q)
  | succ j ih =>
    cases hl : rlist.getLsbD j with
    | false =>
      rw [listedBelow_succ_neg hl] at h
      obtain ⟨i, hi, hrest⟩ := ih h
      exact ⟨i, Nat.lt_succ_of_lt hi, hrest⟩
    | true =>
      rw [listedBelow_succ_pos hl] at h
      rcases Nat.eq_or_lt_of_le (Nat.le_of_lt_succ h) with rfl | hlt
      · exact ⟨j, Nat.lt_succ_self j, hl, rfl⟩
      · obtain ⟨i, hi, hrest⟩ := ih hlt
        exact ⟨i, Nat.lt_succ_of_lt hi, hrest⟩

/-- The words of LDM before the fault leave no trace when they are in their registers. -/
theorem ldm_sameData {base : BitVec 32} {j : Nat} {addr : BitVec 32} {s t : CortexM0} (hj : j ≤ 8)
    (hacc : ∀ q < listedBelow rlist j, Accessible (wordAddr base q) 4)
    (h : ldmStmLoop true rlist (List.range' 0 j) (wordAddr base (listedBelow rlist 0)) s =
      .ok addr t) :
    SameData s t ↔ ∀ i < j, rlist.getLsbD i = true →
      wordAt s.mem (wordAddr base (listedBelow rlist i)) = s.regs (listed i) := by
  rw [ldmLoop_eq j 0 s (by omega) (by rwa [Nat.zero_add])] at h
  injection h with _ h
  rw [← h]
  constructor
  · rintro ⟨hregs, -⟩ i hi hl
    have hreg := hregs (listed i) (listed_ne_pc (by omega))
    dsimp only at hreg
    rw [toNat_listed (by omega), if_pos ⟨hl, Nat.zero_le i, by omega⟩] at hreg
    exact hreg
  · intro hwords
    refine ⟨fun r _ ↦ ?_, rfl⟩
    dsimp only
    split
    case isTrue hr =>
      rw [hwords r.toNat (by omega) hr.1, listed_toNat]
    case isFalse => rfl

/-- The words of STM before the fault leave no trace when they were in memory. -/
theorem stm_sameData {base : BitVec 32} {j : Nat} {addr : BitVec 32} {s t : CortexM0}
    (hacc : ∀ q < listedBelow rlist j, Accessible (wordAddr base q) 4)
    (h : ldmStmLoop false rlist (List.range' 0 j) (wordAddr base (listedBelow rlist 0)) s =
      .ok addr t) :
    SameData s t ↔ ∀ i < j, rlist.getLsbD i = true →
      wordAt s.mem (wordAddr base (listedBelow rlist i)) = s.regs (listed i) := by
  obtain ⟨m, hloop, hstored, hcells⟩ := stmLoop_eq j 0 s (by rwa [Nat.zero_add])
  rw [hloop] at h
  injection h with _ h
  rw [← h]
  rw [Nat.zero_add] at hstored hcells
  constructor
  · rintro ⟨-, hmem⟩ i hi hl
    have hread := hstored i (Nat.zero_le i) hi hl
    rw [show m = s.mem from hmem] at hread
    rw [wordAt, hread]
  · intro hwords
    refine ⟨fun _ _ ↦ rfl, ?_⟩
    show m = s.mem
    ext1
    funext cell
    by_cases hc : ∃ q < listedBelow rlist j, Covers (wordAddr base q) 4 cell
    · obtain ⟨q, hq, hcover⟩ := hc
      obtain ⟨i, hi, hl, rfl⟩ := exists_listedBelow rlist hq
      have hold := read32_eq_wordAt (m := s.mem) (hacc _ hq)
      rw [hwords i hi hl] at hold
      exact data_eq_of_read32 (hstored i (Nat.zero_le i) hi hl) hold hcover
    · exact hcells cell fun q _ hq hcover ↦ hc ⟨q, hq, hcover⟩

private theorem run_block_sameData {rb : RegIndex} {s t : CortexM0} {f : Fault}
    (h : (Instruction.block load rb rlist).run s = .error f t) :
    SameData s t ↔ (Instruction.block load rb rlist).FaultsCleanly s := by
  have hloop : ldmStmLoop load rlist (List.range' 0 8)
      (wordAddr (s.regs rb) (listedBelow rlist 0)) s = .error f t := by
    rw [show listedBelow rlist 0 = 0 from rfl, wordAddr_zero, ← List.range_eq_range']
    rw [Instruction.run] at h
    split at h
    case h_1 he =>
      cases h
      exact he
    case h_2 => cases h
  obtain ⟨j, hj, hl, hacc, hnot, hloop⟩ := ldmStmLoop_error 8 0 s hloop
  rw [Nat.zero_add] at hl hacc hnot hloop
  have hacc' (q : Nat) (hq : q < listedBelow rlist j) : Accessible (wordAddr (s.regs rb) q) 4 :=
    hacc q (Nat.zero_le q) hq
  have hclean : (Instruction.block load rb rlist).FaultsCleanly s ↔
      ∀ i < j, rlist.getLsbD i = true →
        wordAt s.mem (wordAddr (s.regs rb) (listedBelow rlist i)) = s.regs (listed i) := by
    constructor
    · intro hall i hi hli
      have hlt := listedBelow_lt rlist hi hli
      exact hall i (by omega) hli fun q hq ↦ hacc' q (by omega)
    · intro hall i hi hli hwords
      refine hall i ?_ hli
      by_contra hge
      -- a later word comes after the one that faults
      exact hnot (hwords _ (listedBelow_mono rlist (Nat.le_of_not_lt hge)))
  rw [hclean]
  cases load with
  | true => exact ldm_sameData (Nat.le_of_lt hj) hacc' hloop
  | false => exact stm_sameData hacc' hloop

end

end CortexM0

/-! ### Every instruction -/

/-- A load or a store that faults has done nothing. -/
theorem run_transfer_error {load : Bool} {w : Width} {rt : RegIndex} {a : Address}
    {s t : CortexM0} {f : Fault} (h : (Instruction.transfer load w rt a).run s = .error f t) :
    t = s := by
  cases load with
  | true =>
    rw [Instruction.run] at h
    unfold loadReg bus at h
    split at h
    case h_1 => cases h
    case h_2 =>
      cases h
      rfl
  | false =>
    rw [Instruction.run] at h
    unfold storeMem bus at h
    split at h
    case h_1 => cases h
    case h_2 =>
      cases h
      rfl

private theorem run_pop_error_control {pc : Bool} {rlist : BitVec 8} {s t : CortexM0} {f : Fault}
    (h : (Instruction.pop pc rlist).run s = .error f t) : SameControl s t := by
  have hloop := popRegs_control rlist (List.range 8) (fun i hi ↦ List.mem_range.mp hi) s
  rw [Instruction.run] at h
  split at h
  case h_1 he =>
    rw [he] at hloop
    cases h
    exact hloop
  case h_2 u he =>
    rw [he] at hloop
    split at h
    case isTrue =>
      unfold popPc bus at h
      split at h
      case h_1 => cases h
      case h_2 =>
        cases h
        exact hloop
    case isFalse => cases h

private theorem run_block_error_control {load : Bool} {rb : RegIndex} {rlist : BitVec 8}
    {s t : CortexM0}
    {f : Fault} (h : (Instruction.block load rb rlist).run s = .error f t) : SameControl s t := by
  have hloop := ldmStmLoop_control load rlist (List.range 8) (fun i hi ↦ List.mem_range.mp hi)
    (s.regs rb) s
  rw [Instruction.run] at h
  split at h
  case h_1 he =>
    rw [he] at hloop
    cases h
    exact hloop
  case h_2 => cases h

private theorem not_data_of_run_error {i : Instruction} {s t : CortexM0} {f : Fault}
    (h : i.run s = .error f t) : ¬ i.DataProcessing := by
  intro hi
  obtain ⟨u, hu, -⟩ := Instruction.run_sameBut hi s
  rw [hu] at h
  cases h

/-- A fault leaves PC, the halt flag, the cycle count and the flags. It leaves no trace in the
registers and the memory exactly when it is a clean one. -/
theorem Instruction.run_error {i : Instruction} {s t : CortexM0} {f : Fault}
    (h : i.run s = .error f t) :
    SameControl s t ∧ t.apsr = s.apsr ∧ (SameData s t ↔ i.FaultsCleanly s) := by
  have hflags := i.run_flags s
  have hend : endState (i.run s) = t := by rw [h, endState_error]
  rw [hend] at hflags
  cases i with
  | shift | addSub | mov | cmp | accumulate | alu | addHi | cmpHi | movHi | addSpPc | adjustSp =>
    exact (not_data_of_run_error h trivial).elim
  | bx | blx | nop | branchCond | branch | blUpper | blLower => cases h
  | transfer load w rt a =>
    rw [run_transfer_error h]
    exact ⟨.refl s, rfl, iff_of_true (.refl s) trivial⟩
  | push lr rlist =>
    refine ⟨?_, hflags, iff_of_false (not_sameData_of_sp (run_push_error h)) id⟩
    rw [← hend]
    cases lr with
    | false => exact pushRegs_control rlist _ s
    | true => exact pushReg_control .lr (pushRegs_control rlist _)
  | pop pc rlist => exact ⟨run_pop_error_control h, hflags, run_pop_sameData h⟩
  | block load rb rlist => exact ⟨run_block_error_control h, hflags, run_block_sameData h⟩
  | undefined opcode =>
    cases h
    exact ⟨.refl s, rfl, iff_of_true (.refl s) trivial⟩

namespace CortexM0

/-- The opcode that the next step fetches, if it can fetch one, faults cleanly. -/
def FaultsCleanly (s : CortexM0) : Prop :=
  ∀ instr, s.mem.read16 s.pc = .ok instr → (instruction instr).FaultsCleanly s.advancePc

/-- A step that throws leaves the flags, the halt flag and the cycle count, and PC where it was or
behind the instruction. The other registers and the memory are as before exactly when the
instruction is no PUSH, and no POP, LDM or STM that has already changed something. -/
theorem fault_frame {s t : CortexM0} {f : Fault} (h : s.step = .error f t) :
    t.apsr = s.apsr ∧ t.halted = s.halted ∧ t.cycles = s.cycles ∧
    (t.pc = s.pc ∨ t.pc = s.pc + 2) ∧
    ((∀ r, r ≠ .pc → t.regs r = s.regs r) ∧ t.mem = s.mem ↔ s.FaultsCleanly) := by
  cases hs : s.halted with
  | true =>
    rw [step_of_halted hs] at h
    cases h
  | false =>
    cases hread : s.mem.read16 s.pc with
    | error e =>
      have hfetch : s.fetch = .error (.busFault e) s := by rw [fetch, hread, bus_error]
      unfold step at h
      rw [if_neg (by simp [hs]), hfetch] at h
      cases h
      refine ⟨rfl, hs, rfl, .inl rfl, iff_of_true ⟨fun _ _ ↦ rfl, rfl⟩ ?_⟩
      intro instr hinstr
      rw [hread] at hinstr
      cases hinstr
    | ok instr =>
      have hstep := step_of_fetch hs hread
      rw [h, execute_eq_run] at hstep
      cases hrun : (instruction instr).run s.advancePc with
      | ok v u =>
        rw [hrun] at hstep
        cases hstep
      | error g u =>
        rw [hrun] at hstep
        cases hstep
        obtain ⟨hcontrol, hflags, hdata⟩ := Instruction.run_error hrun
        refine ⟨hflags, hcontrol.halted.trans hs, hcontrol.cycles,
          .inr (hcontrol.pc.trans s.advancePc_pc), ?_⟩
        have hclean : s.FaultsCleanly ↔ (instruction instr).FaultsCleanly s.advancePc := by
          rw [FaultsCleanly, hread]
          simp
        have hregs (r : RegIndex) (hr : r ≠ .pc) : s.advancePc.regs r = s.regs r :=
          s.setReg_of_ne hr _
        rw [hclean, ← hdata]
        constructor
        · rintro ⟨hsame, hmem⟩
          exact ⟨fun r hr ↦ (hsame r hr).trans (hregs r hr).symm, hmem⟩
        · rintro ⟨hsame, hmem⟩
          exact ⟨fun r hr ↦ (hsame r hr).trans (hregs r hr), hmem⟩

/-- `LDR R0, [R1, #0]` with an unmapped address in R1. -/
def loadStart : CortexM0 :=
  (new (FlatMemoryBus.clear.memcpy 0 [0x08, 0x68])).setReg 1 0x40000000

/-- A load leaves everything but PC. -/
theorem fault_frame_load :
    (∀ r, r ≠ .pc → (endState loadStart.step).regs r = loadStart.regs r) ∧
      (endState loadStart.step).mem = loadStart.mem := by
  have hstep : loadStart.step = .error (.busFault ⟨0x40000000⟩) (endState loadStart.step) := by rfl
  have hread : loadStart.mem.read16 loadStart.pc = .ok 0x6808 := by rfl
  refine (fault_frame hstep).2.2.2.2.mpr ?_
  intro instr hinstr
  rw [hread] at hinstr
  cases hinstr
  trivial

/-- `PUSH {R0}` with SP at 0. -/
def pushStart : CortexM0 :=
  (new (FlatMemoryBus.clear.memcpy 0 [0x01, 0xB4])).setReg .sp 0

/-- PUSH has moved SP when it faults. -/
theorem push_fault_moves_sp :
    pushStart.step = .error (.busFault ⟨0xFFFFFFFC⟩) (endState pushStart.step) ∧
      (endState pushStart.step).sp = 0xFFFFFFFC ∧ pushStart.sp = 0 :=
  ⟨by rfl, by rfl, by rfl⟩

end CortexM0

end McuSimulator.Cpu
