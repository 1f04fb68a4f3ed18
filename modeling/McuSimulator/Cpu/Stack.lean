import McuSimulator.Cpu.BlockTransfer
import McuSimulator.Cpu.Instruction

/-!
# PUSH and POP

PUSH runs down the list and down the addresses, POP runs up both. Each listed register has its word
in the frame, in ascending order from the new SP, and LR the one above them.
-/

namespace McuSimulator.Cpu

open McuSimulator.Memory

/-! ### The frame -/

/-- The number of words that PUSH and POP transfer. -/
def frameWords (lr : Bool) (rlist : BitVec 8) : Nat := listedBelow rlist 8 + lr.toNat

/-- The cell is one of the `n` words from `base` on. -/
def InFrame (base : BitVec 32) (n : Nat) (cell : Fin size) : Prop :=
  ∃ k < n, Covers (wordAddr base k) 4 cell

private theorem wordAddr_sub_four (base : BitVec 32) (k : Nat) :
    wordAddr base (k + 1) - 4 = wordAddr base k := by
  rw [wordAddr_succ, BitVec.add_sub_cancel]

private theorem listed_ne_sp {i : Nat} (hi : i < 8) : listed i ≠ .sp := by
  intro h
  have hv := congrArg BitVec.toNat h
  rw [toNat_listed hi] at hv
  unfold RegIndex.sp at hv
  simp at hv
  omega

namespace CortexM0

/-- Where SP is after PUSH. -/
def frameBase (s : CortexM0) (lr : Bool) (rlist : BitVec 8) : BitVec 32 :=
  s.sp - BitVec.ofNat 32 (4 * frameWords lr rlist)

private theorem wordAddr_frameBase (s : CortexM0) (lr : Bool) (rlist : BitVec 8) :
    wordAddr (s.frameBase lr rlist) (frameWords lr rlist) = s.sp := by
  rw [wordAddr, frameBase, BitVec.sub_add_cancel]

/-- After PUSH: every listed register is stored in its word and LR above them, SP points at the
first word, and nothing else has changed. -/
structure PushPost (s : CortexM0) (lr : Bool) (rlist : BitVec 8) (t : CortexM0) : Prop where
  stored : ∀ i < 8, rlist.getLsbD i = true →
    t.mem.read32 (wordAddr (s.frameBase lr rlist) (listedBelow rlist i)) = .ok (s.regs (listed i))
  storedLr : lr = true →
    t.mem.read32 (wordAddr (s.frameBase lr rlist) (listedBelow rlist 8)) = .ok (s.regs .lr)
  cells : ∀ cell, ¬ InFrame (s.frameBase lr rlist) (frameWords lr rlist) cell →
    t.mem.data cell = s.mem.data cell
  rest : t = { s.setReg .sp (s.frameBase lr rlist) with mem := t.mem }

/-! ### The loops -/

section

variable {rlist : BitVec 8} {base : BitVec 32}

/-- The loop of PUSH over the registers below `n`, with SP above their words. -/
theorem pushLoop_eq (n : Nat) (s : CortexM0) (hn : n ≤ 8)
    (hsp : s.sp = wordAddr base (listedBelow rlist n))
    (hacc : ∀ q < listedBelow rlist n, Accessible (wordAddr base q) 4) :
    ∃ m, pushRegs rlist (List.range n).reverse s = .ok () { s.setReg .sp base with mem := m } ∧
      (∀ i < n, rlist.getLsbD i = true →
        m.read32 (wordAddr base (listedBelow rlist i)) = .ok (s.regs (listed i))) ∧
      ∀ cell, (∀ q < listedBelow rlist n, ¬ Covers (wordAddr base q) 4 cell) →
        m.data cell = s.mem.data cell := by
  induction n generalizing s with
  | zero =>
    have hbase : base = s.sp := by
      rw [hsp]
      exact (wordAddr_zero base).symm
    refine ⟨s.mem, ?_, fun i hi ↦ absurd hi (Nat.not_lt_zero i), fun _ _ ↦ rfl⟩
    rw [hbase, sp, setReg_eq_self]
    rfl
  | succ n ih =>
    rw [List.range_succ, List.reverse_append, List.reverse_singleton, List.singleton_append,
      pushRegs]
    cases hl : rlist.getLsbD n with
    | false =>
      rw [listedBelow_succ_neg hl] at hsp hacc
      obtain ⟨m, hloop, hstored, hcells⟩ := ih s (by omega) hsp hacc
      refine ⟨m, hloop, ?_, ?_⟩
      · intro i hi hlist
        rcases Nat.eq_or_lt_of_le (Nat.le_of_lt_succ hi) with rfl | hlt
        · rw [hl] at hlist
          cases hlist
        · exact hstored i hlt hlist
      · rwa [listedBelow_succ_neg hl]
    | true =>
      have hsucc := listedBelow_succ_pos hl
      rw [hsucc] at hsp hacc
      have hdown : s.sp - 4 = wordAddr base (listedBelow rlist n) := by
        rw [hsp, wordAddr_sub_four]
      have hreg {i : Nat} (hi : i < 8) (v : BitVec 32) :
          (s.setReg .sp v).regs (listed i) = s.regs (listed i) :=
        s.setReg_of_ne (listed_ne_sp hi) v
      obtain ⟨m, hm⟩ := s.mem.exists_write32 (hacc _ (Nat.lt_succ_self _)) (s.regs (listed n))
      obtain ⟨m', hloop, hstored, hcells⟩ := ih
        { s.setReg .sp (wordAddr base (listedBelow rlist n)) with mem := m } (by omega)
        (s.setReg_self .sp _) fun q hq ↦ hacc q (by omega)
      rw [hsucc]
      refine ⟨m', ?_, ?_, ?_⟩
      · rw [if_pos rfl, pushReg, hdown, setReg_sp, hreg hn, setReg_mem, hm, bus_ok, hloop]
        show EStateM.Result.ok () { (s.setReg .sp _).setReg .sp base with mem := m' } = _
        rw [setReg_setReg]
      · intro i hi hlist
        rcases Nat.eq_or_lt_of_le (Nat.le_of_lt_succ hi) with rfl | hlt
        · -- the later stores are below this word
          rw [← FlatMemoryBus.read32_write32 hm]
          apply FlatMemoryBus.read32_congr
          intro cell hcell
          apply hcells
          intro q hq
          exact not_covers_wordAddr hacc (Nat.lt_succ_self _) (by omega) (by omega) hcell
        · rw [hstored i hlt hlist]
          exact congrArg Except.ok (hreg (by omega) _)
      · intro cell hcell
        rw [hcells cell fun q hq ↦ hcell q (by omega)]
        exact FlatMemoryBus.data_write32 hm (hcell _ (Nat.lt_succ_self _))

/-- The loop of POP is that of LDM with SP for the running address. -/
theorem popRegs_of_ldmStmLoop {is : List Nat} (his : ∀ i ∈ is, i < 8) {s t : CortexM0}
    {addr addr' : BitVec 32} (h : ldmStmLoop true rlist is addr s = .ok addr' t) :
    popRegs rlist is (s.setReg .sp addr) = .ok () (t.setReg .sp addr') := by
  induction is generalizing s addr with
  | nil =>
    cases h
    rfl
  | cons i is ih =>
    have hi := listed_ne_sp (his i (List.mem_cons_self ..))
    have hrest := fun j hj ↦ his j (List.mem_cons_of_mem _ hj)
    rw [ldmStmLoop] at h
    rw [popRegs]
    split
    case isTrue hl =>
      rw [if_pos hl, if_pos rfl] at h
      rw [setReg_sp, setReg_mem]
      cases hread : s.mem.read32 addr with
      | error f =>
        rw [hread] at h
        cases h
      | ok v =>
        rw [hread, bus_ok] at h
        rw [bus_ok]
        dsimp only
        rw [s.setReg_comm hi.symm, setReg_sp, setReg_setReg]
        exact ih hrest h
    case isFalse hl =>
      rw [if_neg hl] at h
      exact ih hrest h

end

/-! ### Half-way through POP -/

/-- Where POP is after `m` words: it has read them, SP is behind them, and before the first word
nothing has changed. -/
structure AfterWords (s : CortexM0) (m : Nat) (t : CortexM0) : Prop where
  sp : t.sp = wordAddr s.sp m
  mem : t.mem = s.mem
  accessible : ∀ q < m, Accessible (wordAddr s.sp q) 4
  start : m = 0 → t = s

private theorem AfterWords.refl (s : CortexM0) : s.AfterWords 0 s :=
  ⟨(wordAddr_zero s.sp).symm, rfl, fun _ h ↦ absurd h (Nat.not_lt_zero _), fun _ ↦ rfl⟩

private theorem wordAddr_add_four (base : BitVec 32) (k : Nat) :
    wordAddr (base + 4) k = wordAddr base (k + 1) := by
  rw [wordAddr_succ, wordAddr, wordAddr, BitVec.add_assoc, BitVec.add_assoc,
    BitVec.add_comm (4 : BitVec 32)]

/-- One more word in front. -/
theorem AfterWords.cons {s t : CortexM0} {i m : Nat} {v : BitVec 32} (hi : i < 8)
    (hread : s.mem.read32 s.sp = .ok v)
    (h : ((s.setReg (listed i) v).setReg .sp ((s.setReg (listed i) v).sp + 4)).AfterWords m t) :
    s.AfterWords (m + 1) t := by
  have hsp : (s.setReg (listed i) v).sp = s.sp := s.setReg_of_ne (listed_ne_sp hi).symm v
  have hacc := h.accessible
  rw [setReg_sp, hsp] at hacc
  refine ⟨?_, h.mem, ?_, nofun⟩
  · rw [h.sp, setReg_sp, hsp, wordAddr_add_four]
  · intro q hq
    cases q with
    | zero =>
      rw [wordAddr_zero]
      exact FlatMemoryBus.accessible_of_read32 hread
    | succ q =>
      rw [← wordAddr_add_four]
      exact hacc q (Nat.lt_of_succ_lt_succ hq)

/-- The loop of POP ends behind its words, or before one that cannot be read. -/
theorem popRegs_progress (rlist : BitVec 8) (is : List Nat) (his : ∀ i ∈ is, i < 8)
    (s : CortexM0) :
    ∃ m, match popRegs rlist is s with
      | .ok () t => s.AfterWords m t ∧ m = is.countP (rlist.getLsbD ·)
      | .error _ t => s.AfterWords m t ∧ m < is.countP (rlist.getLsbD ·) ∧
          ¬ Accessible (wordAddr s.sp m) 4 := by
  induction is generalizing s with
  | nil => exact ⟨0, .refl s, rfl⟩
  | cons i is ih =>
    have hi := his i (List.mem_cons_self ..)
    have hrest := ih fun j hj ↦ his j (List.mem_cons_of_mem _ hj)
    rw [popRegs]
    cases hl : rlist.getLsbD i with
    | false =>
      rw [List.countP_cons_of_neg (by simp [hl])]
      exact hrest s
    | true =>
      rw [List.countP_cons_of_pos hl, if_pos rfl]
      cases hread : s.mem.read32 s.sp with
      | error f =>
        refine ⟨0, .refl s, Nat.succ_pos _, ?_⟩
        rw [wordAddr_zero]
        exact FlatMemoryBus.not_accessible_of_read32 hread
      | ok v =>
        obtain ⟨m, hm⟩ :=
          hrest ((s.setReg (listed i) v).setReg .sp ((s.setReg (listed i) v).sp + 4))
        refine ⟨m + 1, ?_⟩
        rw [bus_ok]
        dsimp only
        cases he : popRegs rlist is
            ((s.setReg (listed i) v).setReg .sp ((s.setReg (listed i) v).sp + 4)) with
        | ok u t =>
          rw [he] at hm
          exact ⟨.cons hi hread hm.1, congrArg (· + 1) hm.2⟩
        | error f t =>
          rw [he] at hm
          obtain ⟨hafter, hlt, hacc⟩ := hm
          have hsp : (s.setReg (listed i) v).sp = s.sp := s.setReg_of_ne (listed_ne_sp hi).symm v
          rw [setReg_sp, hsp, wordAddr_add_four] at hacc
          exact ⟨.cons hi hread hafter, Nat.succ_lt_succ hlt, hacc⟩

/-! ### The instructions -/

section

variable {rlist : BitVec 8}

private theorem run_push {s : CortexM0} {lr : Bool}
    (hacc : ∀ k < frameWords lr rlist, Accessible (wordAddr (s.frameBase lr rlist) k) 4) :
    ∃ t, (Instruction.push lr rlist).run s = .ok () t ∧ s.PushPost lr rlist t := by
  have htop := s.wordAddr_frameBase lr rlist
  cases lr with
  | false =>
    obtain ⟨m, hloop, hstored, hcells⟩ := pushLoop_eq 8 s le_rfl htop.symm hacc
    exact ⟨_, hloop, hstored, nofun, fun cell hc ↦ hcells cell fun q hq h ↦ hc ⟨q, hq, h⟩, rfl⟩
  | true =>
    have hdown : s.sp - 4 = wordAddr (s.frameBase true rlist) (listedBelow rlist 8) := by
      rw [← htop]
      exact wordAddr_sub_four ..
    have hlr : (s.setReg .sp (s.sp - 4)).regs .lr = s.regs .lr := s.setReg_of_ne (by decide) _
    obtain ⟨m, hm⟩ := s.mem.exists_write32 (hacc _ (Nat.lt_succ_self _)) (s.regs .lr)
    obtain ⟨m', hloop, hstored, hcells⟩ := pushLoop_eq 8
      { s.setReg .sp (wordAddr (s.frameBase true rlist) (listedBelow rlist 8)) with mem := m }
      le_rfl (s.setReg_sp _) fun q hq ↦ hacc q (Nat.lt_succ_of_lt hq)
    refine ⟨{ s.setReg .sp (s.frameBase true rlist) with mem := m' }, ?_, ?_, ?_, ?_, rfl⟩
    · rw [Instruction.run, pushReg, hlr, hdown, setReg_sp, setReg_mem, hm, bus_ok, hloop]
      show EStateM.Result.ok () { (s.setReg .sp _).setReg .sp _ with mem := m' } = _
      rw [setReg_setReg]
    · intro i hi hlist
      rw [hstored i hi hlist]
      exact congrArg Except.ok (s.setReg_of_ne (listed_ne_sp hi) _)
    · intro _
      rw [← FlatMemoryBus.read32_write32 hm]
      apply FlatMemoryBus.read32_congr
      intro cell hcell
      apply hcells
      intro q hq
      exact not_covers_wordAddr hacc (Nat.lt_succ_self _) (Nat.lt_succ_of_lt hq) (by omega) hcell
    · intro cell hc
      rw [hcells cell fun q hq h ↦ hc ⟨q, Nat.lt_succ_of_lt hq, h⟩]
      exact FlatMemoryBus.data_write32 hm fun h ↦ hc ⟨_, Nat.lt_succ_self _, h⟩

/-- The listed registers with their words, and SP behind them. -/
def popped (s : CortexM0) (rlist : BitVec 8) : CortexM0 :=
  { s with regs := fun r ↦
      if r = .sp then wordAddr s.sp (listedBelow rlist 8)
      else if rlist.getLsbD r.toNat then wordAt s.mem (wordAddr s.sp (listedBelow rlist r.toNat))
      else s.regs r }

private theorem popped_sp (s : CortexM0) :
    (s.popped rlist).sp = wordAddr s.sp (listedBelow rlist 8) := by
  unfold popped sp
  dsimp only
  rw [if_pos rfl]

private theorem popped_pc (s : CortexM0) : (s.popped rlist).pc = s.pc := by
  have hlist : rlist.getLsbD (RegIndex.pc).toNat = false := rlist.getLsbD_of_ge _ (by decide)
  unfold popped pc
  dsimp only
  rw [if_neg (by decide), hlist]
  rfl

private theorem popped_listed (s : CortexM0) {i : Nat} (hi : i < 8) (hl : rlist.getLsbD i = true) :
    (s.popped rlist).regs (listed i) = wordAt s.mem (wordAddr s.sp (listedBelow rlist i)) := by
  unfold popped
  dsimp only
  rw [if_neg (listed_ne_sp hi), toNat_listed hi, if_pos hl]

private theorem popRegs_eq {s : CortexM0}
    (hacc : ∀ k < listedBelow rlist 8, Accessible (wordAddr s.sp k) 4) :
    popRegs rlist (List.range 8) s = .ok () (s.popped rlist) := by
  have hloop := ldmLoop_eq 8 0 s le_rfl hacc
  rw [show listedBelow rlist 0 = 0 from rfl, wordAddr_zero, ← List.range_eq_range'] at hloop
  have hpop := popRegs_of_ldmStmLoop (fun i hi ↦ List.mem_range.mp hi) hloop
  rw [sp, setReg_eq_self] at hpop
  rw [hpop]
  unfold setReg popped
  congr 2
  funext r
  by_cases hr : r = .sp
  · rw [if_pos hr, hr, Function.update_self]
    rfl
  · rw [if_neg hr, Function.update_of_ne hr]
    dsimp only
    by_cases hl : rlist.getLsbD r.toNat = true
    · rw [if_pos ⟨hl, Nat.zero_le _, BitVec.lt_of_getLsbD hl⟩, if_pos hl]
      rfl
    · rw [if_neg (fun h ↦ hl h.1), if_neg hl]

/-- A pop from accessible words loads the registers and moves the stack pointer, and with the PC
listed ends in `exchange`. -/
theorem run_pop {s : CortexM0} {pc : Bool}
    (hacc : ∀ k < frameWords pc rlist, Accessible (wordAddr s.sp k) 4) :
    (Instruction.pop pc rlist).run s = .ok () (if pc then
        ((s.popped rlist).setReg .sp (wordAddr s.sp (frameWords pc rlist))).exchange
          (wordAt s.mem (wordAddr s.sp (listedBelow rlist 8)))
      else s.popped rlist) := by
  have hloop : popRegs rlist (List.range 8) s = .ok () (s.popped rlist) :=
    popRegs_eq fun k hk ↦ hacc k (Nat.lt_add_right _ hk)
  rw [Instruction.run, hloop]
  cases pc with
  | false => rfl
  | true =>
    dsimp only
    rw [if_pos rfl, if_pos rfl, popPc, popped_sp,
      show (s.popped rlist).mem = s.mem from rfl, read32_eq_wordAt (hacc _ (Nat.lt_succ_self _)),
      bus_ok, ← wordAddr_succ]
    unfold exchange
    rfl

/-- A POP that returns has read all its words. -/
theorem accessible_of_run_pop {s u : CortexM0} {pc : Bool}
    (h : (Instruction.pop pc rlist).run s = .ok () u) :
    ∀ k < frameWords pc rlist, Accessible (wordAddr s.sp k) 4 := by
  obtain ⟨m, hm⟩ := popRegs_progress rlist (List.range 8) (fun i hi ↦ List.mem_range.mp hi) s
  rw [Instruction.run] at h
  cases he : popRegs rlist (List.range 8) s with
  | error f t =>
    rw [he] at h
    cases h
  | ok v t =>
    rw [he] at h hm
    obtain ⟨hafter, hcount⟩ := hm
    have hm : m = listedBelow rlist 8 := hcount
    cases pc with
    | false =>
      rw [frameWords, Bool.toNat_false, Nat.add_zero, ← hm]
      exact hafter.accessible
    | true =>
      dsimp only at h
      rw [if_pos rfl, popPc, hafter.sp, hafter.mem] at h
      cases hread : s.mem.read32 (wordAddr s.sp m) with
      | error f =>
        rw [hread] at h
        cases h
      | ok w =>
        intro k hk
        rw [frameWords, Bool.toNat_true, ← hm] at hk
        rcases Nat.eq_or_lt_of_le (Nat.le_of_lt_succ hk) with rfl | hlt
        · exact FlatMemoryBus.accessible_of_read32 hread
        · exact hafter.accessible k hlt

end

/-! ### In steps -/

section

variable {rlist : BitVec 8}

private theorem advancePc_sp (s : CortexM0) : s.advancePc.sp = s.sp := s.setReg_of_ne (by decide) _

/-- PUSH in one step. -/
theorem step_push {s : CortexM0} {instr : BitVec 16} {lr : Bool} (hs : s.halted = false)
    (hread : s.mem.read16 s.pc = .ok instr) (hi : instruction instr = .push lr rlist)
    (hacc : ∀ k < frameWords lr rlist, Accessible (wordAddr (s.frameBase lr rlist) k) 4) :
    ∃ t, s.step = .ok true { t with cycles := t.cycles + 1 } ∧
      s.advancePc.PushPost lr rlist t := by
  have hbase : s.advancePc.frameBase lr rlist = s.frameBase lr rlist := by
    rw [frameBase, frameBase, advancePc_sp]
  obtain ⟨t, hrun, hpost⟩ := run_push (s := s.advancePc) (by rwa [hbase])
  have hhalted : t.halted = false := by
    rw [hpost.rest]
    exact hs
  rw [← hi] at hrun
  exact ⟨t, step_of_run hs hread hrun hhalted, hpost⟩

/-- POP in one step. -/
theorem step_pop {s : CortexM0} {instr : BitVec 16} {pc : Bool} (hs : s.halted = false)
    (hread : s.mem.read16 s.pc = .ok instr) (hi : instruction instr = .pop pc rlist)
    (hacc : ∀ k < frameWords pc rlist, Accessible (wordAddr s.sp k) 4) :
    ∃ v, s.step = .ok (!v.halted) v ∧
      (∀ i < 8, rlist.getLsbD i = true →
        v.regs (listed i) = wordAt s.mem (wordAddr s.sp (listedBelow rlist i))) ∧
      v.sp = wordAddr s.sp (frameWords pc rlist) ∧
      (pc = true → v.pc = wordAt s.mem (wordAddr s.sp (listedBelow rlist 8)) &&& ~~~1 ∧
        (v.halted = true ↔
          (wordAt s.mem (wordAddr s.sp (listedBelow rlist 8))).getLsbD 0 = false)) ∧
      (pc = false → v.pc = s.pc + 2 ∧ v.halted = false) := by
  have hacc' : ∀ k < frameWords pc rlist, Accessible (wordAddr s.advancePc.sp k) 4 := by
    rwa [advancePc_sp]
  have hrun := run_pop hacc'
  rw [← hi, ← execute_eq_run, advancePc_sp] at hrun
  have hstep := step_of_fetch hs hread
  rw [hrun] at hstep
  have hlisted {i : Nat} (hi : i < 8) (hl : rlist.getLsbD i = true) :
      (s.advancePc.popped rlist).regs (listed i) =
        wordAt s.mem (wordAddr s.sp (listedBelow rlist i)) := by
    rw [popped_listed _ hi hl, advancePc_sp]
    rfl
  have hpc : (s.advancePc.popped rlist).pc = s.pc + 2 := by
    rw [popped_pc, advancePc_pc]
  cases pc with
  | false =>
    have hsp : (s.advancePc.popped rlist).sp = wordAddr s.sp (listedBelow rlist 8) := by
      rw [popped_sp, advancePc_sp]
    exact ⟨{ s.advancePc.popped rlist with cycles := s.cycles + 1 }, hstep,
      fun i hi hl ↦ hlisted hi hl, hsp, nofun, fun _ ↦ ⟨hpc, hs⟩⟩
  | true =>
    generalize ht : (s.advancePc.popped rlist).setReg .sp _ = t at hstep
    have hsp : t.sp = wordAddr s.sp (frameWords true rlist) := by
      rw [← ht, setReg_sp]
    rw [show s.advancePc.mem = s.mem from rfl] at hstep
    generalize wordAt s.mem (wordAddr s.sp (listedBelow rlist 8)) = target at hstep ⊢
    have hrun : t.halted = false := by
      rw [← ht]
      exact hs
    refine ⟨{ t.exchange target with cycles := (t.exchange target).cycles + 1 }, hstep, ?_, ?_, ?_,
      nofun⟩
    · intro i hi hl
      rw [← hlisted hi hl, ← (s.advancePc.popped rlist).setReg_of_ne (listed_ne_sp hi), ht]
      exact t.exchange_of_ne (listed_ne_pc hi) _
    · exact (t.exchange_of_ne (by decide) target).trans hsp
    · intro _
      refine ⟨t.exchange_pc target, ?_⟩
      show (t.exchange target).halted = true ↔ _
      rw [exchange_halted, hrun, Bool.false_or, Bool.not_eq_true']

/-- PUSH stores the listed registers in ascending order from the new SP on, with LR above them, and
no other memory. POP of the same list, from any state that has the same SP and the same words
there, gives the registers and SP back, and goes to where LR pointed, halting when LR had no Thumb
bit. -/
theorem push_then_pop {s : CortexM0} {push pop : BitVec 16} {lr : Bool} (hs : s.halted = false)
    (hread : s.mem.read16 s.pc = .ok push) (hpush : instruction push = .push lr rlist)
    (hpop : instruction pop = .pop lr rlist)
    (hacc : ∀ k < frameWords lr rlist, Accessible (wordAddr (s.frameBase lr rlist) k) 4) :
    ∃ t, s.step = .ok true t ∧ t.sp = s.frameBase lr rlist ∧ t.pc = s.pc + 2 ∧
      (∀ r, r ≠ .sp → r ≠ .pc → t.regs r = s.regs r) ∧ t.apsr = s.apsr ∧ t.halted = false ∧
      (∀ i < 8, rlist.getLsbD i = true →
        t.mem.read32 (wordAddr t.sp (listedBelow rlist i)) = .ok (s.regs (listed i))) ∧
      (lr = true → t.mem.read32 (wordAddr t.sp (listedBelow rlist 8)) = .ok (s.regs .lr)) ∧
      (∀ cell, ¬ InFrame t.sp (frameWords lr rlist) cell → t.mem.data cell = s.mem.data cell) ∧
      (∀ a, (∀ cell, Covers a 2 cell → ¬ InFrame t.sp (frameWords lr rlist) cell) →
        t.mem.read16 a = s.mem.read16 a) ∧
      ∀ u : CortexM0, u.halted = false → u.sp = t.sp →
        (∀ cell, InFrame t.sp (frameWords lr rlist) cell → u.mem.data cell = t.mem.data cell) →
        u.mem.read16 u.pc = .ok pop →
        ∃ v, u.step = .ok (!v.halted) v ∧
          (∀ i < 8, rlist.getLsbD i = true → v.regs (listed i) = s.regs (listed i)) ∧
          v.sp = s.sp ∧
          (lr = true → v.pc = s.regs .lr &&& ~~~1 ∧
            (v.halted = true ↔ (s.regs .lr).getLsbD 0 = false)) ∧
          (lr = false → v.pc = u.pc + 2 ∧ v.halted = false) := by
  obtain ⟨t, hstep, hpost⟩ := step_push hs hread hpush hacc
  have hbase : s.advancePc.frameBase lr rlist = s.frameBase lr rlist := by
    rw [frameBase, frameBase, advancePc_sp]
  have hsp : t.sp = s.frameBase lr rlist := by
    rw [hpost.rest, ← hbase]
    exact s.advancePc.setReg_sp _
  have hstored := hpost.stored
  have hstoredLr := hpost.storedLr
  have hcells := hpost.cells
  rw [hbase, ← hsp] at hstored hstoredLr hcells
  have hlow {i : Nat} (hi : i < 8) : s.advancePc.regs (listed i) = s.regs (listed i) :=
    s.setReg_of_ne (listed_ne_pc hi) _
  have hlr : s.advancePc.regs .lr = s.regs .lr := s.setReg_of_ne (by decide) _
  refine ⟨_, hstep, hsp, ?_, ?_, ?_, ?_, ?_, ?_, hcells, ?_, ?_⟩
  · show t.pc = s.pc + 2
    rw [hpost.rest]
    have hne : RegIndex.pc ≠ .sp := by decide
    exact (s.advancePc.setReg_of_ne hne (s.advancePc.frameBase lr rlist)).trans s.advancePc_pc
  · intro r hr hpc
    show t.regs r = s.regs r
    rw [hpost.rest]
    exact (s.advancePc.setReg_of_ne hr _).trans (s.setReg_of_ne hpc _)
  · show t.apsr = s.apsr
    rw [hpost.rest]
    rfl
  · show t.halted = false
    rw [hpost.rest]
    exact hs
  · intro i hi hl
    rw [← hlow hi]
    exact hstored i hi hl
  · intro h
    rw [← hlr]
    exact hstoredLr h
  · intro a ha
    exact Width.read_congr .half fun cell hc ↦ hcells cell (ha cell hc)
  · intro u hu husp hframe hpopread
    have husp' : u.sp = t.sp := husp
    have hword {k : Nat} (hk : k < frameWords lr rlist) {x : BitVec 32}
        (hx : t.mem.read32 (wordAddr t.sp k) = .ok x) : wordAt u.mem (wordAddr u.sp k) = x := by
      have hsame : u.mem.read32 (wordAddr t.sp k) = t.mem.read32 (wordAddr t.sp k) :=
        FlatMemoryBus.read32_congr fun cell hc ↦ hframe cell ⟨k, hk, hc⟩
      rw [husp', wordAt, hsame, hx]
    obtain ⟨v, hv, hlisted, hspv, hpc, hnopc⟩ :=
      step_pop hu hpopread hpop (by rwa [husp', hsp])
    refine ⟨v, hv, ?_, ?_, ?_, hnopc⟩
    · intro i hi hl
      have hk : listedBelow rlist i < frameWords lr rlist :=
        Nat.lt_add_right _ (listedBelow_lt rlist hi hl)
      rw [hlisted i hi hl, hword hk (hstored i hi hl), hlow hi]
    · rw [hspv, husp', hsp, wordAddr_frameBase]
    · intro h
      obtain ⟨hvpc, hvhalted⟩ := hpc h
      have hk : listedBelow rlist 8 < frameWords lr rlist := by
        rw [frameWords, h]
        exact Nat.lt_succ_self _
      rw [hword hk (hstoredLr h), hlr] at hvpc hvhalted
      exact ⟨hvpc, hvhalted⟩

/-- The code bytes of `PUSH {R0, R1, LR}` and `POP {R0, R1, PC}`. -/
def pushPopProgram : FlatMemoryBus := FlatMemoryBus.clear.memcpy 0 [0x03, 0xB5, 0x03, 0xBD]

/-- After reset LR has no Thumb bit, so the POP halts. -/
theorem push_then_pop_reset :
    ∃ t v, (new pushPopProgram).step = .ok true t ∧ t.sp = 0x1FF4 ∧ t.step = .ok (!v.halted) v ∧
      v.sp = 0x2000 ∧ v.halted = true := by
  have hread : (new pushPopProgram).mem.read16 (new pushPopProgram).pc = .ok 0xB503 := by rfl
  have hread' : (new pushPopProgram).mem.read16 2 = .ok 0xBD03 := by rfl
  have hpush : instruction 0xB503 = .push true 3 := by decide
  have hpop : instruction 0xBD03 = .pop true 3 := by decide
  have hbase : (new pushPopProgram).frameBase true 3 = 0x1FF4 := by decide
  obtain ⟨t, ht, hsp, hpc, -, -, hrun, -, -, -, hcode, hback⟩ :=
    push_then_pop rfl hread hpush hpop (by decide +kernel)
  rw [hbase] at hsp
  have hcell (cell : Fin size) (hc : Covers 2 2 cell) :
      ¬ InFrame t.sp (frameWords true 3) cell := by
    rintro ⟨k, hk, f, hf, hle, -⟩
    obtain ⟨g, hg, -, hlt⟩ := hc
    cases hg
    have hlow : cell.val < 4 := hlt
    have haddr : (wordAddr t.sp k).toNat = 0x1FF4 + 4 * k := by
      have hk' : k < 3 := hk
      rw [hsp, wordAddr, BitVec.toNat_add, BitVec.toNat_ofNat,
        show (0x1FF4 : BitVec 32).toNat = 0x1FF4 from rfl]
      omega
    have hflat := FlatMemoryBus.translate_eq_ok.mp hf
    unfold flashSize at hflat
    omega
  have hfetch : t.mem.read16 t.pc = .ok 0xBD03 := by
    rw [hpc, ← hread']
    exact hcode 2 hcell
  obtain ⟨v, hv, -, hvsp, hvlr, -⟩ := hback t hrun rfl (fun _ _ ↦ rfl) hfetch
  exact ⟨t, v, ht, hsp, hv, hvsp.trans (by decide), (hvlr rfl).2.mpr (by decide)⟩

end

end CortexM0

end McuSimulator.Cpu
