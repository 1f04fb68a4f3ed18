import McuSimulator.Cpu.DataFrame
import McuSimulator.Cpu.Stack

/-!
# The count of a run

`run` counts the steps that say the CPU can go on. The step that halts executes its instruction
and counts a cycle, but is not one of them.
-/

namespace McuSimulator.Cpu

open McuSimulator.Base McuSimulator.Memory CortexM0

/-- The instruction halts a running CPU, in the state after `fetch`: it goes to an address without
the Thumb bit. -/
def Instruction.Halts (s : CortexM0) : Instruction → Prop
  | bx rm | blx rm => (s.regs rm).getLsbD 0 = false
  | pop true rlist =>
    (wordAt s.mem (wordAddr s.sp (listedBelow rlist 8))).getLsbD 0 = false
  | _ => False

/-- What returns halts exactly when it is to. -/
theorem Instruction.run_halted {i : Instruction} {s u : CortexM0} (hs : s.halted = false)
    (h : i.run s = .ok () u) : u.halted = true ↔ i.Halts s := by
  have hend : endState (i.run s) = u := by rw [h, endState_ok]
  have hkeep (hu : u.halted = s.halted) (hi : ¬ i.Halts s) : u.halted = true ↔ i.Halts s :=
    iff_of_false (by simp [hu, hs]) hi
  have hdata (hi : i.DataProcessing) : u.halted = s.halted := by
    obtain ⟨t, ht, hsame⟩ := run_sameBut hi s
    rw [← hend, ht]
    exact hsame.halted
  cases i with
  | shift | addSub | mov | cmp | accumulate | alu | addHi | cmpHi | movHi | addSpPc | adjustSp =>
    exact hkeep (hdata trivial) id
  | bx rm =>
    rw [← hend]
    show (s.exchange (s.regs rm)).halted = true ↔ _
    rw [exchange_halted, hs, Bool.false_or, Bool.not_eq_true', Halts]
  | blx rm =>
    rw [← hend]
    show ((s.setReg .lr (s.pc ||| 1)).exchange (s.regs rm)).halted = true ↔ _
    rw [exchange_halted, setReg_halted, hs, Bool.false_or, Bool.not_eq_true', Halts]
  | transfer load width rt address =>
    refine hkeep ?_ id
    rw [← hend]
    cases load with
    | false => exact bus_keeps halted fun m ↦ rfl
    | true => exact bus_keeps halted fun v ↦ rfl
  | push lr rlist =>
    refine hkeep ?_ id
    rw [← hend]
    cases lr with
    | false => exact (pushRegs_control rlist _ s).halted
    | true => exact (pushReg_control .lr (pushRegs_control rlist _)).halted
  | pop pc rlist =>
    rw [run_pop (accessible_of_run_pop h), endState_ok] at hend
    rw [← hend]
    cases pc with
    | false => exact iff_of_false (by simp [popped, hs]) id
    | true =>
      rw [if_pos rfl, exchange_halted, setReg_halted, popped, hs, Bool.false_or,
        Bool.not_eq_true', Halts]
  | block load rb rlist =>
    refine hkeep ?_ id
    have hloop := (ldmStmLoop_control load rlist (List.range 8)
      (fun i hi ↦ List.mem_range.mp hi) (s.regs rb) s).halted
    rw [run] at h
    split at h
    case h_1 => cases h
    case h_2 he =>
      rw [he, endState_ok] at hloop
      cases h
      split <;> exact hloop
  | branchCond cond off =>
    refine hkeep ?_ id
    rw [← hend]
    show (if s.conditionPasses cond then _ else s).halted = s.halted
    split <;> rfl
  | nop | branch | blUpper | blLower =>
    refine hkeep ?_ id
    rw [← hend]
    rfl
  | undefined opcode => cases h

namespace CortexM0

/-- The next step halts a running CPU. -/
def AboutToHalt (s : CortexM0) : Prop :=
  ∃ instr, s.mem.read16 s.pc = .ok instr ∧ (instruction instr).Halts s.advancePc

private theorem step_halted {s t : CortexM0} {b : Bool} (hs : s.halted = false)
    (h : s.step = .ok b t) :
    t.halted = true ↔ s.AboutToHalt := by
  obtain ⟨instr, u, hread, he, rfl, -⟩ := (step_eq_ok hs).mp h
  rw [execute_eq_run] at he
  rw [AboutToHalt, hread]
  show u.halted = true ↔ _
  rw [Instruction.run_halted (s := s.advancePc) hs he]
  simp

/-- A run ends halted when one of its steps halts. -/
theorem run_halted {s t : CortexM0} {n k : Nat} (hs : s.halted = false) (h : s.run n = .ok k t) :
    t.halted = true ↔ ∃ i < n, ∃ u, steps i s = some u ∧ u.AboutToHalt := by
  induction n generalizing s k with
  | zero =>
    rw [run_zero] at h
    cases h
    simp [hs]
  | succ n ih =>
    rcases run_succ_cases h with ⟨hstep, ht, -⟩ | ⟨u, l, hstep, hrun, hrest, -⟩
    · exact iff_of_true ht ⟨0, Nat.succ_pos n, s, rfl, (step_halted hs hstep).mp ht⟩
    · have hs' : ¬ s.AboutToHalt := by simp [← step_halted hs hstep, hrun]
      have hnext (i : Nat) : steps (i + 1) s = steps i u := by rw [steps, hstep]
      rw [ih hrun hrest]
      constructor
      · rintro ⟨i, hi, v, hv, hhalt⟩
        exact ⟨i + 1, Nat.succ_lt_succ hi, v, (hnext i).trans hv, hhalt⟩
      · rintro ⟨i, hi, v, hv, hhalt⟩
        cases i with
        | zero =>
          cases hv
          exact absurd hhalt hs'
        | succ i => exact ⟨i, Nat.lt_of_succ_lt_succ hi, v, (hnext i).symm.trans hv, hhalt⟩

/-- A run that halts counts one cycle more than it says. -/
theorem run_cycles_halted {s t : CortexM0} {n k : Nat} (hs : s.halted = false)
    (h : s.run n = .ok k t) (ht : t.halted = true) :
    t.cycles = s.cycles + BitVec.ofNat 64 (k + 1) := by
  induction n generalizing s k with
  | zero =>
    rw [run_zero] at h
    cases h
    simp [hs] at ht
  | succ n ih =>
    rcases run_succ_cases h with ⟨hstep, -, rfl⟩ | ⟨u, l, hstep, hrun, hrest, rfl⟩
    · rw [step_cycles hs hstep]
      rfl
    · rw [ih hrun hrest, step_cycles hs hstep, cycles_succ]

/-- What the count of a run is to be: the growth of the cycle counter, at most the limit, and less
only if the CPU is halted. -/
def CountsInstructions (s : CortexM0) (n k : Nat) (t : CortexM0) : Prop :=
  t.cycles = s.cycles + BitVec.ofNat 64 k ∧ k ≤ n ∧ (k < n → t.halted = true)

/-- The count is right exactly when the CPU was halted all along or no step of the run halts it. -/
theorem run_countsInstructions_iff {s t : CortexM0} {n k : Nat} (h : s.run n = .ok k t) :
    s.CountsInstructions n k t ↔
      s.halted = true ∨ ∀ i < n, ∀ u, steps i s = some u → ¬ u.AboutToHalt := by
  cases hs : s.halted with
  | true =>
    rw [run_of_halted hs] at h
    cases h
    exact iff_of_true ⟨by simp, Nat.zero_le n, fun _ ↦ hs⟩ (.inl rfl)
  | false =>
    obtain ⟨hle, hless⟩ := run_count hs h
    have hhalted := run_halted hs h
    cases ht : t.halted with
    | true =>
      have hcycles := run_cycles_halted hs h ht
      apply iff_of_false
      · rintro ⟨hk, -⟩
        rw [hcycles, BitVec.add_right_inj] at hk
        have hnat := congrArg BitVec.toNat hk
        rw [BitVec.toNat_ofNat, BitVec.toNat_ofNat] at hnat
        omega
      · rintro (hc | hnone)
        · cases hc
        · obtain ⟨i, hi, u, hu, hhalt⟩ := hhalted.mp ht
          exact hnone i hi u hu hhalt
    | false =>
      have hall : ¬ k < n := fun hlt ↦ by simp [hless.mp hlt] at ht
      have hkn : k = n := Nat.le_antisymm hle (Nat.le_of_not_lt hall)
      apply iff_of_true
      · rw [hkn] at h ⊢
        exact ⟨run_cycles hs h ht, le_rfl, fun hlt ↦ absurd hlt (lt_irrefl n)⟩
      · refine .inr fun i hi u hu hhalt ↦ ?_
        rw [hhalted.mpr ⟨i, hi, u, hu, hhalt⟩] at ht
        cases ht

/-- One step of a memory of zeros. -/
theorem run_countsInstructions_iff_one :
    (new .clear).CountsInstructions 1 1 (endState ((new .clear).run 1)) := by
  have hrun : (new .clear).run 1 = .ok 1 (endState ((new .clear).run 1)) := by rfl
  have hread : (new .clear).mem.read16 (new .clear).pc = .ok 0 := by rfl
  refine (run_countsInstructions_iff hrun).mpr (.inr fun i hi u hu ↦ ?_)
  obtain rfl : i = 0 := by omega
  cases hu
  rintro ⟨instr, hinstr, hhalts⟩
  rw [hread] at hinstr
  cases hinstr
  exact hhalts

/-- The code bytes of `BX LR`. -/
def haltProgram : FlatMemoryBus := FlatMemoryBus.clear.memcpy 0 [0x70, 0x47]

/-- The instruction is executed, and the count is 0. -/
theorem not_run_countsInstructions :
    (new haltProgram).run 10 = .ok 0 (endState ((new haltProgram).run 10)) ∧
    (endState ((new haltProgram).run 10)).cycles = 1 ∧
    ¬ (new haltProgram).CountsInstructions 10 0 (endState ((new haltProgram).run 10)) := by
  have hcycles : (endState ((new haltProgram).run 10)).cycles = 1 := by rfl
  refine ⟨by rfl, hcycles, ?_⟩
  rintro ⟨h, -⟩
  rw [hcycles] at h
  exact absurd h (by decide)

end CortexM0

end McuSimulator.Cpu
