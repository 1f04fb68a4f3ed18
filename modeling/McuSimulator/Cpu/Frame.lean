import McuSimulator.Cpu.Step

/-!
# What the handlers leave alone

Only `fetch`, the branches, the hi-register format and POP of PC write PC; only `step` counts
cycles. Each handler is classified once, so that an invariant on PC or the counters is proved
from the classification and not from the handlers.
-/

namespace McuSimulator.Cpu

open McuSimulator.Memory

/-- The state a call ends in, whether it returns or throws. -/
def endState {α : Type} : Outcome α → CortexM0
  | .ok _ s => s
  | .error _ s => s

/-- The state in which an execution that returns ends. -/
@[simp] theorem endState_ok {α : Type} (a : α) (s : CortexM0) :
    endState (.ok a s : Outcome α) = s := rfl

/-- The state in which an execution that faults ends. -/
@[simp] theorem endState_error {α : Type} (f : Fault) (s : CortexM0) :
    endState (.error f s : Outcome α) = s := rfl

/-- What follows a bus access keeps `f`, and so does the whole. -/
theorem bus_keeps {α β γ : Type} (f : CortexM0 → γ) {s : CortexM0} {access : Except BusFault α}
    {k : α → Outcome β} (h : ∀ v, f (endState (k v)) = f s) :
    f (endState (s.bus access k)) = f s := by
  cases access with
  | ok v => exact h v
  | error e => rfl

/-- PC, the halt flag, the pending BL offset and the cycle counter are the same. -/
structure SameControl (s t : CortexM0) : Prop where
  pc : t.pc = s.pc
  halted : t.halted = s.halted
  blOffset : t.blOffset = s.blOffset
  cycles : t.cycles = s.cycles

namespace SameControl

variable {s t u : CortexM0}

/-- A state has its own control state. -/
theorem refl (s : CortexM0) : SameControl s s := ⟨rfl, rfl, rfl, rfl⟩

private theorem trans (h : SameControl s t) (h' : SameControl t u) : SameControl s u :=
  ⟨h'.pc.trans h.pc, h'.halted.trans h.halted, h'.blOffset.trans h.blOffset,
    h'.cycles.trans h.cycles⟩

/-- A write to a register other than the PC keeps the control state. -/
theorem setReg {r : RegIndex} (hr : r ≠ .pc) (v : BitVec 32) : SameControl s (s.setReg r v) :=
  ⟨Function.update_of_ne hr.symm _ _, rfl, rfl, rfl⟩

private theorem setApsr (f : Apsr) : SameControl s (s.setApsr f) := ⟨rfl, rfl, rfl, rfl⟩

private theorem setMem (m : FlatMemoryBus) :
    SameControl s { s with mem := m } := ⟨rfl, rfl, rfl, rfl⟩

/-- Flags and then a register. -/
theorem setApsr_setReg {r : RegIndex} (hr : r ≠ .pc) (f : Apsr) (v : BitVec 32) :
    SameControl s ((s.setApsr f).setReg r v) :=
  (setApsr f).trans (setReg hr v)

/-- A bus access, if what follows it keeps the control state. -/
theorem bus {α β : Type} {access : Except BusFault α} {k : α → Outcome β}
    (h : ∀ v, SameControl s (endState (k v))) : SameControl s (endState (s.bus access k)) := by
  cases access with
  | ok v => exact h v
  | error f => exact refl s

end SameControl

/-- The formats whose handler leaves PC to `fetch`. -/
def Format.Sequential (f : Format) : Prop :=
  f ≠ .hiRegBx ∧ f ≠ .pushPop ∧ f ≠ .branchCond ∧ f ≠ .branch ∧ f ≠ .blUpper ∧ f ≠ .blLower

instance : DecidablePred Format.Sequential := fun _ ↦ inferInstanceAs (Decidable (_ ∧ _))

/-- A field of three bits does not name the PC. -/
theorem reg3_ne_pc (instr : BitVec 16) (lo : Nat) : reg3 instr lo ≠ .pc := by
  intro h
  have hlt : (reg3 instr lo).toNat < 8 := by
    rw [reg3, BitVec.toNat_setWidth]
    exact Nat.lt_of_le_of_lt (Nat.mod_le _ _) (BitVec.isLt _)
  rw [h] at hlt
  exact absurd hlt (by decide)

/-- A register of a list is not the PC. -/
theorem listed_ne_pc {i : Nat} (hi : i < 8) : listed i ≠ .pc := by
  intro h
  have hv : (listed i).toNat = i := by
    rw [listed, BitVec.toNat_ofNat]
    omega
  rw [h] at hv
  exact absurd hv (by unfold RegIndex.pc; simp; omega)

namespace CortexM0

/-! ### Data processing -/

private theorem execShiftImm_control (s : CortexM0) (instr : BitVec 16) :
    SameControl s (endState (s.execShiftImm instr)) := by
  unfold execShiftImm
  dsimp only
  split
  all_goals first
    | exact SameControl.refl s
    | split <;> exact .setApsr_setReg (reg3_ne_pc _ _) _ _

private theorem execAddSub_control (s : CortexM0) (instr : BitVec 16) :
    SameControl s (s.execAddSub instr) :=
  .setApsr_setReg (reg3_ne_pc _ _) _ _

private theorem execImm8_control (s : CortexM0) (instr : BitVec 16) :
    SameControl s (s.execImm8 instr) := by
  unfold execImm8
  dsimp only
  split
  all_goals first
    | exact .setApsr_setReg (reg3_ne_pc _ _) _ _
    | exact .setApsr _

private theorem execAluShift_control (s : CortexM0) (op : BitVec 4) {rd : RegIndex} (hr : rd ≠ .pc)
    (a b : BitVec 32) : SameControl s (s.execAluShift op rd a b) := by
  unfold execAluShift
  dsimp only
  split
  case h_4 =>
    split
    · exact .setApsr_setReg hr _ _
    · split <;> exact .setApsr_setReg hr _ _
  all_goals exact .setApsr_setReg hr _ _

private theorem execAluArith_control (s : CortexM0) (op : BitVec 4) {rd : RegIndex} (hr : rd ≠ .pc)
    (a b : BitVec 32) : SameControl s (s.execAluArith op rd a b) := by
  unfold execAluArith
  dsimp only
  split
  all_goals first
    | exact .setApsr_setReg hr _ _
    | exact .setApsr _

private theorem execAlu_control (s : CortexM0) (instr : BitVec 16) :
    SameControl s (s.execAlu instr) := by
  have hr := reg3_ne_pc instr 0
  unfold execAlu
  dsimp only
  split
  · exact execAluShift_control s _ hr _ _
  · split
    · exact execAluArith_control s _ hr _ _
    · split
      all_goals first
        | exact .setApsr_setReg hr _ _
        | exact .setApsr _

private theorem execAddSpPc_control (s : CortexM0) (instr : BitVec 16) :
    SameControl s (s.execAddSpPc instr) :=
  .setReg (reg3_ne_pc _ _) _

private theorem execSpOps_control (s : CortexM0) (instr : BitVec 16) :
    SameControl s (s.execSpOps instr) :=
  .setReg (by decide) _

/-! ### Loads, stores and register lists -/

private theorem loadReg_control (s : CortexM0) {rd : RegIndex} (hr : rd ≠ .pc)
    (access : Except BusFault (BitVec 32)) : SameControl s (endState (s.loadReg rd access)) :=
  .bus fun v ↦ .setReg hr v

private theorem storeMem_control (s : CortexM0) (access : Except BusFault FlatMemoryBus) :
    SameControl s (endState (s.storeMem access)) :=
  .bus fun m ↦ .setMem m

private theorem transfer_control (s : CortexM0) (load byte : Bool) {rd : RegIndex} (hr : rd ≠ .pc)
    (addr : BitVec 32) : SameControl s (endState (s.transfer load byte rd addr)) := by
  unfold transfer
  split
  · exact loadReg_control s hr _
  · exact storeMem_control s _

private theorem execLdrhStrhImm_control (s : CortexM0) (instr : BitVec 16) :
    SameControl s (endState (s.execLdrhStrhImm instr)) := by
  unfold execLdrhStrhImm
  dsimp only
  split
  · exact loadReg_control s (reg3_ne_pc _ _) _
  · exact storeMem_control s _

/-- Pushing one register, and going on in a way that keeps the control state. -/
theorem pushReg_control {s : CortexM0} (r : RegIndex) {k : CortexM0 → Outcome Unit}
    (h : ∀ t, SameControl t (endState (k t))) : SameControl s (endState (s.pushReg r k)) :=
  (SameControl.setReg (by decide) _).trans (.bus fun m ↦ (SameControl.setMem m).trans (h _))

/-- Pushing a list of registers keeps the control state. -/
theorem pushRegs_control (rlist : BitVec 8) (is : List Nat) (s : CortexM0) :
    SameControl s (endState (pushRegs rlist is s)) := by
  induction is generalizing s with
  | nil => exact .refl s
  | cons i is ih =>
    rw [pushRegs]
    split
    · exact pushReg_control _ ih
    · exact ih s

/-- Popping a list of registers keeps the control state. -/
theorem popRegs_control (rlist : BitVec 8) (is : List Nat) (his : ∀ i ∈ is, i < 8)
    (s : CortexM0) : SameControl s (endState (popRegs rlist is s)) := by
  induction is generalizing s with
  | nil => exact .refl s
  | cons i is ih =>
    have hi := listed_ne_pc (his i (List.mem_cons_self ..))
    have hrest := ih fun j hj ↦ his j (List.mem_cons_of_mem _ hj)
    rw [popRegs]
    split
    · exact .bus fun v ↦ ((SameControl.setReg hi v).trans (.setReg (by decide) _)).trans (hrest _)
    · exact hrest s

/-- The loop of a block transfer keeps the control state. -/
theorem ldmStmLoop_control (load : Bool) (rlist : BitVec 8) (is : List Nat)
    (his : ∀ i ∈ is, i < 8) (addr : BitVec 32) (s : CortexM0) :
    SameControl s (endState (ldmStmLoop load rlist is addr s)) := by
  induction is generalizing s addr with
  | nil => exact .refl s
  | cons i is ih =>
    have hi := listed_ne_pc (his i (List.mem_cons_self ..))
    have hrest := ih fun j hj ↦ his j (List.mem_cons_of_mem _ hj)
    rw [ldmStmLoop]
    split
    · split
      · exact .bus fun v ↦ (SameControl.setReg hi v).trans (hrest _ _)
      · exact .bus fun m ↦ (SameControl.setMem m).trans (hrest _ _)
    · exact hrest addr s

private theorem execLdmStm_control (s : CortexM0) (instr : BitVec 16) :
    SameControl s (endState (s.execLdmStm instr)) := by
  have hloop := ldmStmLoop_control (instr.getLsbD 11) (instr.extractLsb' 0 8) (List.range 8)
    (fun i hi ↦ List.mem_range.mp hi) (s.regs (reg3 instr 8)) s
  unfold execLdmStm
  dsimp only
  split
  case h_1 f t he =>
    rwa [he] at hloop
  case h_2 addr t he =>
    rw [he] at hloop
    rw [endState_ok]
    split
    · exact hloop.trans (.setReg (reg3_ne_pc _ _) _)
    · exact hloop

/-! ### Handlers that write PC -/

private theorem setPc_cycles (s : CortexM0) (v : BitVec 32) : (s.setPc v).cycles = s.cycles := rfl

private theorem popPc_cycles (s : CortexM0) : (endState s.popPc).cycles = s.cycles := by
  unfold popPc
  cases s.mem.read32 s.sp with
  | error f => rfl
  | ok newPc =>
    rw [bus_ok, endState_ok]
    split <;> rfl

private theorem execPushPop_cycles (s : CortexM0) (instr : BitVec 16) :
    (endState (s.execPushPop instr)).cycles = s.cycles := by
  unfold execPushPop
  dsimp only
  split
  · split
    · exact (pushReg_control _ (pushRegs_control _ _)).cycles
    · exact (pushRegs_control _ _ _).cycles
  · have hloop := popRegs_control (instr.extractLsb' 0 8) (List.range 8)
      (fun i hi ↦ List.mem_range.mp hi) s
    split
    case _ he =>
      rw [he] at hloop
      exact hloop.cycles
    case _ he =>
      rw [he] at hloop
      split
      · exact (popPc_cycles _).trans hloop.cycles
      · exact hloop.cycles

private theorem execHiRegBx_cycles (s : CortexM0) (instr : BitVec 16) :
    (s.execHiRegBx instr).cycles = s.cycles := by
  unfold execHiRegBx
  dsimp only
  split
  case h_4 => split <;> split <;> rfl
  all_goals rfl

private theorem execBranchCond_cycles (s : CortexM0) (instr : BitVec 16) :
    (s.execBranchCond instr).cycles = s.cycles := by
  unfold execBranchCond
  dsimp only
  split <;> rfl

/-! ### Every instruction -/

/-- A sequential instruction keeps the control state. -/
theorem execute_control {s : CortexM0} {instr : BitVec 16} (h : (decode instr).Sequential) :
    SameControl s (endState (s.execute instr)) := by
  obtain ⟨hhi, hpush, hcond, hb, hup, hlow⟩ := h
  unfold execute
  cases hd : decode instr with
  | shiftImm => exact execShiftImm_control s instr
  | addSub => exact execAddSub_control s instr
  | imm8 => exact execImm8_control s instr
  | alu => exact execAlu_control s instr
  | ldrPc => exact loadReg_control s (reg3_ne_pc _ _) _
  | ldrStrReg => exact transfer_control s _ _ (reg3_ne_pc _ _) _
  | ldrStrImm => exact transfer_control s _ _ (reg3_ne_pc _ _) _
  | ldrhStrhImm => exact execLdrhStrhImm_control s instr
  | ldrStrSp => exact transfer_control s _ _ (reg3_ne_pc _ _) _
  | addSpPc => exact execAddSpPc_control s instr
  | spOps => exact execSpOps_control s instr
  | ldmStm => exact execLdmStm_control s instr
  | hint | bkpt | undefined => exact .refl s
  | hiRegBx => exact absurd hd hhi
  | pushPop => exact absurd hd hpush
  | branchCond => exact absurd hd hcond
  | branch => exact absurd hd hb
  | blUpper => exact absurd hd hup
  | blLower => exact absurd hd hlow

/-- No handler counts cycles. -/
theorem execute_cycles (s : CortexM0) (instr : BitVec 16) :
    (endState (s.execute instr)).cycles = s.cycles := by
  by_cases h : (decode instr).Sequential
  · exact (execute_control h).cycles
  · unfold execute
    cases hd : decode instr with
    | hiRegBx => exact execHiRegBx_cycles s instr
    | pushPop => exact execPushPop_cycles s instr
    | branchCond => exact execBranchCond_cycles s instr
    | branch => exact setPc_cycles _ _
    | blUpper => exact (show (s.execBlUpper instr).cycles = s.cycles by unfold execBlUpper; rfl)
    | blLower => exact setPc_cycles _ _
    | _ =>
      refine absurd ?_ h
      rw [hd]
      decide

end CortexM0

end McuSimulator.Cpu
