import McuSimulator.Cpu.Instruction

/-!
# Loads after stores

A load sees what the instruction before it has stored, whatever two forms of address they use, as
long as both come to the same effective address.
-/

namespace McuSimulator.Cpu

open McuSimulator.Memory

/-- The data register of a load or a store is a low one. -/
theorem transfer_reg {instr : BitVec 16} {load : Bool} {w : Width} {rt : RegIndex}
    {address : Address} (h : instruction instr = .transfer load w rt address) : rt ≠ .pc := by
  unfold instruction Format.instruction at h
  cases hd : decode instr with
  | ldrPc | ldrStrReg | ldrhStrhImm | ldrStrSp =>
    rw [hd] at h
    cases h
    exact reg3_ne_pc _ _
  | ldrStrImm =>
    rw [hd] at h
    dsimp only at h
    split at h <;> cases h <;> exact reg3_ne_pc _ _
  | shiftImm | imm8 | hiRegBx | pushPop =>
    rw [hd] at h
    dsimp only at h
    repeat' split at h
    all_goals cases h
  | _ =>
    rw [hd] at h
    cases h

namespace CortexM0

/-- Addresses are formed from the registers alone. -/
theorem address_congr {s t : CortexM0} (h : t.regs = s.regs) (a : Address) :
    t.address a = s.address a := by
  have hpc : t.pc = s.pc := congrFun h .pc
  cases a with
  | imm rb off => exact congrArg (· rb + off) h
  | reg rb ro => exact congrArg (fun regs ↦ regs rb + regs ro) h
  | pc off => rw [address, address, hpc]

/-- A store in one step. -/
theorem step_store {s : CortexM0} {instr : BitVec 16} {w : Width} {rs : RegIndex} {a : Address}
    {m : FlatMemoryBus} (hs : s.halted = false) (hread : s.mem.read16 s.pc = .ok instr)
    (hi : instruction instr = .transfer false w rs a)
    (hw : w.write s.mem (s.advancePc.address a) ((s.regs rs).setWidth (8 * w.bytes)) = .ok m) :
    s.step = .ok true { s.advancePc with mem := m, cycles := s.cycles + 1 } := by
  have hrs : s.advancePc.regs rs = s.regs rs := s.setReg_of_ne (transfer_reg hi) _
  have hrun : (instruction instr).run s.advancePc = .ok () { s.advancePc with mem := m } := by
    rw [hi, Instruction.run, hrs]
    show s.advancePc.storeMem (w.write s.mem _ _) = _
    rw [hw]
    rfl
  exact step_of_run hs hread hrun hs

/-- A load in one step. -/
theorem step_load {s : CortexM0} {instr : BitVec 16} {w : Width} {rt : RegIndex} {a : Address}
    {v : BitVec (8 * w.bytes)} (hs : s.halted = false) (hread : s.mem.read16 s.pc = .ok instr)
    (hi : instruction instr = .transfer true w rt a)
    (hr : w.read s.mem (s.advancePc.address a) = .ok v) :
    s.step = .ok true { s.advancePc.setReg rt (v.setWidth 32) with cycles := s.cycles + 1 } := by
  have hrun : (instruction instr).run s.advancePc =
      .ok () (s.advancePc.setReg rt (v.setWidth 32)) := by
    rw [hi, Instruction.run]
    show s.advancePc.loadReg rt ((w.read s.mem _).map _) = _
    rw [hr]
    rfl
  exact step_of_run hs hread hrun hs

/-- A store, and then a load of the same width from the same effective address: the register gets
the stored value, cut to the width and extended by zeros. No other register, no flag and no
memory behind other addresses changes. -/
theorem load_after_store {s : CortexM0} {store load : BitVec 16} {w : Width} {rs rt : RegIndex}
    {a b : Address} {ea : BitVec 32} (hs : s.halted = false)
    (hstore : s.mem.read16 s.pc = .ok store) (hload : s.mem.read16 (s.pc + 2) = .ok load)
    (hi : instruction store = .transfer false w rs a)
    (hj : instruction load = .transfer true w rt b)
    (ha : s.advancePc.address a = ea) (hb : s.advancePc.advancePc.address b = ea)
    (hacc : Accessible ea w.bytes)
    (hcode : ∀ cell, Covers (s.pc + 2) 2 cell → ¬ Covers ea w.bytes cell) :
    ∃ t u, s.step = .ok true t ∧ t.step = .ok true u ∧
      u.regs rt = ((s.regs rs).setWidth (8 * w.bytes)).setWidth 32 ∧
      (∀ r, r ≠ .pc → r ≠ rt → u.regs r = s.regs r) ∧ u.pc = s.pc + 4 ∧ u.apsr = s.apsr ∧
      u.halted = false ∧ ∀ cell, ¬ Covers ea w.bytes cell → u.mem.data cell = s.mem.data cell := by
  obtain ⟨m, hw⟩ := Width.exists_write s.mem hacc ((s.regs rs).setWidth (8 * w.bytes))
  have hcells (cell : Fin size) (hc : ¬ Covers ea w.bytes cell) : m.data cell = s.mem.data cell :=
    Width.data_of_not_covers hw hc
  have hfirst := step_store hs hstore hi (by rw [ha]; exact hw)
  generalize ht : ({ s.advancePc with mem := m, cycles := s.cycles + 1 } : CortexM0) = t at hfirst
  have hregs : t.regs = s.advancePc.regs := by rw [← ht]
  have hpc : t.pc = s.pc + 2 := (congrFun hregs .pc).trans s.advancePc_pc
  have hfetch : t.mem.read16 t.pc = .ok load := by
    rw [hpc, ← hload, ← ht]
    exact Width.read_congr .half fun cell hc ↦ hcells cell (hcode cell hc)
  have haddr : t.advancePc.address b = ea := by
    rw [← hb]
    apply address_congr
    rw [← ht]
    rfl
  have hread : w.read t.advancePc.mem (t.advancePc.address b) =
      .ok ((s.regs rs).setWidth (8 * w.bytes)) := by
    rw [haddr, ← ht]
    exact Width.read_of_write hw
  have hsecond := step_load (s := t) (by rw [← ht]; exact hs) hfetch hj hread
  refine ⟨t, _, hfirst, hsecond, ?_, ?_, ?_, ?_, ?_, ?_⟩
  · exact t.advancePc.setReg_self rt _
  · intro r hr hrt
    have htr : t.regs r = s.regs r := (congrFun hregs r).trans (s.setReg_of_ne hr _)
    exact (t.advancePc.setReg_of_ne hrt _).trans ((t.setReg_of_ne hr _).trans htr)
  · have hkeep := t.advancePc.setReg_of_ne (transfer_reg hj).symm
      (((s.regs rs).setWidth (8 * w.bytes)).setWidth 32)
    have hnext : t.advancePc.pc = s.pc + 4 := by
      rw [advancePc_pc, hpc]
      exact BitVec.add_assoc ..
    exact hkeep.trans hnext
  · rw [← ht]
    rfl
  · rw [← ht]
    exact hs
  · intro cell hc
    rw [← ht]
    exact hcells cell hc

/-- `STRB R1, [R0, #1]` and `LDRB R2, [R0, R3]`, with R0 at the start of SRAM. -/
def transferStart : CortexM0 :=
  (((new (FlatMemoryBus.clear.memcpy 0 [0x41, 0x70, 0xC2, 0x5C])).setReg 0 0x20000000).setReg 1
    0x1234).setReg 3 1

/-- The low byte of R1 comes back in R2. -/
theorem load_after_store_byte :
    ∃ t u, transferStart.step = .ok true t ∧ t.step = .ok true u ∧ u.regs 2 = 0x34 := by
  have hstore : transferStart.mem.read16 transferStart.pc = .ok 0x7041 := by rfl
  have hload : transferStart.mem.read16 (transferStart.pc + 2) = .ok 0x5CC2 := by rfl
  have hi : instruction 0x7041 = .transfer false .byte 1 (.imm 0 1) := by decide
  have hj : instruction 0x5CC2 = .transfer true .byte 2 (.reg 0 3) := by decide
  have hcode (cell : Fin size) (hc : Covers (transferStart.pc + 2) 2 cell) :
      ¬ Covers 0x20000001 Width.byte.bytes cell := by
    obtain ⟨f, hf, -, hlt⟩ := hc
    cases hf
    rintro ⟨g, hg, hge, -⟩
    cases hg
    exact absurd (Nat.lt_of_le_of_lt hge hlt) (by decide)
  obtain ⟨t, u, ht, hu, hvalue, -⟩ :=
    load_after_store rfl hstore hload hi hj (by decide) (by decide) (by decide) hcode
  exact ⟨t, u, ht, hu, hvalue⟩

end CortexM0

end McuSimulator.Cpu
