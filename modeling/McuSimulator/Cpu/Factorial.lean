import Mathlib.Data.Nat.Factorial.Basic
import McuSimulator.Cpu.Arithmetic
import McuSimulator.Cpu.ProgramCounter

/-!
# The factorial program

The loop of `programs/factorial.s` on this CPU: from any operand and accumulator, at any even
address, it multiplies the accumulator by the factorial and then ends the simulation.
-/

namespace McuSimulator.Cpu

open McuSimulator.Memory

/-- The instructions sit in the memory, one after the other from the address on. -/
def CodeAt (mem : FlatMemoryBus) (addr : BitVec 32) : List (BitVec 16) → Prop
  | [] => True
  | instr :: code => mem.read16 addr = .ok instr ∧ CodeAt mem (addr + 2) code

/-- The loop and the exit: MUL, SUB, CMP, BGT and BX LR; programs/factorial.s:24–31. -/
def factorialCode : List (BitVec 16) := [0x4341, 0x3801, 0x2801, 0xDCFB, 0x4770]

namespace CortexM0

/-- `n` steps, after each of which the CPU can go on. -/
def GoesOn : Nat → CortexM0 → CortexM0 → Prop
  | 0, s, t => s = t
  | n + 1, s, t => ∃ u, s.step = .ok true u ∧ GoesOn n u t

private theorem GoesOn.trans {m n : Nat} {s t u : CortexM0} (hst : GoesOn m s t)
    (htu : GoesOn n t u) :
    GoesOn (m + n) s u := by
  induction m generalizing s with
  | zero =>
    rw [Nat.zero_add, show s = t from hst]
    exact htu
  | succ m ih =>
    obtain ⟨v, hstep, hrest⟩ := hst
    rw [Nat.succ_add]
    exact ⟨v, hstep, ih hrest⟩

/-- No step on the way halts. -/
theorem GoesOn.running {n : Nat} {s t : CortexM0} (h : GoesOn n s t) (hs : s.halted = false)
    {k : Nat} (hk : k ≤ n) : ∃ u, steps k s = some u ∧ u.halted = false := by
  induction n generalizing s k with
  | zero =>
    obtain rfl : k = 0 := by omega
    exact ⟨s, rfl, hs⟩
  | succ n ih =>
    obtain ⟨v, hstep, hrest⟩ := h
    have hv : v.halted = false := by simpa using step_ok_flag hstep
    cases k with
    | zero => exact ⟨s, rfl, hs⟩
    | succ k =>
      obtain ⟨u, hu, hrun⟩ := ih (k := k) hrest hv (by omega)
      refine ⟨u, ?_, hrun⟩
      rw [steps, hstep]
      exact hu

/-- The step after them. -/
theorem GoesOn.steps_succ {n : Nat} {s t u : CortexM0} {b : Bool} (h : GoesOn n s t)
    (ht : t.step = .ok b u) : steps (n + 1) s = some u := by
  induction n generalizing s with
  | zero =>
    rw [show s = t from h, steps, ht]
    rfl
  | succ n ih =>
    obtain ⟨v, hstep, hrest⟩ := h
    rw [steps, hstep]
    exact ih hrest

/-! ### The steps of the loop -/

/-- The running CPU inside the loop, which has been entered at `s₀`: where it is, the operand
and the accumulator, and what stays as it was. -/
structure InLoop (s₀ s : CortexM0) (pc x y : BitVec 32) : Prop where
  running : s.halted = false
  pc : s.pc = pc
  operand : s.regs 0 = x
  accumulator : s.regs 1 = y
  others : ∀ r, r ≠ 0 → r ≠ 1 → r ≠ .pc → s.regs r = s₀.regs r
  mem : s.mem = s₀.mem
  blOffset : s.blOffset = s₀.blOffset

variable {s₀ s : CortexM0} {pc x y : BitVec 32}

/-- A step inside the loop. -/
theorem InLoop.step (h : InLoop s₀ s pc x y) {instr : BitVec 16} {u : CortexM0}
    {pc' x' y' : BitVec 32} (hread : s₀.mem.read16 pc = .ok instr)
    (hexec : s.advancePc.execute instr = .ok () u) (hu : InLoop s₀ u pc' x' y') :
    s.step = .ok true { u with cycles := u.cycles + 1 } := by
  have hread' : s.mem.read16 s.pc = .ok instr := by rw [h.mem, h.pc, hread]
  apply (step_eq_ok h.running).mpr
  refine ⟨instr, u, hread', hexec, rfl, ?_⟩
  rw [hu.running]
  rfl

private theorem InLoop.tick (h : InLoop s₀ s pc x y) :
    InLoop s₀ { s with cycles := s.cycles + 1 } pc x y :=
  ⟨h.running, h.pc, h.operand, h.accumulator, h.others, h.mem, h.blOffset⟩

private theorem InLoop.setApsr (h : InLoop s₀ s pc x y) (f : Apsr) :
    InLoop s₀ (s.setApsr f) pc x y :=
  ⟨h.running, h.pc, h.operand, h.accumulator, h.others, h.mem, h.blOffset⟩

private theorem InLoop.setOperand (h : InLoop s₀ s pc x y) (v : BitVec 32) :
    InLoop s₀ (s.setReg 0 v) pc v y where
  running := h.running
  pc := (setReg_of_ne s (by decide) v).trans h.pc
  operand := setReg_self ..
  accumulator := (setReg_of_ne s (by decide) v).trans h.accumulator
  others := by
    intro r h0 h1 hpc
    exact (setReg_of_ne s h0 v).trans (h.others r h0 h1 hpc)
  mem := h.mem
  blOffset := h.blOffset

private theorem InLoop.setAccumulator (h : InLoop s₀ s pc x y) (v : BitVec 32) :
    InLoop s₀ (s.setReg 1 v) pc x v where
  running := h.running
  pc := (setReg_of_ne s (by decide) v).trans h.pc
  operand := (setReg_of_ne s (by decide) v).trans h.operand
  accumulator := setReg_self ..
  others := by
    intro r h0 h1 hpc
    exact (setReg_of_ne s h1 v).trans (h.others r h0 h1 hpc)
  mem := h.mem
  blOffset := h.blOffset

private theorem InLoop.setPc (h : InLoop s₀ s pc x y) (v : BitVec 32) :
    InLoop s₀ (s.setReg .pc v) v x y where
  running := h.running
  pc := setReg_self ..
  operand := (setReg_of_ne s (by decide) v).trans h.operand
  accumulator := (setReg_of_ne s (by decide) v).trans h.accumulator
  others := by
    intro r h0 h1 hpc
    exact (setReg_of_ne s hpc v).trans (h.others r h0 h1 hpc)
  mem := h.mem
  blOffset := h.blOffset

/-- Fetching moves PC on. -/
theorem InLoop.advancePc (h : InLoop s₀ s pc x y) : InLoop s₀ s.advancePc (pc + 2) x y := by
  rw [← h.pc]
  exact h.setPc (s.pc + 2)

/-- MUL R1, R0. -/
theorem InLoop.mul (h : InLoop s₀ s pc x y) (hread : s₀.mem.read16 pc = .ok 0x4341) :
    ∃ t, s.step = .ok true t ∧ InLoop s₀ t (pc + 2) x (y * x) := by
  have hexec : s.advancePc.execute 0x4341 =
      .ok () ((s.advancePc.setApsr (s.apsr.updateNz (y * x))).setReg 1 (y * x)) := by
    rw [show (0x4341 : BitVec 16) = encodeAlu 0xD 0 1 by decide, execute_encodeAlu,
      ← h.advancePc.operand, ← h.advancePc.accumulator]
    rfl
  have hu := (h.advancePc.setApsr (s.apsr.updateNz (y * x))).setAccumulator (y * x)
  exact ⟨_, h.step hread hexec hu, hu.tick⟩

/-- SUB R0, #1. -/
theorem InLoop.sub (h : InLoop s₀ s pc x y) (hread : s₀.mem.read16 pc = .ok 0x3801) :
    ∃ t, s.step = .ok true t ∧ InLoop s₀ t (pc + 2) (x - 1) y := by
  have hexec := (Arith.subImm8 0 1).execute_eq_adder s.advancePc
  have hsum : (add32 (s.advancePc.regs 0) (~~~1) true).1 = x - 1 := by
    rw [h.advancePc.operand]
    exact sub32_fst x 1
  have hu : InLoop s₀ ((Arith.subImm8 0 1).adder s.advancePc) (pc + 2) (x - 1) y := by
    rw [← hsum]
    exact (h.advancePc.setApsr _).setOperand _
  exact ⟨_, h.step hread hexec hu, hu.tick⟩

/-- CMP R0, #1 and BGT: back when the operand is greater than one, and on otherwise. -/
theorem InLoop.compareBranch (h : InLoop s₀ s pc x y) (hcmp : s₀.mem.read16 pc = .ok 0x2801)
    (hbranch : s₀.mem.read16 (pc + 2) = .ok 0xDCFB) :
    ∃ t u, s.step = .ok true t ∧ t.step = .ok true u ∧
      InLoop s₀ u (if 1 < x.toInt then branchTarget (pc + 2) 0xFB else pc + 4) x y := by
  have ht : InLoop s₀ (s.advancePc.setApsr (compareFlags s.apsr x 1)) (pc + 2) x y :=
    h.advancePc.setApsr _
  have hexec : s.advancePc.execute 0x2801 =
      .ok () (s.advancePc.setApsr (compareFlags s.apsr x 1)) := by
    rw [show (0x2801 : BitVec 16) = (Cmp.imm8 0 1).encode by decide, Cmp.execute_encode,
      ← h.advancePc.operand]
    rfl
  -- BGT reads the flags, which the count of cycles does not change
  set t : CortexM0 := { s.advancePc.setApsr (compareFlags s.apsr x 1) with
    cycles := s.cycles + 1 } with ht'
  have hrun : InLoop s₀ t (pc + 2) x y := ht.tick
  have hpasses : t.conditionPasses Cond.gt.code = true ↔ 1 < x.toInt :=
    conditionPasses_compareFlags s.apsr x 1 s.advancePc .gt
  have hpc : (if t.conditionPasses Cond.gt.code then branchTarget t.pc 0xFB else t.pc + 2) =
      if 1 < x.toInt then branchTarget (pc + 2) 0xFB else pc + 4 := by
    rw [hrun.pc, BitVec.add_assoc pc 2 2]
    exact if_congr hpasses rfl rfl
  have hexec' := execute_encodeBranch t .gt 0xFB
  rw [hpc] at hexec'
  have hu := hrun.setPc (if 1 < x.toInt then branchTarget (pc + 2) 0xFB else pc + 4)
  exact ⟨t, _, h.step hcmp hexec ht, hrun.step hbranch hexec' hu, hu.tick⟩

/-- One round of the loop, from its first instruction. -/
theorem InLoop.round {addr : BitVec 32} (heven : IsEven addr)
    (hcode : CodeAt s₀.mem addr factorialCode) (h : InLoop s₀ s addr x y) :
    ∃ t, GoesOn 4 s t ∧
      InLoop s₀ t (if 1 < (x - 1).toInt then addr else addr + 8) (x - 1) (y * x) := by
  obtain ⟨hmul, hsub, hcmp, hbranch, -⟩ := hcode
  obtain ⟨a, hstep₁, ha⟩ := h.mul hmul
  obtain ⟨b, hstep₂, hb⟩ := ha.sub hsub
  obtain ⟨c, d, hstep₃, hstep₄, hd⟩ := hb.compareBranch hcmp hbranch
  have hback : branchTarget (addr + 2 + 2 + 2) 0xFB = addr := by
    rw [branchTarget, BitVec.add_assoc, BitVec.add_assoc, BitVec.add_assoc, BitVec.add_assoc]
    exact (congrArg (· &&& ~~~1) (BitVec.add_zero addr)).trans heven.and_not_one
  have hout : addr + 2 + 2 + 4 = addr + 8 := by
    rw [BitVec.add_assoc, BitVec.add_assoc]
    rfl
  rw [hback, hout] at hd
  exact ⟨d, ⟨a, hstep₁, b, hstep₂, c, hstep₃, d, hstep₄, rfl⟩, hd⟩

/-- The loop multiplies the accumulator by the factorial of the operand. -/
theorem InLoop.loop {addr : BitVec 32} (heven : IsEven addr)
    (hcode : CodeAt s₀.mem addr factorialCode) {n : Nat} (hn : 1 ≤ n) (hfits : n < 2 ^ 31)
    (h : InLoop s₀ s addr (BitVec.ofNat 32 n) y) :
    ∃ t z, GoesOn (4 * max 1 (n - 1)) s t ∧
      InLoop s₀ t (addr + 8) z (y * BitVec.ofNat 32 n.factorial) := by
  induction n, hn using Nat.le_induction generalizing s y with
  | base =>
    obtain ⟨t, hgo, ht⟩ := h.round heven hcode
    rw [if_neg (by decide)] at ht
    exact ⟨t, _, hgo, ht⟩
  | succ n hn ih =>
    obtain ⟨t, hgo, ht⟩ := h.round heven hcode
    have hpred : BitVec.ofNat 32 (n + 1) - 1 = BitVec.ofNat 32 n := by
      rw [BitVec.ofNat_add]
      exact BitVec.add_sub_cancel _ _
    have hint : (BitVec.ofNat 32 n).toInt = n := by
      rw [BitVec.toInt_eq_toNat_cond, BitVec.toNat_ofNat, Nat.mod_eq_of_lt (by omega),
        if_pos (by omega)]
    have hprod : y * BitVec.ofNat 32 (n + 1) * BitVec.ofNat 32 n.factorial =
        y * BitVec.ofNat 32 (n + 1).factorial := by
      rw [BitVec.mul_assoc, ← BitVec.ofNat_mul, Nat.factorial_succ]
    rw [hpred, hint] at ht
    by_cases hagain : 1 < (n : Int)
    · rw [if_pos hagain] at ht
      obtain ⟨u, z, hgo', hu⟩ := ih (by omega) ht
      rw [hprod] at hu
      have hcount : 4 * max 1 (n + 1 - 1) = 4 + 4 * max 1 (n - 1) := by omega
      rw [hcount]
      exact ⟨u, z, hgo.trans hgo', hu⟩
    · rw [if_neg hagain] at ht
      obtain rfl : n = 1 := by omega
      exact ⟨t, _, hgo, ht⟩

/-- BX LR with an even target ends the simulation. -/
theorem InLoop.exit (h : InLoop s₀ s pc x y) (hread : s₀.mem.read16 pc = .ok 0x4770)
    (hlr : IsEven (s₀.regs .lr)) :
    ∃ t, s.step = .ok false t ∧ t.halted = true ∧ t.pc = s₀.regs .lr ∧ t.regs 1 = y ∧
      (∀ r, r ≠ 0 → r ≠ 1 → r ≠ .pc → t.regs r = s₀.regs r) ∧ t.mem = s₀.mem ∧
      t.blOffset = s₀.blOffset := by
  have hread' : s.mem.read16 s.pc = .ok 0x4770 := by rw [h.mem, h.pc, hread]
  have htarget : s.advancePc.regs .lr = s₀.regs .lr :=
    h.advancePc.others .lr (by decide) (by decide) (by decide)
  have hexec : s.advancePc.execute 0x4770 =
      .ok () { s.advancePc.setReg .pc (s₀.regs .lr) with halted := true } := by
    have hbx : s.advancePc.execHiRegBx 0x4770 =
        if (s₀.regs .lr).getLsbD 0 then s.advancePc.setPc (s₀.regs .lr &&& ~~~1)
        else { s.advancePc.setPc (s₀.regs .lr &&& ~~~1) with halted := true } := by
      rw [← htarget]
      rfl
    rw [show s.advancePc.execute 0x4770 = .ok () (s.advancePc.execHiRegBx 0x4770) by rfl, hbx,
      if_neg (by rw [hlr]; decide), CortexM0.setPc, hlr.and_not_one, hlr.and_not_one]
  have hu : InLoop s₀ (s.advancePc.setReg .pc (s₀.regs .lr)) (s₀.regs .lr) x y :=
    h.advancePc.setPc _
  exact ⟨_, (step_eq_ok h.running).mpr ⟨_, _, hread', hexec, rfl, rfl⟩, rfl, hu.pc,
    hu.accumulator, hu.others, hu.mem, hu.blOffset⟩

/-- The loop at any even address, from any operand up to the greatest signed number and any
accumulator: the CPU halts after exactly so many steps, the accumulator is multiplied by the
factorial, and nothing changes but the operand, PC, the flags and the count of cycles. -/
theorem factorial_run (s : CortexM0) (addr : BitVec 32) (n : Nat) (c : BitVec 32)
    (heven : IsEven addr) (hcode : CodeAt s.mem addr factorialCode) (hn : 1 ≤ n)
    (hfits : n ≤ 2 ^ 31 - 1) (hs : s.halted = false) (hpc : s.pc = addr)
    (hr0 : s.regs 0 = BitVec.ofNat 32 n) (hr1 : s.regs 1 = c)
    (hlr : IsEven (s.regs .lr)) :
    ∃ t, steps (4 * max 1 (n - 1) + 1) s = some t ∧ t.halted = true ∧
      (∀ k ≤ 4 * max 1 (n - 1), ∃ u, steps k s = some u ∧ u.halted = false) ∧
      t.regs 1 = c * BitVec.ofNat 32 n.factorial ∧
      (∀ r, r ≠ 0 → r ≠ 1 → r ≠ .pc → t.regs r = s.regs r) ∧ t.mem = s.mem ∧
      t.blOffset = s.blOffset := by
  have hloop : InLoop s s addr (BitVec.ofNat 32 n) c :=
    ⟨hs, hpc, hr0, hr1, fun r _ _ _ ↦ rfl, rfl, rfl⟩
  obtain ⟨u, z, hgo, hu⟩ := hloop.loop heven hcode hn (by omega)
  obtain ⟨-, -, -, -, hbx, -⟩ := hcode
  have haddr : addr + 2 + 2 + 2 + 2 = addr + 8 := by
    rw [BitVec.add_assoc, BitVec.add_assoc, BitVec.add_assoc]
    rfl
  rw [haddr] at hbx
  obtain ⟨t, hstep, hhalted, -, hr, hothers, hmem, hbl⟩ := hu.exit hbx hlr
  refine ⟨t, hgo.steps_succ hstep, hhalted, ?_, hr, hothers, hmem, hbl⟩
  intro k hk
  exact hgo.running hs hk

/-- The CPU after a reset, with the loop at address 0 and its first two instructions run. -/
def factorialOfFive : CortexM0 :=
  ((new (FlatMemoryBus.clear.memcpy 0
    [0x41, 0x43, 0x01, 0x38, 0x01, 0x28, 0xFB, 0xDC, 0x70, 0x47])).setReg 0 5).setReg 1 1

/-- The factorial of five. -/
theorem factorial_run_five :
    ∃ t, steps 17 factorialOfFive = some t ∧ t.halted = true ∧ t.regs 1 = 120 := by
  have hcode : CodeAt factorialOfFive.mem 0 factorialCode := by
    refine ⟨?_, ?_, ?_, ?_, ?_, trivial⟩ <;> rfl
  obtain ⟨t, hsteps, hhalted, -, hr, -⟩ :=
    factorial_run factorialOfFive 0 5 1 rfl hcode (by decide) (by decide) rfl rfl rfl rfl rfl
  exact ⟨t, hsteps, hhalted, hr⟩

end CortexM0

end McuSimulator.Cpu
